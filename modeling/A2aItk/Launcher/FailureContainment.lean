import A2aItk.Launcher.StartAll
import A2aItk.Python.Exceptions

/-!
# Failures of a start are contained

`start_all` returns one outcome for every spec, in order, each with a handle or an error,
exactly where every exception on the way of a target is of a class that its stage handles.
-/

namespace A2aItk.Launcher

open Python

/-- One outcome for every spec, in order, each with exactly one of handle and error. -/
def ContainsFailures (specs : List TargetSpec)
    (result : Except Raised (List StartOutcome)) : Prop :=
  ∃ outcomes, result = .ok outcomes ∧ outcomes.map StartOutcome.spec = specs ∧
    ∀ outcome ∈ outcomes, outcome.handle.isSome ≠ outcome.error.isSome

/-- What `_start_one` catches of `spawn_from_dir`. -/
def Raised.isSpawnFailure (e : Raised) : Bool :=
  e.isRuntimeError || e.isOSError || e.isSubprocessError

section Conditions

variable (spec : TargetSpec) (outside : Outside)

/-- A checkout, where one is asked for, has worked. -/
def Resolved : Prop := spec.kind = .checkout → outside.checkout = .ok ()

/-- The stage before has passed and two ports were found. -/
def Allocated : Prop := Resolved spec outside ∧ ∃ pair, outside.allocatePair = .ok pair

/-- The stages before have passed and a process was started. -/
def Spawned : Prop :=
  Allocated spec outside ∧ outside.agentDir.present = true ∧ outside.openLog = .ok () ∧
    ∃ language pid, outside.agentDir.language = some language ∧
      outside.spawnAs language = .ok pid

/-- What opening the log or starting the agent raises. -/
def SpawnRaises (e : Raised) : Prop :=
  outside.openLog = .error e ∨ outside.openLog = .ok () ∧
    ∃ language, outside.agentDir.language = some language ∧ outside.spawnAs language = .error e

/-- In every stage that is reached, what is raised is of a class that the stage handles. -/
structure StagesHandle : Prop where
  mounted : spec.kind = .mount → outside.mountPresent = true
  built : spec.kind = .checkout → RaisesOnly (·.isLauncherError = true) outside.checkout
  allocated : Resolved spec outside → RaisesOnly (·.isRuntimeError = true) outside.allocatePair
  spawned : Allocated spec outside → outside.agentDir.present = true →
    ∀ e, SpawnRaises outside e → e.isSpawnFailure = true
  polled : Spawned spec outside →
    ∀ e, .error e ∈ outside.attempts.takeWhile (!answered ·) → e.isOSError = true
  signalled : Spawned spec outside → (∀ attempt ∈ outside.attempts, answered attempt = false) →
    outside.killing.exited = false → RaisesOnly (·.isGone = true) outside.killing.term
  killed : Spawned spec outside → (∀ attempt ∈ outside.attempts, answered attempt = false) →
    outside.killing.exited = false → outside.killing.exitsInGrace = false →
    RaisesOnly (·.isGone = true) outside.killing.kill

end Conditions

/-- The log names line up with the specs. -/
def LinesUp (settings : StartSettings) (specs : List TargetSpec) : Prop :=
  ∀ names ∈ settings.logNames, names.length = specs.length

/-- The number of workers that is asked for is positive. -/
def AsksForWorkers (settings : StartSettings) : Prop :=
  match settings.maxWorkers with
  | some workers => 0 < workers
  | none => Text.strip settings.itkMaxWorkers.toList = [] ∨
      ∃ n, Text.int (Text.strip settings.itkMaxWorkers.toList) = some n ∧ 1 ≤ n

section Stages

variable {spec : TargetSpec} {outside : Outside} {e : Raised}

/-- The mount is either there or raises what no handler expects. -/
theorem resolve_of_mount (h : spec.kind = .mount) :
    resolve spec outside = if outside.mountPresent then .ok ()
      else .error (.runtimeError
        "current agent has not been mounted and is not available to test") := by
  rw [resolve, h]

/-- A checkout raises what it raises. -/
theorem resolve_of_checkout (h : spec.kind = .checkout) :
    resolve spec outside = outside.checkout := by
  obtain ⟨target, hrepo, hsha⟩ := spec.fields_of_kind.2 h
  simp only [resolve, h, hrepo, hsha]

/-- When the first stage passes. -/
theorem resolve_eq_ok_iff :
    resolve spec outside = .ok () ↔
      (spec.kind = .mount → outside.mountPresent = true) ∧ Resolved spec outside := by
  cases hkind : spec.kind with
  | mount =>
      rw [resolve_of_mount hkind]
      cases outside.mountPresent <;> simp [Resolved, hkind]
  | checkout =>
      rw [resolve_of_checkout hkind]
      simp [Resolved, hkind]

/-- How it fails, by the kind of the target. -/
theorem resolve_eq_error (h : resolve spec outside = .error e) :
    spec.kind = .mount ∧ outside.mountPresent = false ∧ e.isLauncherError = false ∨
      spec.kind = .checkout ∧ outside.checkout = .error e := by
  cases hkind : spec.kind with
  | mount =>
      rw [resolve_of_mount hkind] at h
      split at h
      · cases h
      · rename_i hpresent
        obtain rfl := Except.error.inj h
        exact .inl ⟨rfl, Bool.not_eq_true _ ▸ hpresent, rfl⟩
  | checkout =>
      rw [resolve_of_checkout hkind] at h
      exact .inr ⟨rfl, h⟩

/-- The conditions on spawning are those on the directory and on the process. -/
theorem spawned_iff :
    Spawned spec outside ↔ Allocated spec outside ∧ ∃ pid, spawnFromDir outside = .ok pid := by
  rw [Spawned, spawnFromDir]
  refine and_congr_right fun _ => ?_
  constructor
  · rintro ⟨hpresent, hlog, language, pid, hlanguage, hpid⟩
    exact ⟨pid, by rw [hpresent, hlog, hlanguage]; exact hpid⟩
  · rintro ⟨pid, h⟩
    split at h
    · rename_i hpresent
      obtain ⟨u, hlog, h⟩ := bind_eq_ok_iff.mp h
      split at h
      · rename_i language hlanguage
        exact ⟨hpresent, hlog, language, pid, hlanguage, h⟩
      · cases h
    · cases h

/-- An exception of the spawn passes by its handler. -/
theorem spawnFromDir_of_raises (hpresent : outside.agentDir.present = true)
    (h : SpawnRaises outside e) : spawnFromDir outside = .error e := by
  rw [spawnFromDir, if_pos hpresent]
  rcases h with hlog | ⟨hlog, language, hlanguage, he⟩
  · rw [hlog]
    rfl
  · rw [hlog, hlanguage]
    exact he

/-- What `spawn_from_dir` raises of its own is a `RuntimeError`. -/
theorem spawnFromDir_eq_error (h : spawnFromDir outside = .error e) :
    e.isSpawnFailure = true ∨ outside.agentDir.present = true ∧ SpawnRaises outside e := by
  rw [spawnFromDir] at h
  split at h
  · rename_i hpresent
    cases hlog : outside.openLog with
    | error e' =>
        rw [hlog] at h
        obtain rfl := Except.error.inj h
        exact .inr ⟨hpresent, .inl hlog⟩
    | ok u =>
        rw [hlog, ok_bind] at h
        split at h
        · rename_i language hlanguage
          exact .inr ⟨hpresent, .inr ⟨hlog, language, hlanguage, h⟩⟩
        · obtain rfl := Except.error.inj h
          exact .inl rfl
  · obtain rfl := Except.error.inj h
    exact .inl rfl

/-- The poll raises what an attempt before the first answer raised, if that is no failure of the
network. -/
theorem waitReady_eq_error {attempts : List (Except Raised ℕ)} (h : waitReady attempts = .error e) :
    .error e ∈ attempts.takeWhile (!answered ·) ∧ e.isOSError = false := by
  induction attempts with
  | nil => cases h
  | cons attempt rest ih =>
      cases attempt with
      | ok status =>
          rw [waitReady] at h
          split at h
          · cases h
          · rename_i hstatus
            obtain ⟨hmem, he⟩ := ih h
            rw [List.takeWhile_cons_of_pos (by simpa [answered] using hstatus)]
            exact ⟨List.mem_cons_of_mem _ hmem, he⟩
      | error e' =>
          rw [List.takeWhile_cons_of_pos (by rfl)]
          rw [waitReady] at h
          split at h
          · obtain ⟨hmem, he⟩ := ih h
            exact ⟨List.mem_cons_of_mem _ hmem, he⟩
          · rename_i he
            obtain rfl := Except.error.inj h
            exact ⟨List.mem_cons_self, Bool.not_eq_true _ ▸ he⟩

/-- Polling ends where every exception before an answer is caught, and succeeds where there
is an answer. -/
theorem waitReady_eq_ok {attempts : List (Except Raised ℕ)} {ready : Bool}
    (h : waitReady attempts = .ok ready) :
    (∀ e, .error e ∈ attempts.takeWhile (!answered ·) → e.isOSError = true) ∧
      (ready = true ↔ ∃ attempt ∈ attempts, answered attempt = true) := by
  induction attempts with
  | nil =>
      obtain rfl := Except.ok.inj h
      simp
  | cons attempt rest ih =>
      cases attempt with
      | ok status =>
          rw [waitReady] at h
          split at h
          · rename_i hstatus
            obtain rfl := Except.ok.inj h
            simp [answered, hstatus]
          · rename_i hstatus
            obtain ⟨hcaught, hready⟩ := ih h
            rw [List.takeWhile_cons_of_pos (by simpa [answered] using hstatus)]
            simpa [answered, hstatus] using ⟨hcaught, hready⟩
      | error e =>
          rw [waitReady] at h
          split at h
          · rename_i he
            obtain ⟨hcaught, hready⟩ := ih h
            rw [List.takeWhile_cons_of_pos (by rfl)]
            simpa [answered, he] using ⟨hcaught, hready⟩
          · cases h

/-- A group that is gone is no error. -/
theorem tryKillpg_eq_ok_iff {signal : Except Raised Unit} :
    tryKillpg signal = .ok () ↔ RaisesOnly (·.isGone = true) signal := by
  cases signal with
  | ok u => exact ⟨fun _ => .ok _ u, fun _ => rfl⟩
  | error e => simp [tryKillpg, RaisesOnly]

/-- A kill returns if both of its signals do, the second where the grace period was not enough. -/
theorem killPgroup_eq_ok_iff {killing : Killing} :
    killPgroup killing = .ok () ↔ killing.exited = false →
      RaisesOnly (·.isGone = true) killing.term ∧
        (killing.exitsInGrace = false → RaisesOnly (·.isGone = true) killing.kill) := by
  rw [killPgroup]
  cases killing.exited with
  | true => simp
  | false =>
      constructor
      · intro h _
        obtain ⟨⟨⟩, hterm, hkill⟩ := bind_eq_ok_iff.mp h
        refine ⟨tryKillpg_eq_ok_iff.mp hterm, fun hgrace => ?_⟩
        rw [hgrace] at hkill
        exact tryKillpg_eq_ok_iff.mp hkill
      · intro h
        obtain ⟨hterm, hkill⟩ := h rfl
        refine bind_eq_ok_iff.mpr ⟨(), tryKillpg_eq_ok_iff.mpr hterm, ?_⟩
        split
        · rfl
        · rename_i hgrace
          exact tryKillpg_eq_ok_iff.mpr (hkill (Bool.not_eq_true _ ▸ hgrace))

/-- Where the agent does not start, the later stages ask for nothing. -/
theorem handled_of_not_spawned (h : ¬ Spawned spec outside)
    (hmounted : spec.kind = .mount → outside.mountPresent = true)
    (hbuilt : spec.kind = .checkout → RaisesOnly (·.isLauncherError = true) outside.checkout)
    (hallocated : Resolved spec outside →
      RaisesOnly (·.isRuntimeError = true) outside.allocatePair)
    (hspawned : Allocated spec outside → outside.agentDir.present = true →
      ∀ e, SpawnRaises outside e → e.isSpawnFailure = true) : StagesHandle spec outside where
  mounted := hmounted
  built := hbuilt
  allocated := hallocated
  spawned := hspawned
  polled hs := absurd hs h
  signalled hs := absurd hs h
  killed hs := absurd hs h

/-- Where a target is not resolved, the outcome depends on the exception alone. -/
theorem startOne_of_unresolved {readinessTimeout : ℕ} (h : resolve spec outside = .error e) :
    (∃ outcome, startOne spec outside readinessTimeout = .ok outcome) ↔
      StagesHandle spec outside := by
  have hreturns : (∃ outcome, startOne spec outside readinessTimeout = .ok outcome) ↔
      e.isLauncherError = true := by
    cases e <;> simp [startOne, h, Raised.isLauncherError]
  rw [hreturns]
  rcases resolve_eq_error h with ⟨hkind, hpresent, he⟩ | ⟨hkind, hcheckout⟩
  · constructor
    · intro hlauncher
      rw [he] at hlauncher
      cases hlauncher
    · intro hhandled
      rw [hhandled.mounted hkind] at hpresent
      cases hpresent
  · have hnot : ¬ Resolved spec outside := by
      intro hresolved
      rw [hresolved hkind] at hcheckout
      cases hcheckout
    constructor
    · intro he
      refine handled_of_not_spawned (fun hs => hnot hs.1.1) ?_ ?_ (fun hr => absurd hr hnot)
        fun ha => absurd ha.1 hnot
      · intro hmount
        rw [hkind] at hmount
        cases hmount
      · intro _
        rw [hcheckout]
        exact .error he
    · exact fun hhandled => hhandled.built hkind e hcheckout

/-- Where no ports are found, the outcome depends on the exception alone. -/
theorem startOne_of_unallocated {readinessTimeout : ℕ} (hresolve : resolve spec outside = .ok ())
    (h : outside.allocatePair = .error e) :
    (∃ outcome, startOne spec outside readinessTimeout = .ok outcome) ↔
      StagesHandle spec outside := by
  have hreturns : (∃ outcome, startOne spec outside readinessTimeout = .ok outcome) ↔
      e.isRuntimeError = true := by
    cases e <;> simp [startOne, hresolve, h, Raised.isRuntimeError]
  obtain ⟨hmounted, hresolved⟩ := resolve_eq_ok_iff.mp hresolve
  have hnot : ¬ Allocated spec outside := by
    rintro ⟨-, pair, hpair⟩
    rw [h] at hpair
    cases hpair
  rw [hreturns]
  constructor
  · intro he
    refine handled_of_not_spawned (fun hs => hnot hs.1) hmounted (fun hkind => ?_) (fun _ => ?_)
      fun ha => absurd ha hnot
    · rw [hresolved hkind]
      exact .ok _ ()
    · rw [h]
      exact .error he
  · exact fun hhandled => hhandled.allocated hresolved e h

/-- Where nothing is spawned, the outcome depends on the exception alone. -/
theorem startOne_of_unspawned {readinessTimeout : ℕ} {pair : ℕ × ℕ}
    (hresolve : resolve spec outside = .ok ()) (hpair : outside.allocatePair = .ok pair)
    (h : spawnFromDir outside = .error e) :
    (∃ outcome, startOne spec outside readinessTimeout = .ok outcome) ↔
      StagesHandle spec outside := by
  have hreturns : (∃ outcome, startOne spec outside readinessTimeout = .ok outcome) ↔
      e.isSpawnFailure = true := by
    cases e <;> simp [startOne, hresolve, hpair, h, Raised.isSpawnFailure, Raised.isRuntimeError,
      Raised.isOSError, Raised.isSubprocessError]
  obtain ⟨hmounted, hresolved⟩ := resolve_eq_ok_iff.mp hresolve
  have hnot : ¬ Spawned spec outside := by
    intro hspawned
    obtain ⟨-, pid, hpid⟩ := spawned_iff.mp hspawned
    rw [h] at hpid
    cases hpid
  rw [hreturns]
  constructor
  · intro he
    refine handled_of_not_spawned hnot hmounted (fun hkind => ?_) (fun _ => ?_) ?_
    · rw [hresolved hkind]
      exact .ok _ ()
    · rw [hpair]
      exact .ok _ pair
    · intro _ hpresent e' hraises
      obtain rfl := Except.error.inj (h.symm.trans (spawnFromDir_of_raises hpresent hraises))
      exact he
  · intro hhandled
    rcases spawnFromDir_eq_error h with he | ⟨hpresent, hraises⟩
    · exact he
    · exact hhandled.spawned ⟨hresolved, pair, hpair⟩ hpresent e hraises

/-- Where the agent starts, only polling it and killing it are left to handle. -/
theorem stagesHandle_iff_of_spawned {pair : ℕ × ℕ} {pid : ℕ}
    (hresolve : resolve spec outside = .ok ()) (hpair : outside.allocatePair = .ok pair)
    (h : spawnFromDir outside = .ok pid) :
    StagesHandle spec outside ↔
      (∀ e, .error e ∈ outside.attempts.takeWhile (!answered ·) → e.isOSError = true) ∧
        ((∀ attempt ∈ outside.attempts, answered attempt = false) →
          killPgroup outside.killing = .ok ()) := by
  obtain ⟨hmounted, hresolved⟩ := resolve_eq_ok_iff.mp hresolve
  have hspawned : Spawned spec outside := spawned_iff.mpr ⟨⟨hresolved, pair, hpair⟩, pid, h⟩
  rw [killPgroup_eq_ok_iff]
  constructor
  · intro hhandled
    exact ⟨hhandled.polled hspawned, fun hnone hexited =>
      ⟨hhandled.signalled hspawned hnone hexited, hhandled.killed hspawned hnone hexited⟩⟩
  · rintro ⟨hpolled, hkilled⟩
    refine ⟨hmounted, fun hkind => ?_, fun _ => ?_, fun _ hpresent e hraises => ?_,
      fun _ => hpolled, fun _ hnone hexited => (hkilled hnone hexited).1,
      fun _ hnone hexited => (hkilled hnone hexited).2⟩
    · rw [hresolved hkind]
      exact .ok _ ()
    · rw [hpair]
      exact .ok _ pair
    · rw [spawnFromDir_of_raises hpresent hraises] at h
      cases h

/-- A process that runs is waited for, and killed where it does not answer. -/
theorem startOne_of_spawned {readinessTimeout : ℕ} {pair : ℕ × ℕ} {pid : ℕ}
    (hresolve : resolve spec outside = .ok ()) (hpair : outside.allocatePair = .ok pair)
    (h : spawnFromDir outside = .ok pid) :
    (∃ outcome, startOne spec outside readinessTimeout = .ok outcome) ↔
      StagesHandle spec outside := by
  rw [stagesHandle_iff_of_spawned hresolve hpair h]
  cases hwait : waitReady outside.attempts with
  | error e =>
      obtain ⟨hmem, he⟩ := waitReady_eq_error hwait
      constructor
      · rintro ⟨outcome, houtcome⟩
        simp [startOne, hresolve, hpair, h, hwait] at houtcome
      · intro hhandled
        rw [hhandled.1 e hmem] at he
        cases he
  | ok ready =>
      obtain ⟨hcaught, hready⟩ := waitReady_eq_ok hwait
      cases ready with
      | true =>
          obtain ⟨attempt, hmem, hanswered⟩ := hready.mp rfl
          constructor
          · intro _
            refine ⟨hcaught, fun hnone => ?_⟩
            rw [hnone attempt hmem] at hanswered
            cases hanswered
          · intro _
            exact ⟨_, by simp only [startOne, hresolve, hpair, h, hwait]; rfl⟩
      | false =>
          have hnone : ∀ attempt ∈ outside.attempts, answered attempt = false := by
            intro attempt hmem
            by_contra hanswered
            exact Bool.false_ne_true (hready.mpr ⟨attempt, hmem, by simpa using hanswered⟩)
          have hreturns : (∃ outcome, startOne spec outside readinessTimeout = .ok outcome) ↔
              killPgroup outside.killing = .ok () := by
            cases hkill : killPgroup outside.killing with
            | error e => simp [startOne, hresolve, hpair, h, hwait, hkill]
            | ok u => simp [startOne, hresolve, hpair, h, hwait, hkill]
          rw [hreturns]
          exact ⟨fun hkill => ⟨hcaught, fun _ => hkill⟩, fun hhandled => hhandled.2 hnone⟩

/-- A target has an outcome exactly where each stage handles what it meets. -/
theorem startOne_returns_iff {readinessTimeout : ℕ} :
    (∃ outcome, startOne spec outside readinessTimeout = .ok outcome) ↔
      StagesHandle spec outside := by
  cases hresolve : resolve spec outside with
  | error e => exact startOne_of_unresolved hresolve
  | ok u =>
      cases hpair : outside.allocatePair with
      | error e => exact startOne_of_unallocated hresolve hpair
      | ok pair =>
          cases hspawn : spawnFromDir outside with
          | error e => exact startOne_of_unspawned hresolve hpair hspawn
          | ok pid => exact startOne_of_spawned hresolve hpair hspawn

/-- An outcome is about its spec and has exactly one of handle and error. -/
theorem shape_of_startOne {readinessTimeout : ℕ} {outcome : StartOutcome}
    (h : startOne spec outside readinessTimeout = .ok outcome) :
    outcome.spec = spec ∧ outcome.handle.isSome ≠ outcome.error.isSome := by
  unfold startOne at h
  repeat' split at h
  all_goals cases h
  all_goals exact ⟨rfl, by simp [StartOutcome.failed]⟩

end Stages

section Pool

variable {outcomes : List StartOutcome} {slots : List (Option StartOutcome)} {i j : ℕ}

/-- Filling a slot keeps their number. -/
@[simp] theorem length_fillSlot {results : List (Except Raised StartOutcome)} :
    (fillSlot results slots i).length = slots.length := by
  unfold fillSlot
  split
  · exact List.length_set
  · rfl

/-- Only the slot of the worker is filled. -/
theorem getElem?_fillSlot (hlength : slots.length = outcomes.length) :
    (fillSlot (outcomes.map .ok) slots i)[j]? =
      if i = j then (outcomes.map some)[j]? else slots[j]? := by
  unfold fillSlot
  rw [List.getElem?_map]
  cases hi : outcomes[i]? with
  | none =>
      have hnone : slots[i]? = none := by
        rw [List.getElem?_eq_none_iff] at hi ⊢
        omega
      by_cases hij : i = j
      · subst hij
        simp [hi, hnone]
      · simp [hij]
  | some outcome =>
      have hlt : i < slots.length := by
        obtain ⟨hlt, -⟩ := List.getElem?_eq_some_iff.mp hi
        omega
      by_cases hij : i = j
      · subst hij
        simp [hi, hlt]
      · simp [hij]

/-- Whatever the order the workers come in, every slot is filled with its outcome. -/
theorem foldl_fillSlot {order : List ℕ} (hlength : slots.length = outcomes.length)
    (hslots : ∀ j, j ∈ order ∨ slots[j]? = (outcomes.map some)[j]?) :
    order.foldl (fillSlot (outcomes.map .ok)) slots = outcomes.map some := by
  induction order generalizing slots with
  | nil =>
      apply List.ext_getElem?
      intro j
      exact (hslots j).resolve_left (List.not_mem_nil)
  | cons i rest ih =>
      rw [List.foldl_cons]
      apply ih (length_fillSlot.trans hlength)
      intro j
      rw [getElem?_fillSlot hlength]
      by_cases hij : i = j
      · exact .inr (if_pos hij)
      · rw [if_neg hij]
        exact (hslots j).imp_left fun hmem => (List.mem_cons.mp hmem).resolve_left (Ne.symm hij)

/-- In whatever order the workers are done, each slot has the outcome of its own. -/
theorem foldl_fillSlot_schedule {n : ℕ} (hlength : n = outcomes.length)
    (schedule : Schedule n) :
    schedule.order.foldl (fillSlot (outcomes.map .ok)) (List.replicate n none) =
      outcomes.map some := by
  subst hlength
  apply foldl_fillSlot List.length_replicate
  intro j
  rw [schedule.complete.mem_iff, List.mem_range]
  by_cases hj : j < outcomes.length
  · exact .inl hj
  · right
    rw [List.getElem?_eq_none_iff.mpr (by simpa using hj),
      List.getElem?_eq_none_iff.mpr (by simpa using hj)]

/-- A slot that is filled is taken as it is. -/
theorem zipWith_filled {specs : List TargetSpec} (hlength : specs.length = outcomes.length) :
    specs.zipWith (fun spec slot => slot.getD (unfinished spec)) (outcomes.map some) =
      outcomes := by
  apply List.ext_getElem (by simp [hlength])
  intro k hk hk'
  simp

/-- A pool has at least one worker. -/
theorem poolSize_returns_iff {settings : StartSettings} {n : ℕ} :
    (∃ workers, poolSize settings n = .ok workers) ↔ AsksForWorkers settings := by
  rw [poolSize, AsksForWorkers]
  cases settings.maxWorkers with
  | some workers =>
      by_cases hworkers : workers ≤ 0
      · simp [hworkers]
      · simp [hworkers, Int.not_le.mp hworkers]
  | none =>
      simp only [configMaxWorkers, List.isEmpty_iff]
      by_cases hval : Text.strip settings.itkMaxWorkers.toList = []
      · simp [hval]
      · rw [if_neg hval]
        cases Text.int (Text.strip settings.itkMaxWorkers.toList) with
        | none => simp [hval]
        | some k =>
            by_cases hk : k < 1
            · simp [hval, hk]
            · have hpos : ¬ k ≤ 0 := by omega
              simp [hval, hk, hpos, Int.not_lt.mp hk]

/-- Log names are given for all targets or for none. -/
theorem linesUp_iff {settings : StartSettings} {specs : List TargetSpec} :
    LinesUp settings specs ↔
      (settings.logNames.any fun names => names.length ≠ specs.length) = false := by
  rw [LinesUp]
  cases settings.logNames <;> simp

end Pool

/-- What `start_all` makes of the workers' results: their outcomes in order, where all of
them return. -/
theorem startAll_of_returned {settings : StartSettings} {specs : List TargetSpec}
    {schedule : Schedule specs.length} {outside : ℕ → Outside} {outcomes : List StartOutcome}
    (hspecs : specs ≠ []) (hlines : LinesUp settings specs) (hpool : AsksForWorkers settings)
    (hresults : specs.mapIdx (fun i spec =>
      startOne spec (outside i) settings.readinessTimeout) = outcomes.map .ok) :
    startAll settings specs schedule outside = .ok outcomes := by
  have hlength : specs.length = outcomes.length := by
    simpa using congrArg List.length hresults
  obtain ⟨workers, hworkers⟩ := poolSize_returns_iff.mpr hpool
  have hraised : (outcomes.map Except.ok).forM
      (fun result : Except Raised StartOutcome => result.map fun _ => ()) = .ok () := by
    apply forM_eq_ok_iff.mpr
    intro result hmem
    obtain ⟨outcome, -, rfl⟩ := List.mem_map.mp hmem
    rfl
  have hslots := foldl_fillSlot_schedule hlength schedule
  rw [startAll, if_neg (by simpa using hspecs),
    if_neg (Bool.eq_false_iff.mp (linesUp_iff.mp hlines)), hworkers, ok_bind, hresults]
  simp only [hraised, hslots, ok_bind, zipWith_filled hlength]

/-- Where a call returns, so has every worker. -/
theorem returned_of_startAll {settings : StartSettings} {specs : List TargetSpec}
    {schedule : Schedule specs.length} {outside : ℕ → Outside} {outcomes : List StartOutcome}
    (hspecs : specs ≠ []) (h : startAll settings specs schedule outside = .ok outcomes) :
    LinesUp settings specs ∧ AsksForWorkers settings ∧
      ∀ i spec, specs[i]? = some spec →
        ∃ outcome, startOne spec (outside i) settings.readinessTimeout = .ok outcome := by
  rw [startAll, if_neg (by simpa using hspecs)] at h
  split at h
  · cases h
  · rename_i hlines
    obtain ⟨workers, hworkers, h⟩ := bind_eq_ok_iff.mp h
    obtain ⟨⟨⟩, hraised, -⟩ := bind_eq_ok_iff.mp h
    refine ⟨linesUp_iff.mpr (by simpa using hlines), poolSize_returns_iff.mp ⟨workers, hworkers⟩,
      fun i spec hspec => ?_⟩
    have hmem : startOne spec (outside i) settings.readinessTimeout ∈
        specs.mapIdx fun i spec => startOne spec (outside i) settings.readinessTimeout := by
      apply List.mem_of_getElem? (i := i)
      rw [List.getElem?_mapIdx, hspec]
      rfl
    obtain ⟨outcome, houtcome, -⟩ := map_eq_ok_iff.mp (forM_eq_ok_iff.mp hraised _ hmem)
    exact ⟨outcome, houtcome⟩

/-- The outcomes are those of the specs, each with exactly one of handle and error. -/
theorem shape_of_results {specs : List TargetSpec} {outside : ℕ → Outside}
    {readinessTimeout : ℕ} {outcomes : List StartOutcome}
    (h : specs.mapIdx (fun i spec => startOne spec (outside i) readinessTimeout) =
      outcomes.map .ok) :
    outcomes.map StartOutcome.spec = specs ∧
      ∀ outcome ∈ outcomes, outcome.handle.isSome ≠ outcome.error.isSome := by
  have hat : ∀ i (hi : i < outcomes.length), ∃ spec, specs[i]? = some spec ∧
      startOne spec (outside i) readinessTimeout = .ok outcomes[i] := by
    intro i hi
    have hget := congrArg (·[i]?) h
    simp only [List.getElem?_mapIdx, List.getElem?_map, List.getElem?_eq_getElem hi,
      Option.map_some, Option.map_eq_some_iff] at hget
    exact hget
  constructor
  · apply List.ext_getElem?
    intro i
    by_cases hi : i < outcomes.length
    · obtain ⟨spec, hspec, houtcome⟩ := hat i hi
      rw [List.getElem?_map, List.getElem?_eq_getElem hi, hspec, Option.map_some,
        (shape_of_startOne houtcome).1]
    · have hlength : specs.length = outcomes.length := by
        simpa using congrArg List.length h
      rw [List.getElem?_eq_none_iff.mpr (by simpa using hi),
        List.getElem?_eq_none_iff.mpr (by omega)]
  · intro outcome hmem
    obtain ⟨i, hi, rfl⟩ := List.getElem_of_mem hmem
    obtain ⟨spec, -, houtcome⟩ := hat i hi
    exact (shape_of_startOne houtcome).2

/-- Failures are contained exactly where every stage of every target handles what it
meets. -/
theorem failures_contained_iff (settings : StartSettings) (specs : List TargetSpec)
    (schedule : Schedule specs.length) (outside : ℕ → Outside) :
    ContainsFailures specs (startAll settings specs schedule outside) ↔
      specs = [] ∨ LinesUp settings specs ∧ AsksForWorkers settings ∧
        ∀ i spec, specs[i]? = some spec → StagesHandle spec (outside i) := by
  by_cases hspecs : specs = []
  · subst hspecs
    exact iff_of_true ⟨[], rfl, rfl, by simp⟩ (.inl rfl)
  · rw [or_iff_right hspecs]
    constructor
    · rintro ⟨outcomes, houtcomes, -, -⟩
      obtain ⟨hlines, hpool, hreturned⟩ := returned_of_startAll hspecs houtcomes
      exact ⟨hlines, hpool, fun i spec hspec =>
        startOne_returns_iff.mp (hreturned i spec hspec)⟩
    · rintro ⟨hlines, hpool, hhandled⟩
      have hreturned : ∀ result ∈ specs.mapIdx (fun i spec =>
          startOne spec (outside i) settings.readinessTimeout),
          ∃ outcome, result = .ok outcome := by
        intro result hmem
        obtain ⟨i, hi, rfl⟩ := List.mem_mapIdx.mp hmem
        exact startOne_returns_iff.mpr (hhandled i _ (List.getElem?_eq_getElem hi))
      obtain ⟨outcomes, houtcomes⟩ := exists_forall₂ hreturned
      have hresults := List.forall₂_eq_eq_eq ▸ List.forall₂_map_right_iff.mpr houtcomes
      exact ⟨outcomes, startAll_of_returned hspecs hlines hpool hresults,
        shape_of_results hresults⟩

section Escapes

/-- Settings as they are when nothing is given. -/
def plainSettings : StartSettings := ⟨35, none, none, ""⟩

/-- The agent under test. -/
def mountSpec : TargetSpec := ⟨⟨.mount, none, none⟩, rfl⟩

/-- One target has one order. -/
def onlyWorker : Schedule [mountSpec].length := ⟨[0], .refl _⟩

/-- Everything would go well, but the mount is missing. -/
def unmounted : Outside where
  checkout := .ok ()
  mountPresent := false
  allocatePair := .ok (50000, 50001)
  agentDir := ⟨"itk", true, true, false, false, false, false, false⟩
  openLog := .ok ()
  spawnAs _ := .ok 1
  attempts := [.ok 200]
  killing := ⟨true, .ok (), true, .ok (), none⟩

theorem missing_mount_escapes :
    ¬ ∀ (settings : StartSettings) (specs : List TargetSpec) (schedule : Schedule specs.length)
      (outside : ℕ → Outside),
      ContainsFailures specs (startAll settings specs schedule outside) := by
  intro h
  obtain ⟨outcomes, houtcomes, -⟩ := h plainSettings [mountSpec] onlyWorker fun _ => unmounted
  cases houtcomes

end Escapes

end A2aItk.Launcher
