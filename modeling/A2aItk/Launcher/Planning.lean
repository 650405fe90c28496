import A2aItk.Execution.Runner
import A2aItk.Launcher.Refs
import A2aItk.Python.Effects

/-!
# Planning a run

`build_specs` and `_plan` of `itk_runner.py`: what every agent of a batch is started from. A ref
is resolved once, at plan time, so that a branch that moves meanwhile cannot mix commits.

## Implementation notes

The remotes are a state that may change at any lookup. A lookup is one call of `resolve_ref`,
with all its commands.
-/

namespace A2aItk.Launcher

open Python Scenarios
open Execution (planIds)

section Specs

theorem SpecFields.postInit_mount : SpecFields.postInit ⟨.mount, none, none⟩ = .ok () := rfl

/-- `TargetSpec(kind=Kind.MOUNT)`. -/
def TargetSpec.mount : TargetSpec := ⟨⟨.mount, none, none⟩, SpecFields.postInit_mount⟩

/-- `TargetSpec(kind=Kind.CHECKOUT, repo=…, sha=…)`. -/
def TargetSpec.checkout (repo sha : String) : Except PyError TargetSpec :=
  match h : SpecFields.postInit ⟨.checkout, some repo, some sha⟩ with
  | .ok () => .ok ⟨⟨.checkout, some repo, some sha⟩, h⟩
  | .error e => .error e

/-- What stops the planning. -/
inductive PlanFailure
  | matrixError (e : PyError)
  | launcher (e : LauncherError)
  | badSpec (e : PyError)

/-- The remotes, and how `git` answers a lookup. -/
structure Remotes (σ : Type) where
  lower : String → String
  timeoutText : String
  retries : ℕ
  commands : String → String → σ → (ℕ → Query → GitResult) × σ

/-- The remotes as they are, and the lookups so far. -/
structure PlanState (σ : Type) where
  outside : σ
  lookups : List (String × String)

/-- The commits of the refs that are looked up. -/
abbrev ShaCache := Dict (String × String) String

/-- What a batch is started from. -/
structure Plan where
  ids : List String
  specs : List TargetSpec

variable {σ : Type} (matrix : Matrix) (remotes : Remotes σ)

/-- A call of `resolve_ref`. -/
def lookUp (repo ref : String) : EStateM PlanFailure (PlanState σ) String := fun s =>
  let (git, outside) := remotes.commands repo ref s.outside
  let s := { outside, lookups := s.lookups ++ [(repo, ref)] }
  match resolveRef remotes.lower remotes.timeoutText git repo ref remotes.retries with
  | .ok sha => .ok sha s
  | .error e => .error (.launcher e) s

/-- The commit of an entry, looked up where it is not known. -/
def commitOf (entry : MatrixEntry) (shaCache : ShaCache) :
    EStateM PlanFailure (PlanState σ) (String × ShaCache) :=
  let key := (entry.repo, entry.ref)
  match shaCache.get? key with
  | some sha => pure (sha, shaCache)
  | none => do
      let sha ← lookUp remotes entry.repo entry.ref
      pure (sha, shaCache.set key sha)

/-- One round of the loop over the agents. -/
def specOf (sdkId : String) (shaCache : ShaCache) :
    EStateM PlanFailure (PlanState σ) (TargetSpec × ShaCache) :=
  if sdkId = sutId then pure (.mount, shaCache)
  else do
    let entry ← Effects.lift (Except.mapError .matrixError (matrix.resolve sdkId))
    let (sha, shaCache) ← commitOf remotes entry shaCache
    let spec ← Effects.lift (Except.mapError .badSpec (TargetSpec.checkout entry.repo sha))
    pure (spec, shaCache)

/-- `build_specs`, from where its loop stands. -/
def buildSpecs : List String → ShaCache → Dict String TargetSpec →
    EStateM PlanFailure (PlanState σ) (Dict String TargetSpec × ShaCache)
  | [], shaCache, specs => pure (specs, shaCache)
  | sdkId :: rest, shaCache, specs => do
      let (spec, shaCache) ← specOf matrix remotes sdkId shaCache
      buildSpecs rest shaCache (specs.set sdkId spec)

/-- `_plan`. -/
def plan (scenarios : List ResolvedScenario) : EStateM PlanFailure (PlanState σ) Plan := do
  let (specsById, _) ← buildSpecs matrix remotes (planIds scenarios) Dict.empty Dict.empty
  pure ⟨specsById.keys, specsById.values⟩

end Specs

section Lookups

theorem isSha_of_readLine {raw : List Char} {line : String × String}
    (h : readLine raw = some line) : isSha line.1.toList = true := by
  unfold readLine at h
  split at h
  · split at h
    · rename_i hsha
      obtain rfl := Option.some.inj h
      rwa [String.toList_ofList]
    · cases h
  · cases h

/-- Only commits are picked. -/
def Picks.Commits (picks : Picks) : Prop :=
  ∀ sha, picks.head = some sha ∨ picks.tag = some sha ∨ picks.other = some sha →
    isSha sha.toList = true

theorem Picks.Commits.note {picks : Picks} {line : String × String} (h : picks.Commits)
    (hline : isSha line.1.toList = true) : (picks.note line).Commits := by
  unfold Picks.note
  intro sha
  split
  · rintro (hhead | hothers)
    · exact Option.some.inj hhead ▸ hline
    · exact h sha (.inr hothers)
  · split
    · rintro (hhead | htag | hother)
      · exact h sha (.inl hhead)
      · exact Option.some.inj htag ▸ hline
      · exact h sha (.inr (.inr hother))
    · split
      · rintro (hhead | htag | hother)
        · exact h sha (.inl hhead)
        · exact h sha (.inr (.inl htag))
        · exact Option.some.inj hother ▸ hline
      · exact h sha

theorem isSha_of_pickSha {stdout sha : String} (h : pickSha stdout = some sha) :
    isSha sha.toList = true := by
  have hcommits : (((Text.splitlines stdout.toList).filterMap readLine).foldl Picks.note
      {}).Commits := by
    apply List.foldlRecOn
    · rintro sha (h | h | h) <;> cases h
    · intro picks hpicks line hline
      obtain ⟨raw, -, hraw⟩ := List.mem_filterMap.mp hline
      exact hpicks.note (isSha_of_readLine hraw)
  apply hcommits sha
  unfold pickSha Picks.best at h
  cases hhead : Picks.head _ with
  | some head => exact .inl (by rw [hhead] at h; exact h)
  | none =>
      rw [hhead] at h
      cases htag : Picks.tag _ with
      | some tag => exact .inr (.inl (by rw [htag] at h; exact h))
      | none => exact .inr (.inr (by rw [htag] at h; exact h))

/-- A launcher error is about a ref of a repository. -/
def LauncherError.About (e : LauncherError) (repo ref : String) : Prop :=
  (∃ cause, e = .infraFailure (some repo) (some ref) .fetch cause none) ∨
    ∃ message, e = .permanentError (some repo) (some ref) .fetch message

/-- What a lookup comes to: a commit, or an error about its ref. -/
def Answers (repo ref : String) : Except LauncherError String → Prop
  | .ok sha => isSha sha.toList = true
  | .error e => e.About repo ref

theorem answers_resolveFrom (lower : String → String) (timeoutText : String)
    (git : ℕ → Query → GitResult) (repo ref : String) (remaining attempt : ℕ)
    (cause : Option String) :
    Answers repo ref (resolveFrom lower timeoutText git repo ref remaining attempt cause) := by
  induction remaining generalizing attempt cause with
  | zero => exact .inl ⟨_, rfl⟩
  | succ remaining ih =>
      unfold resolveFrom
      split
      · exact ih _ _
      · split
        · split
          · rename_i chosen hchosen
            exact isSha_of_pickSha hchosen
          · split
            · exact ih _ _
            · split
              · rename_i chosen hchosen
                split at hchosen
                · exact isSha_of_pickSha hchosen
                · cases hchosen
              · exact .inr ⟨_, rfl⟩
        · split
          · exact .inr ⟨_, rfl⟩
          · exact ih _ _

theorem isSha_of_resolveRef {lower : String → String} {timeoutText repo ref sha : String}
    {git : ℕ → Query → GitResult} {retries : ℕ}
    (h : resolveRef lower timeoutText git repo ref retries = .ok sha) :
    isSha sha.toList = true := by
  have hanswers : Answers repo ref (resolveRef lower timeoutText git repo ref retries) :=
    answers_resolveFrom ..
  rw [h] at hanswers
  exact hanswers

theorem about_of_resolveRef {lower : String → String} {timeoutText repo ref : String}
    {git : ℕ → Query → GitResult} {retries : ℕ} {e : LauncherError}
    (h : resolveRef lower timeoutText git repo ref retries = .error e) : e.About repo ref := by
  have hanswers : Answers repo ref (resolveRef lower timeoutText git repo ref retries) :=
    answers_resolveFrom ..
  rw [h] at hanswers
  exact hanswers

theorem matchesSha_of_isSha {sha : List Char} (h : isSha sha = true) : matchesSha sha = true := by
  rw [isSha, Bool.and_eq_true, decide_eq_true_eq, List.all_eq_true] at h
  have htake : sha.takeWhile isShaChar = sha := List.takeWhile_eq_self_iff.mpr h.2
  have hdrop : sha.dropWhile isShaChar = [] := List.dropWhile_eq_nil_iff.mpr h.2
  rw [matchesSha, htake, hdrop, h.1]
  rfl

theorem checkout_eq_ok {repo sha : String} {spec : TargetSpec}
    (h : TargetSpec.checkout repo sha = .ok spec) :
    spec.toSpecFields = ⟨.checkout, some repo, some sha⟩ := by
  unfold TargetSpec.checkout at h
  split at h
  · cases h
    rfl
  · cases h

/-- A resolved commit makes a spec, unless the repository is badly named. -/
theorem checkout_eq_error {repo sha : String} {e : PyError} (hsha : isSha sha.toList = true)
    (h : TargetSpec.checkout repo sha = .error e) : matchesRepo repo.toList = false := by
  unfold TargetSpec.checkout at h
  split at h
  · cases h
  · rename_i e' hinit
    by_contra hrepo
    rw [Bool.not_eq_false] at hrepo
    have hok := SpecFields.postInit_checkout.mpr
      ⟨repo, sha, rfl, rfl, hrepo, matchesSha_of_isSha hsha⟩
    rw [hok] at hinit
    cases hinit

end Lookups

section Pins

variable {σ : Type} {matrix : Matrix} {remotes : Remotes σ}

/-- The ref of an agent that is fetched. -/
def RefOf (matrix : Matrix) (sdkId : String) (key : String × String) : Prop :=
  sdkId ≠ sutId ∧ ∃ entry, matrix.resolve sdkId = .ok entry ∧ key = (entry.repo, entry.ref)

/-- The spec of an agent: the mount for the code under test, and otherwise the one commit of its
ref. -/
def PinnedTo (matrix : Matrix) (commits : ShaCache) (sdkId : String) (spec : TargetSpec) : Prop :=
  (sdkId = sutId ∧ spec.toSpecFields = ⟨.mount, none, none⟩) ∨
    ∃ key sha, RefOf matrix sdkId key ∧ commits.get? key = some sha ∧
      spec.toSpecFields = ⟨.checkout, some key.1, some sha⟩

/-- How `git` answers a lookup, as the remotes are. -/
def Remotes.answer (remotes : Remotes σ) (key : String × String) (outside : σ) :
    Except LauncherError String :=
  resolveRef remotes.lower remotes.timeoutText (remotes.commands key.1 key.2 outside).1 key.1
    key.2 remotes.retries

/-- The lookups that found a commit, in order: each is what `resolve_ref` made of the commands on
the remotes as the lookups before it had left them. -/
inductive LookedUp (remotes : Remotes σ) :
    σ → List ((String × String) × String) → σ → Prop
  | none (outside : σ) : LookedUp remotes outside [] outside
  | found {start outside : σ} {learned : List ((String × String) × String)}
      {key : String × String} {sha : String} (hbefore : LookedUp remotes start learned outside)
      (hanswer : remotes.answer key outside = .ok sha) :
      LookedUp remotes start (learned ++ [(key, sha)]) (remotes.commands key.1 key.2 outside).2

/-- Only commits are found. -/
theorem LookedUp.isSha {start outside : σ} {learned : List ((String × String) × String)}
    (h : LookedUp remotes start learned outside) :
    ∀ entry ∈ learned, isSha entry.2.toList = true := by
  induction h with
  | none => simp
  | found _ hanswer ih =>
      intro entry hentry
      obtain hold | hnew := List.mem_append.mp hentry
      · exact ih entry hold
      · obtain rfl := List.mem_singleton.mp hnew
        exact isSha_of_resolveRef hanswer

/-- What is known of the refs of these agents: the answers to the lookups so far. -/
structure Known (matrix : Matrix) (remotes : Remotes σ) (done : List String)
    (start now : PlanState σ) (commits : ShaCache) : Prop where
  needed : ∀ key ∈ commits.keys, ∃ sdkId ∈ done, RefOf matrix sdkId key
  lookups : now.lookups = start.lookups ++ commits.keys
  answered : LookedUp remotes start.outside commits.entries now.outside

/-- A pin stays when more refs are learned. -/
theorem PinnedTo.learn {commits : ShaCache} {sdkId sha : String} {key : String × String}
    {spec : TargetSpec} (h : PinnedTo matrix commits sdkId spec) (hnew : commits.get? key = none) :
    PinnedTo matrix (commits.set key sha) sdkId spec := by
  obtain hsut | ⟨key', sha', href, hget, hspec⟩ := h
  · exact .inl hsut
  · have hne : key' ≠ key := by
      rintro rfl
      rw [hnew] at hget
      cases hget
    exact .inr ⟨key', sha', href, by rw [Dict.get?_set_of_ne commits sha hne, hget], hspec⟩

/-- Why a plan fails once these refs are looked up: an agent that the matrix does not have, the
answer to one more lookup, or a row whose repository is badly named. -/
inductive Explained (matrix : Matrix) (remotes : Remotes σ) (ids : List String)
    (known : List (String × String)) (outside : σ) :
    List (String × String) → σ → PlanFailure → Prop
  | unknown {sdkId e} (hmem : sdkId ∈ ids) (hsut : sdkId ≠ sutId)
      (h : matrix.resolve sdkId = .error e) :
      Explained matrix remotes ids known outside known outside (.matrixError e)
  | refused {key e} (h : remotes.answer key outside = .error e) (habout : e.About key.1 key.2) :
      Explained matrix remotes ids known outside (known ++ [key])
        (remotes.commands key.1 key.2 outside).2 (.launcher e)
  | misnamed {sdkId key e} (hmem : sdkId ∈ ids) (href : RefOf matrix sdkId key)
      (h : matchesRepo key.1.toList = false) :
      Explained matrix remotes ids known outside known outside (.badSpec e)

/-- How a plan fails: no ref was asked for twice, and none that is not needed; all but the one
that was refused were found. -/
def Fails (matrix : Matrix) (remotes : Remotes σ) (ids : List String) (start final : PlanState σ)
    (e : PlanFailure) : Prop :=
  ∃ (learned : List ((String × String) × String)) (outside : σ) (asked : List (String × String)),
    LookedUp remotes start.outside learned outside ∧
    final.lookups = start.lookups ++ asked ∧ asked.Nodup ∧
    (∀ key ∈ asked, ∃ sdkId ∈ ids, RefOf matrix sdkId key) ∧
    Explained matrix remotes ids (learned.map Prod.fst) outside asked final.outside e

variable {start : PlanState σ} {ids : List String} {commits commits' : ShaCache}
  {sdkId : String} {spec : TargetSpec} {s t : PlanState σ} {e : PlanFailure}

theorem Known.learn {sha : String} {key : String × String}
    (h : Known matrix remotes ids start s commits) (hmem : sdkId ∈ ids)
    (href : RefOf matrix sdkId key) (hnew : commits.get? key = none)
    (hanswer : remotes.answer key s.outside = .ok sha)
    (hlookups : t.lookups = s.lookups ++ [key])
    (houtside : t.outside = (remotes.commands key.1 key.2 s.outside).2) :
    Known matrix remotes ids start t (commits.set key sha) where
  needed key' hkey' := by
    rw [Dict.keys_set_of_get?_eq_none sha hnew, List.mem_append, List.mem_singleton] at hkey'
    obtain hold | rfl := hkey'
    · exact h.needed key' hold
    · exact ⟨sdkId, hmem, href⟩
  lookups := by
    rw [hlookups, h.lookups, Dict.keys_set_of_get?_eq_none sha hnew, List.append_assoc]
  answered := by
    rw [Dict.entries_set_of_notMem sha (Dict.get?_eq_none_iff.mp hnew), houtside]
    exact .found h.answered hanswer

theorem Known.resolved (h : Known matrix remotes ids start s commits) {key : String × String}
    {sha : String} (hget : commits.get? key = some sha) : isSha sha.toList = true :=
  h.answered.isSha (key, sha) (Dict.get?_eq_some_iff.mp hget)

/-- A lookup is put to the remotes as they are. -/
theorem lookUp_eq_ok {repo ref sha : String} (h : lookUp remotes repo ref s = .ok sha t) :
    remotes.answer (repo, ref) s.outside = .ok sha ∧ t.lookups = s.lookups ++ [(repo, ref)] ∧
      t.outside = (remotes.commands repo ref s.outside).2 := by
  unfold lookUp at h
  dsimp only at h
  split at h
  · rename_i hresolved
    cases h
    exact ⟨hresolved, rfl, rfl⟩
  · cases h

theorem lookUp_eq_error {repo ref : String} (h : lookUp remotes repo ref s = .error e t) :
    ∃ error, e = .launcher error ∧ remotes.answer (repo, ref) s.outside = .error error ∧
      t.lookups = s.lookups ++ [(repo, ref)] ∧
      t.outside = (remotes.commands repo ref s.outside).2 := by
  unfold lookUp at h
  dsimp only at h
  split at h
  · cases h
  · rename_i error hresolved
    cases h
    exact ⟨error, rfl, hresolved, rfl, rfl⟩

/-- What is known is kept, and the commit of the entry is known now. -/
theorem commitOf_eq_ok {entry : MatrixEntry} {sha : String}
    (hknown : Known matrix remotes ids start s commits) (hmem : sdkId ∈ ids)
    (href : RefOf matrix sdkId (entry.repo, entry.ref))
    (h : commitOf remotes entry commits s = .ok (sha, commits') t) :
    Known matrix remotes ids start t commits' ∧
      commits'.get? (entry.repo, entry.ref) = some sha ∧
      ∀ other pin, PinnedTo matrix commits other pin → PinnedTo matrix commits' other pin := by
  unfold commitOf at h
  cases hget : commits.get? (entry.repo, entry.ref) with
  | some known =>
      rw [hget] at h
      cases h
      exact ⟨hknown, hget, fun _ _ hpin => hpin⟩
  | none =>
      rw [hget] at h
      obtain ⟨found, s', hfound, h⟩ := Effects.bind_eq_ok_iff.mp h
      cases h
      obtain ⟨hanswer, hlookups, houtside⟩ := lookUp_eq_ok hfound
      exact ⟨hknown.learn hmem href hget hanswer hlookups houtside, Dict.get?_set_self _ _ _,
        fun _ _ hpin => hpin.learn hget⟩

/-- A lookup that fails is of a ref that is not known. -/
theorem commitOf_eq_error {entry : MatrixEntry}
    (hknown : Known matrix remotes ids start s commits) (hmem : sdkId ∈ ids)
    (href : RefOf matrix sdkId (entry.repo, entry.ref))
    (h : commitOf remotes entry commits s = .error e t) :
    Fails matrix remotes ids start t e := by
  unfold commitOf at h
  cases hget : commits.get? (entry.repo, entry.ref) with
  | some known =>
      rw [hget] at h
      cases h
  | none =>
      rw [hget] at h
      obtain h | ⟨found, s', -, h⟩ := Effects.bind_eq_error_iff.mp h
      · obtain ⟨error, rfl, hanswer, hlookups, houtside⟩ := lookUp_eq_error h
        refine ⟨commits.entries, s.outside, commits.keys ++ [(entry.repo, entry.ref)],
          hknown.answered, ?_, ?_, ?_, houtside ▸ .refused hanswer (about_of_resolveRef hanswer)⟩
        · rw [hlookups, hknown.lookups, List.append_assoc]
        · rw [← Dict.keys_set_of_get?_eq_none "" hget]
          exact Dict.distinct _
        · intro key hkey
          obtain hold | hlast := List.mem_append.mp hkey
          · exact hknown.needed key hold
          · obtain rfl := List.mem_singleton.mp hlast
            exact ⟨sdkId, hmem, href⟩
      · cases h

/-- A failure without a lookup. -/
theorem Known.fails (h : Known matrix remotes ids start s commits)
    (hexplained : Explained matrix remotes ids commits.keys s.outside commits.keys s.outside e) :
    Fails matrix remotes ids start s e :=
  ⟨commits.entries, s.outside, commits.keys, h.answered, h.lookups, commits.distinct, h.needed,
    hexplained⟩

/-- A round that returns keeps what is known and pins its agent. -/
theorem specOf_eq_ok (hknown : Known matrix remotes ids start s commits) (hmem : sdkId ∈ ids)
    (h : specOf matrix remotes sdkId commits s = .ok (spec, commits') t) :
    Known matrix remotes ids start t commits' ∧ PinnedTo matrix commits' sdkId spec ∧
      ∀ other pin, PinnedTo matrix commits other pin → PinnedTo matrix commits' other pin := by
  unfold specOf at h
  split at h
  · rename_i hsut
    cases h
    exact ⟨hknown, .inl ⟨hsut, rfl⟩, fun _ _ hpin => hpin⟩
  · rename_i hsut
    obtain ⟨entry, s₁, hentry, h⟩ := Effects.bind_eq_ok_iff.mp h
    obtain ⟨hresolve, rfl⟩ := Effects.lift_apply_eq_ok_iff.mp hentry
    obtain ⟨⟨sha, learned⟩, s₂, hsha, h⟩ := Effects.bind_eq_ok_iff.mp h
    obtain ⟨made, s₃, hmade, h⟩ := Effects.bind_eq_ok_iff.mp h
    obtain ⟨hspec, rfl⟩ := Effects.lift_apply_eq_ok_iff.mp hmade
    cases h
    have href : RefOf matrix sdkId (entry.repo, entry.ref) :=
      ⟨hsut, entry, mapError_eq_ok_iff.mp hresolve, rfl⟩
    obtain ⟨hlearned, hget, hkept⟩ := commitOf_eq_ok hknown hmem href hsha
    exact ⟨hlearned, .inr ⟨_, sha, href, hget, checkout_eq_ok (mapError_eq_ok_iff.mp hspec)⟩,
      hkept⟩

theorem specOf_eq_error (hknown : Known matrix remotes ids start s commits) (hmem : sdkId ∈ ids)
    (h : specOf matrix remotes sdkId commits s = .error e t) :
    Fails matrix remotes ids start t e := by
  unfold specOf at h
  split at h
  · cases h
  · rename_i hsut
    obtain h | ⟨entry, s₁, hentry, h⟩ := Effects.bind_eq_error_iff.mp h
    · obtain ⟨hresolve, rfl⟩ := Effects.lift_apply_eq_error_iff.mp h
      obtain ⟨e', herror, rfl⟩ := mapError_eq_error_iff.mp hresolve
      exact hknown.fails (.unknown hmem hsut herror)
    · obtain ⟨hresolve, rfl⟩ := Effects.lift_apply_eq_ok_iff.mp hentry
      have href : RefOf matrix sdkId (entry.repo, entry.ref) :=
        ⟨hsut, entry, mapError_eq_ok_iff.mp hresolve, rfl⟩
      obtain h | ⟨⟨sha, learned⟩, s₂, hsha, h⟩ := Effects.bind_eq_error_iff.mp h
      · exact commitOf_eq_error hknown hmem href h
      · obtain ⟨hlearned, hget, -⟩ := commitOf_eq_ok hknown hmem href hsha
        obtain h | ⟨made, s₃, -, h⟩ := Effects.bind_eq_error_iff.mp h
        · obtain ⟨hspec, rfl⟩ := Effects.lift_apply_eq_error_iff.mp h
          obtain ⟨e', herror, rfl⟩ := mapError_eq_error_iff.mp hspec
          have hrepo := checkout_eq_error (hlearned.resolved hget) herror
          exact hlearned.fails (.misnamed hmem href hrepo)
        · cases h

/-- The specs of the agents so far, each pinned. -/
def AllPinned (matrix : Matrix) (commits : ShaCache) (specs : Dict String TargetSpec) : Prop :=
  ∀ entry ∈ specs.entries, PinnedTo matrix commits entry.1 entry.2

theorem buildSpecs_eq_ok {rest : List String} {specs final : Dict String TargetSpec}
    (hknown : Known matrix remotes ids start s commits)
    (hpinned : AllPinned matrix commits specs) (hsub : rest ⊆ ids)
    (hnodup : (specs.keys ++ rest).Nodup)
    (h : buildSpecs matrix remotes rest commits specs s = .ok (final, commits') t) :
    Known matrix remotes ids start t commits' ∧ AllPinned matrix commits' final ∧
      final.keys = specs.keys ++ rest := by
  induction rest generalizing commits specs s with
  | nil =>
      cases h
      exact ⟨hknown, hpinned, (List.append_nil _).symm⟩
  | cons sdkId rest ih =>
      obtain ⟨hmem, hsub⟩ := List.cons_subset.mp hsub
      obtain ⟨⟨spec, learned⟩, s₁, hspec, h⟩ := Effects.bind_eq_ok_iff.mp h
      obtain ⟨hlearned, hpin, hkept⟩ := specOf_eq_ok hknown hmem hspec
      have hfresh : specs.get? sdkId = none := by
        rw [Dict.get?_eq_none_iff]
        exact fun hin => (List.nodup_append.mp hnodup).2.2 _ hin _ List.mem_cons_self rfl
      have hkeys := Dict.keys_set_of_get?_eq_none spec hfresh
      have hall : AllPinned matrix learned (specs.set sdkId spec) := by
        intro entry hentry
        obtain rfl | hold := Dict.mem_entries_set hentry
        · exact hpin
        · exact hkept _ _ (hpinned entry hold)
      have hlist : (specs.set sdkId spec).keys ++ rest = specs.keys ++ sdkId :: rest := by
        rw [hkeys, List.append_assoc, List.singleton_append]
      obtain ⟨hfinalKnown, hfinalPinned, hfinalKeys⟩ := ih hlearned hall hsub (hlist ▸ hnodup) h
      exact ⟨hfinalKnown, hfinalPinned, hfinalKeys.trans hlist⟩

theorem buildSpecs_eq_error {rest : List String} {specs : Dict String TargetSpec}
    (hknown : Known matrix remotes ids start s commits) (hsub : rest ⊆ ids)
    (h : buildSpecs matrix remotes rest commits specs s = .error e t) :
    Fails matrix remotes ids start t e := by
  induction rest generalizing commits specs s with
  | nil => cases h
  | cons sdkId rest ih =>
      obtain ⟨hmem, hsub⟩ := List.cons_subset.mp hsub
      obtain h | ⟨⟨spec, learned⟩, s₁, hspec, h⟩ := Effects.bind_eq_error_iff.mp h
      · exact specOf_eq_error hknown hmem h
      · obtain ⟨hlearned, -, -⟩ := specOf_eq_ok hknown hmem hspec
        exact ih hlearned hsub h

/-- A plan: the agents of the batch in order, each pinned, with one lookup for each ref that is
needed. The commit of a ref is what the remotes answered to its lookup. -/
structure Planned (matrix : Matrix) (remotes : Remotes σ) (ids : List String)
    (start final : PlanState σ) (commits : ShaCache) (p : Plan) : Prop where
  agents : p.ids = ids
  pinned : List.Forall₂ (PinnedTo matrix commits) p.ids p.specs
  lookups : final.lookups = start.lookups ++ commits.keys
  answered : LookedUp remotes start.outside commits.entries final.outside
  needed : ∀ key, key ∈ commits.keys ↔ ∃ sdkId ∈ ids, RefOf matrix sdkId key
  resolved : ∀ key sha, commits.get? key = some sha → isSha sha.toList = true

end Pins

section Plans

variable {σ : Type} {matrix : Matrix} {remotes : Remotes σ} {scenarios : List ResolvedScenario}
  {s t : PlanState σ}

theorem known_empty {ids : List String} : Known matrix remotes ids s s Dict.empty where
  needed _ hkey := absurd hkey List.not_mem_nil
  lookups := (List.append_nil _).symm
  answered := .none s.outside

theorem nodup_planIds : (planIds scenarios).Nodup :=
  (List.perm_insertionSort _ _).nodup_iff.mpr (List.nodup_dedup _)

theorem plan_eq_ok {p : Plan} (h : plan matrix remotes scenarios s = .ok p t) :
    ∃ commits, Planned matrix remotes (planIds scenarios) s t commits p := by
  obtain ⟨⟨specs, commits⟩, s₁, hspecs, h⟩ := Effects.bind_eq_ok_iff.mp h
  cases h
  have hempty : AllPinned matrix Dict.empty Dict.empty :=
    fun entry hentry => absurd hentry List.not_mem_nil
  obtain ⟨hknown, hpinned, hkeys⟩ := buildSpecs_eq_ok known_empty hempty (List.Subset.refl _)
    nodup_planIds hspecs
  refine ⟨commits, hkeys, ?_, hknown.lookups, hknown.answered,
    fun key => ⟨hknown.needed key, ?_⟩, fun _ _ => hknown.resolved⟩
  · change List.Forall₂ _ (specs.entries.map Prod.fst) (specs.entries.map Prod.snd)
    rw [List.forall₂_map_left_iff, List.forall₂_map_right_iff]
    exact List.forall₂_same.mpr hpinned
  · rintro ⟨sdkId, hmem, hsut, entry, hresolve, rfl⟩
    have hspec : sdkId ∈ specs.keys := hkeys ▸ hmem
    obtain ⟨⟨_, spec⟩, hentry, rfl⟩ := List.mem_map.mp hspec
    obtain ⟨hmount, -⟩ | ⟨key, sha, ⟨-, entry', hresolve', rfl⟩, hget, -⟩ := hpinned _ hentry
    · exact absurd hmount hsut
    · cases hresolve.symm.trans hresolve'
      by_contra hmissing
      rw [Dict.get?_eq_none_iff.mpr hmissing] at hget
      cases hget

theorem plan_eq_error {e : PlanFailure} (h : plan matrix remotes scenarios s = .error e t) :
    Fails matrix remotes (planIds scenarios) s t e := by
  obtain h | ⟨⟨specs, commits⟩, s₁, -, h⟩ := Effects.bind_eq_error_iff.mp h
  · exact buildSpecs_eq_error known_empty (List.Subset.refl _) h
  · cases h

end Plans

/-- Whatever the remotes answer, and however they change meanwhile: a plan looks every ref up
once, and only refs that are needed; all agents of a ref are pinned to the one commit that
`resolve_ref` made of the remotes' answer to its lookup. A plan that fails has asked for no ref
twice either, and says why it fails. -/
theorem plan_pins {σ : Type} (matrix : Matrix) (remotes : Remotes σ)
    (scenarios : List ResolvedScenario) (s : PlanState σ) :
    (∀ p t, plan matrix remotes scenarios s = .ok p t → ∃ commits,
      Planned matrix remotes (planIds scenarios) s t commits p) ∧
    ∀ e t, plan matrix remotes scenarios s = .error e t →
      Fails matrix remotes (planIds scenarios) s t e :=
  ⟨fun _ _ => plan_eq_ok, fun _ _ => plan_eq_error⟩

end A2aItk.Launcher
