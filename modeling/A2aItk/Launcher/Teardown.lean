import A2aItk.Launcher.Cluster

/-!
# A teardown gives everything back

In every run in which no exception passes by what would record or give back a resource,
and no leader exits before its descendants, the teardown has given back every pin and port
once, closed every log file and signalled every process group that was still alive.

## Implementation notes

Every resource taken is given back, on the lists of the cluster, or held by a worker. A
step that takes, records or gives back a resource changes what its worker holds by as much.
-/

namespace A2aItk.Launcher

open Python Transition

variable {κ : Type*}

/-- The resources a worker holds in its local variables. -/
def Point.holds : Point κ → List (Resource κ)
  | .building key | .built key => [.pin key]
  | .allocatingGrpc http | .takingGrpc http _ => [.port http]
  | .allocated http grpc => [.port http, .port grpc]
  | .launching file => file.toList.map .log
  | .launched pgid file => file.toList.map .log ++ [.group pgid]
  | .polling pgid | .ready pgid | .killing pgid .poll | .killing pgid .term => [.group pgid]
  | .resolving _ | .allocating | .taking _ | .opening | .killing _ .wait | .killing _ .kill => []

/-- The group needs no signal any more. -/
def Group.Settled (group : Group) : Prop := group.signalled = true ∨ group.alive = false

instance (group : Group) : Decidable group.Settled :=
  inferInstanceAs (Decidable (_ ∨ _))

namespace Cluster

/-- The lists of the cluster as one. -/
def recorded (s : Cluster κ) : List (Resource κ) := s.handles.map .group ++ s.kept

section Parts

variable (s : Cluster κ) (r : Resource κ) (worker : ℕ) (point : Point κ) (pgid : ℕ)

@[simp] theorem acquired_take : (s.take r).acquired = s.acquired ++ [r] := by cases r <;> rfl

@[simp] theorem released_take : (s.take r).released = s.released := by cases r <;> rfl

@[simp] theorem recorded_take : (s.take r).recorded = s.recorded := by cases r <;> rfl

@[simp] theorem workers_take : (s.take r).workers = s.workers := by cases r <;> rfl

@[simp] theorem phase_take : (s.take r).phase = s.phase := by cases r <;> rfl

@[simp] theorem acquired_giveBack : (s.giveBack r).acquired = s.acquired := by cases r <;> rfl

@[simp] theorem released_giveBack : (s.giveBack r).released = s.released ++ [r] := by
  cases r <;> rfl

@[simp] theorem recorded_giveBack : (s.giveBack r).recorded = s.recorded := by cases r <;> rfl

@[simp] theorem workers_giveBack : (s.giveBack r).workers = s.workers := by cases r <;> rfl

@[simp] theorem phase_giveBack : (s.giveBack r).phase = s.phase := by cases r <;> rfl

@[simp] theorem groups_giveBack : (s.giveBack r).groups = s.groups := by cases r <;> rfl

@[simp] theorem acquired_record : (s.record r).acquired = s.acquired := by cases r <;> rfl

@[simp] theorem released_record : (s.record r).released = s.released := by cases r <;> rfl

@[simp] theorem workers_record : (s.record r).workers = s.workers := by cases r <;> rfl

@[simp] theorem phase_record : (s.record r).phase = s.phase := by cases r <;> rfl

@[simp] theorem acquired_goto : (s.goto worker point).acquired = s.acquired := rfl

@[simp] theorem released_goto : (s.goto worker point).released = s.released := rfl

@[simp] theorem recorded_goto : (s.goto worker point).recorded = s.recorded := rfl

@[simp] theorem phase_goto : (s.goto worker point).phase = s.phase := rfl

@[simp] theorem acquired_leave : (s.leave worker).acquired = s.acquired := rfl

@[simp] theorem released_leave : (s.leave worker).released = s.released := rfl

@[simp] theorem recorded_leave : (s.leave worker).recorded = s.recorded := rfl

@[simp] theorem phase_leave : (s.leave worker).phase = s.phase := rfl

@[simp] theorem acquired_signal : (s.signal pgid).acquired = s.acquired := rfl

@[simp] theorem released_signal : (s.signal pgid).released = s.released := rfl

@[simp] theorem recorded_signal : (s.signal pgid).recorded = s.recorded := rfl

@[simp] theorem workers_signal : (s.signal pgid).workers = s.workers := rfl

@[simp] theorem phase_signal : (s.signal pgid).phase = s.phase := rfl

end Parts

variable [DecidableEq κ] {s s' : Cluster κ} {r : Resource κ} {worker : ℕ}
  {point point' : Point κ}

@[simp] theorem count_recorded_record (s : Cluster κ) (x r : Resource κ) :
    (s.record x).recorded.count r = s.recorded.count r + [x].count r := by
  cases x <;> simp only [recorded, kept, record, List.map_append, List.map_singleton,
    List.count_append] <;> omega

/-- How often the workers hold a resource. -/
def held (s : Cluster κ) (r : Resource κ) : ℕ := s.workers.total fun point => point.holds.count r

/-- Every resource taken is given back, recorded or held. -/
def Balanced (s : Cluster κ) : Prop :=
  ∀ r, s.acquired.count r = s.released.count r + s.recorded.count r + s.held r

/-- What the world outside knows of the resources. -/
structure World (s : Cluster κ) : Prop where
  reserved : ∀ p ∈ s.reserved, s.released.count (.port p) < s.acquired.count (.port p)
  spawned : ∀ pgid < s.groups.length, 0 < s.acquired.count (.group pgid)
  fresh : ∀ pgid, s.groups.length ≤ pgid → s.acquired.count (.group pgid) = 0
  settled : ∀ pgid group, s.groups[pgid]? = some group →
    0 < s.released.count (.group pgid) → group.Settled

namespace World

/-- What is recorded was taken before. -/
theorem record (h : World s) (r : Resource κ) : World (s.record r) := by
  cases r <;> exact ⟨h.reserved, h.spawned, h.fresh, h.settled⟩

/-- Where a worker stands is no resource. -/
theorem goto (h : World s) : World (s.goto worker point) :=
  ⟨h.reserved, h.spawned, h.fresh, h.settled⟩

/-- A worker that leaves takes nothing along. -/
theorem leave (h : World s) : World (s.leave worker) :=
  ⟨h.reserved, h.spawned, h.fresh, h.settled⟩

/-- A resource is taken; a process group is the next one. -/
theorem take (h : World s) (hle : ∀ r, s.released.count r ≤ s.acquired.count r)
    {r : Resource κ} (hr : ∀ pgid, r = .group pgid → pgid = s.groups.length) :
    World (s.take r) := by
  have hmono : ∀ x, s.acquired.count x ≤ (s.take r).acquired.count x := by
    intro x
    rw [acquired_take, List.count_append]
    omega
  have hreserved : ∀ p ∈ s.reserved,
      (s.take r).released.count (.port p) < (s.take r).acquired.count (.port p) := by
    intro p hp
    rw [released_take]
    exact Nat.lt_of_lt_of_le (h.reserved p hp) (hmono _)
  have hspawned : ∀ pgid < s.groups.length, 0 < (s.take r).acquired.count (.group pgid) :=
    fun pgid hpgid => Nat.lt_of_lt_of_le (h.spawned pgid hpgid) (hmono _)
  cases r with
  | pin key =>
      refine ⟨hreserved, hspawned, ?_, h.settled⟩
      intro pgid hpgid
      simpa using h.fresh pgid hpgid
  | port p =>
      refine ⟨?_, hspawned, ?_, h.settled⟩
      · intro q hq
        cases List.mem_cons.mp hq with
        | inl heq =>
            have := hle (.port p)
            simp only [heq, acquired_take, released_take, List.count_append,
              List.count_singleton_self]
            omega
        | inr hq => exact hreserved q hq
      · intro pgid hpgid
        simpa using h.fresh pgid hpgid
  | log file =>
      refine ⟨hreserved, hspawned, ?_, h.settled⟩
      intro pgid hpgid
      simpa using h.fresh pgid hpgid
  | group pgid =>
      obtain rfl := hr pgid rfl
      have hlength : (s.take (.group s.groups.length)).groups.length = s.groups.length + 1 := by
        simp [Cluster.take]
      refine ⟨hreserved, ?_, ?_, ?_⟩
      · intro q hq
        rw [hlength] at hq
        by_cases hlast : q = s.groups.length
        · simp [hlast]
        · exact hspawned q (by omega)
      · intro q hq
        rw [hlength] at hq
        have hne : Resource.group (κ := κ) s.groups.length ≠ .group q := by
          simp only [ne_eq, Resource.group.injEq]
          omega
        rw [acquired_take, List.count_append, h.fresh q (by omega), List.count_singleton,
          if_neg (by simpa using hne)]
      · intro q group hgroup hreleased
        rw [released_take] at hreleased
        have hq : q < s.groups.length := by
          by_contra hge
          have hnone := h.fresh q (by omega)
          have := hle (.group q)
          omega
        refine h.settled q group ?_ hreleased
        rwa [Cluster.take, List.getElem?_append_left hq] at hgroup

/-- A resource is given back; a process group is settled. -/
theorem giveBack (h : World s) {r : Resource κ}
    (hr : ∀ pgid group, r = .group pgid → s.groups[pgid]? = some group → group.Settled) :
    World (s.giveBack r) := by
  refine ⟨?_, ?_, ?_, ?_⟩
  · intro p hp
    cases r with
    | port q =>
        obtain ⟨hp, hne⟩ := List.mem_filter.mp hp
        have hne : q ≠ p := fun heq => by simp [heq] at hne
        rw [acquired_giveBack, released_giveBack, List.count_append,
          List.count_singleton, if_neg (by simpa using hne)]
        exact h.reserved p hp
    | pin key => simpa using h.reserved p hp
    | log file => simpa using h.reserved p hp
    | group pgid => simpa using h.reserved p hp
  · simpa using h.spawned
  · simpa using h.fresh
  · intro pgid group hgroup hreleased
    rw [groups_giveBack] at hgroup
    by_cases heq : r = .group pgid
    · exact hr pgid group heq hgroup
    · apply h.settled pgid group hgroup
      rwa [released_giveBack, List.count_append, List.count_singleton,
        if_neg (by simpa using heq)] at hreleased

/-- What agents do leaves a settled group settled. -/
theorem updateGroup (h : World s) (pgid : ℕ) {f : Group → Group}
    (hf : ∀ group, group.Settled → (f group).Settled) : World (s.updateGroup pgid f) := by
  have hlength : (s.updateGroup pgid f).groups.length = s.groups.length :=
    List.length_modify ..
  refine ⟨h.reserved, ?_, ?_, ?_⟩
  · rw [hlength]
    exact h.spawned
  · rw [hlength]
    exact h.fresh
  · intro q group hgroup hreleased
    rw [Cluster.updateGroup, List.getElem?_modify] at hgroup
    obtain ⟨old, hold, rfl⟩ := Option.map_eq_some_iff.mp hgroup
    have hsettled := h.settled q old hold hreleased
    split
    · exact hf old hsettled
    · exact hsettled

/-- A signal reaches groups that exist and starts none. -/
theorem signal (h : World s) (pgid : ℕ) : World (s.signal pgid) :=
  h.updateGroup pgid fun _ _ => .inl rfl

/-- A group that `killpg` was called on is settled. -/
theorem giveBack_signal (h : World s) (pgid : ℕ) :
    World ((s.signal pgid).giveBack (.group pgid)) := by
  refine (h.signal pgid).giveBack ?_
  intro q group heq hgroup
  obtain rfl : pgid = q := by simpa using heq
  rw [Cluster.signal, Cluster.updateGroup, List.getElem?_modify] at hgroup
  obtain ⟨old, -, rfl⟩ := Option.map_eq_some_iff.mp hgroup
  rw [if_pos rfl]
  exact .inl rfl

/-- A leader that is gone without descendants has settled its group. -/
theorem giveBack_exited (h : World s) {pgid : ℕ} (hexited : s.leaderExited pgid = true)
    (hgone : ∀ group ∈ s.groups[pgid]?, group.leader = true ∨ group.descendants = false) :
    World (s.giveBack (.group pgid)) := by
  refine h.giveBack ?_
  intro q group heq hgroup
  obtain rfl : pgid = q := by simpa using heq
  have hleader : group.leader = false := by simpa [leaderExited, hgroup] using hexited
  have hdescendants := (hgone group hgroup).resolve_left (by simp [hleader])
  exact .inr (by simp [Group.alive, hleader, hdescendants])

end World

/-- What a run keeps. -/
structure Owned (s : Cluster κ) : Prop where
  balanced : Balanced s
  world : World s
  closed : s.phase = .closed → s.recorded = [] ∧ s.workers.entries = []

/-- What is taken, recorded and given back on the way to `t` is what a worker holds more or
less after it. -/
def Moves (s t : Cluster κ) (before after : List (Resource κ)) : Prop :=
  ∀ r, t.acquired.count r + before.count r + s.released.count r + s.recorded.count r =
    s.acquired.count r + after.count r + t.released.count r + t.recorded.count r

namespace Owned

variable {t : Cluster κ}

/-- Nothing is given back more often than it was taken. -/
theorem released_le (h : Owned s) (r : Resource κ) : s.released.count r ≤ s.acquired.count r := by
  have := h.balanced r
  omega

/-- While a worker is on its way the cluster is not closed. -/
theorem phase_ne_closed (h : Owned s) (hworker : s.workers.get? worker = some point) :
    s.phase ≠ .closed := by
  intro hclosed
  have hmem := Dict.get?_eq_some_iff.mp hworker
  rw [(h.closed hclosed).2] at hmem
  cases hmem

/-- A worker that moves on holds what the step has left it with. -/
theorem goto (h : Owned s) (hworker : s.workers.get? worker = some point) (hworld : World t)
    (hworkers : t.workers = s.workers) (hphase : t.phase = s.phase)
    (hmoves : Moves s t point.holds point'.holds) : Owned (t.goto worker point') := by
  refine ⟨?_, hworld.goto, ?_⟩
  · intro r
    have hbalanced := h.balanced r
    have hmoved := hmoves r
    have hheld : (t.goto worker point').held r + point.holds.count r =
        s.held r + point'.holds.count r := by
      unfold held
      rw [Cluster.goto, hworkers]
      exact Dict.total_set hworker
    simp only [acquired_goto, released_goto, recorded_goto]
    omega
  · intro hclosed
    exact absurd (hphase ▸ hclosed) (h.phase_ne_closed hworker)

/-- A worker may leave when it holds nothing any more. -/
theorem leave (h : Owned s) (hworker : s.workers.get? worker = some point) (hworld : World t)
    (hworkers : t.workers = s.workers) (hphase : t.phase = s.phase)
    (hmoves : Moves s t point.holds []) : Owned (t.leave worker) := by
  refine ⟨?_, hworld.leave, ?_⟩
  · intro r
    have hbalanced := h.balanced r
    have hmoved := hmoves r
    have hheld : (t.leave worker).held r + point.holds.count r = s.held r := by
      unfold held
      rw [Cluster.leave, hworkers]
      exact Dict.total_erase hworker
    simp only [acquired_leave, released_leave, recorded_leave]
    rw [List.count_nil] at hmoved
    omega
  · intro hclosed
    exact absurd (hphase ▸ hclosed) (h.phase_ne_closed hworker)

end Owned

/-- A step that touches no resource. -/
theorem Moves.refl (s : Cluster κ) (held : List (Resource κ)) : Moves s s held held := by
  intro r
  omega

/-- What is taken is in the worker's hands. -/
theorem moves_take (s : Cluster κ) (r : Resource κ) (held : List (Resource κ)) :
    Moves s (s.take r) held (r :: held) := by
  intro x
  simp only [acquired_take, released_take, recorded_take, List.count_append, List.count_cons,
    List.count_nil]
  omega

/-- What is given back is not. -/
theorem moves_giveBack (s : Cluster κ) (r : Resource κ) (held : List (Resource κ)) :
    Moves s (s.giveBack r) (r :: held) held := by
  intro x
  simp only [acquired_giveBack, released_giveBack, recorded_giveBack, List.count_append,
    List.count_cons, List.count_nil]
  omega

/-- What is recorded is on the lists of the cluster, and no longer in the worker's hands. -/
theorem moves_record (s : Cluster κ) (r : Resource κ) (held : List (Resource κ)) :
    Moves s (s.record r) (r :: held) held := by
  intro x
  simp only [acquired_record, released_record, count_recorded_record, List.count_cons,
    List.count_nil]
  omega

/-- Steps within one action are composed. -/
theorem Moves.trans {t u : Cluster κ} {before between after : List (Resource κ)}
    (h : Moves s t before between) (h' : Moves t u between after) : Moves s u before after := by
  intro r
  have := h r
  have := h' r
  omega

/-- The order in which a worker holds its resources does not matter. -/
theorem Moves.perm {t : Cluster κ} {before after after' : List (Resource κ)}
    (h : Moves s t before after) (hperm : after.Perm after') : Moves s t before after' := by
  intro r
  rw [← hperm.count_eq]
  exact h r

end Cluster

/-- No exception passes by what would record or give back what the worker holds, and no
leader that `_kill_pgroup` finds gone has left a descendant behind. -/
def Point.Handled (s : Cluster κ) (event : Event) : Point κ → Prop
  | .building _ | .polling _ => event ≠ .escapes
  | .takingGrpc http grpc => http ≠ grpc
  | .launching file => file = none ∨ event ≠ .fails
  | .killing pgid .poll =>
      ∀ group ∈ s.groups[pgid]?, group.leader = true ∨ group.descendants = false
  | _ => True

instance (s : Cluster κ) (event : Event) : (point : Point κ) → Decidable (point.Handled s event)
  | .building _ | .polling _ => inferInstanceAs (Decidable (event ≠ .escapes))
  | .takingGrpc http grpc => inferInstanceAs (Decidable (http ≠ grpc))
  | .launching file => inferInstanceAs (Decidable (file = none ∨ event ≠ .fails))
  | .killing pgid .poll => inferInstanceAs (Decidable
      (∀ group ∈ s.groups[pgid]?, group.leader = true ∨ group.descendants = false))
  | .killing _ .term | .killing _ .wait | .killing _ .kill | .resolving _ | .built _
  | .allocating | .taking _ | .allocatingGrpc _ | .allocated .. | .opening | .launched ..
  | .ready _ => isTrue trivial

/-- Every event of a worker is one that its code handles, at the point where it comes. -/
def Handled (s : Cluster κ) : ClusterAction κ → Prop
  | .work worker event => ∀ point ∈ s.workers.get? worker, point.Handled s event
  | _ => True

instance (s : Cluster κ) : (action : ClusterAction κ) → Decidable (Handled s action)
  | .work worker event => inferInstanceAs (Decidable
      (∀ point ∈ s.workers.get? worker, point.Handled s event))
  | .start .. | .exit | .kill _ | .finish | .leaderExits _ | .descendantsExit _ | .forks _ =>
      isTrue trivial

namespace Cluster

variable [DecidableEq κ] {s s' : Cluster κ} {worker : ℕ} {point : Point κ} {event : Event}

/-- One step of a worker. -/
theorem owned_advance (h : Owned s) (hworker : s.workers.get? worker = some point)
    (hhandled : point.Handled s event)
    (hadvance : s.advance worker point event = some s') : Owned s' := by
  have htake : ∀ r : Resource κ, (∀ pgid, r = .group pgid → pgid = s.groups.length) →
      World (s.take r) := fun r hr => h.world.take h.released_le hr
  unfold advance at hadvance
  split at hadvance
  · -- the key is pinned
    cases hadvance
    exact h.goto hworker (htake _ (by simp)) (by simp) (by simp) (moves_take s _ [])
  · cases hadvance
    exact h.goto hworker h.world rfl rfl (.refl s [])
  · cases hadvance
    exact h.leave hworker h.world rfl rfl (.refl s [])
  · cases hadvance
    exact h.goto hworker h.world rfl rfl (.refl s _)
  · -- a failed build unpins
    cases hadvance
    exact h.leave hworker (h.world.giveBack (by simp)) (by simp) (by simp) (moves_giveBack s _ [])
  · exact absurd rfl hhandled
  · cases hadvance
    exact h.goto hworker (h.world.record _) (by simp) (by simp) (moves_record s _ [])
  · split at hadvance
    · cases hadvance
    · cases hadvance
      exact h.goto hworker h.world rfl rfl (.refl s [])
  · cases hadvance
    exact h.leave hworker h.world rfl rfl (.refl s [])
  · cases hadvance
    exact h.goto hworker (htake _ (by simp)) (by simp) (by simp) (moves_take s _ [])
  · split at hadvance
    · cases hadvance
    · cases hadvance
      exact h.goto hworker h.world rfl rfl (.refl s _)
  · -- the first port is rolled back
    cases hadvance
    exact h.leave hworker (h.world.giveBack (by simp)) (by simp) (by simp) (moves_giveBack s _ [])
  · rename_i http grpc
    rw [if_neg hhandled] at hadvance
    cases hadvance
    have hmoves := moves_take s (.port grpc) [.port http]
    exact h.goto hworker (htake _ (by simp)) (by simp) (by simp) (hmoves.perm (.swap ..))
  · rename_i http grpc
    cases hadvance
    have hmoves := (moves_record s (.port http) [.port grpc]).trans
      (moves_record (s.record (.port http)) (.port grpc) [])
    exact h.goto hworker ((h.world.record _).record _) (by simp) (by simp) hmoves
  · cases hadvance
    exact h.goto hworker h.world rfl rfl (.refl s [])
  · cases hadvance
    exact h.goto hworker (htake _ (by simp)) (by simp) (by simp) (moves_take s _ [])
  · cases hadvance
    exact h.leave hworker h.world rfl rfl (.refl s [])
  · cases hadvance
    have hmoves := moves_take s (.group s.groups.length)
    exact h.goto hworker (htake _ (by simp)) (by simp) (by simp)
      ((hmoves _).perm (List.perm_append_singleton ..).symm)
  · rename_i file
    cases file with
    | none =>
        cases hadvance
        exact h.leave hworker h.world rfl rfl (.refl s [])
    | some file => exact absurd rfl (hhandled.resolve_left (Option.some_ne_none file))
  · cases hadvance
    exact h.goto hworker (h.world.record _) (by simp) (by simp) (moves_record s _ _)
  · cases hadvance
    exact h.goto hworker h.world rfl rfl (.refl s _)
  · cases hadvance
    exact h.goto hworker h.world rfl rfl (.refl s _)
  · cases hadvance
    exact h.goto hworker h.world rfl rfl (.refl s _)
  · exact absurd rfl hhandled
  · cases hadvance
    exact h.leave hworker (h.world.record _) (by simp) (by simp) (moves_record s _ [])
  · -- the leader is gone, and with it the group
    rename_i pgid
    split at hadvance
    · rename_i hexited
      cases hadvance
      exact h.leave hworker (h.world.giveBack_exited hexited hhandled) (by simp) (by simp)
        (moves_giveBack s _ [])
    · cases hadvance
      exact h.goto hworker h.world rfl rfl (.refl s _)
  · rename_i pgid
    cases hadvance
    exact h.goto hworker (h.world.giveBack_signal pgid) (by simp) (by simp)
      (moves_giveBack (s.signal pgid) _ [])
  · rename_i pgid
    cases hadvance
    exact h.leave hworker (h.world.giveBack_signal pgid) (by simp) (by simp)
      (moves_giveBack (s.signal pgid) _ [])
  · split at hadvance
    · cases hadvance
      exact h.leave hworker h.world rfl rfl (.refl s [])
    · cases hadvance
  · cases hadvance
    exact h.goto hworker h.world rfl rfl (.refl s [])
  · rename_i pgid
    cases hadvance
    exact h.leave hworker (h.world.signal pgid) rfl rfl (.refl (s.signal pgid) [])
  · cases hadvance

/-- What an agent does: it signals nobody, and does not come back to life. -/
theorem owned_updateGroup (h : Owned s) (pgid : ℕ) {f : Group → Group}
    (hsignalled : ∀ group, (f group).signalled = group.signalled)
    (hdead : ∀ group, group.alive = false → (f group).alive = false) :
    Owned (s.updateGroup pgid f) := by
  refine ⟨h.balanced, h.world.updateGroup pgid fun group hsettled => ?_, h.closed⟩
  rw [Group.Settled, hsignalled]
  exact hsettled.imp_right (hdead group)

section Finish

omit [DecidableEq κ] in
/-- The teardown gives back what was kept, in order, and touches nothing else. -/
theorem giveBack_foldl (kept : List (Resource κ)) (s : Cluster κ) :
    (kept.foldl giveBack s).acquired = s.acquired ∧
      (kept.foldl giveBack s).released = s.released ++ kept ∧
      (kept.foldl giveBack s).handles = s.handles ∧
      (kept.foldl giveBack s).workers = s.workers := by
  induction kept generalizing s with
  | nil => simp
  | cons r rest ih =>
      obtain ⟨hacquired, hreleased, hhandles, hworkers⟩ := ih (s.giveBack r)
      have hsame : (s.giveBack r).handles = s.handles := by cases r <;> rfl
      rw [List.foldl_cons, hacquired, hreleased, hhandles, hworkers]
      simp [hsame]

/-- Giving back pins, ports and files leaves the groups alone. -/
theorem world_foldl_giveBack {kept : List (Resource κ)} (h : World s)
    (hkept : ∀ r ∈ kept, ∀ pgid, r ≠ .group pgid) : World (kept.foldl giveBack s) := by
  induction kept generalizing s with
  | nil => exact h
  | cons r rest ih =>
      rw [List.forall_mem_cons] at hkept
      exact ih (h.giveBack fun pgid _ heq => absurd heq (hkept.1 pgid)) hkept.2

/-- The groups that are signalled at the end are groups that were started. -/
theorem world_finish (h : World s) : World s.finish := by
  have hworld : World (s.kept.foldl giveBack s) := by
    apply world_foldl_giveBack h
    rintro r hr pgid rfl
    simp [kept] at hr
  exact ⟨hworld.reserved, hworld.spawned, hworld.fresh, hworld.settled⟩

/-- The last steps of the teardown give back everything that is recorded. -/
theorem owned_finish (h : Owned s) (hworkers : s.workers.entries = []) (hhandles : s.handles = []) :
    Owned s.finish := by
  obtain ⟨hacquired, hreleased, hhandles', hworkers'⟩ := giveBack_foldl s.kept s
  have hrecorded : s.finish.recorded = [] := by
    change (s.kept.foldl giveBack s).handles.map Resource.group ++ [] = []
    rw [hhandles', hhandles]
    rfl
  have hempty : s.finish.workers.entries = [] := by
    change (s.kept.foldl giveBack s).workers.entries = []
    rw [hworkers', hworkers]
  refine ⟨?_, world_finish h.world, fun _ => ⟨hrecorded, hempty⟩⟩
  intro r
  have hbalanced := h.balanced r
  have hheld : s.held r = 0 := by simp [held, Dict.total, hworkers]
  have hheld' : s.finish.held r = 0 := by simp [held, Dict.total, hempty]
  have hall : s.recorded = s.kept := by simp [recorded, hhandles]
  rw [hrecorded, hheld', List.count_nil]
  change (s.kept.foldl giveBack s).acquired.count r = (s.kept.foldl giveBack s).released.count r
  rw [hacquired, hreleased, List.count_append, ← hall]
  omega

end Finish

/-- One step of a run whose steps are handled. -/
theorem owned_step {action : ClusterAction κ} (h : Owned s) (hhandled : Handled s action)
    (hstep : s.step action = some s') : Owned s' := by
  cases action with
  | start worker source =>
      simp only [step] at hstep
      split at hstep
      · rename_i hstart
        cases hstep
        have hnone : s.workers.get? worker = none := Option.isNone_iff_eq_none.mp hstart.2
        refine ⟨?_, h.world.goto, fun hclosed => ?_⟩
        · intro r
          have hheld : (s.goto worker (.resolving source)).held r = s.held r :=
            Dict.total_set_of_none hnone
          simpa [hheld] using h.balanced r
        · simp [hstart.1] at hclosed
      · cases hstep
  | work worker event =>
      obtain ⟨point, hworker, hadvance⟩ := Option.bind_eq_some_iff.mp hstep
      exact owned_advance h hworker (hhandled point hworker) hadvance
  | exit =>
      simp only [step] at hstep
      split at hstep
      · cases hstep
        refine ⟨h.balanced, ⟨h.world.reserved, h.world.spawned, h.world.fresh, h.world.settled⟩,
          fun hclosed => ?_⟩
        cases hclosed
      · cases hstep
  | kill worker =>
      simp only [step] at hstep
      split at hstep
      · rename_i pgid rest hhandles
        split at hstep
        · rename_i hexiting
          cases hstep
          have hnone : s.workers.get? worker = none := by
            rw [Dict.get?, hexiting.2]
            rfl
          refine ⟨?_, ⟨h.world.reserved, h.world.spawned, h.world.fresh, h.world.settled⟩,
            fun hclosed => ?_⟩
          · intro r
            have hbalanced := h.balanced r
            have hheld : held (goto { s with handles := rest } worker (.killing pgid .poll)) r =
                s.held r + [Resource.group pgid].count r := Dict.total_set_of_none hnone
            rw [hheld]
            simp only [recorded, hhandles, List.map_cons, List.cons_append, List.count_cons,
              List.count_nil] at hbalanced ⊢
            change s.acquired.count r = s.released.count r +
              (rest.map Resource.group ++ s.kept).count r + _
            omega
          · simp [hexiting.1] at hclosed
        · cases hstep
      · cases hstep
  | finish =>
      simp only [step] at hstep
      split at hstep
      · rename_i hfinish
        cases hstep
        exact owned_finish h hfinish.2.1 hfinish.2.2
      · cases hstep
  | leaderExits pgid =>
      cases hstep
      exact owned_updateGroup h pgid (fun _ => rfl) (by simp [Group.alive])
  | descendantsExit pgid =>
      cases hstep
      exact owned_updateGroup h pgid (fun _ => rfl) (by simp +contextual [Group.alive])
  | forks pgid =>
      cases hstep
      exact owned_updateGroup h pgid (fun _ => rfl) (by simp [Group.alive])

/-- Nothing is left behind: every pin taken was released exactly once, every reserved port
was given back, every log file opened was closed, and every process group was signalled or
has no member alive. -/
structure NothingLeft (s : Cluster κ) : Prop where
  pins : ∀ key, s.released.count (.pin key) = s.acquired.count (.pin key)
  ports : s.reserved = []
  logs : ∀ file, s.released.count (.log file) = s.acquired.count (.log file)
  groups : ∀ group ∈ s.groups, group.signalled = true ∨ group.alive = false

/-- A new cluster owns nothing. -/
theorem owned_initial : Owned ({} : Cluster κ) := by
  refine ⟨fun r => rfl, ⟨?_, ?_, ?_, ?_⟩, ?_⟩ <;> simp

/-- Once the cluster is closed the lists are given back and no worker holds anything. -/
theorem nothingLeft_of_closed (h : Owned s) (hclosed : s.phase = .closed) : NothingLeft s := by
  obtain ⟨hrecorded, hworkers⟩ := h.closed hclosed
  have hall : ∀ r, s.released.count r = s.acquired.count r := by
    intro r
    have hbalanced := h.balanced r
    have hheld : s.held r = 0 := by simp [held, Dict.total, hworkers]
    rw [hrecorded, List.count_nil] at hbalanced
    omega
  refine ⟨fun key => hall _, ?_, fun file => hall _, ?_⟩
  · rw [List.eq_nil_iff_forall_not_mem]
    intro p hp
    have hlt := h.world.reserved p hp
    rw [hall] at hlt
    exact Nat.lt_irrefl _ hlt
  · intro group hgroup
    obtain ⟨pgid, hpgid, rfl⟩ := List.mem_iff_getElem.mp hgroup
    have hspawned := h.world.spawned pgid hpgid
    rw [← hall] at hspawned
    exact h.world.settled pgid _ (List.getElem?_eq_getElem hpgid) hspawned

/-- Every run of handled steps that ends with the context closed leaves nothing behind. -/
theorem teardown_leaves_nothing {actions : List (ClusterAction κ)}
    (hhandled : Meets step Handled ({} : Cluster κ) actions)
    (hrun : run step {} actions = some s) (hclosed : s.phase = .closed) : NothingLeft s :=
  nothingLeft_of_closed
    (invariant (fun _ _ _ h hstep hs => owned_step h hstep hs) owned_initial hhandled hrun)
    hclosed

/-- A worker gets its ports. -/
def getsPorts (worker http grpc : ℕ) : List (ClusterAction String) :=
  [.work worker (.port http), .work worker .returns, .work worker (.port grpc),
    .work worker .returns, .work worker .returns]

/-- A peer comes up while the agent under test does not, and both are torn down. -/
def halfStarted : List (ClusterAction String) :=
  [.start 0 (.checkout "sdk@sha"), .start 1 .mount, .work 0 .returns, .work 0 .returns,
    .work 0 .returns, .work 1 .returns] ++ getsPorts 0 40000 40001 ++ getsPorts 1 40002 40003 ++
  [.work 0 .log, .work 1 .returns, .work 0 .returns, .work 1 .returns, .work 0 .returns,
    .work 1 .returns, .work 1 .fails, .work 1 .returns, .work 1 .returns, .leaderExits 1,
    .work 1 .returns, .work 0 .returns, .work 0 .returns, .exit, .kill 2, .work 2 .returns,
    .work 2 .returns, .work 2 .fails, .work 2 .returns, .finish]

theorem half_started_leaves_nothing :
    ∃ s, run step ({} : Cluster String) halfStarted = some s ∧ NothingLeft s := by
  obtain ⟨s, hrun, hclosed⟩ : ∃ s, run step ({} : Cluster String) halfStarted = some s ∧
    s.phase = .closed := ⟨_, rfl, rfl⟩
  exact ⟨s, hrun, teardown_leaves_nothing (by decide) hrun hclosed⟩

/-- The log file of an agent that cannot be spawned. -/
def unspawned : List (ClusterAction String) :=
  [.start 0 .mount, .work 0 .returns] ++ getsPorts 0 40000 40001 ++
    [.work 0 .log, .work 0 .fails, .exit, .finish]

/-- The child of an agent that exits on its own after it came up. -/
def orphaned : List (ClusterAction String) :=
  [.start 0 .mount, .work 0 .returns] ++ getsPorts 0 40000 40001 ++
    [.work 0 .returns, .work 0 .returns, .work 0 .returns, .forks 0, .work 0 .returns,
      .work 0 .returns, .leaderExits 0, .exit, .kill 1, .work 1 .returns, .finish]

/-- A spawn that fails after its log file was opened leaves the file open, and a group
whose leader has exited is not signalled. -/
theorem unspawned_and_orphaned_left :
    (∃ s, run step ({} : Cluster String) unspawned = some s ∧ s.phase = .closed ∧
      s.acquired.count (.log 0) = 1 ∧ s.released.count (.log 0) = 0 ∧ ¬ NothingLeft s) ∧
    ∃ s, run step ({} : Cluster String) orphaned = some s ∧ s.phase = .closed ∧
      s.groups = [{ leader := false, descendants := true, signalled := false }] ∧
      ¬ NothingLeft s := by
  constructor
  · exact ⟨_, rfl, rfl, rfl, rfl, fun h => absurd (h.logs 0) (by decide)⟩
  · exact ⟨_, rfl, rfl, rfl, fun h => absurd (h.groups _ (List.mem_singleton.mpr rfl)) (by decide)⟩

end Cluster

end A2aItk.Launcher
