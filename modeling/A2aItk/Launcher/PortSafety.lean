import A2aItk.Launcher.Ports

/-!
# Ports held at once are distinct

No port is held twice in any run in which no thread finds a port that another has found and
has not taken yet.

## Implementation notes

A port is at most once held or reserved for a pair, and then the reservoir contains it; it
is at most once found and not taken, and then the reservoir does not. So a port that is
taken was neither held nor reserved.
-/

namespace A2aItk.Launcher

open Python Transition

/-- The port of a socket that has been closed and is to be looked up. -/
def Search.closedPort : Search → Option ℕ
  | .closed _ port => some port
  | .probing _ | .bound .. | .found _ => none

def Search.foundPort : Search → Option ℕ
  | .found port => some port
  | .probing _ | .bound .. | .closed .. => none

/-- The first port of a pair. -/
def Frame.reserved : Frame → List ℕ
  | .grpc first => [first]
  | .single | .http => []

namespace Ports

variable {s s' t : Ports} {thread port : ℕ} {call call' : Call}

/-- No port is held by two callers. -/
def Distinct (s : Ports) : Prop := s.held.Nodup

instance (s : Ports) : Decidable s.Distinct := inferInstanceAs (Decidable s.held.Nodup)

/-- A port that is looked up, and that the reservoir does not contain, was not found by
another thread that has still to take it. -/
def ApartChecks (s : Ports) : PortAction → Prop
  | .contains thread => ∀ call ∈ s.calls.get? thread, ∀ port ∈ call.search.closedPort,
      port ∉ s.used → ∀ other ∈ s.calls.values, other.search.foundPort ≠ some port
  | _ => True

instance (s : Ports) : (action : PortAction) → Decidable (ApartChecks s action)
  | .contains thread => inferInstanceAs (Decidable (∀ call ∈ s.calls.get? thread,
      ∀ port ∈ call.search.closedPort, port ∉ s.used →
        ∀ other ∈ s.calls.values, other.search.foundPort ≠ some port))
  | .allocate .. | .bind .. | .close _ | .take _ | .fails _ | .release _ | .bindElsewhere _
  | .closeElsewhere _ => isTrue trivial

/-- How often a port is held, or reserved for a pair. -/
def holdings (s : Ports) (port : ℕ) : ℕ :=
  s.held.count port + s.calls.total fun call => call.frame.reserved.count port

/-- How often a port is found and not taken. -/
def findings (s : Ports) (port : ℕ) : ℕ :=
  s.calls.total fun call => call.search.foundPort.toList.count port

structure Apart (s : Ports) : Prop where
  owned : ∀ p, s.holdings p ≤ 1
  single : ∀ p, s.findings p ≤ 1
  used : ∀ p, 0 < s.holdings p → p ∈ s.used
  unused : ∀ p, 0 < s.findings p → p ∉ s.used

section Counts

theorem holdings_goto (h : s.calls.get? thread = some call) (call' : Call) (p : ℕ) :
    (s.goto thread call').holdings p + call.frame.reserved.count p =
      s.holdings p + call'.frame.reserved.count p := by
  have htotal : (s.calls.set thread call').total (fun call => call.frame.reserved.count p) +
      call.frame.reserved.count p = s.calls.total (fun call => call.frame.reserved.count p) +
        call'.frame.reserved.count p := Dict.total_set h
  simp only [holdings, goto]
  omega

theorem findings_goto (h : s.calls.get? thread = some call) (call' : Call) (p : ℕ) :
    (s.goto thread call').findings p + call.search.foundPort.toList.count p =
      s.findings p + call'.search.foundPort.toList.count p :=
  Dict.total_set h

theorem holdings_leave (h : s.calls.get? thread = some call) (p : ℕ) :
    (s.leave thread).holdings p + call.frame.reserved.count p = s.holdings p := by
  have htotal := Dict.total_erase (f := fun call => call.frame.reserved.count p) h
  simp only [holdings, leave]
  omega

theorem findings_leave (h : s.calls.get? thread = some call) (p : ℕ) :
    (s.leave thread).findings p + call.search.foundPort.toList.count p = s.findings p :=
  Dict.total_erase h

theorem findings_pos (h : s.calls.get? thread = some call)
    (hfound : call.search.foundPort = some port) : 0 < s.findings port := by
  have hcount := findings_leave h port
  rw [hfound, Option.toList_some, List.count_singleton_self] at hcount
  omega

theorem findings_eq_zero (h : ∀ other ∈ s.calls.values, other.search.foundPort ≠ some port) :
    s.findings port = 0 := by
  rw [findings, Dict.total]
  refine List.sum_eq_zero fun n hn => ?_
  obtain ⟨entry, hentry, rfl⟩ := List.mem_map.mp hn
  have hother := h entry.2 (List.mem_map.mpr ⟨entry, hentry, rfl⟩)
  rw [List.count_eq_zero]
  intro hmem
  exact hother (Option.mem_toList.mp hmem)

end Counts

namespace Apart

theorem initial (elsewhere : Finset ℕ) : Apart (initial elsewhere) where
  owned _ := Nat.zero_le 1
  single _ := Nat.zero_le 1
  used _ h := absurd h (Nat.lt_irrefl 0)
  unused _ h := absurd h (Nat.lt_irrefl 0)

theorem distinct (h : Apart s) : s.Distinct := by
  rw [Distinct, List.nodup_iff_count_le_one]
  intro p
  have hp := h.owned p
  simp only [holdings] at hp
  omega

/-- Nothing is held or found that was not. -/
theorem mono (h : Apart s) (hused : s'.used = s.used)
    (hhold : ∀ p, s'.holdings p ≤ s.holdings p) (hfind : ∀ p, s'.findings p ≤ s.findings p) :
    Apart s' where
  owned p := (hhold p).trans (h.owned p)
  single p := (hfind p).trans (h.single p)
  used p hp := hused ▸ h.used p (hp.trans_le (hhold p))
  unused p hp := hused ▸ h.unused p (hp.trans_le (hfind p))

/-- A port is found that no other thread has found. -/
theorem find (h : Apart s) (hport : port ∉ s.used) (hnone : s.findings port = 0)
    (hused : s'.used = s.used) (hhold : ∀ p, s'.holdings p ≤ s.holdings p)
    (hfind : ∀ p, s'.findings p ≤ s.findings p + [port].count p) : Apart s' where
  owned p := (hhold p).trans (h.owned p)
  single p := by
    have hp := hfind p
    have hold := h.single p
    by_cases heq : p = port
    · subst heq
      rw [List.count_singleton_self] at hp
      omega
    · rw [List.count_eq_zero.mpr (by simpa using heq)] at hp
      omega
  used p hp := hused ▸ h.used p (hp.trans_le (hhold p))
  unused p hp := by
    rw [hused]
    by_cases heq : p = port
    · rwa [heq]
    · have hle := hfind p
      rw [List.count_eq_zero.mpr (by simpa using heq)] at hle
      exact h.unused p (by omega)

/-- A port that was found is taken. -/
theorem insert (h : Apart s) (hport : 0 < s.findings port)
    (hused : s'.used = Insert.insert port s.used)
    (hhold : ∀ p, s'.holdings p ≤ s.holdings p + [port].count p)
    (hfind : ∀ p, s'.findings p + [port].count p = s.findings p) : Apart s' := by
  have hfresh : s.holdings port = 0 := by
    by_contra hne
    exact h.unused port hport (h.used port (Nat.pos_of_ne_zero hne))
  have hother : ∀ {p}, p ≠ port → s'.holdings p ≤ s.holdings p ∧
      s'.findings p = s.findings p := by
    intro p hp
    have hh := hhold p
    have hf := hfind p
    rw [List.count_eq_zero.mpr (by simpa using hp)] at hh hf
    exact ⟨hh, hf⟩
  have hself := hhold port
  have hgone := hfind port
  rw [List.count_singleton_self] at hself hgone
  have hone := h.single port
  refine ⟨fun p => ?_, fun p => ?_, fun p hp => ?_, fun p hp => ?_⟩
  · by_cases heq : p = port
    · subst heq
      omega
    · exact (hother heq).1.trans (h.owned p)
  · by_cases heq : p = port
    · subst heq
      omega
    · exact (hother heq).2 ▸ h.single p
  · rw [hused, Finset.mem_insert]
    by_cases heq : p = port
    · exact .inl heq
    · exact .inr (h.used p (hp.trans_le (hother heq).1))
  · rw [hused, Finset.mem_insert]
    rintro (heq | hmem)
    · subst heq
      omega
    · have hne : p ≠ port := fun heq => h.unused port hport (heq ▸ hmem)
      exact h.unused p ((hother hne).2 ▸ hp) hmem

/-- A port that was held or reserved is given back. -/
theorem erase (h : Apart s) (hused : s'.used = s.used.erase port)
    (hhold : ∀ p, s'.holdings p + [port].count p = s.holdings p)
    (hfind : ∀ p, s'.findings p ≤ s.findings p) : Apart s' where
  owned p := (Nat.le_of_add_right_le (hhold p).le).trans (h.owned p)
  single p := (hfind p).trans (h.single p)
  used p hp := by
    rw [hused, Finset.mem_erase]
    have hcount := hhold p
    refine ⟨?_, h.used p (by omega)⟩
    rintro rfl
    have hone := h.owned p
    rw [List.count_singleton_self] at hcount
    omega
  unused p hp := by
    rw [hused, Finset.mem_erase]
    exact fun hmem => h.unused p (hp.trans_le (hfind p)) hmem.2

/-- A thread goes on in the same call, with nothing found. -/
theorem goto (h : Apart s) (hcall : s.calls.get? thread = some call)
    (hframe : call'.frame = call.frame) (hfound : call'.search.foundPort = none) :
    Apart (s.goto thread call') := by
  refine h.mono rfl (fun p => ?_) fun p => ?_
  · have hcount := holdings_goto hcall call' p
    rw [hframe] at hcount
    omega
  · have hcount := findings_goto hcall call' p
    rw [hfound, Option.toList_none, List.count_nil] at hcount
    omega

theorem allocate {frame : Frame} (h : Apart s) (hnone : s.calls.get? thread = none)
    (hframe : frame.reserved = []) : Apart (s.search thread frame) := by
  refine h.mono rfl (fun p => ?_) fun p => ?_
  · rw [holdings, holdings, search, Ports.goto, Dict.total_set_of_none hnone, hframe]
    simp
  · rw [findings, findings, search, Ports.goto, Dict.total_set_of_none hnone]
    simp [Search.foundPort]

theorem take {frame : Frame} (h : Apart s)
    (hcall : s.calls.get? thread = some ⟨frame, .found port⟩) :
    Apart (s.take thread port frame) := by
  have hport : 0 < s.findings port := findings_pos hcall rfl
  have hleft : ∀ p, (s.leave thread).findings p + [port].count p = s.findings p :=
    findings_leave hcall
  have hheld := holdings_leave hcall
  cases frame with
  | single =>
      refine h.insert hport rfl (fun p => ?_) hleft
      have hp := hheld p
      simp only [holdings, Ports.take, leave, Frame.reserved, List.count_nil,
        List.count_cons] at hp ⊢
      omega
  | http =>
      refine h.insert hport rfl (fun p => ?_) fun p => ?_
      · exact (holdings_goto hcall ⟨.grpc port, .probing 100⟩ p).le
      · exact findings_goto hcall ⟨.grpc port, .probing 100⟩ p
  | grpc http =>
      rw [Ports.take]
      split
      · refine h.insert hport rfl (fun p => ?_) hleft
        have hp : (s.leave thread).holdings p + [http].count p = s.holdings p := hheld p
        exact (Nat.le_of_add_right_le hp.le).trans (Nat.le_add_right _ _)
      · refine h.insert hport rfl (fun p => ?_) hleft
        have hp := hheld p
        simp only [holdings, leave, Frame.reserved, List.count_cons, List.count_nil] at hp ⊢
        omega

theorem abandon (h : Apart s) (hcall : s.calls.get? thread = some call) :
    Apart (s.abandon thread call.frame) := by
  have hfind : ∀ p, (s.leave thread).findings p ≤ s.findings p := fun p =>
    Nat.le_of_add_right_le (findings_leave hcall p).le
  have hheld := holdings_leave hcall
  obtain ⟨frame, search⟩ := call
  cases frame with
  | single => exact h.mono rfl (fun p => (hheld p).le) hfind
  | http => exact h.mono rfl (fun p => (hheld p).le) hfind
  | grpc http => exact h.erase rfl hheld hfind

theorem release (h : Apart s) (hport : port ∈ s.held) :
    Apart { s with used := s.used.erase port, held := s.held.erase port } := by
  refine h.erase rfl (fun p => ?_) fun p => le_rfl
  have hcount := (List.perm_cons_erase hport).count_eq p
  simp only [holdings, List.count_cons, List.count_nil] at hcount ⊢
  omega

theorem contains {frame : Frame} {attempts : ℕ} (h : Apart s)
    (hcall : s.calls.get? thread = some ⟨frame, .closed attempts port⟩) (hport : port ∉ s.used)
    (hothers : ∀ other ∈ s.calls.values, other.search.foundPort ≠ some port) :
    Apart (s.goto thread ⟨frame, .found port⟩) := by
  refine h.find hport (findings_eq_zero hothers) rfl (fun p => ?_) fun p => ?_
  · exact (Nat.add_right_cancel (holdings_goto hcall ⟨frame, .found port⟩ p)).le
  · exact (findings_goto hcall ⟨frame, .found port⟩ p).le

/-- Every step that keeps the checks apart keeps the ports apart. -/
theorem step {action : PortAction} (h : Apart s) (hguard : ApartChecks s action)
    (hstep : s.step action = some s') : Apart s' := by
  cases action with
  | allocate thread pair =>
      simp only [Ports.step, Option.ite_none_right_eq_some, Option.some.injEq,
        Option.isNone_iff_eq_none] at hstep
      obtain ⟨hnone, rfl⟩ := hstep
      cases pair with
      | true => exact h.allocate hnone rfl
      | false => exact h.allocate hnone rfl
  | bind thread port =>
      simp only [Ports.step] at hstep
      split at hstep
      case h_1 hcall =>
        split at hstep
        · cases hstep
        · obtain rfl := Option.some.inj hstep
          exact h.goto hcall rfl rfl
      case h_2 => cases hstep
  | close thread =>
      simp only [Ports.step] at hstep
      split at hstep
      case h_1 hcall =>
        obtain rfl := Option.some.inj hstep
        exact h.goto hcall rfl rfl
      case h_2 => cases hstep
  | contains thread =>
      simp only [Ports.step] at hstep
      split at hstep
      case h_1 hcall =>
        split at hstep
        · obtain rfl := Option.some.inj hstep
          exact h.goto hcall rfl rfl
        · rename_i hport
          obtain rfl := Option.some.inj hstep
          exact h.contains hcall hport (hguard _ hcall _ rfl hport)
      case h_2 => cases hstep
  | take thread =>
      simp only [Ports.step] at hstep
      split at hstep
      case h_1 hcall =>
        obtain rfl := Option.some.inj hstep
        exact h.take hcall
      case h_2 => cases hstep
  | fails thread =>
      obtain ⟨call, hcall, rfl⟩ := Option.map_eq_some_iff.mp hstep
      exact h.abandon hcall
  | release port =>
      simp only [Ports.step, Option.ite_none_right_eq_some, Option.some.injEq] at hstep
      obtain ⟨hport, rfl⟩ := hstep
      exact h.release hport
  | bindElsewhere port =>
      simp only [Ports.step, Option.ite_none_left_eq_some, Option.some.injEq] at hstep
      obtain ⟨-, rfl⟩ := hstep
      exact h.mono rfl (fun p => le_rfl) fun p => le_rfl
  | closeElsewhere port =>
      obtain rfl := Option.some.inj hstep
      exact h.mono rfl (fun p => le_rfl) fun p => le_rfl

end Apart

/-- In every run that keeps the checks of a port apart, the ports held at once are
distinct. -/
theorem held_ports_distinct {elsewhere : Finset ℕ} {actions : List PortAction}
    (hmeets : Meets step ApartChecks (initial elsewhere) actions)
    (hrun : run step (initial elsewhere) actions = some t) : t.Distinct := by
  have hapart : Apart t :=
    invariant (fun _ _ _ hinv hguard hstep => Apart.step hinv hguard hstep)
      (Apart.initial elsewhere) hmeets hrun
  exact hapart.distinct

section Examples

/-- Two threads probe in turn, and the second is handed the port the first has closed. -/
def probeInTurn : List PortAction :=
  [.allocate 0 false, .allocate 1 false, .bind 0 50000, .close 0, .bind 1 50000, .close 1]

/-- The second thread looks the port up when the first has taken it. -/
def takenInTurn : List PortAction :=
  probeInTurn ++ [.contains 0, .take 0, .contains 1, .bind 1 50001, .close 1, .contains 1, .take 1]

/-- Both threads look the port up before either takes it. -/
def takenAtOnce : List PortAction :=
  probeInTurn ++ [.contains 0, .contains 1, .take 0, .take 1]

theorem held_ports_distinct_once :
    ∃ t, run step (initial ∅) takenInTurn = some t ∧ t.Distinct := by
  have hmeets : Meets step ApartChecks (initial ∅) takenInTurn := by decide
  exact ⟨_, rfl, held_ports_distinct hmeets rfl⟩

theorem held_twice :
    ¬ ∀ (elsewhere : Finset ℕ) (actions : List PortAction) (t : Ports),
      run step (initial elsewhere) actions = some t → t.Distinct := by
  intro h
  exact absurd (h ∅ takenAtOnce _ rfl) (by decide)

end Examples

end Ports

end A2aItk.Launcher
