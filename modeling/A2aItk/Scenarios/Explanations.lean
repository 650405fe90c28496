import A2aItk.Scenarios.Coverage
import A2aItk.Scenarios.Names
import A2aItk.Scenarios.Trimming

/-!
# What the coverage diff explains

`scripts/scenarios_diff.py` looks for a written reason for every hop that is gone. The
resolver takes hops out on its own: by the rows of the matrix, by the identifiers of the
agents, and by the known failures. The two accounts are compared over stars around the
SUT.
-/

namespace A2aItk.Scenarios

open Python Traversal

section Diff

/-- Every hop of a list of scenarios. -/
def allAtoms (scenarios : List ResolvedScenario) : Except PyError (List Atom) := do
  let found ← scenarios.mapM atoms
  pure found.flatten

/-- Why an agent cannot make a hop over the transport, as the matrix has it. -/
def unspoken (matrix : Matrix) (transport agent : String) : Option String :=
  match matrix.resolve agent with
  -- 'current' and friends aren't matrix lines
  | .error _ => none
  | .ok entry =>
      if transport ∈ entry.transports then none
      else some (s!"matrix.yaml: {agent} does not speak {transport} " ++
        s!"(has {reprList (sortedSet entry.transports)})")

/-- Why a hop is legitimately no longer tested, or `none` if it isn't. -/
def explainDrop (a : Atom) (matrix : Matrix) (known : KnownFailures)
    (sutSdk : Option String) : Option String :=
  match [a.caller, a.callee].findSome? (unspoken matrix a.transport) with
  | some why => some why
  | none =>
      (known.find [a.caller, a.callee] (some [a.transport]) a.behavior a.streaming sutSdk).map
        fun hit => s!"known_failures.yaml: {hit.describe}"

/-- Every hop that is gone has a reason, and no hop that is still there has one. -/
structure LossesExplained (matrix : Matrix) (known : KnownFailures) (sutSdk : Option String)
    (old new : List Atom) : Prop where
  lost : ∀ a ∈ old, a ∉ new → explainDrop a matrix known sutSdk ≠ none
  retained : ∀ a ∈ old, a ∈ new → explainDrop a matrix known sutSdk = none

theorem exists_allAtoms {scenarios : List ResolvedScenario}
    (h : ∀ s ∈ scenarios, ∃ found, atoms s = .ok found) :
    ∃ all, allAtoms scenarios = .ok all ∧
      ∀ a, a ∈ all ↔ ∃ s ∈ scenarios, ∃ found, atoms s = .ok found ∧ a ∈ found := by
  obtain ⟨parts, hparts⟩ : ∃ parts, scenarios.mapM atoms = .ok parts := by
    induction scenarios with
    | nil => exact ⟨[], rfl⟩
    | cons s rest ih =>
        obtain ⟨found, hfound⟩ := h s List.mem_cons_self
        obtain ⟨parts, hparts⟩ := ih fun r hr => h r (List.mem_cons_of_mem _ hr)
        exact ⟨found :: parts, by simp [List.mapM_cons, hfound, hparts]⟩
  refine ⟨parts.flatten, by rw [allAtoms, hparts, ok_bind, pure_eq_ok], fun a => ?_⟩
  have hmem := mem_flatMap_of_forall₂ (x := a) (g := id) (mapM_eq_ok_iff.mp hparts)
  rwa [List.flatMap_id] at hmem

end Diff

section Unlimited

/-- The row, speaking every transport. -/
def MatrixEntry.unlimited (e : MatrixEntry) : MatrixEntry := { e with transports := transportOrder }

/-- The matrix with unlimited capabilities. -/
def Matrix.unlimited (m : Matrix) : Matrix where
  rows := m.rows.map MatrixEntry.unlimited
  distinct := by
    rw [List.map_map]
    exact m.distinct

variable {d : TraversalScenarioV1} {matrix : Matrix} {sutSdk : Option String} {v : Variant}
  {p : String} {entry : MatrixEntry}

@[simp] theorem agentId_unlimited (e : MatrixEntry) : e.unlimited.agentId = e.agentId := rfl

theorem supports_unlimited (e : MatrixEntry) (transports : List Transport) :
    e.unlimited.supports (transports.map Transport.value) = true := by
  rw [MatrixEntry.supports, List.all_map, List.all_eq_true]
  intro t _
  change decide (t.value ∈ transportOrder) = true
  cases t <;> decide

/-- The same identifiers resolve. -/
theorem resolve_unlimited_eq_ok_iff :
    matrix.unlimited.resolve p = .ok entry ↔
      ∃ e, matrix.resolve p = .ok e ∧ e.unlimited = entry := by
  unfold Matrix.resolve
  by_cases hsut : p = sutId
  · simp [hsut]
  · rw [if_neg hsut, if_neg hsut]
    cases agentIdParts p with
    | none => simp
    | some parts =>
        have hfind : matrix.unlimited.rows.find? (fun e => e.sdk = parts.1 && e.line = parts.2) =
            (matrix.rows.find? fun e => e.sdk = parts.1 && e.line = parts.2).map
              MatrixEntry.unlimited := List.find?_map ..
        cases hrow : matrix.rows.find? fun e => e.sdk = parts.1 && e.line = parts.2 with
        | none => simp [hfind, hrow]
        | some e => simp [hfind, hrow]

theorem requested_unlimited_iff :
    Requested d matrix.unlimited sutSdk p entry ↔
      ∃ e, Requested d matrix sutSdk p e ∧ e.unlimited = entry := by
  constructor
  · intro h
    cases h with
    | named hpeers hpeer hentry =>
        obtain ⟨e, he, rfl⟩ := resolve_unlimited_eq_ok_iff.mp hentry
        exact ⟨e, .named hpeers hpeer he, rfl⟩
    | selected hpeers hentry =>
        obtain ⟨e, he, rfl⟩ := List.mem_map.mp hentry
        have hrow : Requested d matrix sutSdk e.agentId e := .selected hpeers he
        exact ⟨e, hrow, rfl⟩
    | ownLine hpeers hown hsut hentry hnew =>
        obtain ⟨e, he, rfl⟩ := List.mem_map.mp hentry
        have hrow : Requested d matrix sutSdk e.agentId e := .ownLine hpeers hown hsut he hnew
        exact ⟨e, hrow, rfl⟩
  · rintro ⟨e, h, rfl⟩
    cases h with
    | named hpeers hpeer hentry =>
        exact .named hpeers hpeer (resolve_unlimited_eq_ok_iff.mpr ⟨e, hentry, rfl⟩)
    | selected hpeers hentry =>
        have hrow : e.unlimited ∈ matrix.unlimited.rows := List.mem_map_of_mem hentry
        exact .selected hpeers hrow
    | ownLine hpeers hown hsut hentry hnew =>
        have hrow : e.unlimited ∈ matrix.unlimited.rows := List.mem_map_of_mem hentry
        have hsdk : sutSdk = some e.unlimited.sdk := hsut
        exact .ownLine hpeers hown hsdk hrow hnew

theorem intersect_unlimited (transports : List Transport) :
    intersect matrix.unlimited p transports = transports := by
  unfold intersect
  cases hresolve : matrix.unlimited.resolve p with
  | error e => rfl
  | ok entry =>
      obtain ⟨e, -, rfl⟩ := resolve_unlimited_eq_ok_iff.mp hresolve
      have hall := List.all_eq_true.mp (supports_unlimited e transports)
      rw [List.filter_eq_self]
      intro t ht
      exact hall t.value (List.mem_map_of_mem ht)

/-- Every peer that was asked for reaches every transport. -/
theorem reached_unlimited (e : MatrixEntry) :
    reached d matrix.unlimited v p e.unlimited = v.transports := by
  unfold reached
  cases d.expand with
  | together => simp [supports_unlimited, supportsAll, intersect_unlimited]
  | perPeer => exact intersect_unlimited v.transports

end Unlimited

section Hops

variable {d : TraversalScenarioV1} {matrix : Matrix} {sutSdk : Option String}
  {known : KnownFailures} {v : Variant} {t : Transport} {p : String} {a : Atom}

/-- The hops between the SUT and a peer, out and back, over the transports of a variant. -/
def armHops (v : Variant) (p : String) : List Atom :=
  v.transports.flatMap fun t =>
    [{ caller := sutId, callee := p, transport := t.value, behavior := v.behavior.value,
       streaming := v.streaming },
     { caller := p, callee := sutId, transport := t.value, behavior := v.behavior.value,
       streaming := v.streaming }]

theorem mem_armHops :
    a ∈ armHops v p ↔ a.behavior = v.behavior.value ∧ a.streaming = v.streaming ∧
      a.transport ∈ v.transports.map Transport.value ∧
      ((a.caller = sutId ∧ a.callee = p) ∨ (a.caller = p ∧ a.callee = sutId)) := by
  obtain ⟨caller, callee, transport, behavior, streaming⟩ := a
  simp only [armHops, List.mem_flatMap, List.mem_map, List.mem_cons, List.not_mem_nil, or_false,
    Atom.mk.injEq]
  constructor
  · rintro ⟨t, ht, ⟨rfl, rfl, rfl, rfl, rfl⟩ | ⟨rfl, rfl, rfl, rfl, rfl⟩⟩
    · exact ⟨rfl, rfl, ⟨t, ht, rfl⟩, Or.inl ⟨rfl, rfl⟩⟩
    · exact ⟨rfl, rfl, ⟨t, ht, rfl⟩, Or.inr ⟨rfl, rfl⟩⟩
  · rintro ⟨rfl, rfl, ⟨t, ht, rfl⟩, ⟨rfl, rfl⟩ | ⟨rfl, rfl⟩⟩
    · exact ⟨t, ht, Or.inl ⟨rfl, rfl, rfl, rfl, rfl⟩⟩
    · exact ⟨t, ht, Or.inr ⟨rfl, rfl, rfl, rfl, rfl⟩⟩

/-- The pairs the diff sees in a star. -/
theorem edgePairs_star {s : ResolvedScenario} {hub : String} {peers : List String}
    (hsdks : s.sdks = hub :: peers) (h : topologyToEdges .star s.sdks.length = .ok s.edges) :
    edgePairs s = .ok (starHops hub peers) := by
  have hlen : minNodes ≤ s.sdks.length := by
    by_contra hfew
    rw [topologyToEdges, if_pos (Nat.not_le.mp hfew)] at h
    cases h
  rw [topologyToEdges_eq_wires hlen] at h
  have hwires : wires s.sdks.length .star = some _ := rfl
  have hparse := parse_wires (wires_lt hlen hwires)
  have hedges := Except.ok.inj h
  rw [hwires, Option.map_some] at hedges
  rw [edgePairs, ← hedges]
  dsimp only
  rw [edgePairs_of_parse hparse, hsdks]
  exact congrArg Except.ok (map_wired_star hub peers)

/-- The diff's hops of a star around the SUT are those of its arms. -/
theorem atoms_star {s : ResolvedScenario} {peers : List String} (hne : v.transports ≠ [])
    (hsdks : s.sdks = sutId :: peers) (h : topologyToEdges .star s.sdks.length = .ok s.edges)
    (hprotocols : s.protocols = some (v.transports.map Transport.value))
    (hbehavior : s.behavior = v.behavior.value) (hstreaming : s.streaming = v.streaming) :
    ∃ found, atoms s = .ok found ∧ ∀ a, a ∈ found ↔ ∃ p ∈ peers, a ∈ armHops v p := by
  have hpairs := edgePairs_star hsdks h
  have htransports : diffTransports s = v.transports.map Transport.value := by
    unfold diffTransports
    rw [hprotocols]
    cases hts : v.transports with
    | nil => exact absurd hts hne
    | cons t ts => rfl
  have hatoms : ∃ found, atoms s = .ok found := by
    rw [atoms, hpairs]
    exact ⟨_, rfl⟩
  obtain ⟨found, hfound⟩ := hatoms
  refine ⟨found, hfound, fun a => ?_⟩
  rw [mem_atoms_iff hfound, htransports, hpairs, hbehavior, hstreaming]
  simp only [mem_armHops, Except.ok.injEq, exists_eq_left', starHops, List.mem_append,
    List.mem_map, Prod.mk.injEq]
  constructor
  · rintro ⟨hb, hs, ht, ⟨p, hp, hcaller, hcallee⟩ | ⟨p, hp, hcaller, hcallee⟩⟩
    · exact ⟨p, hp, hb, hs, ht, Or.inl ⟨hcaller.symm, hcallee.symm⟩⟩
    · exact ⟨p, hp, hb, hs, ht, Or.inr ⟨hcaller.symm, hcallee.symm⟩⟩
  · rintro ⟨p, hp, hb, hs, ht, ⟨hcaller, hcallee⟩ | ⟨hcaller, hcallee⟩⟩
    · exact ⟨hb, hs, ht, Or.inl ⟨p, hp, hcaller.symm, hcallee.symm⟩⟩
    · exact ⟨hb, hs, ht, Or.inr ⟨p, hp, hcaller.symm, hcallee.symm⟩⟩

end Hops

section Stars

variable {d : TraversalScenarioV1} {matrix : Matrix} {sutSdk : Option String}
  {known : KnownFailures} {v : Variant} {t : Transport} {p : String} {entry : MatrixEntry}
  {g : Group} {found : List Group} {part : ResolutionReport} {peers : List String}

/-- Over a single transport, a part of what was asked for is all of it or nothing. -/
theorem intersect_single :
    intersect matrix p [t] = if supportsAll matrix p [t] then [t] else [] := by
  unfold supportsAll intersect
  cases matrix.resolve p with
  | error e => rfl
  | ok entry =>
      by_cases ht : t.value ∈ entry.transports
      · simp [ht]
      · simp [ht]

theorem reached_single (hone : v.transports = [t]) :
    reached d matrix v p entry ≠ [] ↔
      Eligible d v.transports entry ∧ supportsAll matrix p v.transports = true := by
  unfold reached Eligible
  cases d.expand with
  | together => simp [hone]
  | perPeer => simp [hone, intersect_single]

/-- Every group of a star around the SUT starts with it, and runs over the variant's
transport. -/
theorem group_star (hsut : d.roles.includeSut = true) (hone : v.transports = [t])
    (h : groups d matrix v.transports sutSdk = .ok found) (hg : g ∈ found) :
    g.used = v.transports ∧ ∃ peers, g.sdks = sutId :: peers ∧ ∀ p ∈ peers, p ≠ sutId := by
  obtain ⟨ids, hids, h⟩ := bind_eq_ok_iff.mp h
  have hpeer : ∀ p ∈ ids, p ≠ sutId := by
    intro p hp
    obtain ⟨entry, hrequested, -⟩ := (mem_peerIds_iff hids).mp hp
    exact hrequested.ne_sut
  have hhub : sut d = [sutId] := by rw [sut, if_pos hsut]
  cases hexpand : d.expand with
  | together =>
      rw [hexpand] at h
      obtain rfl := Except.ok.inj h
      obtain rfl := List.mem_singleton.mp hg
      refine ⟨rfl, _, by rw [hhub]; rfl, fun p hp => ?_⟩
      exact hpeer p (List.mem_filter.mp hp).1
  | perPeer =>
      rw [hexpand] at h
      obtain rfl := Except.ok.inj h
      obtain ⟨peer, hin, hg⟩ := List.mem_filterMap.mp hg
      dsimp only at hg
      split at hg
      · cases hg
      · rename_i hused
        obtain rfl := Option.some.inj hg
        refine ⟨?_, [peer], by rw [hhub]; rfl, fun p hp => ?_⟩
        · rw [hone, intersect_single] at hused ⊢
          split at hused
          · rename_i hsupports
            exact if_pos hsupports
          · simp at hused
        · rw [List.mem_singleton.mp hp]
          exact hpeer peer hin

/-- A named topology is given up only where too few agents stay. -/
theorem length_lt_of_restrict_none {sdks usable : List String} {topology : Topology}
    {edges : Option (List String)} {least : Nat}
    (h : restrictToAvailable sdks (some topology) edges usable least = .ok none) :
    (sdks.filter (· ∈ usable)).length < least := by
  unfold restrictToAvailable at h
  dsimp only at h
  split at h
  · assumption
  · simp only [Option.isNone_some, Bool.and_false, Bool.false_eq_true, if_false] at h
    obtain ⟨rebuilt, -, h⟩ := bind_eq_ok_iff.mp h
    cases h

/-- The SUT stays, and so does every peer that no rule takes out. -/
theorem kept_star (hsdks : g.sdks = sutId :: peers) (hpeers : ∀ p ∈ peers, p ≠ sutId) :
    g.sdks.filter
        (· ∈ (applyExclusions g.sdks known g.used v.behavior v.streaming sutSdk).1) =
      sutId :: peers.filter fun p => (ruleAgainst sutSdk known v p g.used).isNone := by
  have hhub : sutId ∈ (applyExclusions g.sdks known g.used v.behavior v.streaming sutSdk).1 := by
    simp [applyExclusions, hsdks]
  have hrest : peers.filter
      (· ∈ (applyExclusions g.sdks known g.used v.behavior v.streaming sutSdk).1) =
        peers.filter fun p => (ruleAgainst sutSdk known v p g.used).isNone := by
    apply List.filter_congr
    intro p hp
    have hin : p ∈ g.sdks := by simp [hsdks, hp]
    rw [Bool.eq_iff_iff, decide_eq_true_eq, mem_kept_iff (hpeers p hp), Option.isNone_iff_eq_none]
    exact and_iff_right hin
  generalize (applyExclusions g.sdks known g.used v.behavior v.streaming sutSdk).1 = kept at *
  rw [hsdks, List.filter_cons_of_pos (by simpa using hhub), hrest]

/-- The hops of what a group comes to, and that a peer that stays keeps it from being
skipped. -/
theorem atoms_of_part (hstar : resolvedTopology d = some .star) (hne : v.transports ≠ [])
    (hused : g.used = v.transports) (hsdks : g.sdks = sutId :: peers)
    (hpeers : ∀ p ∈ peers, p ≠ sutId) (h : expandGroup d sutSdk known v g = .ok part) :
    (∀ s ∈ part.scenarios, ∃ found, atoms s = .ok found ∧ ∀ a, a ∈ found ↔
      ∃ p ∈ peers, ruleAgainst sutSdk known v p v.transports = none ∧ a ∈ armHops v p) ∧
    ∀ p ∈ peers, ruleAgainst sutSdk known v p v.transports = none → part.scenarios ≠ [] := by
  have hkept := @kept_star sutSdk known v g peers hsdks hpeers
  rw [hused] at hkept
  obtain ⟨-, ⟨hnone, -, why, rfl⟩ | ⟨sdks, edges, hrestricted, rfl⟩⟩ := expandGroup_cases h
  · refine ⟨by simp, fun p hp hrule => ?_⟩
    rw [hstar] at hnone
    have hfew := length_lt_of_restrict_none hnone
    rw [hused, hkept] at hfew
    have hstays : p ∈ peers.filter fun p => (ruleAgainst sutSdk known v p v.transports).isNone :=
      List.mem_filter.mpr ⟨hp, by rw [hrule]; rfl⟩
    have hpos := List.length_pos_of_mem hstays
    simp only [List.length_cons, minAgents] at hfew
    omega
  · refine ⟨fun s hs => ?_, by simp⟩
    rw [hstar] at hrestricted
    have hall := restrictToAvailable_kept hrestricted
    rw [hused, hkept] at hall
    have hedges := (restrictToAvailable_named hrestricted).2
    obtain rfl := List.mem_singleton.mp hs
    obtain ⟨found, hfound, hmem⟩ := atoms_star (s := emitted d v g sdks edges) hne hall hedges
      (by rw [emitted, hused]) rfl rfl
    refine ⟨found, hfound, fun a => ?_⟩
    rw [hmem]
    simp only [List.mem_filter, Option.isNone_iff_eq_none, and_assoc]

end Stars

section Runs

variable {d : TraversalScenarioV1} {matrix : Matrix} {sutSdk : Option String}
  {known : KnownFailures} {v : Variant} {t : Transport} {g : Group} {found : List Group}
  {part report : ResolutionReport}

/-- A peer that a variant is run over. -/
def Tested (d : TraversalScenarioV1) (matrix : Matrix) (sutSdk : Option String)
    (known : KnownFailures) (v : Variant) (p : String) : Prop :=
  (∃ entry, Requested d matrix sutSdk p entry ∧ reached d matrix v p entry ≠ []) ∧
    ruleAgainst sutSdk known v p v.transports = none

theorem exists_transport (hsingle : ∀ ts ∈ d.transportVariants, ts.length = 1)
    (hv : v ∈ variants d) : ∃ t, v.transports = [t] :=
  List.length_eq_one_iff.mp (hsingle _ (mem_variants.mp hv).2.1)

/-- What a declaration on its own resolves to is what its variants resolve to. -/
theorem mem_resolveAll_solo_iff (hadmitted : skipReason d sutSdk = none)
    (h : resolveAll [.traversal d] matrix sutSdk known = .ok report) {s : ResolvedScenario} :
    s ∈ report.scenarios ↔
      ∃ v ∈ variants d, ∃ r, expandVariant d matrix sutSdk known v = .ok r ∧
        s ∈ r.scenarios := by
  obtain ⟨reports, hreports, rfl, -⟩ := resolveAll_eq_ok_iff.mp h
  obtain ⟨r, rest, hr, hrest, rfl⟩ := List.forall₂_cons_left_iff.mp hreports
  obtain rfl := List.forall₂_nil_left_iff.mp hrest
  rw [resolveOne_of_admitted hadmitted] at hr
  simpa [ResolutionReport.join_scenarios] using mem_expand_iff hr (s := s)

/-- The hops of a group of a star around the SUT, and that a peer that stays keeps it
from being skipped. -/
theorem atoms_of_group (hstar : resolvedTopology d = some .star)
    (hsut : d.roles.includeSut = true) (hone : v.transports = [t])
    (hfound : groups d matrix v.transports sutSdk = .ok found) (hg : g ∈ found)
    (hpart : expandGroup d sutSdk known v g = .ok part) :
    (∀ s ∈ part.scenarios, ∃ all, atoms s = .ok all ∧ ∀ a, a ∈ all ↔
      ∃ p ∈ g.sdks, p ≠ sutId ∧ ruleAgainst sutSdk known v p v.transports = none ∧
        a ∈ armHops v p) ∧
    ∀ p ∈ g.sdks, p ≠ sutId → ruleAgainst sutSdk known v p v.transports = none →
      part.scenarios ≠ [] := by
  obtain ⟨hused, peers, hsdks, hpeers⟩ := group_star hsut hone hfound hg
  have hne : v.transports ≠ [] := by simp [hone]
  obtain ⟨hatoms, hstays⟩ := atoms_of_part hstar hne hused hsdks hpeers hpart
  have hmem {p : String} : (p ∈ g.sdks ∧ p ≠ sutId) ↔ p ∈ peers := by
    rw [hsdks, List.mem_cons]
    constructor
    · rintro ⟨rfl | hp, hne⟩
      · exact absurd rfl hne
      · exact hp
    · exact fun hp => ⟨Or.inr hp, hpeers p hp⟩
  constructor
  · intro s hs
    obtain ⟨all, hall, hiff⟩ := hatoms s hs
    refine ⟨all, hall, fun a => (hiff a).trans ?_⟩
    simp only [← hmem, and_assoc]
  · exact fun p hp hne => hstays p (hmem.mp ⟨hp, hne⟩)

/-- The hops of a declaration are the arms to the peers that its variants are run over. -/
theorem exists_mem_allAtoms_iff (hstar : resolvedTopology d = some .star)
    (hsut : d.roles.includeSut = true) (hsingle : ∀ ts ∈ d.transportVariants, ts.length = 1)
    (hadmitted : skipReason d sutSdk = none)
    (h : resolveAll [.traversal d] matrix sutSdk known = .ok report) :
    ∃ all, allAtoms report.scenarios = .ok all ∧ ∀ a, a ∈ all ↔
      ∃ v ∈ variants d, ∃ p, Tested d matrix sutSdk known v p ∧ a ∈ armHops v p := by
  have hscenarios {s : ResolvedScenario} := mem_resolveAll_solo_iff hadmitted h (s := s)
  have hall : ∀ s ∈ report.scenarios, ∃ found, atoms s = .ok found := by
    intro s hs
    obtain ⟨v, hv, r, hr, hs⟩ := hscenarios.mp hs
    obtain ⟨t, ht⟩ := exists_transport hsingle hv
    obtain ⟨found, -, hfound, -, -⟩ := expandVariant_eq_ok_iff.mp hr
    obtain ⟨g, hg, part, hpart, hs⟩ := exists_group_of_scenario hfound hr hs
    obtain ⟨all, hatoms, -⟩ := (atoms_of_group hstar hsut ht hfound hg hpart).1 s hs
    exact ⟨all, hatoms⟩
  obtain ⟨all, hatoms, hmem⟩ := exists_allAtoms hall
  refine ⟨all, hatoms, fun a => (hmem a).trans ?_⟩
  constructor
  · rintro ⟨s, hs, listed, hlisted, ha⟩
    obtain ⟨v, hv, r, hr, hs⟩ := hscenarios.mp hs
    obtain ⟨t, ht⟩ := exists_transport hsingle hv
    obtain ⟨found, -, hfound, -, -⟩ := expandVariant_eq_ok_iff.mp hr
    obtain ⟨g, hg, part, hpart, hs⟩ := exists_group_of_scenario hfound hr hs
    obtain ⟨listed', hlisted', hiff⟩ := (atoms_of_group hstar hsut ht hfound hg hpart).1 s hs
    obtain rfl := Except.ok.inj (hlisted.symm.trans hlisted')
    obtain ⟨p, hp, hne, hrule, ha⟩ := (hiff a).mp ha
    obtain ⟨hmembers, -, hused, -⟩ := groups_spec (transports_ne_nil hv) hfound
    obtain ⟨heq, -⟩ | ⟨entry, hrequested, hreached⟩ := hmembers g hg p hp
    · exact absurd heq hne
    · have hsome : reached d matrix v p entry ≠ [] := hreached ▸ hused g hg
      exact ⟨v, hv, p, ⟨⟨entry, hrequested, hsome⟩, hrule⟩, ha⟩
  · rintro ⟨v, hv, p, ⟨⟨entry, hrequested, hreached⟩, hrule⟩, ha⟩
    obtain ⟨t, ht⟩ := exists_transport hsingle hv
    obtain ⟨r, hr, hwithin⟩ := exists_variantReport hadmitted (List.mem_singleton_self _) h hv
    obtain ⟨found, -, hfound, -, -⟩ := expandVariant_eq_ok_iff.mp hr
    obtain ⟨-, hreaches, -, -⟩ := groups_spec (transports_ne_nil hv) hfound
    obtain ⟨g, hg, hp, -⟩ := hreaches p entry hrequested hreached
    obtain ⟨part, hpart, hpartWithin⟩ := exists_groupReport hfound hr hg
    obtain ⟨hlisted, hstays⟩ := atoms_of_group hstar hsut ht hfound hg hpart
    have hne := hrequested.ne_sut
    obtain ⟨s, hs⟩ := List.exists_mem_of_ne_nil _ (hstays p hp hne hrule)
    obtain ⟨listed, hatoms, hiff⟩ := hlisted s hs
    have hin := hwithin.scenarios.subset (hpartWithin.scenarios.subset hs)
    exact ⟨s, hin, listed, hatoms, (hiff a).mpr ⟨p, hp, hne, hrule, ha⟩⟩

end Runs

section Reasons

variable {d : TraversalScenarioV1} {matrix : Matrix} {sutSdk : Option String}
  {known : KnownFailures} {v : Variant} {t : Transport} {p q : String} {a : Atom}

theorem unspoken_sut (transport : String) : unspoken matrix transport sutId = none := by
  simp [unspoken, Matrix.resolve]

theorem unspoken_eq_none_iff :
    unspoken matrix t.value p = none ↔ supportsAll matrix p [t] = true := by
  unfold unspoken supportsAll intersect
  cases matrix.resolve p with
  | error e => simp
  | ok entry =>
      by_cases ht : t.value ∈ entry.transports
      · simp [ht]
      · simp [ht]

/-- A rule covers two agents in either order. -/
theorem find_swap (protocols : Option (List String)) (behavior : String) (streaming : Bool) :
    known.find [p, q] protocols behavior streaming sutSdk =
      known.find [q, p] protocols behavior streaming sutSdk := by
  unfold KnownFailures.find
  congr 1
  funext e
  have hswap (x : String) : x ∈ [p, q] ↔ x ∈ [q, p] := (List.Perm.swap q p []).mem_iff
  simp only [Exclusion.matchesScenario, hswap]

/-- The diff has no reason against an arm exactly where the identifier of its peer stands
for the transport and no rule covers it. -/
theorem explainDrop_arm (hone : v.transports = [t]) (ha : a ∈ armHops v p) :
    explainDrop a matrix known sutSdk = none ↔
      supportsAll matrix p v.transports = true ∧
        ruleAgainst sutSdk known v p v.transports = none := by
  obtain ⟨hbehavior, hstreaming, htransport, hends⟩ := mem_armHops.mp ha
  have ht : a.transport = t.value := by simpa [hone] using htransport
  have hfirst : [a.caller, a.callee].findSome? (unspoken matrix a.transport) =
      unspoken matrix t.value p := by
    obtain ⟨hcaller, hcallee⟩ | ⟨hcaller, hcallee⟩ := hends
    · simp [hcaller, hcallee, ht, unspoken_sut]
    · cases hp : unspoken matrix t.value p <;> simp [hcaller, hcallee, ht, unspoken_sut, hp]
  have hrule : known.find [a.caller, a.callee] (some [a.transport]) a.behavior a.streaming sutSdk =
      ruleAgainst sutSdk known v p v.transports := by
    rw [ruleAgainst, hone, hbehavior, hstreaming, ht]
    obtain ⟨hcaller, hcallee⟩ | ⟨hcaller, hcallee⟩ := hends
    · rw [hcaller, hcallee]
      rfl
    · rw [hcaller, hcallee]
      exact find_swap _ _ _
  unfold explainDrop
  rw [hfirst, hrule, hone, ← unspoken_eq_none_iff]
  cases unspoken matrix t.value p with
  | some why => simp
  | none => simp

theorem behavior_value_injective : Function.Injective Behavior.value := by
  intro a b h
  revert h
  cases a <;> cases b <;> decide

/-- An arm tells its variant and its peer. -/
theorem armHops_inj {w : Variant} {t' : Transport} (hv : v.transports = [t])
    (hw : w.transports = [t']) (hp : p ≠ sutId) (hq : q ≠ sutId) (ha : a ∈ armHops v p)
    (ha' : a ∈ armHops w q) : w = v ∧ q = p := by
  obtain ⟨hbehavior, hstreaming, htransport, hends⟩ := mem_armHops.mp ha
  obtain ⟨hbehavior', hstreaming', htransport', hends'⟩ := mem_armHops.mp ha'
  have ht : t' = t := by
    apply transport_value_injective
    rw [hv, List.map_singleton, List.mem_singleton] at htransport
    rw [hw, List.map_singleton, List.mem_singleton] at htransport'
    exact htransport'.symm.trans htransport
  have hb : w.behavior = v.behavior := behavior_value_injective (hbehavior'.symm.trans hbehavior)
  have hs : w.streaming = v.streaming := hstreaming'.symm.trans hstreaming
  constructor
  · obtain ⟨b, ts, s⟩ := v
    obtain ⟨b', ts', s'⟩ := w
    subst hb hs ht hv hw
    rfl
  · obtain ⟨hcaller, hcallee⟩ | ⟨hcaller, hcallee⟩ := hends
    · obtain ⟨-, hcallee'⟩ | ⟨hcaller', -⟩ := hends'
      · exact hcallee'.symm.trans hcallee
      · exact absurd (hcaller'.symm.trans hcaller) hq
    · obtain ⟨hcaller', -⟩ | ⟨hcaller', -⟩ := hends'
      · exact absurd (hcaller.symm.trans hcaller') hp
      · exact hcaller'.symm.trans hcaller

end Reasons

section Agreement

variable {d : TraversalScenarioV1} {matrix : Matrix} {sutSdk : Option String}
  {known : KnownFailures} {v : Variant} {t : Transport} {p : String} {entry : MatrixEntry}

/-- Where peers run together, an identifier all of whose rows lack the transport of a
variant stands for a row that lacks it too, or a rule covers the peer. -/
def Accounted (d : TraversalScenarioV1) (matrix : Matrix) (sutSdk : Option String)
    (known : KnownFailures) : Prop :=
  d.expand = .together → ∀ v ∈ variants d, ∀ p entry, Requested d matrix sutSdk p entry →
    (∃ other, Requested d matrix sutSdk p other ∧
      other.supports (v.transports.map Transport.value) = true) ∨
    supportsAll matrix p v.transports = false ∨
    ruleAgainst sutSdk known v p v.transports ≠ none

/-- Identifiers that resolve to the rows they are asked for with leave no loss open. -/
theorem accounted_of_resolve
    (h : ∀ p entry, Requested d matrix sutSdk p entry → matrix.resolve p = .ok entry) :
    Accounted d matrix sutSdk known := by
  intro _ v _ p entry hrequested
  cases hrow : entry.supports (v.transports.map Transport.value) with
  | true => exact Or.inl ⟨entry, hrequested, hrow⟩
  | false =>
      refine Or.inr (Or.inl ?_)
      rw [← Bool.not_eq_true, supportsAll_iff (h p entry hrequested), hrow]
      exact Bool.false_ne_true

/-- Without rules and limits a variant is run over every peer that was asked for. -/
theorem tested_unlimited_iff (hone : v.transports = [t]) :
    Tested d matrix.unlimited sutSdk {} v p ↔ ∃ entry, Requested d matrix sutSdk p entry := by
  have hrule : ruleAgainst sutSdk {} v p v.transports = none := rfl
  constructor
  · rintro ⟨⟨entry, hrequested, -⟩, -⟩
    obtain ⟨e, he, -⟩ := requested_unlimited_iff.mp hrequested
    exact ⟨e, he⟩
  · rintro ⟨e, he⟩
    refine ⟨⟨e.unlimited, requested_unlimited_iff.mpr ⟨e, he, rfl⟩, ?_⟩, hrule⟩
    rw [reached_unlimited, hone]
    exact List.cons_ne_nil t []

/-- A peer is tested where one of its rows may come in, its identifier stands for the
transport, and no rule covers it. -/
theorem tested_iff (hone : v.transports = [t]) :
    Tested d matrix sutSdk known v p ↔
      (∃ entry, Requested d matrix sutSdk p entry ∧ Eligible d v.transports entry) ∧
        supportsAll matrix p v.transports = true ∧
        ruleAgainst sutSdk known v p v.transports = none := by
  simp only [Tested, reached_single hone]
  constructor
  · rintro ⟨⟨entry, hrequested, heligible, hsupports⟩, hrule⟩
    exact ⟨⟨entry, hrequested, heligible⟩, hsupports, hrule⟩
  · rintro ⟨⟨entry, hrequested, heligible⟩, hsupports, hrule⟩
    exact ⟨⟨entry, hrequested, heligible, hsupports⟩, hrule⟩

/-- An arm is among the hops of a declaration exactly where its own variant tests its own
peer. -/
theorem arm_mem_iff (hsingle : ∀ ts ∈ d.transportVariants, ts.length = 1) {all : List Atom}
    (hall : ∀ a, a ∈ all ↔
      ∃ v ∈ variants d, ∃ p, Tested d matrix sutSdk known v p ∧ a ∈ armHops v p)
    (hv : v ∈ variants d) (hp : p ≠ sutId) {a : Atom} (ha : a ∈ armHops v p) :
    a ∈ all ↔ Tested d matrix sutSdk known v p := by
  rw [hall]
  constructor
  · rintro ⟨w, hw, q, htested, ha'⟩
    obtain ⟨t, ht⟩ := exists_transport hsingle hv
    obtain ⟨t', ht'⟩ := exists_transport hsingle hw
    obtain ⟨entry, hrequested, -⟩ := htested.1
    obtain ⟨rfl, rfl⟩ := armHops_inj ht ht' hp hrequested.ne_sut ha ha'
    exact htested
  · exact fun htested => ⟨v, hv, p, htested, ha⟩

/-- The diff explains exactly the losses of a star around the SUT, over one transport at a
time, exactly where the rows of the matrix and the identifiers account for the same. -/
theorem losses_explained_iff (d : TraversalScenarioV1) (matrix : Matrix)
    (sutSdk : Option String) (known : KnownFailures) {full real : ResolutionReport}
    (hstar : resolvedTopology d = some .star) (hsut : d.roles.includeSut = true)
    (hsingle : ∀ ts ∈ d.transportVariants, ts.length = 1)
    (hadmitted : skipReason d sutSdk = none)
    (hfull : resolveAll [.traversal d] matrix.unlimited sutSdk {} = .ok full)
    (hreal : resolveAll [.traversal d] matrix sutSdk known = .ok real) :
    (∃ old new, allAtoms full.scenarios = .ok old ∧ allAtoms real.scenarios = .ok new ∧
      LossesExplained matrix known sutSdk old new) ↔ Accounted d matrix sutSdk known := by
  obtain ⟨old, hold, hmemOld⟩ := exists_mem_allAtoms_iff hstar hsut hsingle hadmitted hfull
  obtain ⟨new, hnew, hmemNew⟩ := exists_mem_allAtoms_iff hstar hsut hsingle hadmitted hreal
  simp only [hold, hnew, Except.ok.injEq, exists_eq_left', exists_and_left]
  constructor
  · intro hexplained htogether v hv p entry hrequested
    obtain ⟨t, ht⟩ := exists_transport hsingle hv
    have ha : (⟨sutId, p, t.value, v.behavior.value, v.streaming⟩ : Atom) ∈ armHops v p :=
      mem_armHops.mpr ⟨rfl, rfl, by simp [ht], Or.inl ⟨rfl, rfl⟩⟩
    have hin := (hmemOld _).mpr ⟨v, hv, p, (tested_unlimited_iff ht).mpr ⟨entry, hrequested⟩, ha⟩
    by_contra hopen
    rw [not_or, not_or, Bool.not_eq_false, not_not] at hopen
    obtain ⟨hrows, hsupports, hrule⟩ := hopen
    refine hexplained.lost _ hin ?_ ((explainDrop_arm ht ha).mpr ⟨hsupports, hrule⟩)
    rw [arm_mem_iff hsingle hmemNew hv hrequested.ne_sut ha, tested_iff ht]
    rintro ⟨⟨other, hother, hperPeer | hrow⟩, -⟩
    · cases htogether.symm.trans hperPeer
    · exact hrows ⟨other, hother, hrow⟩
  · intro haccounted
    constructor
    · intro a ha hgone hnone
      obtain ⟨v, hv, p, htested, ha⟩ := (hmemOld a).mp ha
      obtain ⟨t, ht⟩ := exists_transport hsingle hv
      obtain ⟨entry, hrequested⟩ := (tested_unlimited_iff ht).mp htested
      obtain ⟨hsupports, hrule⟩ := (explainDrop_arm ht ha).mp hnone
      apply hgone
      rw [arm_mem_iff hsingle hmemNew hv hrequested.ne_sut ha, tested_iff ht]
      refine ⟨?_, hsupports, hrule⟩
      cases hexpand : d.expand with
      | perPeer => exact ⟨entry, hrequested, Or.inl hexpand⟩
      | together =>
          obtain ⟨other, hother, hrow⟩ | hnot | hnot := haccounted hexpand v hv p entry hrequested
          · exact ⟨other, hother, Or.inr hrow⟩
          · rw [hsupports] at hnot
            cases hnot
          · exact absurd hrule hnot
    · intro a ha hstays
      obtain ⟨v, hv, p, htested, ha⟩ := (hmemOld a).mp ha
      obtain ⟨t, ht⟩ := exists_transport hsingle hv
      obtain ⟨entry, hrequested⟩ := (tested_unlimited_iff ht).mp htested
      rw [arm_mem_iff hsingle hmemNew hv hrequested.ne_sut ha, tested_iff ht] at hstays
      exact (explainDrop_arm ht ha).mpr hstays.2

/-- Every line of the matrix at once, over gRPC. -/
def starOverGrpc : TraversalScenarioV1 where
  name := "star over grpc"
  roles := { peers := .all }
  behavior := some .sendMessage
  transports := some [.grpc]
  accepted := rfl

/-- A line that speaks JSON-RPC only, and two that speak everything. -/
def threeLines (line : String) : Matrix where
  rows := [
    { sdk := "go", line, repo := "a2aproject/a2a-go", ref := "main", transports := ["jsonrpc"] },
    { sdk := "python", line := "v10", repo := "a2aproject/a2a-python", ref := "main" },
    { sdk := "ts", line := "v03", repo := "a2aproject/a2a-js", ref := "main" }]
  distinct := by simp

/-- TypeScript's line fails over gRPC. -/
def tsOverGrpc : KnownFailures where
  exclusions := [{ reason := "no server", agents := ["ts_v03"], transports := ["grpc"] }]

theorem three_lines_explained :
    ∃ full real, resolveAll [.traversal starOverGrpc] (threeLines "v03").unlimited none {} =
        .ok full ∧
      resolveAll [.traversal starOverGrpc] (threeLines "v03") none tsOverGrpc = .ok real ∧
      ∃ old new, allAtoms full.scenarios = .ok old ∧ allAtoms real.scenarios = .ok new ∧
        LossesExplained (threeLines "v03") tsOverGrpc none old new := by
  refine ⟨_, _, rfl, rfl, (losses_explained_iff starOverGrpc (threeLines "v03") none tsOverGrpc
    rfl rfl (by decide) rfl rfl rfl).mpr (accounted_of_resolve fun p entry hrequested => ?_)⟩
  cases hrequested with
  | named hpeers _ _ => cases hpeers
  | ownLine hpeers _ _ _ _ => cases hpeers
  | selected _ hentry =>
      obtain rfl | rfl | rfl : entry = _ ∨ entry = _ ∨ entry = _ := by
        simpa [threeLines] using hentry
      · rfl
      · rfl
      · rfl

/-- A line whose identifier does not resolve is gone without a reason. -/
theorem unaddressed_line_unexplained :
    ∃ full real old new,
      resolveAll [.traversal starOverGrpc] (threeLines "main").unlimited none {} = .ok full ∧
      resolveAll [.traversal starOverGrpc] (threeLines "main") none {} = .ok real ∧
      allAtoms full.scenarios = .ok old ∧ allAtoms real.scenarios = .ok new ∧
      ⟨"current", "go_main", "grpc", "send_message", false⟩ ∈ old ∧
      ⟨"current", "go_main", "grpc", "send_message", false⟩ ∉ new ∧
      explainDrop ⟨"current", "go_main", "grpc", "send_message", false⟩ (threeLines "main") {}
        none = none ∧
      ¬ LossesExplained (threeLines "main") {} none old new := by
  have hnone : explainDrop ⟨"current", "go_main", "grpc", "send_message", false⟩
      (threeLines "main") {} none = none := by decide +kernel
  refine ⟨_, _, _, _, rfl, rfl, rfl, rfl, by decide +kernel, by decide +kernel, hnone, ?_⟩
  exact fun h => h.lost _ (by decide +kernel) (by decide +kernel) hnone

end Agreement

end A2aItk.Scenarios
