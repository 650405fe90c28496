import A2aItk.Scenarios.Resolver

/-!
# What becomes of a requested peer

A variant of a declaration is to be run over every peer that was asked for, as far
as its row of the matrix and the known failures allow. Each of them is run, trimmed
with the rule that takes it out, or its group is skipped, where the identifier of
its row stands for the transports of that row.
-/

namespace A2aItk.Scenarios

open Python

section Requests

variable (d : TraversalScenarioV1) (matrix : Matrix) (sutSdk : Option String)

/-- A peer that was asked for, with its row: by name, by `all`, or as one of the
SUT's own lines. -/
inductive Requested : String → MatrixEntry → Prop
  | named {peers : List PeerRef} {peer : PeerRef} {entry : MatrixEntry}
      (hpeers : d.roles.peers = .named peers) (hpeer : peer ∈ peers)
      (hentry : matrix.resolve peer.agentId = .ok entry) : Requested peer.agentId entry
  | selected {entry : MatrixEntry} (hpeers : d.roles.peers = .all)
      (hentry : entry ∈ matrix.rows) : Requested entry.agentId entry
  | ownLine {peers : List PeerRef} {entry : MatrixEntry}
      (hpeers : d.roles.peers = .named peers) (hown : d.roles.includeOwnLines = true)
      (hsut : sutSdk = some entry.sdk) (hentry : entry ∈ matrix.rows)
      (hnew : entry.agentId ∉ peers.map PeerRef.agentId) : Requested entry.agentId entry

/-- No identifier is asked for twice. -/
def DistinctPeers : Prop :=
  match d.roles.peers with
  | .named peers => (peers.map PeerRef.agentId).Nodup
  | .all => (matrix.rows.map MatrixEntry.agentId).Nodup

/-- The transports a peer is to be run over: all or none of them together, those
its row supports alone. -/
def allotted (v : Variant) (entry : MatrixEntry) : List Transport :=
  match d.expand with
  | .together => if entry.supports (v.transports.map Transport.value) then v.transports else []
  | .perPeer => v.transports.filter (·.value ∈ entry.transports)

/-- The transports its identifier stands for. -/
def reached (v : Variant) (p : String) (entry : MatrixEntry) : List Transport :=
  match d.expand with
  | .together =>
      if entry.supports (v.transports.map Transport.value) && supportsAll matrix p v.transports
      then v.transports else []
  | .perPeer => intersect matrix p v.transports

/-- The identifier of every row that is asked for stands for its transports. -/
def AddressesRows : Prop :=
  ∀ p entry, Requested d matrix sutSdk p entry → ∀ v ∈ variants d,
    reached d matrix v p entry = allotted d v entry

end Requests

section Outcomes

variable (d : TraversalScenarioV1) (sutSdk : Option String) (known : KnownFailures)

/-- The rule that takes a peer out of a variant over the given transports. -/
def ruleAgainst (v : Variant) (p : String) (transports : List Transport) : Option Exclusion :=
  known.find [sutId, p] (some (transports.map Transport.value)) v.behavior.value v.streaming
    sutSdk

/-- Exactly one of three. -/
def ExactlyOne (a b c : Prop) : Prop :=
  (a ∧ ¬b ∧ ¬c) ∨ (¬a ∧ b ∧ ¬c) ∨ (¬a ∧ ¬b ∧ c)

/-- The one scenario of the variant with the peer runs over its transports. -/
def Runs (variant part : ResolutionReport) (p : String) (transports : List Transport) : Prop :=
  ∃ s, part.scenarios = [s] ∧ p ∈ s.sdks ∧ s.protocols = some (transports.map Transport.value) ∧
    ∀ other ∈ variant.scenarios, p ∈ other.sdks → other = s

/-- The scenario runs without the peer, which a trimmed entry names with its rule. -/
def Trimmed (v : Variant) (part : ResolutionReport) (p : String)
    (transports : List Transport) : Prop :=
  ∃ s rule, part.scenarios = [s] ∧ p ∉ s.sdks ∧
    ruleAgainst sutSdk known v p transports = some rule ∧
    (s.name, p, rule.summary) ∈ part.trimmed

/-- The scenario does not run, and a skipped entry names it. -/
def Skipped (v : Variant) (group : Group) (part : ResolutionReport) : Prop :=
  part.scenarios = [] ∧ ∃ why, part.skipped = [((emitted d v group [] none).name, why)]

end Outcomes

section Requests

variable {d : TraversalScenarioV1} {matrix : Matrix} {sutSdk : Option String} {v : Variant}
  {p : String} {entry other : MatrixEntry} {ids : List String} {transports : List Transport}

theorem mem_entries : entry ∈ matrix.entries ↔ entry ∈ matrix.rows :=
  List.mem_insertionSort _

/-- The SUT is not a peer. -/
theorem Requested.ne_sut (h : Requested d matrix sutSdk p entry) : p ≠ sutId := by
  have hrow (e : MatrixEntry) : e.agentId ≠ sutId := by
    intro heq
    have hmem : '_' ∈ sutId.toList := by
      rw [← heq]
      simp [MatrixEntry.agentId, toString, String.toList_append]
    exact absurd hmem (by decide)
  cases h with
  | named hpeers hpeer hentry =>
      intro heq
      rw [Matrix.resolve, if_pos heq] at hentry
      cases hentry
  | selected hpeers hentry => exact hrow entry
  | ownLine hpeers hown hsut hentry hnew => exact hrow entry

theorem eq_of_key (h : entry ∈ matrix.rows) (h' : other ∈ matrix.rows)
    (hsdk : entry.sdk = other.sdk) (hline : entry.line = other.line) : entry = other :=
  List.inj_on_of_nodup_map matrix.distinct h h' (Prod.ext hsdk hline)

/-- Where no identifier is asked for twice, it is asked for with one row. -/
theorem Requested.unique (hdistinct : DistinctPeers d matrix)
    (h : Requested d matrix sutSdk p entry) (h' : Requested d matrix sutSdk p other) :
    entry = other := by
  unfold DistinctPeers at hdistinct
  cases h with
  | @named peers peer _ hpeers hpeer hentry =>
      generalize hp : peer.agentId = p at *
      cases h' with
      | named _ _ hentry' => exact Except.ok.inj (hentry.symm.trans hentry')
      | selected hpeers' _ => cases hpeers.symm.trans hpeers'
      | ownLine hpeers' _ _ _ hnew =>
          cases hpeers.symm.trans hpeers'
          exact absurd (List.mem_map.mpr ⟨peer, hpeer, hp⟩) hnew
  | selected hpeers hentry =>
      rw [hpeers] at hdistinct
      generalize hp : entry.agentId = p at *
      cases h' with
      | named hpeers' _ _ => cases hpeers.symm.trans hpeers'
      | selected _ hentry' => exact List.inj_on_of_nodup_map hdistinct hentry hentry' hp
      | ownLine hpeers' _ _ _ _ => cases hpeers.symm.trans hpeers'
  | ownLine hpeers hown hsut hentry hnew =>
      generalize hp : entry.agentId = p at *
      cases h' with
      | @named _ peer _ hpeers' hpeer' _ =>
          cases hpeers.symm.trans hpeers'
          exact absurd (List.mem_map.mpr ⟨peer, hpeer', rfl⟩) hnew
      | selected hpeers' _ => cases hpeers.symm.trans hpeers'
      | ownLine _ _ hsut' hentry' _ =>
          have hsdk : entry.sdk = other.sdk := Option.some.inj (hsut.symm.trans hsut')
          apply eq_of_key hentry hentry' hsdk
          have hl := congrArg String.toList hp
          simp only [MatrixEntry.agentId, toString, String.toList_append, hsdk] at hl
          apply String.toList_inj.mp
          simpa using hl

/-- An identifier that resolves stands for the transports of its row. -/
theorem supportsAll_iff (hentry : matrix.resolve p = .ok entry) :
    supportsAll matrix p transports = true ↔
      entry.supports (transports.map Transport.value) = true := by
  simp [supportsAll, intersect, hentry, List.length_filter_eq_length_iff, MatrixEntry.supports]

/-- A row that `peers: all` or the SUT's own lines may bring in. -/
def Eligible (d : TraversalScenarioV1) (transports : List Transport) (entry : MatrixEntry) : Prop :=
  d.expand = .perPeer ∨ entry.supports (transports.map Transport.value) = true

theorem mem_ownLines_iff {exclude : List String} :
    p ∈ ownLines d matrix transports sutSdk exclude ↔
      d.roles.includeOwnLines = true ∧ ∃ entry ∈ matrix.rows, sutSdk = some entry.sdk ∧
        entry.agentId ∉ exclude ∧ Eligible d transports entry ∧ entry.agentId = p := by
  unfold ownLines Eligible
  cases hown : d.roles.includeOwnLines with
  | false => simp
  | true =>
      cases sutSdk with
      | none => simp
      | some sut =>
          simp only [Bool.not_true, Bool.false_eq_true, if_false, List.mem_map, List.mem_filter,
            mem_entries, Bool.and_eq_true, Bool.or_eq_true, decide_eq_true_eq, true_and,
            Option.some.injEq]
          constructor
          · rintro ⟨entry, ⟨hrow, ⟨hsdk, hout⟩, heligible⟩, hp⟩
            exact ⟨entry, hrow, hsdk.symm, hout, heligible, hp⟩
          · rintro ⟨entry, hrow, hsdk, hout, heligible, hp⟩
            exact ⟨entry, ⟨hrow, ⟨hsdk.symm, hout⟩, heligible⟩, hp⟩

/-- A peer that a scenario names. -/
def Named (d : TraversalScenarioV1) (p : String) : Prop :=
  ∃ peers, d.roles.peers = .named peers ∧ p ∈ peers.map PeerRef.agentId

theorem Requested.resolve_of_named (h : Requested d matrix sutSdk p entry) (hnamed : Named d p) :
    matrix.resolve p = .ok entry := by
  obtain ⟨peers, hpeers, hp⟩ := hnamed
  cases h with
  | named _ _ hentry => exact hentry
  | selected hpeers' _ => cases hpeers.symm.trans hpeers'
  | ownLine hpeers' _ _ _ hnew =>
      cases hpeers.symm.trans hpeers'
      exact absurd hp hnew

/-- The named identifiers all resolve. -/
theorem mapM_peers_eq_ok {peers : List PeerRef} {message : String → PyError}
    (h : (peers.mapM fun peer => (match matrix.resolve peer.agentId with
      | .ok _ => pure peer.agentId
      | .error (.valueError m) => throw (message m)
      | .error e => throw e : Except PyError String)) = .ok ids) :
    ids = peers.map PeerRef.agentId ∧
      ∀ peer ∈ peers, ∃ entry, matrix.resolve peer.agentId = .ok entry := by
  have hall := mapM_eq_ok_iff.mp h
  clear h
  induction hall with
  | nil => exact ⟨rfl, by simp⟩
  | @cons peer id peers ids hpeer _ ih =>
      obtain ⟨rfl, hrest⟩ := ih
      have hone : id = peer.agentId ∧ ∃ entry, matrix.resolve peer.agentId = .ok entry := by
        cases hresolve : matrix.resolve peer.agentId with
        | ok entry =>
            rw [hresolve] at hpeer
            exact ⟨(Except.ok.inj hpeer).symm, entry, rfl⟩
        | error e =>
            rw [hresolve] at hpeer
            cases e <;> cases hpeer
      refine ⟨by rw [hone.1, List.map_cons], fun q hq => ?_⟩
      rcases List.mem_cons.mp hq with rfl | hq
      · exact hone.2
      · exact hrest q hq

/-- The peers of a variant are those that were asked for and named, or may come in. -/
theorem mem_peerIds_iff (h : peerIds d matrix transports sutSdk = .ok ids) :
    p ∈ ids ↔ ∃ entry, Requested d matrix sutSdk p entry ∧
      (Named d p ∨ Eligible d transports entry) := by
  unfold peerIds at h
  cases hpeers : d.roles.peers with
  | all =>
      have hids : p ∈ ids ↔ ∃ entry ∈ matrix.rows, Eligible d transports entry ∧
          entry.agentId = p := by
        rw [hpeers] at h
        dsimp only at h
        unfold Eligible
        split at h
        · rename_i hperPeer
          obtain rfl := Except.ok.inj h
          simp [mem_entries, hperPeer]
        · rename_i hperPeer
          obtain rfl := Except.ok.inj h
          simp only [List.mem_map, List.mem_filter, mem_entries, hperPeer, false_or, and_assoc]
      rw [hids]
      constructor
      · rintro ⟨entry, hrow, heligible, rfl⟩
        exact ⟨entry, .selected hpeers hrow, Or.inr heligible⟩
      · rintro ⟨entry, hrequested, hwhy⟩
        cases hrequested with
        | named hpeers' _ _ => cases hpeers.symm.trans hpeers'
        | selected _ hrow =>
            obtain ⟨peers, hpeers', -⟩ | heligible := hwhy
            · cases hpeers.symm.trans hpeers'
            · exact ⟨entry, hrow, heligible, rfl⟩
        | ownLine hpeers' _ _ _ _ => cases hpeers.symm.trans hpeers'
  | named peers =>
      rw [hpeers] at h
      obtain ⟨named, hnamed, h⟩ := bind_eq_ok_iff.mp h
      obtain ⟨rfl, hresolve⟩ := mapM_peers_eq_ok hnamed
      obtain rfl := Except.ok.inj h
      rw [List.mem_append, mem_ownLines_iff]
      constructor
      · rintro (hp | ⟨hown, entry, hrow, hsut, hout, heligible, rfl⟩)
        · obtain ⟨peer, hpeer, rfl⟩ := List.mem_map.mp hp
          obtain ⟨entry, hentry⟩ := hresolve peer hpeer
          exact ⟨entry, .named hpeers hpeer hentry, Or.inl ⟨peers, hpeers, hp⟩⟩
        · exact ⟨entry, .ownLine hpeers hown hsut hrow hout, Or.inr heligible⟩
      · rintro ⟨entry, hrequested, hwhy⟩
        cases hrequested with
        | named hpeers' hpeer _ =>
            cases hpeers.symm.trans hpeers'
            exact Or.inl (List.mem_map_of_mem hpeer)
        | selected hpeers' _ => cases hpeers.symm.trans hpeers'
        | ownLine hpeers' hown hsut hrow hnew =>
            cases hpeers.symm.trans hpeers'
            obtain ⟨peers', hpeers'', hp⟩ | heligible := hwhy
            · cases hpeers.symm.trans hpeers''
              exact absurd hp hnew
            · exact Or.inr ⟨hown, entry, hrow, hsut, hnew, heligible, rfl⟩

end Requests

section Groups

variable {d : TraversalScenarioV1} {matrix : Matrix} {sutSdk : Option String} {v : Variant}
  {p : String} {entry : MatrixEntry} {found : List Group} {g : Group}

theorem reached_together (htogether : d.expand = .together) :
    reached d matrix v p entry =
      if entry.supports (v.transports.map Transport.value) && supportsAll matrix p v.transports
      then v.transports else [] := by
  rw [reached, htogether]

theorem reached_perPeer (hperPeer : d.expand = .perPeer) :
    reached d matrix v p entry = intersect matrix p v.transports := by
  rw [reached, hperPeer]

theorem mem_sut {a : String} : a ∈ sut d ↔ a = sutId ∧ d.roles.includeSut = true := by
  unfold sut
  split <;> simp_all

/-- The groups of a variant hold the peers that were asked for and reach a
transport, over the transports they reach. -/
theorem groups_spec (hne : v.transports ≠ [])
    (h : groups d matrix v.transports sutSdk = .ok found) :
    (∀ g ∈ found, ∀ a ∈ g.sdks, (a = sutId ∧ d.roles.includeSut = true) ∨
      ∃ entry, Requested d matrix sutSdk a entry ∧ reached d matrix v a entry = g.used) ∧
    (∀ p entry, Requested d matrix sutSdk p entry → reached d matrix v p entry ≠ [] →
      ∃ g ∈ found, p ∈ g.sdks ∧ g.used = reached d matrix v p entry) ∧
    (∀ g ∈ found, g.used ≠ []) ∧
    ∀ g ∈ found, ∀ g' ∈ found, ∀ a ∈ g.sdks, a ∈ g'.sdks → a ≠ sutId → g' = g := by
  obtain ⟨ids, hids, h⟩ := bind_eq_ok_iff.mp h
  cases hexpand : d.expand with
  | together =>
      rw [hexpand] at h
      obtain rfl := Except.ok.inj h
      refine ⟨fun g hg a ha => ?_, fun p entry hrequested hreached => ?_, fun g hg => ?_,
        fun g hg g' hg' _ _ _ _ => ?_⟩
      · obtain rfl := List.mem_singleton.mp hg
        rcases List.mem_append.mp ha with ha | ha
        · exact Or.inl (mem_sut.mp ha)
        · obtain ⟨hid, hsupports⟩ := List.mem_filter.mp ha
          obtain ⟨entry, hrequested, hwhy⟩ := (mem_peerIds_iff hids).mp hid
          refine Or.inr ⟨entry, hrequested, ?_⟩
          have hrow : entry.supports (v.transports.map Transport.value) = true := by
            obtain hnamed | heligible | hrow := hwhy
            · exact (supportsAll_iff (hrequested.resolve_of_named hnamed)).mp hsupports
            · cases hexpand.symm.trans heligible
            · exact hrow
          rw [reached_together hexpand, if_pos (by simp [hrow, hsupports])]
      · rw [reached_together hexpand] at hreached ⊢
        have hboth := (ite_ne_right_iff.mp hreached).1
        rw [if_pos hboth]
        obtain ⟨hrow, hsupports⟩ := Bool.and_eq_true_iff.mp hboth
        refine ⟨_, List.mem_singleton_self _, ?_, rfl⟩
        apply List.mem_append_right
        exact List.mem_filter.mpr
          ⟨(mem_peerIds_iff hids).mpr ⟨entry, hrequested, Or.inr (Or.inr hrow)⟩, hsupports⟩
      · obtain rfl := List.mem_singleton.mp hg
        exact hne
      · rw [List.mem_singleton.mp hg, List.mem_singleton.mp hg']
  | perPeer =>
      rw [hexpand] at h
      obtain rfl := Except.ok.inj h
      have hpeerGroup {g : Group} (hg : g ∈ ids.filterMap fun peer =>
          if (intersect matrix peer v.transports).isEmpty then none
          else some ⟨sut d ++ [peer], intersect matrix peer v.transports, some peer⟩) :
          ∃ peer ∈ ids, intersect matrix peer v.transports ≠ [] ∧
            g = ⟨sut d ++ [peer], intersect matrix peer v.transports, some peer⟩ := by
        obtain ⟨peer, hpeer, hg⟩ := List.mem_filterMap.mp hg
        split at hg
        · cases hg
        · rename_i hused
          exact ⟨peer, hpeer, by simpa using hused, (Option.some.inj hg).symm⟩
      refine ⟨fun g hg a ha => ?_, fun p entry hrequested hreached => ?_, fun g hg => ?_,
        fun g hg g' hg' a ha ha' hsut => ?_⟩
      · obtain ⟨peer, hpeer, -, rfl⟩ := hpeerGroup hg
        rcases List.mem_append.mp ha with ha | ha
        · exact Or.inl (mem_sut.mp ha)
        · obtain rfl := List.mem_singleton.mp ha
          obtain ⟨entry, hrequested, -⟩ := (mem_peerIds_iff hids).mp hpeer
          exact Or.inr ⟨entry, hrequested, reached_perPeer hexpand⟩
      · rw [reached_perPeer hexpand] at hreached ⊢
        have hid := (mem_peerIds_iff hids).mpr ⟨entry, hrequested, Or.inr (Or.inl hexpand)⟩
        refine ⟨⟨sut d ++ [p], intersect matrix p v.transports, some p⟩,
          List.mem_filterMap.mpr ⟨p, hid, ?_⟩, by simp, rfl⟩
        rw [if_neg (by simpa using hreached)]
      · obtain ⟨peer, -, hused, rfl⟩ := hpeerGroup hg
        exact hused
      · have hpeer {peer : String} (ha : a ∈ sut d ++ [peer]) : a = peer := by
          rcases List.mem_append.mp ha with ha | ha
          · exact absurd (mem_sut.mp ha).1 hsut
          · exact List.mem_singleton.mp ha
        obtain ⟨peer, -, -, rfl⟩ := hpeerGroup hg
        obtain ⟨peer', -, -, rfl⟩ := hpeerGroup hg'
        rw [← hpeer ha, ← hpeer ha']

end Groups

section Fates

variable {d : TraversalScenarioV1} {sutSdk : Option String} {known : KnownFailures} {v : Variant}
  {p : String} {g : Group} {part variant : ResolutionReport}

theorem mem_kept_iff (hsut : p ≠ sutId) :
    p ∈ (applyExclusions g.sdks known g.used v.behavior v.streaming sutSdk).1 ↔
      p ∈ g.sdks ∧ ruleAgainst sutSdk known v p g.used = none := by
  simp [applyExclusions, ruleAgainst, hsut]

theorem mem_dropped_iff {rule : Exclusion} (hsut : p ≠ sutId) :
    (p, rule) ∈ (applyExclusions g.sdks known g.used v.behavior v.streaming sutSdk).2 ↔
      p ∈ g.sdks ∧ ruleAgainst sutSdk known v p g.used = some rule := by
  simp only [applyExclusions, ruleAgainst, List.mem_filterMap, Option.map_eq_some_iff,
    Prod.mk.injEq]
  constructor
  · rintro ⟨a, ha, found, hfound, rfl, rfl⟩
    rw [if_neg hsut] at hfound
    exact ⟨ha, hfound⟩
  · rintro ⟨ha, hfound⟩
    exact ⟨p, ha, rule, by rw [if_neg hsut]; exact hfound, rfl, rfl⟩

/-- Every peer of a group is run, trimmed with its rule, or skipped with the group. -/
theorem fate_of_member (h : expandGroup d sutSdk known v g = .ok part) (hp : p ∈ g.sdks)
    (hsut : p ≠ sutId)
    (honly : ∀ s, part.scenarios = [s] → ∀ other ∈ variant.scenarios, p ∈ other.sdks →
      other = s) :
    ExactlyOne (Runs variant part p g.used) (Trimmed sutSdk known v part p g.used)
      (Skipped d v g part) := by
  obtain ⟨-, ⟨-, -, why, rfl⟩ | ⟨sdks, edges, hrestricted, rfl⟩⟩ := expandGroup_cases h
  · refine Or.inr (Or.inr ⟨?_, ?_, rfl, why, rfl⟩)
    · rintro ⟨s, hs, -⟩
      cases hs
    · rintro ⟨s, rule, hs, -⟩
      cases hs
  · have hnot : ¬ Skipped d v g { 
        scenarios := [emitted d v g sdks edges]
        trimmed := (applyExclusions g.sdks known g.used v.behavior v.streaming sutSdk).2.map
          fun d' => ((emitted d v g sdks edges).name, d'.1, d'.2.summary) } := by
      rintro ⟨hs, -⟩
      cases hs
    have hmem : p ∈ sdks ↔ ruleAgainst sutSdk known v p g.used = none := by
      rw [restrictToAvailable_kept hrestricted, List.mem_filter, decide_eq_true_eq,
        mem_kept_iff hsut]
      simp [hp]
    cases hrule : ruleAgainst sutSdk known v p g.used with
    | none =>
        have hin := hmem.mpr hrule
        refine Or.inl ⟨⟨_, rfl, hin, rfl, honly _ rfl⟩, ?_, hnot⟩
        rintro ⟨s, rule, hs, hout, -⟩
        cases hs
        exact hout hin
    | some rule =>
        have hout : p ∉ sdks := fun hin => by
          rw [hmem.mp hin] at hrule
          cases hrule
        refine Or.inr (Or.inl ⟨?_, ⟨_, rule, rfl, hout, hrule, ?_⟩, hnot⟩)
        · rintro ⟨s, hs, hin, -⟩
          cases hs
          exact hout hin
        · exact List.mem_map.mpr ⟨(p, rule), (mem_dropped_iff hsut).mpr ⟨hp, hrule⟩, rfl⟩

/-- What a group runs is over agents of the group that no rule takes out, and over
its transports. -/
theorem scenario_of_group (h : expandGroup d sutSdk known v g = .ok part) {s : ResolvedScenario}
    (hs : s ∈ part.scenarios) :
    part.scenarios = [s] ∧ s.protocols = some (g.used.map Transport.value) ∧
      ∀ a ∈ s.sdks, a ∈ g.sdks ∧
        (a ≠ sutId → ruleAgainst sutSdk known v a g.used = none) := by
  obtain ⟨-, ⟨-, -, why, rfl⟩ | ⟨sdks, edges, hrestricted, rfl⟩⟩ := expandGroup_cases h
  · cases hs
  · obtain rfl := List.mem_singleton.mp hs
    refine ⟨rfl, rfl, fun a ha => ?_⟩
    rw [emitted, restrictToAvailable_kept hrestricted, List.mem_filter] at ha
    obtain ⟨ha, hkept⟩ := ha
    exact ⟨ha, fun hsut => ((mem_kept_iff hsut).mp (by simpa using hkept)).2⟩

end Fates

section Variants

variable {d : TraversalScenarioV1} {v : Variant}

theorem sets_not_empty (d : TraversalScenarioV1) :
    (d.transportSets.getD []).any List.isEmpty = false := by
  have haccepted := d.accepted
  unfold TraversalFields.exactlyOneOfEachPair at haccepted
  by_cases hbehavior : (d.behavior.isNone && d.behaviors.isNone) = true
  · simp [hbehavior, bind_eq_ok_iff] at haccepted
  · by_cases htransports : (d.transports.isNone && d.transportSets.isNone) = true
    · simp [hbehavior, htransports, bind_eq_ok_iff] at haccepted
    · by_contra hany
      simp only [Bool.not_eq_false] at hany
      simp [hbehavior, htransports, hany, bind_eq_ok_iff] at haccepted

/-- The schema leaves no variant without a transport. -/
theorem transports_ne_nil (hv : v ∈ variants d) : v.transports ≠ [] := by
  obtain ⟨behavior, -, hv⟩ := List.mem_flatMap.mp hv
  obtain ⟨transports, hts, hv⟩ := List.mem_flatMap.mp hv
  obtain ⟨streaming, -, rfl⟩ := List.mem_map.mp hv
  unfold TraversalScenarioV1.transportVariants at hts
  split at hts
  · rename_i sets hsets
    have hany := sets_not_empty d
    rw [hsets, Option.getD_some, List.any_eq_false] at hany
    simpa using hany transports hts
  · obtain ⟨t, -, rfl⟩ := List.mem_map.mp hts
    exact List.cons_ne_nil t []

end Variants

section Reports

variable {a b c : ResolutionReport} {reports : List ResolutionReport}

/-- Everything one report says, the other says too. -/
structure Within (a b : ResolutionReport) : Prop where
  scenarios : a.scenarios.Sublist b.scenarios
  skipped : a.skipped.Sublist b.skipped
  trimmed : a.trimmed.Sublist b.trimmed

theorem Within.trans (h : Within a b) (h' : Within b c) : Within a c :=
  ⟨h.scenarios.trans h'.scenarios, h.skipped.trans h'.skipped, h.trimmed.trans h'.trimmed⟩

theorem within_join (h : a ∈ reports) : Within a (.join reports) := by
  induction reports with
  | nil => cases h
  | cons first rest ih =>
      have hjoin : ResolutionReport.join (first :: rest) = first.append (.join rest) := rfl
      rw [hjoin, ResolutionReport.append]
      rcases List.mem_cons.mp h with rfl | h
      · exact ⟨List.sublist_append_left _ _, List.sublist_append_left _ _,
          List.sublist_append_left _ _⟩
      · obtain ⟨hscenarios, hskipped, htrimmed⟩ := ih h
        exact ⟨hscenarios.trans (List.sublist_append_right _ _),
          hskipped.trans (List.sublist_append_right _ _),
          htrimmed.trans (List.sublist_append_right _ _)⟩

end Reports

section Contract

variable {d : TraversalScenarioV1} {matrix : Matrix} {sutSdk : Option String}
  {known : KnownFailures} {v : Variant} {r batch : ResolutionReport} {declared : List Declared}

/-- What a variant owes the peers that were asked for. A peer with transports is in
one group, and is run, trimmed or skipped there; one without is in no scenario; and
no scenario has any other agent, nor one that a rule takes out. -/
structure Conserved (d : TraversalScenarioV1) (matrix : Matrix) (sutSdk : Option String)
    (known : KnownFailures) (v : Variant) (r : ResolutionReport) : Prop where
  covered : ∀ p entry, Requested d matrix sutSdk p entry → allotted d v entry ≠ [] →
    ∃ found g part, groups d matrix v.transports sutSdk = .ok found ∧ g ∈ found ∧ p ∈ g.sdks ∧
      g.used = allotted d v entry ∧ expandGroup d sutSdk known v g = .ok part ∧ Within part r ∧
      ExactlyOne (Runs r part p (allotted d v entry))
        (Trimmed sutSdk known v part p (allotted d v entry)) (Skipped d v g part)
  left : ∀ p entry, Requested d matrix sutSdk p entry → allotted d v entry = [] →
    ∀ s ∈ r.scenarios, p ∉ s.sdks
  only : ∀ s ∈ r.scenarios, ∀ a ∈ s.sdks, (a = sutId ∧ d.roles.includeSut = true) ∨
    ∃ entry, Requested d matrix sutSdk a entry ∧
      s.protocols = some ((allotted d v entry).map Transport.value) ∧
      ruleAgainst sutSdk known v a (allotted d v entry) = none

/-- In every batch that resolves, by whatever rules, every variant of the
declaration has a part, and pays what it owes. -/
def Conserves (d : TraversalScenarioV1) (matrix : Matrix) (sutSdk : Option String) : Prop :=
  ∀ declared known batch, .traversal d ∈ declared →
    resolveAll declared matrix sutSdk known = .ok batch → ∀ v ∈ variants d,
    ∃ r, expandVariant d matrix sutSdk known v = .ok r ∧ Within r batch ∧
      Conserved d matrix sutSdk known v r

theorem exists_variantReport (hadmitted : skipReason d sutSdk = none)
    (hd : .traversal d ∈ declared) (h : resolveAll declared matrix sutSdk known = .ok batch)
    (hv : v ∈ variants d) :
    ∃ r, expandVariant d matrix sutSdk known v = .ok r ∧ Within r batch := by
  obtain ⟨reports, hreports, rfl, -⟩ := resolveAll_eq_ok_iff.mp h
  obtain ⟨report, hreport, hone⟩ := exists_left_of_mem hreports.flip hd
  rw [resolveOne_of_admitted hadmitted] at hone
  obtain ⟨parts, hparts, hjoin⟩ := bind_eq_ok_iff.mp hone
  obtain rfl := Except.ok.inj hjoin
  obtain ⟨r, hr, hvariant⟩ := exists_left_of_mem (mapM_eq_ok_iff.mp hparts).flip hv
  exact ⟨r, hvariant, (within_join hr).trans (within_join hreport)⟩

/-- What a variant runs, it runs for one of its groups. -/
theorem exists_group_of_scenario {found : List Group}
    (hfound : groups d matrix v.transports sutSdk = .ok found)
    (h : expandVariant d matrix sutSdk known v = .ok r) {s : ResolvedScenario}
    (hs : s ∈ r.scenarios) :
    ∃ g ∈ found, ∃ part, expandGroup d sutSdk known v g = .ok part ∧ s ∈ part.scenarios :=
  (mem_expandVariant_iff hfound h).mp hs

theorem exists_groupReport {found : List Group}
    (hfound : groups d matrix v.transports sutSdk = .ok found)
    (h : expandVariant d matrix sutSdk known v = .ok r) {g : Group} (hg : g ∈ found) :
    ∃ part, expandGroup d sutSdk known v g = .ok part ∧ Within part r := by
  obtain ⟨found', reports, hfound', hreports, rfl⟩ := expandVariant_eq_ok_iff.mp h
  obtain rfl := Except.ok.inj (hfound.symm.trans hfound')
  obtain ⟨part, hpart, hgroup⟩ := exists_left_of_mem hreports.flip hg
  exact ⟨part, hgroup, within_join hpart⟩

/-- Where identifiers stand for their rows, a variant pays what it owes. -/
theorem conserved_of_addressesRows (hdistinct : DistinctPeers d matrix)
    (haddresses : AddressesRows d matrix sutSdk) (hv : v ∈ variants d)
    (h : expandVariant d matrix sutSdk known v = .ok r) : Conserved d matrix sutSdk known v r := by
  obtain ⟨found, reports, hfound, -, -⟩ := expandVariant_eq_ok_iff.mp h
  obtain ⟨hmembers, hreaches, hused, hone⟩ := groups_spec (transports_ne_nil hv) hfound
  refine ⟨fun p entry hrequested hne => ?_, fun p entry hrequested hnil s hs hp => ?_,
    fun s hs a ha => ?_⟩
  · have hreached := haddresses p entry hrequested v hv
    obtain ⟨g, hg, hp, hgused⟩ := hreaches p entry hrequested (hreached ▸ hne)
    obtain ⟨part, hpart, hwithin⟩ := exists_groupReport hfound h hg
    refine ⟨found, g, part, hfound, hg, hp, hgused.trans hreached, hpart, hwithin, ?_⟩
    rw [← hreached, ← hgused]
    apply fate_of_member hpart hp hrequested.ne_sut
    intro s hs other hother hpo
    obtain ⟨g', hg', part', hpart', hother⟩ := exists_group_of_scenario hfound h hother
    obtain ⟨-, -, hagents⟩ := scenario_of_group hpart' hother
    obtain rfl := hone g hg g' hg' p hp (hagents p hpo).1 hrequested.ne_sut
    obtain rfl := Except.ok.inj (hpart.symm.trans hpart')
    rw [hs] at hother
    exact List.mem_singleton.mp hother
  · obtain ⟨g, hg, part, hpart, hs⟩ := exists_group_of_scenario hfound h hs
    obtain ⟨-, -, hagents⟩ := scenario_of_group hpart hs
    obtain ⟨hsut, -⟩ | ⟨other, hother, hreached⟩ := hmembers g hg p (hagents p hp).1
    · exact hrequested.ne_sut hsut
    · obtain rfl := hother.unique hdistinct hrequested
      rw [haddresses p other hother v hv, hnil] at hreached
      exact hused g hg hreached.symm
  · obtain ⟨g, hg, part, hpart, hs⟩ := exists_group_of_scenario hfound h hs
    obtain ⟨-, hprotocols, hagents⟩ := scenario_of_group hpart hs
    obtain ⟨hin, hrule⟩ := hagents a ha
    obtain hsut | ⟨entry, hrequested, hreached⟩ := hmembers g hg a hin
    · exact Or.inl hsut
    · rw [haddresses a entry hrequested v hv] at hreached
      refine Or.inr ⟨entry, hrequested, ?_, ?_⟩
      · rw [hreached]
        exact hprotocols
      · rw [hreached]
        exact hrule hrequested.ne_sut

/-- Without rules nothing is taken out and nothing is skipped. -/
theorem expandGroup_without_rules {g : Group} {part : ResolutionReport}
    (h : expandGroup d sutSdk {} v g = .ok part) :
    ∃ s, part.scenarios = [s] ∧ s.sdks = g.sdks ∧ part.skipped = [] ∧ part.trimmed = [] := by
  have hsplit : applyExclusions g.sdks {} g.used v.behavior v.streaming sutSdk =
      (g.sdks, []) := by
    simp [applyExclusions, KnownFailures.find]
  obtain ⟨-, ⟨-, hdropped, -⟩ | ⟨sdks, edges, hrestricted, rfl⟩⟩ := expandGroup_cases h
  · rw [hsplit] at hdropped
    exact absurd rfl hdropped
  · rw [hsplit] at hrestricted ⊢
    refine ⟨_, rfl, ?_, rfl, rfl⟩
    rw [emitted, restrictToAvailable_kept hrestricted]
    exact filter_usable_eq_self fun _ ha => ha

/-- A declaration that pays what it owes without rules has identifiers that stand
for their rows. -/
theorem addressesRows_of_conserves (hdistinct : DistinctPeers d matrix)
    (hsolo : ∃ batch, resolveAll [.traversal d] matrix sutSdk {} = .ok batch)
    (h : Conserves d matrix sutSdk) : AddressesRows d matrix sutSdk := by
  intro p entry hrequested v hv
  obtain ⟨batch, hbatch⟩ := hsolo
  obtain ⟨r, hr, -, hconserved⟩ := h _ _ batch (List.mem_singleton_self _) hbatch v hv
  obtain ⟨found, -, hfound, -, -⟩ := expandVariant_eq_ok_iff.mp hr
  obtain ⟨hmembers, hreaches, hused, -⟩ := groups_spec (transports_ne_nil hv) hfound
  by_cases hnil : allotted d v entry = []
  · by_contra hreached
    rw [hnil] at hreached
    obtain ⟨g, hg, hp, -⟩ := hreaches p entry hrequested hreached
    obtain ⟨part, hpart, hwithin⟩ := exists_groupReport hfound hr hg
    obtain ⟨s, hs, hsdks, -, -⟩ := expandGroup_without_rules hpart
    refine hconserved.left p entry hrequested hnil s (hwithin.scenarios.subset (by simp [hs])) ?_
    rw [hsdks]
    exact hp
  · obtain ⟨found', g, part, hfound', hg, hp, hgused, -, -, -⟩ :=
      hconserved.covered p entry hrequested hnil
    obtain rfl := Except.ok.inj (hfound.symm.trans hfound')
    obtain ⟨hsut, -⟩ | ⟨other, hother, hreached⟩ := hmembers g hg p hp
    · exact absurd hsut hrequested.ne_sut
    · obtain rfl := hother.unique hdistinct hrequested
      exact hreached.trans hgused

/-- Every requested peer is accounted for where identifiers stand for their rows,
and, for a declaration that resolves at all, only there. -/
theorem resolution_conserves_iff (d : TraversalScenarioV1) (matrix : Matrix)
    (sutSdk : Option String) (hdistinct : DistinctPeers d matrix)
    (hadmitted : skipReason d sutSdk = none) :
    (AddressesRows d matrix sutSdk → Conserves d matrix sutSdk) ∧
    ((∃ batch, resolveAll [.traversal d] matrix sutSdk {} = .ok batch) →
      (Conserves d matrix sutSdk ↔ AddressesRows d matrix sutSdk)) := by
  have hsufficient : AddressesRows d matrix sutSdk → Conserves d matrix sutSdk := by
    intro haddresses declared known batch hd hbatch v hv
    obtain ⟨r, hr, hwithin⟩ := exists_variantReport hadmitted hd hbatch hv
    exact ⟨r, hr, hwithin, conserved_of_addressesRows hdistinct haddresses hv hr⟩
  refine ⟨hsufficient, fun hsolo => ?_⟩
  exact ⟨addressesRows_of_conserves hdistinct hsolo, hsufficient⟩

/-- Every line of the matrix, each over what it supports of two transports. -/
def everyLine : TraversalScenarioV1 where
  name := "every line"
  roles := { peers := .all }
  expand := .perPeer
  behavior := some .sendMessage
  transportSets := some [[.jsonrpc, .grpc]]
  accepted := rfl

/-- A matrix of one line that speaks JSON-RPC only. -/
def oneLine (line : String) : Matrix where
  rows := [{ sdk := "go", line, repo := "a2aproject/a2a-go", ref := "main",
             transports := ["jsonrpc"] }]
  distinct := List.nodup_singleton _

theorem one_line_conserved : Conserves everyLine (oneLine "v03") none := by
  have hdistinct : DistinctPeers everyLine (oneLine "v03") := List.nodup_singleton _
  apply (resolution_conserves_iff everyLine (oneLine "v03") none hdistinct rfl).1
  intro p entry hrequested v hv
  cases hrequested with
  | named hpeers _ _ => cases hpeers
  | ownLine hpeers _ _ _ _ => cases hpeers
  | selected _ hentry =>
      obtain rfl := List.mem_singleton.mp hentry
      obtain rfl := List.mem_singleton.mp hv
      decide

/-- A line whose identifier does not resolve is run over a transport its row does
not have. -/
theorem unaddressed_line_overruns :
    (resolveAll [.traversal everyLine] (oneLine "main") none {}).toOption.map
        (fun batch => batch.scenarios.map fun s => (s.sdks, s.protocols)) =
      some [(["current", "go_main"], some ["jsonrpc", "grpc"])] ∧
    ¬ Conserves everyLine (oneLine "main") none := by
  refine ⟨by decide +kernel, fun h => ?_⟩
  have hdistinct : DistinctPeers everyLine (oneLine "main") := List.nodup_singleton _
  have haddresses := addressesRows_of_conserves hdistinct ⟨_, rfl⟩ h
  have hrow := haddresses _ _ (.selected rfl (List.mem_singleton_self _))
    ⟨.sendMessage, [.jsonrpc, .grpc], false⟩ (List.mem_singleton_self _)
  exact absurd hrow (by decide)

end Contract

end A2aItk.Scenarios
