import A2aItk.Scenarios.Conservation

/-!
# Declarations that vanish

Every variant of a declaration that is not filtered by `test_when` reports a scenario or
a skip, except where the declaration runs its peers one by one and none of them shares a
transport with the variant: then the variant leaves no trace.
-/

namespace A2aItk.Scenarios

open Python

/-- The report says something. -/
def ResolutionReport.Speaks (report : ResolutionReport) : Prop :=
  report.scenarios ≠ [] ∨ report.skipped ≠ []

section Variants

variable {d : TraversalScenarioV1} {matrix : Matrix} {sutSdk : Option String}
  {known : KnownFailures} {v : Variant} {report : ResolutionReport}

/-- Some peer of the declaration shares a transport with the variant. -/
def Shares (d : TraversalScenarioV1) (matrix : Matrix) (sutSdk : Option String)
    (v : Variant) : Prop :=
  ∃ ids, peerIds d matrix v.transports sutSdk = .ok ids ∧
    ∃ p ∈ ids, intersect matrix p v.transports ≠ []

theorem speaks_of_expandGroup {group : Group}
    (h : expandGroup d sutSdk known v group = .ok report) : report.Speaks := by
  obtain ⟨-, ⟨-, -, why, rfl⟩ | ⟨sdks, edges, -, rfl⟩⟩ := expandGroup_cases h
  · exact .inr (by simp)
  · exact .inl (by simp)

theorem speaks_join_iff {reports : List ResolutionReport} (h : ∀ r ∈ reports, r.Speaks) :
    (ResolutionReport.join reports).Speaks ↔ reports ≠ [] := by
  cases reports with
  | nil => simp [ResolutionReport.Speaks, ResolutionReport.join]
  | cons first rest =>
      have hjoin : ResolutionReport.join (first :: rest) = first.append (.join rest) := rfl
      obtain hscenarios | hskipped := h first (by simp)
      · simp [hjoin, ResolutionReport.append, ResolutionReport.Speaks, hscenarios]
      · simp [hjoin, ResolutionReport.append, ResolutionReport.Speaks, hskipped]

/-- The groups of a variant run out only where peers are run one by one and none shares a
transport. -/
theorem groups_ne_nil_iff {found : List Group}
    (h : groups d matrix v.transports sutSdk = .ok found) :
    found ≠ [] ↔ (d.expand = .perPeer → Shares d matrix sutSdk v) := by
  unfold groups at h
  obtain ⟨ids, hids, h⟩ := bind_eq_ok_iff.mp h
  cases hexpand : d.expand with
  | together =>
      simp only [hexpand] at h
      obtain rfl := Except.ok.inj h
      simp
  | perPeer =>
      simp only [hexpand] at h
      obtain rfl := Except.ok.inj h
      simp only [ne_eq, List.filterMap_eq_nil_iff, true_implies, Shares, hids, Except.ok.injEq,
        exists_eq_left']
      simp

/-- What a variant comes to says something unless it has no group. -/
theorem speaks_expandVariant_iff (h : expandVariant d matrix sutSdk known v = .ok report) :
    report.Speaks ↔ (d.expand = .perPeer → Shares d matrix sutSdk v) := by
  obtain ⟨found, reports, hfound, hreports, rfl⟩ := expandVariant_eq_ok_iff.mp h
  have hspeaks : ∀ r ∈ reports, r.Speaks := by
    intro r hr
    obtain ⟨group, -, hgroup⟩ := exists_left_of_mem hreports hr
    exact speaks_of_expandGroup hgroup
  rw [speaks_join_iff hspeaks, ← groups_ne_nil_iff hfound]
  cases hreports with
  | nil => simp
  | cons _ _ => simp

theorem notEmpty_eq_ok_iff {α : Type} {field : String} {l : Option (List α)} :
    TraversalFields.notEmpty field l = .ok () ↔ l ≠ some [] := by
  unfold TraversalFields.notEmpty
  split
  · simp
  · rename_i hne
    simpa using hne

/-- A declaration gives each of its three axes, and no list of one is empty. -/
theorem given_axes (d : TraversalScenarioV1) :
    (d.behavior.isNone && d.behaviors.isNone) = false ∧
      (d.transports.isNone && d.transportSets.isNone) = false ∧
      d.behaviors ≠ some [] ∧ d.transportSets ≠ some [] ∧ d.streamingVariants ≠ some [] ∧
      d.transports ≠ some [] := by
  have haccepted := d.accepted
  unfold TraversalFields.exactlyOneOfEachPair at haccepted
  cases hbehavior : d.behavior.isNone && d.behaviors.isNone with
  | true => simp [hbehavior, bind_eq_ok_iff] at haccepted
  | false =>
      cases htransports : d.transports.isNone && d.transportSets.isNone with
      | true => simp [hbehavior, htransports, bind_eq_ok_iff] at haccepted
      | false =>
          simp only [hbehavior, htransports, bind_eq_ok_iff, Bool.false_eq_true,
            if_false] at haccepted
          obtain ⟨-, -, -, -, -, -, ⟨⟩, hbehaviors, ⟨⟩, hsets, ⟨⟩, hstreaming, ⟨⟩, hlist, -⟩ :=
            haccepted
          exact ⟨rfl, rfl, notEmpty_eq_ok_iff.mp hbehaviors, notEmpty_eq_ok_iff.mp hsets,
            notEmpty_eq_ok_iff.mp hstreaming, notEmpty_eq_ok_iff.mp hlist⟩

theorem behaviorVariants_ne_nil (d : TraversalScenarioV1) : d.behaviorVariants ≠ [] := by
  obtain ⟨hgiven, -, hbehaviors, -⟩ := given_axes d
  unfold TraversalScenarioV1.behaviorVariants
  cases h : d.behaviors with
  | none =>
      rw [h, Option.isNone_none, Bool.and_true, Option.isNone_eq_false_iff] at hgiven
      simpa [Option.isSome_iff_ne_none] using hgiven
  | some behaviors => simpa [h] using hbehaviors

theorem transportVariants_ne_nil (d : TraversalScenarioV1) : d.transportVariants ≠ [] := by
  obtain ⟨-, hgiven, -, hsets, -, hlist⟩ := given_axes d
  unfold TraversalScenarioV1.transportVariants
  cases h : d.transportSets with
  | none =>
      rw [h, Option.isNone_none, Bool.and_true] at hgiven
      obtain ⟨transports, ht⟩ := Option.isSome_iff_exists.mp (by simpa using hgiven)
      simpa [ht] using hlist
  | some sets => simpa [h] using hsets

theorem streamingOptions_ne_nil (d : TraversalScenarioV1) : d.streamingOptions ≠ [] := by
  obtain ⟨-, -, -, -, hstreaming, -⟩ := given_axes d
  unfold TraversalScenarioV1.streamingOptions
  cases h : d.streamingVariants with
  | none => simp
  | some variants => simpa [h] using hstreaming

theorem variants_ne_nil (d : TraversalScenarioV1) : variants d ≠ [] := by
  obtain ⟨b, hb⟩ := List.exists_mem_of_ne_nil _ (behaviorVariants_ne_nil d)
  obtain ⟨t, ht⟩ := List.exists_mem_of_ne_nil _ (transportVariants_ne_nil d)
  obtain ⟨s, hs⟩ := List.exists_mem_of_ne_nil _ (streamingOptions_ne_nil d)
  apply List.ne_nil_of_mem (a := ⟨b, t, s⟩)
  exact List.mem_flatMap.mpr ⟨b, hb, List.mem_flatMap.mpr ⟨t, ht, List.mem_map.mpr ⟨s, hs, rfl⟩⟩⟩

end Variants

section Batches

variable {declared : List Declared} {matrix : Matrix} {sutSdk : Option String}
  {known : KnownFailures} {batch report : ResolutionReport} {d : TraversalScenarioV1}

/-- A declaration has entries in its report, and each of its variants has some of its
own; where `test_when` filters the declaration, it has one as a whole. -/
inductive Traced (matrix : Matrix) (sutSdk : Option String) (known : KnownFailures) :
    Declared → ResolutionReport → Prop
  | legacy (scenario : LegacyScenario) :
      Traced matrix sutSdk known (.legacy scenario) { scenarios := [fromLegacy scenario] }
  | filtered {d : TraversalScenarioV1} {why : String} (h : skipReason d sutSdk = some why) :
      Traced matrix sutSdk known (.traversal d) { skipped := [(d.name, why)] }
  | expanded {d : TraversalScenarioV1} {parts : List ResolutionReport}
      (h : skipReason d sutSdk = none)
      (hparts : List.Forall₂ (fun v part =>
        expandVariant d matrix sutSdk known v = .ok part ∧ part.Speaks) (variants d) parts) :
      Traced matrix sutSdk known (.traversal d) (.join parts)

theorem Traced.speaks {declaration : Declared}
    (h : Traced matrix sutSdk known declaration report) : report.Speaks := by
  cases h with
  | legacy scenario => exact .inl (by simp)
  | filtered h => exact .inr (by simp)
  | expanded h hparts =>
      have hspeaks : ∀ r ∈ _, ResolutionReport.Speaks r := fun r hr =>
        let ⟨_, _, _, hspeaks⟩ := exists_left_of_mem hparts hr
        hspeaks
      rw [speaks_join_iff hspeaks]
      rintro rfl
      exact variants_ne_nil _ (List.forall₂_nil_right_iff.mp hparts)

/-- The variants of a traced declaration share transports with their peers. -/
theorem Traced.shares (h : Traced matrix sutSdk known (.traversal d) report)
    (hadmitted : skipReason d sutSdk = none) (hperPeer : d.expand = .perPeer) :
    ∀ v ∈ variants d, Shares d matrix sutSdk v := by
  intro v hv
  cases h with
  | filtered hfiltered => simp [hadmitted] at hfiltered
  | expanded _ hparts =>
      obtain ⟨part, -, hpart, hspeaks⟩ := exists_left_of_mem hparts.flip hv
      exact (speaks_expandVariant_iff hpart).mp hspeaks hperPeer

theorem traced_of_shares {declaration : Declared}
    (hshares : ∀ d, declaration = .traversal d → skipReason d sutSdk = none →
      d.expand = .perPeer → ∀ v ∈ variants d, Shares d matrix sutSdk v)
    (h : resolveOne matrix sutSdk known declaration = .ok report) :
    Traced matrix sutSdk known declaration report := by
  cases declaration with
  | legacy scenario =>
      obtain rfl := Except.ok.inj h
      exact .legacy scenario
  | traversal d =>
      cases hreason : skipReason d sutSdk with
      | some why =>
          rw [resolveOne_of_skipReason hreason] at h
          obtain rfl := Except.ok.inj h
          exact .filtered hreason
      | none =>
          rw [resolveOne_of_admitted hreason] at h
          obtain ⟨parts, hparts, h⟩ := bind_eq_ok_iff.mp h
          obtain rfl := Except.ok.inj h
          have hmem := (List.forall₂_and_left (variants d) parts).mpr
            ⟨fun v hv => hv, mapM_eq_ok_iff.mp hparts⟩
          apply Traced.expanded hreason
          apply hmem.imp
          rintro v part ⟨hv, hpart⟩
          refine ⟨hpart, (speaks_expandVariant_iff hpart).mpr fun hperPeer => ?_⟩
          exact hshares d rfl hreason hperPeer v hv

/-- Every declaration of a batch and each of its variants is traced exactly where no
variant that is run peer by peer lacks a peer to share a transport with. -/
theorem declarations_traced_iff (h : resolveAll declared matrix sutSdk known = .ok batch) :
    (∃ reports, List.Forall₂ (fun declaration report =>
        Traced matrix sutSdk known declaration report ∧ report.Speaks) declared reports ∧
      batch = .join reports) ↔
      ∀ d, .traversal d ∈ declared → skipReason d sutSdk = none → d.expand = .perPeer →
        ∀ v ∈ variants d, Shares d matrix sutSdk v := by
  constructor
  · rintro ⟨reports, hreports, -⟩ d hd hadmitted hperPeer
    obtain ⟨report, -, htraced, -⟩ := exists_left_of_mem hreports.flip hd
    exact htraced.shares hadmitted hperPeer
  · intro hshares
    obtain ⟨reports, hreports, hbatch, -⟩ := resolveAll_eq_ok_iff.mp h
    have hmem := (List.forall₂_and_left declared reports).mpr ⟨fun d hd => hd, hreports⟩
    refine ⟨reports, hmem.imp ?_, hbatch⟩
    rintro declaration report ⟨hd, hreport⟩
    have htraced := traced_of_shares (fun d heq => hshares d (heq ▸ hd)) hreport
    exact ⟨htraced, htraced.speaks⟩

/-- Every line of the matrix, over gRPC alone. -/
def everyLineOverGrpc : TraversalScenarioV1 where
  name := "every line over grpc"
  roles := { peers := .all }
  expand := .perPeer
  behavior := some .sendMessage
  transports := some [.grpc]
  accepted := rfl

theorem every_line_traced :
    ∃ batch, resolveAll [.traversal everyLine] (oneLine "v03") none {} = .ok batch ∧
      ∃ reports, List.Forall₂ (fun declaration report =>
          Traced (oneLine "v03") none {} declaration report ∧ report.Speaks)
        [.traversal everyLine] reports ∧ batch = .join reports := by
  refine ⟨_, rfl, (declarations_traced_iff rfl).mpr ?_⟩
  intro d hd _ _ v hv
  obtain rfl : d = everyLine := by simpa using hd
  obtain rfl := List.mem_singleton.mp hv
  exact ⟨["go_v03"], rfl, "go_v03", by simp, by decide⟩

/-- No line of the matrix speaks gRPC, and the declaration is gone from a batch that
resolves. -/
theorem every_line_over_grpc_vanishes :
    resolveAll [.traversal everyLineOverGrpc] (oneLine "v03") none {} = .ok {} ∧
      variants everyLineOverGrpc = [⟨.sendMessage, [.grpc], false⟩] :=
  ⟨rfl, rfl⟩

end Batches

end A2aItk.Scenarios
