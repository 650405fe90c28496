import A2aItk.Acts.PathTiles
import Mathlib.Data.List.Nodup

/-!
# What a wildcard path reaches

A wildcard path stands for the concrete paths that have a position in place of every
`[*]`. The walk reaches those that read something, each once, in the order of the
document.
-/

namespace A2aItk.Acts

open Python Segment

/-- A position takes the place of a wildcard; any other segment stays. -/
def Segment.Instantiates : Segment → Segment → Prop
  | wildcard, concrete => ∃ i : ℕ, concrete = index i
  | written, concrete => concrete = written

/-- The path is the written one with a position in place of every wildcard. -/
abbrev Instance (written concrete : List Segment) : Prop :=
  List.Forall₂ Segment.Instantiates written concrete

/-- The order of the document: at the first difference, the position is smaller. -/
inductive Before : List Segment → List Segment → Prop
  | here {i j : ℕ} (h : i < j) (p q : List Segment) : Before (.index i :: p) (.index j :: q)
  | deeper (segment : Segment) {p q : List Segment} (h : Before p q) :
      Before (segment :: p) (segment :: q)

theorem Before.ne {p q : List Segment} (h : Before p q) : p ≠ q := by
  induction h with
  | here h p q =>
      intro heq
      have hij := Segment.index.inj (List.cons.inj heq).1
      omega
  | deeper segment h ih => exact fun heq => ih (List.cons.inj heq).2

/-- The places a walk reaches, by their segments. -/
def places (value : Value) : List Segment → List (List Segment × Value)
  | [] => [([], value)]
  | .wildcard :: tail =>
      (value.array?.getD []).zipIdx.flatMap fun element =>
        (places element.1 tail).map fun place => (.index element.2 :: place.1, place.2)
  | head :: tail =>
      match head.follow value with
      | some inner => (places inner tail).map fun place => (head :: place.1, place.2)
      | none => []

section Places

theorem walk_eq_places (segments : List Segment) (value : Value) (reached : List Segment) :
    walk value segments reached =
      (places value segments).map fun place => (formatPath (reached ++ place.1), place.2) := by
  induction segments generalizing value reached with
  | nil => simp [walk, places]
  | cons head tail ih =>
      cases head with
      | wildcard => simp [walk, places, ih, List.map_flatMap, Function.comp_def]
      | key name =>
          rw [walk, places]
          · cases (Segment.key name).follow value <;> simp [ih, Function.comp_def]
          all_goals simp
      | index position =>
          rw [walk, places]
          · cases (Segment.index position).follow value <;> simp [ih, Function.comp_def]
          all_goals simp

theorem readSegments_cons_eq_some (value v : Value) (segment : Segment) (rest : List Segment) :
    readSegments value (segment :: rest) = .ok (some v) ↔
      ∃ inner, segment.follow value = some inner ∧ readSegments inner rest = .ok (some v) := by
  cases segment with
  | wildcard => simp [readSegments, Segment.step, Segment.follow]
  | key name =>
      rw [readSegments, Segment.step, ok_bind]
      · cases (Segment.key name).follow value <;> simp
      · simp
  | index position =>
      rw [readSegments, Segment.step, ok_bind]
      · cases (Segment.index position).follow value <;> simp
      · simp

theorem follow_index (value : Value) (i : ℕ) :
    (Segment.index i).follow value = value.array?.bind fun items => items[i]? := by
  have hpos : ¬(i : ℤ) < 0 := by omega
  cases harray : value.array? <;> simp [Segment.follow, harray, hpos]

theorem Segment.instantiates_iff {written concrete : Segment} (h : written ≠ .wildcard) :
    written.Instantiates concrete ↔ concrete = written := by
  cases written with
  | wildcard => exact absurd rfl h
  | _ => rfl

theorem mem_places_cons {head : Segment} (hhead : head ≠ .wildcard) {tail concrete : List Segment}
    {value v : Value} :
    (concrete, v) ∈ places value (head :: tail) ↔
      ∃ inner rest, head.follow value = some inner ∧ concrete = head :: rest ∧
        (rest, v) ∈ places inner tail := by
  rw [places]
  · cases head.follow value <;> simp [eq_comm, and_comm]
  · exact hhead

theorem mem_places_wildcard {tail concrete : List Segment} {value v : Value} :
    (concrete, v) ∈ places value (.wildcard :: tail) ↔
      ∃ (i : ℕ) (inner : Value) (rest : List Segment),
        (Segment.index i).follow value = some inner ∧ concrete = .index i :: rest ∧
          (rest, v) ∈ places inner tail := by
  have hitems (i : ℕ) (inner : Value) : (Segment.index i).follow value = some inner ↔
      (value.array?.getD [])[i]? = some inner := by
    rw [follow_index]
    cases value.array? <;> simp
  simp only [places, List.mem_flatMap, Prod.exists, List.mem_zipIdx_iff_getElem?, List.mem_map,
    Prod.mk.injEq, hitems]
  constructor
  · rintro ⟨inner, i, hinner, rest, w, hrest, rfl, rfl⟩
    exact ⟨i, inner, rest, hinner, rfl, hrest⟩
  · rintro ⟨i, inner, rest, hinner, rfl, hrest⟩
    exact ⟨inner, i, hinner, rest, v, hrest, rfl, rfl⟩

/-- The walk reaches exactly the instances that read something. -/
theorem mem_places {segments concrete : List Segment} {value v : Value} :
    (concrete, v) ∈ places value segments ↔
      Instance segments concrete ∧ readSegments value concrete = .ok (some v) := by
  induction segments generalizing value concrete with
  | nil =>
      simp only [places, List.mem_singleton, Prod.mk.injEq, List.forall₂_nil_left_iff]
      constructor
      · rintro ⟨rfl, rfl⟩
        exact ⟨rfl, rfl⟩
      · rintro ⟨rfl, hread⟩
        exact ⟨rfl, (Option.some.inj (Except.ok.inj hread)).symm⟩
  | cons head tail ih =>
      have hcons (segment : Segment) (hsegment : head.Instantiates segment)
          (inner : Value) (rest : List Segment) (hfollow : segment.follow value = some inner)
          (hrest : (rest, v) ∈ places inner tail) :
          Instance (head :: tail) (segment :: rest) ∧
            readSegments value (segment :: rest) = .ok (some v) := by
        obtain ⟨htail, hread⟩ := ih.mp hrest
        exact ⟨.cons hsegment htail,
          (readSegments_cons_eq_some value v segment rest).mpr ⟨inner, hfollow, hread⟩⟩
      by_cases hhead : head = .wildcard
      · subst hhead
        rw [mem_places_wildcard]
        constructor
        · rintro ⟨i, inner, rest, hfollow, rfl, hrest⟩
          exact hcons (.index i) ⟨i, rfl⟩ inner rest hfollow hrest
        · rintro ⟨hinst, hread⟩
          cases hinst with
          | cons hother htail =>
              obtain ⟨i, rfl⟩ := hother
              obtain ⟨inner, hfollow, hrest⟩ := (readSegments_cons_eq_some value v _ _).mp hread
              exact ⟨i, inner, _, hfollow, rfl, ih.mpr ⟨htail, hrest⟩⟩
      · rw [mem_places_cons hhead]
        constructor
        · rintro ⟨inner, rest, hfollow, rfl, hrest⟩
          exact hcons head ((instantiates_iff hhead).mpr rfl) inner rest hfollow hrest
        · rintro ⟨hinst, hread⟩
          cases hinst with
          | cons hother htail =>
              obtain rfl := (instantiates_iff hhead).mp hother
              obtain ⟨inner, hfollow, hrest⟩ := (readSegments_cons_eq_some value v _ _).mp hread
              exact ⟨inner, _, hfollow, rfl, ih.mpr ⟨htail, hrest⟩⟩

theorem pairwise_places (segments : List Segment) (value : Value) :
    ((places value segments).map Prod.fst).Pairwise Before := by
  induction segments generalizing value with
  | nil => simp [places]
  | cons head tail ih =>
      have hbelow (segment : Segment) (inner : Value) :
          (((places inner tail).map fun place => (segment :: place.1, place.2)).map
            Prod.fst).Pairwise Before := by
        rw [List.map_map]
        have hrest := ih inner
        rw [List.pairwise_map] at hrest ⊢
        exact hrest.imp fun h => .deeper segment h
      have hfixed (hhead : head ≠ .wildcard) :
          ((places value (head :: tail)).map Prod.fst).Pairwise Before := by
        rw [places]
        · cases head.follow value with
          | none => simp
          | some inner => exact hbelow head inner
        · exact hhead
      cases head with
      | wildcard =>
          rw [places, List.map_flatMap, List.pairwise_flatMap]
          refine ⟨fun element _ => hbelow (.index element.2) element.1, ?_⟩
          have hsorted : ((value.array?.getD []).zipIdx.map Prod.snd).Pairwise (· < ·) := by
            rw [List.zipIdx_map_snd]
            exact List.pairwise_lt_range'
          rw [List.pairwise_map] at hsorted
          apply hsorted.imp
          intro a b hab p hp q hq
          simp only [List.map_map, List.mem_map] at hp hq
          obtain ⟨_, -, rfl⟩ := hp
          obtain ⟨_, -, rfl⟩ := hq
          exact .here hab _ _
      | key name => exact hfixed (by simp)
      | index position => exact hfixed (by simp)

end Places

section Enumeration

variable {path : String} {segments concrete : List Segment}

/-- No name of the path has whitespace at its ends. -/
def CleanNames (segments : List Segment) : Prop :=
  ∀ name, .key name ∈ segments → Text.strip name.toList = name.toList

theorem spelled_of_parsePath (h : parsePath path = .ok segments) (hclean : CleanNames segments) :
    ∀ segment ∈ segments, segment.Spelled := by
  intro segment hsegment
  have hlexical := (Tiles.of_parsePath h).lexical segment hsegment
  cases segment with
  | key name => exact ⟨hlexical.1, hlexical.2, hclean name hsegment⟩
  | _ => trivial

/-- An instance is spelled like the path it is an instance of. -/
theorem Instance.spelled (h : Instance segments concrete)
    (hspelled : ∀ segment ∈ segments, segment.Spelled) :
    ∀ segment ∈ concrete, segment.Spelled := by
  intro segment hsegment
  obtain ⟨written, hwritten, hsegment'⟩ := exists_left_of_mem h hsegment
  cases written with
  | wildcard =>
      obtain ⟨i, rfl⟩ := hsegment'
      trivial
  | _ =>
      obtain rfl := hsegment'
      exact hspelled _ hwritten

theorem readPath_formatPath (value : Value) (h : ∀ segment ∈ concrete, segment.Spelled) :
    readPath value (formatPath concrete) = readSegments value concrete := by
  rw [readPath, parsePath_formatPath_of_spelled h, ok_bind]

theorem formatPath_injective {other : List Segment} (h : ∀ segment ∈ concrete, segment.Spelled)
    (hother : ∀ segment ∈ other, segment.Spelled)
    (heq : formatPath concrete = formatPath other) : concrete = other := by
  have hread := parsePath_formatPath_of_spelled h
  rw [heq, parsePath_formatPath_of_spelled hother] at hread
  exact (Except.ok.inj hread).symm

/-- `read_path_all` yields each instance of the path that reads something, once, in the
order of the document, with the value `read_path` finds there. -/
theorem readPathAll_enumerates (value : Value) (hparse : parsePath path = .ok segments)
    (hclean : CleanNames segments) :
    ∃ pairs, readPathAll value path = .ok pairs ∧
      (∃ concrete : List (List Segment),
        pairs.map Prod.fst = concrete.map formatPath ∧ concrete.Pairwise Before) ∧
      (pairs.map Prod.fst).Nodup ∧
      (∀ pair ∈ pairs, readPath value pair.1 = .ok (some pair.2)) ∧
      ∀ p, p ∈ pairs.map Prod.fst ↔
        ∃ concrete, Instance segments concrete ∧ p = formatPath concrete ∧
          ∃ v, readPath value p = .ok (some v) := by
  have hspelled := spelled_of_parsePath hparse hclean
  have hread (place : List Segment × Value) (hplace : place ∈ places value segments) :
      (∀ segment ∈ place.1, segment.Spelled) ∧
        readPath value (formatPath place.1) = .ok (some place.2) := by
    obtain ⟨hinst, hvalue⟩ := mem_places.mp hplace
    have hplain := hinst.spelled hspelled
    exact ⟨hplain, (readPath_formatPath value hplain).trans hvalue⟩
  have hpaths : ((places value segments).map fun place => (formatPath place.1, place.2)).map
      Prod.fst = ((places value segments).map Prod.fst).map formatPath := by
    simp [Function.comp_def]
  have horder := pairwise_places segments value
  refine ⟨(places value segments).map fun place => (formatPath place.1, place.2), ?_,
    ⟨(places value segments).map Prod.fst, hpaths, horder⟩, ?_, ?_, ?_⟩
  · rw [readPathAll, hparse, ok_bind, walk_eq_places]
    rfl
  · rw [hpaths]
    refine List.Nodup.map_on ?_ (horder.imp Before.ne)
    intro p hp q hq heq
    obtain ⟨place, hplace, rfl⟩ := List.mem_map.mp hp
    obtain ⟨other, hother, rfl⟩ := List.mem_map.mp hq
    exact formatPath_injective (hread place hplace).1 (hread other hother).1 heq
  · intro pair hpair
    obtain ⟨place, hplace, rfl⟩ := List.mem_map.mp hpair
    exact (hread place hplace).2
  · intro p
    rw [hpaths]
    constructor
    · intro hp
      obtain ⟨concrete, hconcrete, rfl⟩ := List.mem_map.mp hp
      obtain ⟨place, hplace, rfl⟩ := List.mem_map.mp hconcrete
      exact ⟨place.1, (mem_places.mp hplace).1, rfl, place.2, (hread place hplace).2⟩
    · rintro ⟨concrete, hinst, rfl, v, hvalue⟩
      rw [readPath_formatPath value (hinst.spelled hspelled)] at hvalue
      have hplace : (concrete, v) ∈ places value segments := mem_places.mpr ⟨hinst, hvalue⟩
      exact List.mem_map_of_mem (List.mem_map_of_mem hplace)

/-- Two artifacts, the second without parts. -/
def twoArtifacts : Value :=
  .object [("artifacts", .list [.object [("parts", .list [.str "a", .str "b"])], .object []])]

theorem readPathAll_twoArtifacts :
    ∃ pairs, readPathAll twoArtifacts "artifacts[*].parts[-1]" = .ok pairs ∧
      (∃ concrete : List (List Segment),
        pairs.map Prod.fst = concrete.map formatPath ∧ concrete.Pairwise Before) ∧
      (pairs.map Prod.fst).Nodup ∧
      (∀ pair ∈ pairs, readPath twoArtifacts pair.1 = .ok (some pair.2)) ∧
      ∀ p, p ∈ pairs.map Prod.fst ↔
        ∃ concrete,
          Instance [.key "artifacts", .wildcard, .key "parts", .index (-1)] concrete ∧
          p = formatPath concrete ∧ ∃ v, readPath twoArtifacts p = .ok (some v) := by
  apply readPathAll_enumerates twoArtifacts rfl
  intro name hname
  simp only [List.mem_cons, Segment.key.injEq, reduceCtorEq, List.not_mem_nil, or_false,
    false_or] at hname
  rcases hname with rfl | rfl <;> rfl

end Enumeration

end A2aItk.Acts
