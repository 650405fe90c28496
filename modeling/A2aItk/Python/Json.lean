import A2aItk.Python.Objects
import Mathlib.Data.List.Perm.Subperm

/-!
# Values by their meaning

A mapping means the function from its keys to its values: the order of its entries
is of no account. What a scalar means is a parameter, so that one construction gives
the JSON value, the value as `==` sees it, and the value up to the order of keys.
-/

namespace A2aItk.Python

/-- Nested lists and mappings by their meaning. -/
inductive Json (κ σ : Type)
  | atom (s : σ)
  | array (items : List (Json κ σ))
  | object (fields : κ → Option (Json κ σ))

namespace Scalar

/-- A scalar of JSON: `nan` is no number there. -/
def IsJson : Scalar → Prop
  | other _ => False
  | float x => x ≠ .nan
  | _ => True

/-- A scalar of JSON, with numbers by value. -/
def exact : Scalar → Scalar
  | int i => float (.finite i)
  | s => s

/-- A scalar as `==` sees it: a boolean is a number, too. -/
def numeric : Scalar → Scalar
  | bool b => float (.finite (if b then 1 else 0))
  | int i => float (.finite i)
  | s => s

/-- `==` is equality of what it sees, but for `nan`. -/
theorem eq_iff {a b : Scalar} :
    a.eq b = true ↔ a.numeric = b.numeric ∧ a.numeric ≠ .float .nan := by
  have hfloat (x y : PyFloat) : x.eq y = true ↔ x = y ∧ x ≠ .nan := by
    cases x <;> cases y <;> simp [PyFloat.eq]
  have hnumber (s : Scalar) (x : PyFloat) : s.number? = some x ↔ s.numeric = .float x := by
    cases s <;> simp [number?, numeric]
  have hother (s : Scalar) : s.number? = none → s.numeric = s := by
    cases s <;> simp [number?, numeric]
  unfold eq
  cases ha : a.number? with
  | some x =>
      have hx := (hnumber a x).mp ha
      cases hb : b.number? with
      | some y => simp [hfloat, hx, (hnumber b y).mp hb]
      | none =>
          have hne : a.numeric ≠ b.numeric := by
            intro heq
            rw [hx, eq_comm, ← hnumber, hb] at heq
            cases heq
          simp [hne]
  | none =>
      have hfinite : a.numeric ≠ .float .nan := by
        intro heq
        rw [← hnumber, ha] at heq
        cases heq
      cases hb : b.number? with
      | some y =>
          have hne : a.numeric ≠ b.numeric := by
            intro heq
            rw [(hnumber b y).mp hb, ← hnumber, ha] at heq
            cases heq
          simp [hne]
      | none => simp [hother a ha, hother b hb, hother a ha ▸ hfinite]

theorem eq_symm {a b : Scalar} (h : a.eq b = true) : b.eq a = true := by
  obtain ⟨heq, hnan⟩ := eq_iff.mp h
  exact eq_iff.mpr ⟨heq.symm, heq ▸ hnan⟩

theorem eq_trans {a b c : Scalar} (hab : a.eq b = true) (hbc : b.eq c = true) :
    a.eq c = true := by
  obtain ⟨heq, hnan⟩ := eq_iff.mp hab
  exact eq_iff.mpr ⟨heq.trans (eq_iff.mp hbc).1, hnan⟩

end Scalar

namespace Value

section Meaning

variable {σ : Type} (read : Scalar → σ)

mutual

/-- What the value means, with scalars as they are read. -/
def json : Value → Json Scalar σ
  | .scalar s => .atom (read s)
  | .list items => .array (jsonItems items)
  | .dict entries => .object (jsonFields entries)

def jsonItems : List Value → List (Json Scalar σ)
  | [] => []
  | v :: rest => json v :: jsonItems rest

/-- The value of a key is that of the first entry with it. -/
def jsonFields : List (Scalar × Value) → Scalar → Option (Json Scalar σ)
  | [], _ => none
  | (k, v) :: rest, key => if k = key then some (json v) else jsonFields rest key

end

end Meaning

mutual

/-- Every scalar and every key of the value has its property, and no mapping has a key
twice. -/
def WellFormed (leaf key : Scalar → Prop) : Value → Prop
  | .scalar s => leaf s
  | .list items => WellFormedItems leaf key items
  | .dict entries => WellFormedEntries leaf key entries

def WellFormedItems (leaf key : Scalar → Prop) : List Value → Prop
  | [] => True
  | v :: rest => WellFormed leaf key v ∧ WellFormedItems leaf key rest

def WellFormedEntries (leaf key : Scalar → Prop) : List (Scalar × Value) → Prop
  | [] => True
  | (k, v) :: rest =>
      (∀ entry ∈ rest, k ≠ entry.1 ∧ k.eq entry.1 = false) ∧ key k ∧ WellFormed leaf key v ∧
        WellFormedEntries leaf key rest

end

/-- No two entries have the same key. -/
def DistinctKeys (entries : List (Scalar × Value)) : Prop :=
  entries.Pairwise fun a b => a.1 ≠ b.1 ∧ a.1.eq b.1 = false

/-- A mapping has a key once, at any depth. -/
abbrev Distinct : Value → Prop := WellFormed (fun _ => True) (fun _ => True)

/-- A key of an object. -/
def IsName (key : Scalar) : Prop := ∃ name, key = .str name

/-- A JSON value: keys are text, no object has a name twice, and numbers are numbers. -/
abbrev IsJson : Value → Prop := WellFormed Scalar.IsJson IsName

section WellFormed

variable {leaf key : Scalar → Prop} {items : List Value} {entries : List (Scalar × Value)}

theorem wellFormed_list_iff :
    WellFormed leaf key (.list items) ↔ ∀ v ∈ items, WellFormed leaf key v := by
  rw [WellFormed]
  induction items with
  | nil => simp [WellFormedItems]
  | cons v rest ih => rw [WellFormedItems, ih, List.forall_mem_cons]

theorem wellFormed_dict_iff :
    WellFormed leaf key (.dict entries) ↔
      DistinctKeys entries ∧ ∀ k v, (k, v) ∈ entries → key k ∧ WellFormed leaf key v := by
  rw [WellFormed]
  induction entries with
  | nil => simp [WellFormedEntries, DistinctKeys]
  | cons entry rest ih =>
      obtain ⟨k, v⟩ := entry
      rw [WellFormedEntries, ih]
      unfold DistinctKeys
      rw [List.pairwise_cons]
      constructor
      · rintro ⟨hfresh, hk, hv, hrest, hall⟩
        refine ⟨⟨hfresh, hrest⟩, ?_⟩
        intro k' v' hmem
        rcases List.mem_cons.mp hmem with heq | hmem
        · cases heq
          exact ⟨hk, hv⟩
        · exact hall k' v' hmem
      · rintro ⟨⟨hfresh, hrest⟩, hall⟩
        have hhead := hall k v List.mem_cons_self
        exact ⟨hfresh, hhead.1, hhead.2, hrest, fun k' v' hmem =>
          hall k' v' (List.mem_cons_of_mem _ hmem)⟩

theorem WellFormed.mono {leaf' key' : Scalar → Prop} (hleaf : ∀ s, leaf s → leaf' s)
    (hkey : ∀ s, key s → key' s) (v : Value) (h : WellFormed leaf key v) :
    WellFormed leaf' key' v := by
  induction v using induction_below with
  | h v ih =>
      cases v with
      | scalar s => exact hleaf s h
      | list items =>
          rw [wellFormed_list_iff] at h ⊢
          exact fun v hv => (ih.of_mem_list hv).1 (h v hv)
      | dict entries =>
          rw [wellFormed_dict_iff] at h ⊢
          refine ⟨h.1, fun k v hmem => ?_⟩
          obtain ⟨hk, hv⟩ := h.2 k v hmem
          exact ⟨hkey k hk, (ih.of_mem_dict hmem).1 hv⟩

theorem WellFormed.distinct {v : Value} (h : WellFormed leaf key v) : Distinct v :=
  h.mono (fun _ _ => trivial) (fun _ _ => trivial)

/-- With distinct keys a lookup finds the one entry whose key equals. -/
theorem lookup_eq_some_iff (h : DistinctKeys entries) {k : Scalar} {v : Value} :
    lookup k entries = some v ↔ ∃ k', (k', v) ∈ entries ∧ k'.eq k = true := by
  induction entries with
  | nil => simp [lookup]
  | cons entry rest ih =>
      obtain ⟨first, w⟩ := entry
      obtain ⟨hfresh, hrest⟩ := List.pairwise_cons.mp h
      rw [lookup_cons]
      by_cases hfirst : first.eq k = true
      · rw [if_pos hfirst]
        constructor
        · rintro ⟨⟩
          exact ⟨first, List.mem_cons_self, hfirst⟩
        · rintro ⟨k', hmem, hk'⟩
          rcases List.mem_cons.mp hmem with heq | hmem
          · cases heq
            rfl
          · have hclash := Scalar.eq_trans hfirst (Scalar.eq_symm hk')
            rw [(hfresh _ hmem).2] at hclash
            cases hclash
      · rw [if_neg hfirst, ih hrest]
        constructor
        · rintro ⟨k', hmem, hk'⟩
          exact ⟨k', List.mem_cons_of_mem _ hmem, hk'⟩
        · rintro ⟨k', hmem, hk'⟩
          rcases List.mem_cons.mp hmem with heq | hmem
          · cases heq
            exact absurd hk' hfirst
          · exact ⟨k', hmem, hk'⟩

end WellFormed

section Meaning

variable {σ : Type} {read : Scalar → σ} {as bs : List (Scalar × Value)}

theorem jsonItems_eq_map (items : List Value) : jsonItems read items = items.map (json read) := by
  induction items with
  | nil => rfl
  | cons v rest ih => rw [jsonItems, ih, List.map_cons]

theorem jsonFields_eq_some_iff (h : DistinctKeys as) {k : Scalar} {j : Json Scalar σ} :
    jsonFields read as k = some j ↔ ∃ v, (k, v) ∈ as ∧ json read v = j := by
  induction as with
  | nil => simp [jsonFields]
  | cons entry rest ih =>
      obtain ⟨first, w⟩ := entry
      obtain ⟨hfresh, hrest⟩ := List.pairwise_cons.mp h
      rw [jsonFields]
      by_cases hfirst : first = k
      · subst hfirst
        rw [if_pos rfl, Option.some.injEq]
        constructor
        · rintro rfl
          exact ⟨w, List.mem_cons_self, rfl⟩
        · rintro ⟨v, hmem, rfl⟩
          rcases List.mem_cons.mp hmem with heq | hmem
          · cases heq
            rfl
          · exact absurd rfl (hfresh _ hmem).1
      · rw [if_neg hfirst, ih hrest]
        constructor
        · rintro ⟨v, hmem, hv⟩
          exact ⟨v, List.mem_cons_of_mem _ hmem, hv⟩
        · rintro ⟨v, hmem, hv⟩
          rcases List.mem_cons.mp hmem with heq | hmem
          · cases heq
            exact absurd rfl hfirst
          · exact ⟨v, hmem, hv⟩

/-- Every entry of one mapping is in the other, with a value of the same meaning. -/
def EntriesIn (read : Scalar → σ) (as bs : List (Scalar × Value)) : Prop :=
  ∀ k a, (k, a) ∈ as → ∃ b, (k, b) ∈ bs ∧ json read a = json read b

theorem entriesIn_of_json_eq (ha : DistinctKeys as) (hb : DistinctKeys bs)
    (h : json read (.dict as) = json read (.dict bs)) : EntriesIn read as bs := by
  intro k a hmem
  have hfields : jsonFields read as = jsonFields read bs := by
    simpa only [json, Json.object.injEq] using h
  have hfound : jsonFields read as k = some (json read a) :=
    (jsonFields_eq_some_iff ha).mpr ⟨a, hmem, rfl⟩
  rw [hfields, jsonFields_eq_some_iff hb] at hfound
  obtain ⟨b, hb', hjson⟩ := hfound
  exact ⟨b, hb', hjson.symm⟩

theorem nodup_keys (h : DistinctKeys as) : (as.map Prod.fst).Nodup := by
  rw [List.Nodup, List.pairwise_map]
  exact h.imp fun hne => hne.1

/-- Mappings of one length mean the same when the entries of one are in the other. -/
theorem json_dict_eq_iff (ha : DistinctKeys as) (hb : DistinctKeys bs) :
    json read (.dict as) = json read (.dict bs) ↔
      as.length = bs.length ∧ EntriesIn read as bs := by
  have hkeys {cs ds : List (Scalar × Value)} (h : EntriesIn read cs ds) :
      cs.map Prod.fst ⊆ ds.map Prod.fst := by
    intro k hk
    obtain ⟨⟨k', a⟩, hmem, rfl⟩ := List.mem_map.mp hk
    obtain ⟨b, hb, -⟩ := h k' a hmem
    exact List.mem_map.mpr ⟨(k', b), hb, rfl⟩
  constructor
  · intro h
    have hab := entriesIn_of_json_eq ha hb h
    have hba := entriesIn_of_json_eq hb ha h.symm
    have hle := ((nodup_keys ha).subperm (hkeys hab)).length_le
    have hge := ((nodup_keys hb).subperm (hkeys hba)).length_le
    simp only [List.length_map] at hle hge
    exact ⟨by omega, hab⟩
  · rintro ⟨hlength, hab⟩
    have hperm : (as.map Prod.fst).Perm (bs.map Prod.fst) :=
      ((nodup_keys ha).subperm (hkeys hab)).perm_of_length_le (by simp [hlength])
    rw [json, json, Json.object.injEq]
    funext k
    cases hk : jsonFields read bs k with
    | some j =>
        obtain ⟨b, hmem, rfl⟩ := (jsonFields_eq_some_iff hb).mp hk
        have hkey : k ∈ as.map Prod.fst :=
          hperm.mem_iff.mpr (List.mem_map.mpr ⟨(k, b), hmem, rfl⟩)
        obtain ⟨⟨k', a⟩, hmem', rfl⟩ := List.mem_map.mp hkey
        obtain ⟨b', hb', hjson⟩ := hab _ a hmem'
        have hfound : jsonFields read bs k' = some (json read a) :=
          (jsonFields_eq_some_iff hb).mpr ⟨b', hb', hjson.symm⟩
        rw [← hk, hfound]
        exact (jsonFields_eq_some_iff ha).mpr ⟨a, hmem', rfl⟩
    | none =>
        rw [Option.eq_none_iff_forall_ne_some]
        intro j hj
        obtain ⟨a, hmem, rfl⟩ := (jsonFields_eq_some_iff ha).mp hj
        obtain ⟨b, hb', hjson⟩ := hab k a hmem
        have hfound : jsonFields read bs k = some (json read a) :=
          (jsonFields_eq_some_iff hb).mpr ⟨b, hb', hjson.symm⟩
        rw [hk] at hfound
        cases hfound

end Meaning

section Equality

variable {as bs : List (Scalar × Value)}

theorem eqEntries_iff :
    eqEntries as bs = true ↔
      ∀ k a, (k, a) ∈ as → ∃ b, lookup k bs = some b ∧ a.eq b = true := by
  induction as with
  | nil => simp [eqEntries]
  | cons entry rest ih =>
      obtain ⟨k, a⟩ := entry
      rw [eqEntries, Bool.and_eq_true, ih]
      constructor
      · rintro ⟨hhead, hrest⟩ k' a' hmem
        rcases List.mem_cons.mp hmem with heq | hmem
        · cases heq
          cases hb : lookup k bs with
          | none => simp [hb] at hhead
          | some b => exact ⟨b, rfl, by simpa [hb] using hhead⟩
        · exact hrest k' a' hmem
      · intro hall
        obtain ⟨b, hb, hab⟩ := hall k a List.mem_cons_self
        exact ⟨by simpa [hb] using hab, fun k' a' hmem => hall k' a' (List.mem_cons_of_mem _ hmem)⟩

theorem eqItems_iff {as bs : List Value} :
    eqItems as bs = true ↔ List.Forall₂ (fun a b => a.eq b = true) as bs := by
  induction as generalizing bs with
  | nil => cases bs <;> simp [eqItems]
  | cons a rest ih => cases bs <;> simp [eqItems, ih]

/-- Lists mean the same when they do so item by item. -/
theorem json_list_eq_iff {σ : Type} {read : Scalar → σ} {as bs : List Value} :
    json read (.list as) = json read (.list bs) ↔
      List.Forall₂ (fun a b => json read a = json read b) as bs := by
  rw [json, json, Json.array.injEq, jsonItems_eq_map, jsonItems_eq_map]
  induction as generalizing bs with
  | nil => cases bs <;> simp
  | cons a rest ih => cases bs <;> simp [ih]

/-- A relation may be weakened on the members of two lists. -/
theorem forall₂_imp_of_mem {α β : Type*} {R S : α → β → Prop} {l : List α} {r : List β}
    (h : ∀ a ∈ l, ∀ b ∈ r, R a b → S a b) (hR : List.Forall₂ R l r) : List.Forall₂ S l r := by
  rw [List.forall₂_iff_zip] at hR ⊢
  refine ⟨hR.1, fun {a b} hab => ?_⟩
  obtain ⟨ha, hb⟩ := List.of_mem_zip hab
  exact h a ha b hb (hR.2 hab)

theorem name_eq_iff {k k' : Scalar} (h : IsName k) : k'.eq k = true ↔ k' = k := by
  obtain ⟨name, rfl⟩ := h
  exact scalar_eq_str_iff

theorem scalar_eq_iff_numeric {s t : Scalar} (hs : s.IsJson) :
    s.eq t = true ↔ s.numeric = t.numeric := by
  rw [Scalar.eq_iff, and_iff_left]
  cases s <;> simp_all [Scalar.IsJson, Scalar.numeric]

/-- `==` compares what values mean when booleans are numbers. -/
theorem eq_iff_numeric {a b : Value} (ha : a.IsJson) (hb : b.IsJson) :
    a.eq b = true ↔ a.json Scalar.numeric = b.json Scalar.numeric := by
  induction a using induction_below generalizing b with
  | h a ih =>
      cases a with
      | scalar s =>
          cases b with
          | scalar t =>
              rw [eq, json, json, Json.atom.injEq]
              exact scalar_eq_iff_numeric ha
          | _ => simp [eq, json]
      | list as =>
          cases b with
          | list bs =>
              rw [eq, eqItems_iff, json_list_eq_iff]
              have hitem (a : Value) (hmem : a ∈ as) (b : Value) (hmem' : b ∈ bs) :=
                (ih.of_mem_list hmem).1 (wellFormed_list_iff.mp ha a hmem)
                  (wellFormed_list_iff.mp hb b hmem')
              exact ⟨forall₂_imp_of_mem fun a hmem b hmem' => (hitem a hmem b hmem').mp,
                forall₂_imp_of_mem fun a hmem b hmem' => (hitem a hmem b hmem').mpr⟩
          | _ => simp [eq, json]
      | dict as =>
          cases b with
          | dict bs =>
              obtain ⟨hda, hwa⟩ := wellFormed_dict_iff.mp ha
              obtain ⟨hdb, hwb⟩ := wellFormed_dict_iff.mp hb
              rw [eq, Bool.and_eq_true, beq_iff_eq, eqEntries_iff, json_dict_eq_iff hda hdb]
              apply and_congr_right
              intro _
              apply forall₃_congr
              intro k a hmem
              obtain ⟨hk, hwf⟩ := hwa k a hmem
              apply exists_congr
              intro b
              rw [lookup_eq_some_iff hdb]
              constructor
              · rintro ⟨⟨k', hmem', hk'⟩, heq⟩
                obtain rfl := (name_eq_iff hk).mp hk'
                exact ⟨hmem', ((ih.of_mem_dict hmem).1 hwf (hwb k' b hmem').2).mp heq⟩
              · rintro ⟨hmem', hjson⟩
                exact ⟨⟨k, hmem', (name_eq_iff hk).mpr rfl⟩,
                  ((ih.of_mem_dict hmem).1 hwf (hwb k b hmem').2).mpr hjson⟩
          | _ => simp [eq, json]

/-- Values that mean the same still do when scalars are read more coarsely. -/
theorem json_eq_of_json_eq {σ τ : Type} {read : Scalar → σ} {coarse : Scalar → τ}
    (hcoarse : ∀ s t, read s = read t → coarse s = coarse t) {a b : Value} (ha : a.Distinct)
    (hb : b.Distinct) (h : a.json read = b.json read) : a.json coarse = b.json coarse := by
  induction a using induction_below generalizing b with
  | h a ih =>
      cases a with
      | scalar s =>
          cases b with
          | scalar t =>
              rw [json, json, Json.atom.injEq] at h ⊢
              exact hcoarse s t h
          | _ => simp [json] at h
      | list as =>
          cases b with
          | list bs =>
              rw [json_list_eq_iff] at h ⊢
              refine forall₂_imp_of_mem ?_ h
              intro a hmem b hmem' hjson
              exact (ih.of_mem_list hmem).1 (wellFormed_list_iff.mp ha a hmem)
                (wellFormed_list_iff.mp hb b hmem') hjson
          | _ => simp [json] at h
      | dict as =>
          cases b with
          | dict bs =>
              obtain ⟨hda, hwa⟩ := wellFormed_dict_iff.mp ha
              obtain ⟨hdb, hwb⟩ := wellFormed_dict_iff.mp hb
              rw [json_dict_eq_iff hda hdb] at h ⊢
              refine ⟨h.1, fun k a hmem => ?_⟩
              obtain ⟨b, hmem', hjson⟩ := h.2 k a hmem
              exact ⟨b, hmem', (ih.of_mem_dict hmem).1 (hwa k a hmem).2 (hwb k b hmem').2 hjson⟩
          | _ => simp [json] at h

end Equality

end Value

end A2aItk.Python
