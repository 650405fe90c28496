import A2aItk.Python.Entries

/-!
# Lists and dictionaries by address

A name is bound to a scalar or to the address of a list or a dictionary, which every
other holder of the address sees change. What data a name denotes is read off the heap.
-/

namespace A2aItk.Python

/-- What a name is bound to. -/
inductive Ref
  | scalar (s : Scalar)
  | object (address : ℕ)

/-- What an address holds. -/
inductive Cell
  | list (items : List Ref)
  | dict (entries : List (Scalar × Ref))

/-- The lists and dictionaries that exist, by address. -/
structure Heap where
  cells : List Cell

namespace Heap

section Operations

variable (h : Heap)

/-- The object at an address, if there is one. -/
def cell? (address : ℕ) : Option Cell := h.cells[address]?

/-- The address of the next object. -/
def next : ℕ := h.cells.length

/-- A new object; its address is `h.next`. -/
def alloc (cell : Cell) : Heap := ⟨h.cells ++ [cell]⟩

/-- An object is changed in place. -/
def write (address : ℕ) (cell : Cell) : Heap := ⟨h.cells.set address cell⟩

/-- The entries of a dictionary: `isinstance(v, dict)` fails for anything else. -/
def dict? : Ref → Option (List (Scalar × Ref))
  | .scalar _ => none
  | .object address =>
      match h.cell? address with
      | some (.dict entries) => some entries
      | _ => none

/-- The entries at the address of a dictionary. -/
def entriesAt (address : ℕ) : List (Scalar × Ref) := (h.dict? (.object address)).getD []

mutual

/-- The data a name denotes. -/
def Denotes : Ref → Value → Prop
  | ref, .scalar s => ref = .scalar s
  | ref, .list items =>
      ∃ address refs, ref = .object address ∧ h.cell? address = some (.list refs) ∧
        DenotesItems refs items
  | ref, .dict entries =>
      ∃ address refs, ref = .object address ∧ h.cell? address = some (.dict refs) ∧
        DenotesEntries refs entries

/-- References denote the items of a list, one by one. -/
def DenotesItems : List Ref → List Value → Prop
  | [], [] => True
  | ref :: refs, item :: items => Denotes ref item ∧ DenotesItems refs items
  | _, _ => False

/-- References denote the entries of a mapping, under the same keys. -/
def DenotesEntries : List (Scalar × Ref) → List (Scalar × Value) → Prop
  | [], [] => True
  | (key, ref) :: refs, (key', v) :: entries =>
      (key = key' ∧ Denotes ref v) ∧ DenotesEntries refs entries
  | _, _ => False

end

/-- Every object of the one heap is in the other as it was. -/
def Extends (h' : Heap) : Prop := ∀ address cell, h.cell? address = some cell →
  h'.cell? address = some cell

end Operations

variable {h h' h'' : Heap} {address : ℕ} {cell : Cell}

/-- Addresses in use are below the next one. -/
theorem lt_next_of_cell? (hcell : h.cell? address = some cell) : address < h.next :=
  (List.getElem?_eq_some_iff.mp hcell).1

/-- A heap extends itself. -/
theorem Extends.refl (h : Heap) : h.Extends h := fun _ _ hcell => hcell

/-- Extensions are composed. -/
theorem Extends.trans (hxy : h.Extends h') (hyz : h'.Extends h'') : h.Extends h'' :=
  fun address cell hcell => hyz address cell (hxy address cell hcell)

/-- A new object changes none there was. -/
theorem Extends.alloc (hext : h.Extends h') (cell : Cell) : h.Extends (h'.alloc cell) := by
  intro address cell' hcell
  have hold := hext address cell' hcell
  rw [cell?, Heap.alloc, List.getElem?_append_left (lt_next_of_cell? hold)]
  exact hold

/-- What is written at a later address leaves the older objects alone. -/
theorem Extends.write (hext : h.Extends h') (haddress : h.next ≤ address) (cell : Cell) :
    h.Extends (h'.write address cell) := by
  intro older cell' hcell
  have hne : address ≠ older := by
    have := lt_next_of_cell? hcell
    omega
  rw [cell?, Heap.write, List.getElem?_set_ne hne]
  exact hext older cell' hcell

/-- A new object takes the next address. -/
@[simp] theorem next_alloc (cell : Cell) : (h.alloc cell).next = h.next + 1 := by
  simp [next, alloc]

/-- Writing takes no new address. -/
@[simp] theorem next_write (address : ℕ) (cell : Cell) : (h.write address cell).next = h.next := by
  simp [next, write]

/-- A reference is to a dictionary if its cell is one. -/
theorem dict?_object_eq_some_iff {entries : List (Scalar × Ref)} :
    h.dict? (.object address) = some entries ↔ h.cell? address = some (.dict entries) := by
  simp only [dict?]
  split
  · rename_i hcell
    simp [hcell]
  · rename_i hno
    exact iff_of_false (fun h => by cases h) (hno entries)

/-- What was allocated is there. -/
theorem cell?_alloc_self (cell : Cell) : (h.alloc cell).cell? h.next = some cell :=
  List.getElem?_concat_length

/-- What was there before an allocation is there after it. -/
theorem cell?_alloc_of_cell? (hcell : h.cell? address = some cell) (cell' : Cell) :
    (h.alloc cell').cell? address = some cell :=
  (Extends.refl h).alloc cell' address cell hcell

/-- What was written is there. -/
theorem cell?_write_self (haddress : address < h.next) (cell : Cell) :
    (h.write address cell).cell? address = some cell :=
  List.getElem?_set_self haddress

/-- Other objects stay as they are. -/
theorem cell?_write_of_ne {other : ℕ} (hne : other ≠ address) (cell : Cell) :
    (h.write address cell).cell? other = h.cell? other :=
  List.getElem?_set_ne hne.symm

/-- The entries of a dictionary. -/
theorem entriesAt_of_cell? {entries : List (Scalar × Ref)}
    (hcell : h.cell? address = some (.dict entries)) : h.entriesAt address = entries := by
  rw [entriesAt, dict?_object_eq_some_iff.mpr hcell, Option.getD_some]

mutual

/-- What a name denotes, it denotes in every later heap that keeps the objects. -/
theorem Denotes.mono (hext : h.Extends h') {ref : Ref} :
    ∀ {v : Value}, h.Denotes ref v → h'.Denotes ref v
  | .scalar _, hv => hv
  | .list _, ⟨address, refs, href, hcell, hitems⟩ =>
      ⟨address, refs, href, hext address _ hcell, DenotesItems.mono hext hitems⟩
  | .dict _, ⟨address, refs, href, hcell, hentries⟩ =>
      ⟨address, refs, href, hext address _ hcell, DenotesEntries.mono hext hentries⟩

/-- Items that are denoted stay denoted in an extension. -/
theorem DenotesItems.mono (hext : h.Extends h') :
    ∀ {refs : List Ref} {items : List Value}, h.DenotesItems refs items →
      h'.DenotesItems refs items
  | [], [], _ => trivial
  | _ :: _, _ :: _, hitems =>
      ⟨Denotes.mono hext hitems.1, DenotesItems.mono hext hitems.2⟩
  | [], _ :: _, hitems => hitems.elim
  | _ :: _, [], hitems => hitems.elim

/-- Entries that are denoted stay denoted in an extension. -/
theorem DenotesEntries.mono (hext : h.Extends h') :
    ∀ {refs : List (Scalar × Ref)} {entries : List (Scalar × Value)},
      h.DenotesEntries refs entries → h'.DenotesEntries refs entries
  | [], [], _ => trivial
  | (_, _) :: _, (_, _) :: _, hentries =>
      ⟨⟨hentries.1.1, Denotes.mono hext hentries.1.2⟩, DenotesEntries.mono hext hentries.2⟩
  | [], _ :: _, hentries => hentries.elim
  | _ :: _, [], hentries => hentries.elim

end

/-- Entries that denote others are related to them. -/
theorem denotesEntries_iff {refs : List (Scalar × Ref)} {entries : List (Scalar × Value)} :
    h.DenotesEntries refs entries ↔ Entries.Related h.Denotes refs entries := by
  induction refs generalizing entries with
  | nil =>
      cases entries with
      | nil => exact iff_of_true trivial .nil
      | cons entry entries => exact iff_of_false id fun hrel => by cases hrel
  | cons ref refs ih =>
      cases entries with
      | nil => exact iff_of_false id fun hrel => by cases hrel
      | cons entry entries =>
          rw [Entries.Related, List.forall₂_cons]
          exact and_congr Iff.rfl ih

/-- A dictionary denotes the mapping of what its entries denote. -/
theorem denotes_dict_iff {entries : List (Scalar × Value)} {ref : Ref} :
    h.Denotes ref (.dict entries) ↔
      ∃ refs, h.dict? ref = some refs ∧ Entries.Related h.Denotes refs entries := by
  constructor
  · rintro ⟨address, refs, rfl, hcell, hentries⟩
    exact ⟨refs, dict?_object_eq_some_iff.mpr hcell, denotesEntries_iff.mp hentries⟩
  · rintro ⟨refs, hdict, hentries⟩
    cases ref with
    | scalar s => cases hdict
    | object address =>
        exact ⟨address, refs, rfl, dict?_object_eq_some_iff.mp hdict,
          denotesEntries_iff.mpr hentries⟩

/-- Only a dictionary denotes a mapping. -/
theorem dict?_eq_none_of_denotes {ref : Ref} {v : Value} (hv : h.Denotes ref v)
    (hmapping : v.isMapping = false) : h.dict? ref = none := by
  cases v with
  | scalar s =>
      obtain rfl : ref = .scalar s := hv
      rfl
  | list items =>
      obtain ⟨address, refs, rfl, hcell, _⟩ := hv
      simp only [dict?, hcell]
  | dict entries => cases hmapping

/-- At an address there is a dictionary whose entries denoted the mapping in the heap `h₀`. -/
def Holds (h₀ h : Heap) (address : ℕ) (entries : List (Scalar × Value)) : Prop :=
  ∃ refs, h.cell? address = some (.dict refs) ∧ Entries.Related h₀.Denotes refs entries

namespace Holds

variable {h₀ : Heap} {other : ℕ} {entries entries' : List (Scalar × Value)}

/-- What an address holds, entry by entry. -/
theorem related (hholds : Holds h₀ h address entries) :
    Entries.Related h₀.Denotes (h.entriesAt address) entries := by
  obtain ⟨refs, hcell, hrel⟩ := hholds
  rw [entriesAt_of_cell? hcell]
  exact hrel

/-- An address that holds something is in use. -/
theorem lt_next (hholds : Holds h₀ h address entries) : address < h.next := by
  obtain ⟨refs, hcell, _⟩ := hholds
  exact lt_next_of_cell? hcell

/-- What is written is held from then on. -/
theorem write {refs : List (Scalar × Ref)} (hholds : Holds h₀ h address entries)
    (hrel : Entries.Related h₀.Denotes refs entries') :
    Holds h₀ (h.write address (.dict refs)) address entries' :=
  ⟨refs, cell?_write_self hholds.lt_next _, hrel⟩

/-- Writing elsewhere changes nothing of it. -/
theorem write_of_ne (hholds : Holds h₀ h address entries) (hne : address ≠ other) (cell : Cell) :
    Holds h₀ (h.write other cell) address entries := by
  obtain ⟨refs, hcell, hrel⟩ := hholds
  exact ⟨refs, by rw [cell?_write_of_ne hne, hcell], hrel⟩

/-- A new object changes nothing of it. -/
theorem alloc (hholds : Holds h₀ h address entries) (cell : Cell) :
    Holds h₀ (h.alloc cell) address entries := by
  obtain ⟨refs, hcell, hrel⟩ := hholds
  exact ⟨refs, cell?_alloc_of_cell? hcell cell, hrel⟩

/-- A reference to the address denotes the mapping. -/
theorem denotes (hholds : Holds h₀ h address entries) (hext : h₀.Extends h) :
    h.Denotes (.object address) (.dict entries) := by
  obtain ⟨refs, hcell, hrel⟩ := hholds
  exact denotes_dict_iff.mpr ⟨refs, dict?_object_eq_some_iff.mpr hcell,
    hrel.mono fun _ _ hv => hv.mono hext⟩

end Holds

end Heap

end A2aItk.Python
