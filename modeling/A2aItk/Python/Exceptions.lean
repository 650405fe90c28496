import Mathlib.Data.List.Forall2
import Mathlib.Data.List.Basic

/-!
# Exceptions and the rules of the `Except` monad

The built-in exception families, and what a finished computation says about
its parts. A loop that raises at the first bad item is `List.mapM`.
-/

namespace A2aItk.Python

/-- The built-in exceptions, with the message where a program reads or prints it. -/
inductive PyError
  | valueError (message : String)
  | indexError
  | keyError (message : String)
  | typeError
  | attributeError
  | runtimeError (message : String)
  deriving DecidableEq, Repr

namespace PyError

/-- What `except ValueError` catches. -/
def isValueError : PyError → Bool
  | valueError _ => true
  | _ => false

end PyError

/-- `try: … except ValueError: continue`. -/
def catchValueError {α : Type*} : Except PyError α → Except PyError (Option α)
  | .ok a => .ok (some a)
  | .error e => if e.isValueError then .ok none else .error e

/-- Where nothing is raised there is nothing to catch. -/
@[simp] theorem catchValueError_ok {α : Type*} (a : α) :
    catchValueError (.ok a) = .ok (some a) := rfl

/-- A `ValueError` is caught. -/
theorem catchValueError_error {α : Type*} {e : PyError} (h : e.isValueError = true) :
    catchValueError (.error e : Except PyError α) = .ok none := by
  simp [catchValueError, h]

universe u v

variable {ε : Type u} {α β : Type v}

/-- A sequence returns if both of its parts do. -/
theorem bind_eq_ok_iff {x : Except ε α} {f : α → Except ε β} {b : β} :
    (x >>= f) = .ok b ↔ ∃ a, x = .ok a ∧ f a = .ok b := by
  cases x with
  | error e => simp [bind, Except.bind]
  | ok a => simp [bind, Except.bind]

/-- A `bind` raises in its first part or, after that finished, in the second. -/
theorem except_bind_eq_error_iff {x : Except ε α} {f : α → Except ε β} {e : ε} :
    (x >>= f) = .error e ↔ x = .error e ∨ ∃ a, x = .ok a ∧ f a = .error e := by
  cases x with
  | error e => simp [bind, Except.bind]
  | ok a => simp [bind, Except.bind]

/-- A result that is mapped was returned. -/
theorem map_eq_ok_iff {x : Except ε α} {f : α → β} {b : β} :
    (f <$> x) = .ok b ↔ ∃ a, x = .ok a ∧ f a = b := by
  cases x with
  | error e => simp [Functor.map, Except.map]
  | ok a => simp [Functor.map, Except.map]

/-- Renamed exceptions: the result is the same. -/
theorem mapError_eq_ok_iff {ε' : Type*} {f : ε → ε'} {x : Except ε α} {a : α} :
    x.mapError f = .ok a ↔ x = .ok a := by
  cases x <;> simp [Except.mapError]

/-- An exception that is replaced was raised. -/
theorem mapError_eq_error_iff {ε' : Type*} {f : ε → ε'} {x : Except ε α} {e : ε'} :
    x.mapError f = .error e ↔ ∃ e', x = .error e' ∧ f e' = e := by
  cases x <;> simp [Except.mapError]

/-- What is left of a computation without its exception. -/
theorem toOption_eq_some_iff {x : Except ε α} {a : α} : x.toOption = some a ↔ x = .ok a := by
  cases x <;> simp [Except.toOption]

@[simp] theorem pure_eq_ok (a : α) : (pure a : Except ε α) = .ok a := rfl

@[simp] theorem ok_bind (a : α) (f : α → Except ε β) : (Except.ok a >>= f) = f a := rfl

@[simp] theorem error_bind (e : ε) (f : α → Except ε β) :
    (Except.error e >>= f) = .error e := rfl

@[simp] theorem throw_eq_error (e : ε) : (throw e : Except ε α) = .error e := rfl

/-- A loop that finishes has processed every item. -/
theorem mapM_eq_ok_iff {f : α → Except ε β} {l : List α} {r : List β} :
    l.mapM f = .ok r ↔ List.Forall₂ (fun a b => f a = .ok b) l r := by
  induction l generalizing r with
  | nil => cases r <;> simp [pure, Except.pure]
  | cons a rest ih =>
      simp only [List.mapM_cons, bind_eq_ok_iff, pure_eq_ok, Except.ok.injEq, ih]
      constructor
      · rintro ⟨b, hb, bs, hbs, rfl⟩
        exact .cons hb hbs
      · rintro (_ | ⟨hb, hbs⟩)
        exact ⟨_, hb, _, hbs, rfl⟩

/-- A loop of checks finishes when every check passes. -/
theorem forM_eq_ok_iff {f : α → Except ε PUnit} {l : List α} :
    forM l f = .ok ⟨⟩ ↔ ∀ a ∈ l, f a = .ok ⟨⟩ := by
  induction l with
  | nil => simp
  | cons a rest ih =>
      simp only [List.forM_cons, bind_eq_ok_iff, List.forall_mem_cons]
      constructor
      · rintro ⟨⟨⟩, ha, hrest⟩
        exact ⟨ha, ih.mp hrest⟩
      · rintro ⟨ha, hrest⟩
        exact ⟨⟨⟩, ha, ih.mpr hrest⟩

/-- What a finished loop has done, by what each of its steps adds. -/
theorem foldlM_induction {σ : Type v} {f : σ → α → Except ε σ} {P : List α → σ → Prop}
    {s s' : σ} {l : List α} (hstart : P [] s)
    (hstep : ∀ done a t t', P done t → f t a = .ok t' → P (done ++ [a]) t')
    (h : l.foldlM f s = .ok s') : P l s' := by
  suffices hgo : ∀ done t, P done t → l.foldlM f t = .ok s' → P (done ++ l) s' from
    hgo [] s hstart h
  clear hstart h
  induction l with
  | nil =>
      intro done t hdone h
      cases h
      simpa using hdone
  | cons a rest ih =>
      intro done t hdone h
      rw [List.foldlM_cons, bind_eq_ok_iff] at h
      obtain ⟨t', ha, hrest⟩ := h
      rw [List.append_cons]
      exact ih _ t' (hstep done a t t' hdone ha) hrest

/-- A loop whose items all succeed is a `map`. -/
theorem mapM_eq_ok_of_forall {f : α → Except ε β} {g : α → β} {l : List α}
    (h : ∀ a ∈ l, f a = .ok (g a)) : l.mapM f = .ok (l.map g) := by
  rw [mapM_eq_ok_iff]
  induction l with
  | nil => exact .nil
  | cons a rest ih =>
      exact .cons (h a (by simp)) (ih fun b hb => h b (by simp [hb]))

/-- Every exception the computation can raise satisfies `P`. -/
def RaisesOnly (P : ε → Prop) (x : Except ε α) : Prop := ∀ e, x = .error e → P e

namespace RaisesOnly

variable {P : ε → Prop}

/-- What returns raises nothing. -/
theorem ok (P : ε → Prop) (a : α) : RaisesOnly P (.ok a) := by
  intro e h
  cases h

/-- An exception is raised if it is one that may be. -/
theorem error {e : ε} (h : P e) : RaisesOnly P (.error e : Except ε α) := by
  intro e' he
  cases he
  exact h

/-- The exceptions of a sequence are those of its parts. -/
theorem bind {x : Except ε α} {f : α → Except ε β} (hx : RaisesOnly P x)
    (hf : ∀ a, x = .ok a → RaisesOnly P (f a)) : RaisesOnly P (x >>= f) := by
  cases x with
  | error e => exact error (hx e rfl)
  | ok a => exact hf a rfl

/-- Mapping a result raises nothing. -/
theorem map {x : Except ε α} {f : α → β} (hx : RaisesOnly P x) :
    RaisesOnly P (f <$> x) := by
  cases x with
  | error e => exact error (hx e rfl)
  | ok a => exact ok P (f a)

/-- The exceptions over a list are those at its elements. -/
theorem mapM {f : α → Except ε β} {l : List α} (hf : ∀ a ∈ l, RaisesOnly P (f a)) :
    RaisesOnly P (l.mapM f) := by
  induction l with
  | nil => exact ok P []
  | cons a rest ih =>
      rw [List.mapM_cons]
      apply bind (hf a (by simp))
      intro b _
      apply bind (ih fun c hc => hf c (by simp [hc]))
      intro bs _
      exact ok P (b :: bs)

/-- The exceptions of a loop are those of its turns. -/
theorem forM {f : α → Except ε PUnit} {l : List α} (hf : ∀ a ∈ l, RaisesOnly P (f a)) :
    RaisesOnly P (ForM.forM l f) := by
  induction l with
  | nil => exact ok P PUnit.unit
  | cons a rest ih =>
      rw [List.forM_cons]
      apply bind (hf a (by simp))
      exact fun _ _ => ih fun c hc => hf c (by simp [hc])

end RaisesOnly

/-- Every value the computation can return satisfies `P`. -/
def Yields (P : α → Prop) (x : Except ε α) : Prop := ∀ a, x = .ok a → P a

namespace Yields

variable {P : α → Prop} {Q : β → Prop}

/-- What returns yields its result. -/
theorem ok {a : α} (h : P a) : Yields P (.ok a : Except ε α) := by
  intro b hb
  cases hb
  exact h

/-- What a sequence yields is what its end yields. -/
theorem bind {x : Except ε α} {f : α → Except ε β}
    (hf : ∀ a, x = .ok a → Yields Q (f a)) : Yields Q (x >>= f) := by
  intro b hb
  obtain ⟨a, ha, hb⟩ := bind_eq_ok_iff.mp hb
  exact hf a ha b hb

/-- A property of the result, mapped. -/
theorem map {x : Except ε α} {f : α → β} (hx : Yields P x) (hf : ∀ a, P a → Q (f a)) :
    Yields Q (f <$> x) := by
  intro b hb
  obtain ⟨a, ha, hb⟩ := map_eq_ok_iff.mp hb
  exact hb ▸ hf a (hx a ha)

end Yields

/-- The computation raises exactly when `raises` says so, and returns only values
with the property. -/
def Ends (raises : Bool) (P : α → Prop) : Except ε α → Prop
  | .ok a => raises = false ∧ P a
  | .error _ => raises = true

namespace Ends

variable {raises raises' : Bool} {P : α → Prop} {Q : β → Prop}

/-- Nothing was raised on the way. -/
theorem ok {a : α} (h : P a) : Ends false P (.ok a : Except ε α) := ⟨rfl, h⟩

/-- A sequence raises if one of its parts does. -/
theorem bind {x : Except ε α} {f : α → Except ε β} (hx : Ends raises P x)
    (hf : ∀ a, P a → Ends raises' Q (f a)) : Ends (raises || raises') Q (x >>= f) := by
  cases x with
  | error e =>
      have hraises : raises = true := hx
      rw [hraises]
      rfl
  | ok a =>
      obtain ⟨hraises, ha⟩ := hx
      rw [hraises, Bool.false_or]
      exact hf a ha

/-- Mapping the result changes nothing of that. -/
theorem map {x : Except ε α} {f : α → β} (hx : Ends raises P x) (hf : ∀ a, P a → Q (f a)) :
    Ends raises Q (f <$> x) := by
  cases x with
  | error e => exact hx
  | ok a => exact ⟨hx.1, hf a hx.2⟩

/-- A weaker property of the result. -/
theorem mono {P' : α → Prop} {x : Except ε α} (hx : Ends raises P x)
    (hP : ∀ a, P a → P' a) : Ends raises P' x := by
  cases x with
  | error e => exact hx
  | ok a => exact ⟨hx.1, hP a hx.2⟩

/-- Whether the computation returns is decided by `raises`. -/
theorem returns_iff {x : Except ε α} (hx : Ends raises P x) :
    (∃ a, x = .ok a) ↔ raises = false := by
  cases x with
  | error e =>
      have hraises : raises = true := hx
      simp [hraises]
  | ok a => simp [hx.1]

/-- What the property says of a result that was returned. -/
theorem of_eq_ok {x : Except ε α} {a : α} (hx : Ends raises P x) (h : x = .ok a) : P a := by
  subst h
  exact hx.2

end Ends

/-- The same exception, or results that are related. -/
def Corresponds (R : α → β → Prop) : Except ε α → Except ε β → Prop
  | .ok a, .ok b => R a b
  | .error e, .error e' => e = e'
  | _, _ => False

namespace Corresponds

variable {α' β' : Type v} {R : α → β → Prop} {S : α' → β' → Prop} {x : Except ε α}
  {y : Except ε β}

/-- A computation corresponds to itself. -/
theorem refl {R : α → α → Prop} (hR : ∀ a, R a a) (x : Except ε α) : Corresponds R x x := by
  cases x with
  | error e => exact rfl
  | ok a => exact hR a

/-- Sequences correspond if their parts do. -/
theorem bind {f : α → Except ε α'} {g : β → Except ε β'} (hxy : Corresponds R x y)
    (hfg : ∀ a b, R a b → Corresponds S (f a) (g b)) : Corresponds S (x >>= f) (y >>= g) := by
  cases x with
  | error e =>
      cases y with
      | error e' => exact hxy
      | ok b => exact hxy.elim
  | ok a =>
      cases y with
      | error e' => exact hxy.elim
      | ok b => exact hfg a b hxy

/-- Results that correspond are mapped to results that do. -/
theorem map {f : α → α'} {g : β → β'} (hxy : Corresponds R x y)
    (hfg : ∀ a b, R a b → S (f a) (g b)) : Corresponds S (f <$> x) (g <$> y) := by
  cases x with
  | error e =>
      cases y with
      | error e' => exact hxy
      | ok b => exact hxy.elim
  | ok a =>
      cases y with
      | error e' => exact hxy.elim
      | ok b => exact hfg a b hxy

end Corresponds

section Forall₂

variable {γ : Type*} {δ : Type*} {R : γ → δ → Prop} {l : List γ} {r : List δ}

/-- Everything on the right stands to something on the left. -/
theorem exists_left_of_mem (h : List.Forall₂ R l r) {d : δ} (hd : d ∈ r) :
    ∃ c ∈ l, R c d := by
  induction h with
  | nil => simp at hd
  | cons hab _ ih =>
      cases List.mem_cons.mp hd with
      | inl h => exact ⟨_, by simp, h ▸ hab⟩
      | inr h =>
          obtain ⟨c, hc, hcd⟩ := ih h
          exact ⟨c, by simp [hc], hcd⟩

/-- Choose for every element of a list. -/
theorem exists_forall₂ (h : ∀ c ∈ l, ∃ d, R c d) : ∃ r, List.Forall₂ R l r := by
  induction l with
  | nil => exact ⟨[], .nil⟩
  | cons c rest ih =>
      obtain ⟨d, hd⟩ := h c (by simp)
      obtain ⟨r, hr⟩ := ih fun b hb => h b (by simp [hb])
      exact ⟨d :: r, .cons hd hr⟩

/-- A relation between any two is taken along. -/
theorem pairwise_of_forall₂ {P : γ → γ → Prop} {Q : δ → δ → Prop}
    (hPQ : ∀ a b c d, R a b → R c d → P a c → Q b d) (h : List.Forall₂ R l r)
    (hl : l.Pairwise P) : r.Pairwise Q := by
  induction h with
  | nil => exact .nil
  | cons hab hrest ih =>
      obtain ⟨hhead, htail⟩ := List.pairwise_cons.mp hl
      refine List.pairwise_cons.mpr ⟨fun d hd => ?_, ih htail⟩
      obtain ⟨c, hc, hcd⟩ := exists_left_of_mem hrest hd
      exact hPQ _ _ _ _ hab hcd (hhead c hc)

/-- What a finished loop collects comes from its items. -/
theorem mem_flatMap_of_forall₂ {f : γ → Except ε δ} {x : α} {g : δ → List α}
    (h : List.Forall₂ (fun c d => f c = .ok d) l r) :
    x ∈ r.flatMap g ↔ ∃ c ∈ l, ∃ d, f c = .ok d ∧ x ∈ g d := by
  rw [List.mem_flatMap]
  constructor
  · rintro ⟨d, hd, hx⟩
    obtain ⟨c, hc, hcd⟩ := exists_left_of_mem h hd
    exact ⟨c, hc, d, hcd, hx⟩
  · rintro ⟨c, hc, d, hcd, hx⟩
    obtain ⟨d', hd', hcd'⟩ := exists_left_of_mem h.flip hc
    obtain rfl := Except.ok.inj (hcd.symm.trans hcd')
    exact ⟨d, hd', hx⟩

end Forall₂

end A2aItk.Python
