import A2aItk.Python.Exceptions
import A2aItk.Python.Text
import Mathlib.Data.List.TakeWhile

/-!
# Target specifications

`launcher/spec.py`: what a target is built from, and the checks a specification
passes when it is constructed.

## Implementation notes

`re.match` against a pattern that ends in `$` also accepts one newline at the end.
-/

namespace A2aItk.Launcher

open Python

/-- Where the agent source comes from. -/
inductive Kind
  | mount
  | checkout
  deriving DecidableEq

namespace Kind

def value : Kind → String
  | mount => "mount"
  | checkout => "checkout"

end Kind

/-- What `$` accepts. -/
def atEnd (rest : List Char) : Bool := rest = [] || rest = ['\n']

/-- `[A-Za-z0-9_.-]`. -/
def isRepoChar (c : Char) : Bool := c.isAlphanum || c = '_' || c = '.' || c = '-'

/-- `[0-9a-f]`. -/
def isShaChar (c : Char) : Bool := c.isDigit || ('a' ≤ c && c ≤ 'f')

/-- `_REPO_RE.match`. -/
def matchesRepo (repo : List Char) : Bool :=
  let owner := repo.takeWhile isRepoChar
  match repo.dropWhile isRepoChar with
  | '/' :: rest =>
      !owner.isEmpty && !(rest.takeWhile isRepoChar).isEmpty && atEnd (rest.dropWhile isRepoChar)
  | _ => false

/-- `_SHA_RE.match`. -/
def matchesSha (sha : List Char) : Bool :=
  (sha.takeWhile isShaChar).length = 40 && atEnd (sha.dropWhile isShaChar)

/-- The fields of a `TargetSpec`, before `__post_init__` has seen them. -/
structure SpecFields where
  kind : Kind
  repo : Option String
  sha : Option String

namespace SpecFields

variable (spec : SpecFields)

/-- `getattr`, for the fields that are checked. -/
def fields : List (String × Option String) := [("repo", spec.repo), ("sha", spec.sha)]

def checkPresent : Except PyError Unit :=
  spec.fields.forM fun (field, value) =>
    if value.isNone then
      throw (.valueError s!"{spec.kind.value} spec requires {Text.repr field}")
    else pure ()

def checkAbsent : Except PyError Unit :=
  spec.fields.forM fun (field, value) =>
    if value.isSome then
      throw (.valueError s!"{spec.kind.value} spec must not set {Text.repr field}")
    else pure ()

def checkRepo (repo : String) : Except PyError Unit :=
  if matchesRepo repo.toList then pure ()
  else throw (.valueError s!"invalid repo {Text.repr repo} (expected \"owner/name\")")

def checkSha (sha : String) : Except PyError Unit :=
  if matchesSha sha.toList then pure ()
  else throw (.valueError
    (s!"invalid sha {Text.repr sha}: expected a resolved 40-hex commit; " ++
      "symbolic refs (main, tags, short SHAs) must be resolved via git ls-remote at plan time"))

/-- `__post_init__`. -/
def postInit : Except PyError Unit :=
  match spec.kind with
  | .mount => spec.checkAbsent
  | .checkout => do
      spec.checkPresent
      -- after `_check_present` the assertions of the next two checks hold
      checkRepo (spec.repo.getD "")
      checkSha (spec.sha.getD "")

end SpecFields

/-- A specification that was constructed. -/
structure TargetSpec extends SpecFields where
  constructed : toSpecFields.postInit = .ok ()

/-- What a `TargetSpec` of kind `CHECKOUT` names. -/
structure Checkout where
  repo : String
  sha : String
  constructed : SpecFields.postInit ⟨.checkout, some repo, some sha⟩ = .ok ()

section Patterns

theorem isRepoChar_ne {c d : Char} (hc : isRepoChar c = true) (hd : isRepoChar d = false) :
    c ≠ d := by
  rintro rfl
  rw [hc] at hd
  cases hd

/-- What a text matched by `_REPO_RE` is made of. -/
theorem exists_owner_of_matchesRepo {repo : List Char} (h : matchesRepo repo = true) :
    ∃ owner name, repo = owner ++ '/' :: name ∧ '/' ∉ owner ∧ '@' ∉ owner ∧
      '/' ∉ name ∧ '@' ∉ name := by
  have havoids : ∀ {d : Char} {s : List Char}, isRepoChar d = false →
      d ∉ s.takeWhile isRepoChar := by
    intro d s hd hmem
    exact isRepoChar_ne (List.mem_takeWhile_imp hmem) hd rfl
  unfold matchesRepo at h
  dsimp only at h
  split at h
  case h_2 => cases h
  case h_1 rest hrest =>
    rw [Bool.and_eq_true] at h
    have hend : ∀ {d : Char}, isRepoChar d = false → d ≠ '\n' → d ∉ rest := by
      intro d hd hnewline hmem
      rw [← List.takeWhile_append_dropWhile (p := isRepoChar) (l := rest)] at hmem
      rcases List.mem_append.mp hmem with hmem | hmem
      · exact havoids hd hmem
      · have htail := h.2
        simp only [atEnd, Bool.or_eq_true, decide_eq_true_eq] at htail
        rcases htail with htail | htail
        · simp [htail] at hmem
        · simp [htail, hnewline] at hmem
    refine ⟨repo.takeWhile isRepoChar, rest, ?_, havoids (by decide), havoids (by decide),
      hend (by decide) (by decide), hend (by decide) (by decide)⟩
    rw [← hrest, List.takeWhile_append_dropWhile]

theorem not_mem_of_matchesSha {sha : List Char} (h : matchesSha sha = true) : '@' ∉ sha := by
  intro hmem
  rw [← List.takeWhile_append_dropWhile (p := isShaChar) (l := sha)] at hmem
  rw [matchesSha, Bool.and_eq_true] at h
  rcases List.mem_append.mp hmem with hmem | hmem
  · exact Bool.false_ne_true (List.mem_takeWhile_imp hmem : isShaChar '@' = true)
  · have htail := h.2
    simp only [atEnd, Bool.or_eq_true, decide_eq_true_eq] at htail
    rcases htail with htail | htail <;> simp [htail] at hmem

end Patterns

namespace SpecFields

/-- The specifications of kind `CHECKOUT` that can be constructed. -/
theorem postInit_checkout {repo sha : Option String} :
    postInit ⟨.checkout, repo, sha⟩ = .ok () ↔
      ∃ r s, repo = some r ∧ sha = some s ∧
        matchesRepo r.toList = true ∧ matchesSha s.toList = true := by
  cases repo with
  | none => simp [postInit, checkPresent, fields, bind, Except.bind, throw, throwThe,
      MonadExceptOf.throw]
  | some r =>
      cases sha with
      | none => simp [postInit, checkPresent, fields, bind, Except.bind, throw, throwThe,
          MonadExceptOf.throw, pure, Except.pure]
      | some s =>
          have hpresent : checkPresent ⟨.checkout, some r, some s⟩ = .ok () := rfl
          simp only [postInit, hpresent, Option.getD_some]
          by_cases hrepo : matchesRepo r.toList = true
          · by_cases hsha : matchesSha s.toList = true
            · simp [checkRepo, checkSha, hrepo, hsha, bind, Except.bind, pure, Except.pure]
            · simp [checkRepo, checkSha, hrepo, hsha, bind, Except.bind, pure, Except.pure,
                throw, throwThe, MonadExceptOf.throw]
          · simp [checkRepo, hrepo, bind, Except.bind, throw, throwThe, MonadExceptOf.throw]

end SpecFields

namespace Checkout

variable (target : Checkout)

theorem repo_matches : matchesRepo target.repo.toList = true := by
  obtain ⟨r, s, hr, hs, hrepo, hsha⟩ := SpecFields.postInit_checkout.mp target.constructed
  rwa [Option.some.inj hr]

theorem sha_matches : matchesSha target.sha.toList = true := by
  obtain ⟨r, s, hr, hs, hrepo, hsha⟩ := SpecFields.postInit_checkout.mp target.constructed
  rwa [Option.some.inj hs]

end Checkout

namespace TargetSpec

/-- What `__post_init__` promises the rest of the launcher: the two fields are set on a
checkout and on nothing else. -/
theorem fields_of_kind (spec : TargetSpec) :
    (spec.kind = .mount → spec.repo = none ∧ spec.sha = none) ∧
      (spec.kind = .checkout → ∃ target : Checkout,
        spec.repo = some target.repo ∧ spec.sha = some target.sha) := by
  obtain ⟨⟨kind, repo, sha⟩, h⟩ := spec
  constructor
  · rintro rfl
    cases repo with
    | some r => cases h
    | none =>
        cases sha with
        | some s => cases h
        | none => exact ⟨rfl, rfl⟩
  · rintro rfl
    obtain ⟨r, s, rfl, rfl, hrepo, hsha⟩ := SpecFields.postInit_checkout.mp h
    exact ⟨⟨r, s, h⟩, rfl, rfl⟩

end TargetSpec

end A2aItk.Launcher
