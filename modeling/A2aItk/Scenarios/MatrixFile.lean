import A2aItk.Python.Dict
import A2aItk.Python.Joined
import A2aItk.Scenarios.Loader
import A2aItk.Scenarios.Matrix
import Mathlib.Data.List.TakeWhile

/-!
# The matrix as it is loaded

`Matrix.from_dict` of `launcher/matrix.py`: which YAML mappings make a matrix, and which of
its rows are found again under their identifiers.

## Implementation notes

The keys of a YAML mapping are scalars of any kind, and no name is checked. `resolve` is
`none` where the source raises, be it `MatrixError` or the `TypeError` of sorting keys of
different types for the message. On rows with text names it is `Matrix.resolve`.
-/

namespace A2aItk.Scenarios

open Python

/-- One (sdk, line) row, under the keys the file gives it. -/
structure MatrixRow where
  sdk : Scalar
  line : Scalar
  repo : String
  ref : String
  transports : List String
  deriving DecidableEq

/-- The rows of a loaded matrix, under their names. -/
abbrev MatrixRows := Dict (Scalar × Scalar) MatrixRow

section Loading

variable (py : Interpreter)

/-- An error about the transports of a row. -/
def transportsError (sdk line : Scalar) (problem : String) : PyError :=
  .valueError (s!"sdks.{sdk.text py}.{line.text py}.transports: " ++ problem)

/-- The transports that are allowed, as an error lists them. -/
def sortedTransports : String := (Value.list ((sortedSet transportOrder).map .str)).repr py

/-- An absent list means all three; unknown names are rejected. -/
def parseTransports (raw : Value) (sdk line : Scalar) : Except PyError (List String) :=
  match raw with
  | .scalar .null => pure transportOrder
  | .list items =>
      match items.mapM Value.text? with
      | none => throw (transportsError py sdk line "must be a list of strings")
      | some [] => throw (transportsError py sdk line
          s!"must not be empty; omit the key to mean all of {sortedTransports py}")
      | some names =>
          let unknown := sortedSet (names.filter (· ∉ transportOrder))
          if unknown ≠ [] then
            throw (transportsError py sdk line
              (s!"unknown transport(s) {(Value.list (unknown.map .str)).repr py}; " ++
                s!"valid: {sortedTransports py}"))
          else pure names
  | _ => throw (transportsError py sdk line "must be a list of strings")

/-- One row of the file. -/
def parseRow (sdk line : Scalar) (cfg : Value) : Except PyError MatrixRow :=
  let place := s!"sdks.{sdk.text py}.{line.text py}"
  if !cfg.isMapping then
    throw (.valueError s!"{place}: must be a mapping with repo+ref")
  else
    let repo := (cfg.get? (.str "repo")).getD .null
    let ref := (cfg.get? (.str "ref")).getD .null
    if !repo.truthy || !ref.truthy then
      throw (.valueError (s!"{place}: needs both `repo` and `ref` " ++
        s!"(got repo={repo.repr py}, ref={ref.repr py})"))
    else
      match repo.text?, ref.text? with
      | some repo, some ref => do
          let transports ← parseTransports py ((cfg.get? (.str "transports")).getD .null) sdk line
          pure ⟨sdk, line, repo, ref, transports⟩
      | _, _ => throw (.valueError (s!"{place}: repo and ref must be strings " ++
          s!"(got repo={typeName repo}, ref={typeName ref})"))

/-- The lines of one SDK. -/
def parseLines (sdk : Scalar) (lines : Value) : Except PyError (List MatrixRow) :=
  match lines with
  | .dict lines => lines.mapM fun entry => parseRow py sdk entry.1 entry.2
  | _ => throw (.valueError s!"sdks.{sdk.text py}: must be a mapping of lines")

/-- The names a row stands under. -/
def MatrixRow.key (row : MatrixRow) : Scalar × Scalar := (row.sdk, row.line)

/-- `Matrix.from_dict`: the rows in the order of the file, a later one under the same names taking
the place of an earlier. -/
def fromDict (data : Value) : Except PyError MatrixRows :=
  if !data.isMapping then throw (.valueError s!"matrix must be a mapping; got {typeName data}")
  else match (data.get? (.str "sdks")).getD .null with
    | .scalar .null => throw (.valueError "matrix missing top-level `sdks:` key")
    | .dict sdks => do
        let rows ← sdks.mapM fun entry => parseLines py entry.1 entry.2
        pure (Dict.ofList (rows.flatten.map fun row => (row.key, row)))
    | sdks => throw (.valueError s!"`sdks:` must be a mapping; got {typeName sdks}")

end Loading

section Lookup

variable (py : Interpreter)

/-- The identifier scenarios address the row by. -/
def MatrixRow.agentId (row : MatrixRow) : String := row.sdk.text py ++ "_" ++ row.line.text py

/-- The identifier of a further copy of the agent. -/
def MatrixRow.instanceId (row : MatrixRow) (n : ℕ) : String :=
  row.agentId py ++ "_" ++ Nat.repr n

/-- The row an identifier leads to. -/
def resolveRow (m : MatrixRows) (agentId : String) : Option MatrixRow :=
  if agentId = sutId then none
  else (agentIdParts agentId).bind fun parts => m.get? (.str parts.1, .str parts.2)

/-- The row is found under its identifier, and under that of each further instance. -/
structure RoundTrips (m : MatrixRows) (row : MatrixRow) : Prop where
  itself : resolveRow m (row.agentId py) = some row
  instances : ∀ n, 2 ≤ n → resolveRow m (row.instanceId py n) = some row

/-- Every row is found again under each of its identifiers. -/
def IdentifiersRoundTrip (m : MatrixRows) : Prop := ∀ row ∈ m.values, RoundTrips py m row

/-- The identifiers a row is addressed by. -/
def Addresses (row : MatrixRow) (agentId : String) : Prop :=
  agentId = row.agentId py ∨ ∃ n, 2 ≤ n ∧ agentId = row.instanceId py n

/-- No two rows share an identifier. -/
def IdentifiersDistinct (m : MatrixRows) : Prop :=
  ∀ row ∈ m.values, ∀ row' ∈ m.values, ∀ agentId,
    Addresses py row agentId → Addresses py row' agentId → row = row'

end Lookup

/-- `[a-z][a-z0-9]*`. -/
def IsSdkName (name : String) : Prop :=
  ∃ c rest, name.toList = c :: rest ∧ c.isLower = true ∧
    ∀ d ∈ rest, (d.isLower || d.isDigit) = true

/-- `v[0-9]+`. -/
def IsLineName (name : String) : Prop :=
  ∃ digits, name.toList = 'v' :: digits ∧ digits ≠ [] ∧ ∀ d ∈ digits, d.isDigit = true

/-- The names of a row are texts of the form identifiers have. -/
def MatrixRow.WellNamed (row : MatrixRow) : Prop :=
  ∃ sdk line, row.sdk = .str sdk ∧ row.line = .str line ∧ IsSdkName sdk ∧ IsLineName line

section Identifiers

variable {sdk line : String}

/-- An identifier is taken apart where it was put together. -/
theorem agentIdParts_append {suffix : String} (hsdk : IsSdkName sdk) (hline : IsLineName line)
    (hsuffix : copySuffix suffix.toList = true)
    (hend : ∀ d ∈ suffix.toList.head?, d.isDigit = false) :
    agentIdParts (sdk ++ "_" ++ line ++ suffix) = some (sdk, line) := by
  obtain ⟨c, rest, hsdkText, hc, hrest⟩ := hsdk
  obtain ⟨digits, hlineText, hne, hdigits⟩ := hline
  have htext : (sdk ++ "_" ++ line ++ suffix).toList =
      c :: (rest ++ '_' :: 'v' :: (digits ++ suffix.toList)) := by
    simp [hsdkText, hlineText]
  have hname := span_append (r := '_' :: 'v' :: (digits ++ suffix.toList)) hrest
    (fun d hd => by cases hd; rfl)
  have hnumber := span_append hdigits hend
  unfold agentIdParts
  rw [htext]
  simp only [hc, hname.1, hname.2, hnumber.1, hnumber.2, hsuffix, Bool.not_true,
    Bool.false_eq_true, if_false, Bool.or_false, List.isEmpty_iff, hne]
  rw [← hsdkText, ← hlineText, String.ofList_toList, String.ofList_toList]

/-- What is taken apart has the form of the pattern. -/
theorem names_of_agentIdParts {agentId : String} (h : agentIdParts agentId = some (sdk, line)) :
    IsSdkName sdk ∧ IsLineName line := by
  unfold agentIdParts at h
  split at h
  · cases h
  · rename_i c rest htext
    split at h
    · cases h
    · rename_i hc
      dsimp only at h
      split at h
      · rename_i tail hdrop
        split at h
        · cases h
        · rename_i hdigits
          obtain ⟨rfl, rfl⟩ := Prod.mk.inj (Option.some.inj h)
          rw [Bool.or_eq_true, not_or] at hdigits
          refine ⟨⟨c, _, String.toList_ofList, by simpa using hc, ?_⟩,
            ⟨_, String.toList_ofList, by simpa using hdigits.1, ?_⟩⟩
          · intro d hd
            have hkept := List.mem_takeWhile_imp hd
            exact hkept
          · exact fun d hd => List.mem_takeWhile_imp hd
      · cases h

/-- No identifier of a row is that of the system under test. -/
theorem ne_sutId {suffix : String} : sdk ++ "_" ++ suffix ≠ sutId := by
  intro h
  have hin : '_' ∈ sutId.toList := by
    rw [← h]
    simp
  exact absurd hin (by decide)

end Identifiers

section Rows

variable {py : Interpreter} {data : Value} {m : MatrixRows} {row : MatrixRow}

/-- Each row stands under its own names. -/
def MatrixRows.Keyed (m : MatrixRows) : Prop := ∀ key row, m.get? key = some row → key = row.key

/-- Rows are loaded under their own names. -/
theorem keyed_of_fromDict (h : fromDict py data = .ok m) : MatrixRows.Keyed m := by
  unfold fromDict at h
  split at h
  · cases h
  · split at h
    · cases h
    · obtain ⟨rows, -, h⟩ := bind_eq_ok_iff.mp h
      obtain rfl := Except.ok.inj h
      intro key row hget
      obtain ⟨row', -, heq⟩ := List.mem_map.mp (Dict.mem_of_get?_ofList hget)
      obtain ⟨rfl, rfl⟩ := Prod.mk.inj heq
      rfl
    · cases h

/-- A row is found under its own names. -/
theorem MatrixRows.Keyed.get?_key (hkeyed : MatrixRows.Keyed m) (hrow : row ∈ m.values) :
    m.get? row.key = some row := by
  obtain ⟨⟨key, row⟩, hentry, rfl⟩ := List.mem_map.mp hrow
  have hget := Dict.get?_eq_some_iff.mpr hentry
  rw [hkeyed key row hget] at hget
  exact hget

/-- An identifier leads to the row under the names it is made of. -/
theorem resolveRow_append {sdk line suffix : String} (hsdk : IsSdkName sdk)
    (hline : IsLineName line) (hsuffix : copySuffix suffix.toList = true)
    (hend : ∀ d ∈ suffix.toList.head?, d.isDigit = false) :
    resolveRow m (sdk ++ "_" ++ line ++ suffix) = m.get? (.str sdk, .str line) := by
  have hne : sdk ++ "_" ++ line ++ suffix ≠ sutId := by
    rw [String.append_assoc]
    exact ne_sutId
  rw [resolveRow, if_neg hne, agentIdParts_append hsdk hline hsuffix hend, Option.bind_some]

/-- The number of a copy ends its identifier. -/
theorem copySuffix_instance (n : ℕ) : copySuffix ("_" ++ Nat.repr n).toList = true ∧
    ∀ d ∈ ("_" ++ Nat.repr n).toList.head?, d.isDigit = false := by
  have htext : ("_" ++ Nat.repr n).toList = '_' :: (Nat.repr n).toList := by simp
  have hdigits : ∀ d ∈ (Nat.repr n).toList, d.isDigit = true := fun d hd =>
    Text.isDigit_of_mem_repr hd
  have hrun := span_append (r := []) hdigits (fun d hd => by cases hd)
  rw [List.append_nil] at hrun
  rw [htext]
  constructor
  · rw [copySuffix, hrun.1, hrun.2]
    simp [atEnd]
  · intro d hd
    cases hd
    rfl

/-- A row is found again just where its names are those of an identifier. -/
theorem roundTrips_iff (hkeyed : MatrixRows.Keyed m) (hrow : row ∈ m.values) :
    RoundTrips py m row ↔ row.WellNamed := by
  constructor
  · intro hround
    have hresolve := hround.itself
    unfold resolveRow at hresolve
    split at hresolve
    · cases hresolve
    · obtain ⟨⟨sdk, line⟩, hparts, hget⟩ := Option.bind_eq_some_iff.mp hresolve
      obtain ⟨hsdk, hline⟩ := names_of_agentIdParts hparts
      obtain ⟨hs, hl⟩ := Prod.mk.inj (hkeyed _ _ hget)
      exact ⟨sdk, line, hs.symm, hl.symm, hsdk, hline⟩
  · rintro ⟨sdk, line, hs, hl, hsdk, hline⟩
    have hkey : m.get? (.str sdk, .str line) = some row := by
      rw [← hs, ← hl]
      exact hkeyed.get?_key hrow
    have hid : row.agentId py = sdk ++ "_" ++ line := by
      rw [MatrixRow.agentId, hs, hl]
      rfl
    constructor
    · have hplain : resolveRow m (sdk ++ "_" ++ line ++ "") = m.get? (.str sdk, .str line) :=
        resolveRow_append hsdk hline rfl fun d hd => by cases hd
      rwa [String.append_empty, ← hid, hkey] at hplain
    · intro n _
      have hcopy := copySuffix_instance n
      rw [MatrixRow.instanceId, hid, String.append_assoc,
        resolveRow_append hsdk hline hcopy.1 hcopy.2, hkey]

/-- A row that is found again is found under any of its identifiers. -/
theorem RoundTrips.of_addresses (h : RoundTrips py m row) {agentId : String}
    (haddress : Addresses py row agentId) : resolveRow m agentId = some row := by
  rcases haddress with rfl | ⟨n, hn, rfl⟩
  · exact h.itself
  · exact h.instances n hn

/-- The identifiers of a loaded matrix lead back to their rows, and to no two, if and only
if all names have the form of the pattern. -/
theorem identifiersRoundTrip_iff (h : fromDict py data = .ok m) :
    IdentifiersRoundTrip py m ∧ IdentifiersDistinct py m ↔ ∀ row ∈ m.values, row.WellNamed := by
  have hkeyed := keyed_of_fromDict h
  constructor
  · exact fun hround row hrow => (roundTrips_iff hkeyed hrow).mp (hround.1 row hrow)
  · intro hnames
    have hround : IdentifiersRoundTrip py m := fun row hrow =>
      (roundTrips_iff hkeyed hrow).mpr (hnames row hrow)
    refine ⟨hround, fun row hrow row' hrow' agentId haddress haddress' => ?_⟩
    have hown := (hround row hrow).of_addresses haddress
    exact Option.some.inj (hown.symm.trans ((hround row' hrow').of_addresses haddress'))

/-- A matrix of one row. -/
def oneRow (sdk line : String) : Value :=
  .object [("sdks", .object [(sdk, .object [(line,
    .object [("repo", .str "a2aproject/a2a-python"), ("ref", .str "main")])])])]

/-- What it is loaded as. -/
def loadedRow (sdk line : String) : MatrixRow :=
  ⟨.str sdk, .str line, "a2aproject/a2a-python", "main", transportOrder⟩

/-- The matrix of one row is loaded as that row. -/
theorem fromDict_oneRow (sdk line : String) :
    fromDict py (oneRow sdk line) =
      .ok (Dict.ofList [((.str sdk, .str line), loadedRow sdk line)]) := rfl

/-- A matrix of two rows. -/
def twoRows (sdk line sdk' line' : String) : Value :=
  .object [("sdks", .object [
    (sdk, .object [(line, .object [("repo", .str "a2aproject/a2a-python"),
      ("ref", .str "main")])]),
    (sdk', .object [(line', .object [("repo", .str "a2aproject/a2a-python"),
      ("ref", .str "main")])])])]

/-- The matrix of two rows is loaded as both, in order. -/
theorem fromDict_twoRows (sdk line sdk' line' : String) :
    fromDict py (twoRows sdk line sdk' line') =
      .ok (Dict.ofList [((.str sdk, .str line), loadedRow sdk line),
        ((.str sdk', .str line'), loadedRow sdk' line')]) := rfl

theorem identifiersRoundTrip_iff_python :
    ∃ m, fromDict .plain (twoRows "go" "v03" "python" "v10") = .ok m ∧
      m.values = [loadedRow "go" "v03", loadedRow "python" "v10"] ∧
      IdentifiersRoundTrip .plain m ∧ IdentifiersDistinct .plain m := by
  have hloads := @fromDict_twoRows .plain "go" "v03" "python" "v10"
  have hvalues : (Dict.ofList [((.str "go", .str "v03"), loadedRow "go" "v03"),
      ((.str "python", .str "v10"), loadedRow "python" "v10")] : MatrixRows).values =
        [loadedRow "go" "v03", loadedRow "python" "v10"] := by decide +kernel
  refine ⟨_, hloads, hvalues, (identifiersRoundTrip_iff hloads).mpr fun row hrow => ?_⟩
  rw [hvalues] at hrow
  rcases List.mem_pair.mp hrow with rfl | rfl
  · have hsdk : IsSdkName "go" := ⟨'g', ['o'], by simp, rfl, by simp⟩
    have hline : IsLineName "v03" := ⟨['0', '3'], by simp, by simp, by simp⟩
    exact ⟨"go", "v03", rfl, rfl, hsdk, hline⟩
  · have hsdk : IsSdkName "python" := ⟨'p', ['y', 't', 'h', 'o', 'n'], by simp, rfl, by simp⟩
    have hline : IsLineName "v10" := ⟨['1', '0'], by simp, by simp, by simp⟩
    exact ⟨"python", "v10", rfl, rfl, hsdk, hline⟩

/-- A capital letter is accepted in the file and in no identifier. -/
theorem capital_row_lost :
    ∃ m, fromDict .plain (oneRow "Python" "v10") = .ok m ∧ loadedRow "Python" "v10" ∈ m.values ∧
      resolveRow m ((loadedRow "Python" "v10").agentId .plain) = none :=
  ⟨_, fromDict_oneRow "Python" "v10", by decide, by decide +kernel⟩

end Rows

section TextNames

/-- A row of the resolver as a row of the file. -/
def MatrixEntry.row (e : MatrixEntry) : MatrixRow :=
  ⟨.str e.sdk, .str e.line, e.repo, e.ref, e.transports⟩

/-- The rows of a matrix with text names, under their keys. -/
def Matrix.loaded (matrix : Matrix) : MatrixRows where
  entries := matrix.rows.map fun e => (e.row.key, e.row)
  distinct := by
    have hkeys : (matrix.rows.map fun e => (e.row.key, e.row)).map Prod.fst =
        (matrix.rows.map fun e => (e.sdk, e.line)).map
          fun key => (Scalar.str key.1, Scalar.str key.2) := by
      rw [List.map_map, List.map_map]
      rfl
    rw [hkeys]
    refine matrix.distinct.map fun a b hab => ?_
    obtain ⟨hsdk, hline⟩ := Prod.mk.inj hab
    exact Prod.ext (Scalar.str.inj hsdk) (Scalar.str.inj hline)

/-- A lookup by two texts goes through the rows in order. -/
theorem get?_loaded (matrix : Matrix) (sdk line : String) :
    matrix.loaded.get? (.str sdk, .str line) =
      (matrix.rows.find? fun e => e.sdk = sdk && e.line = line).map MatrixEntry.row := by
  rw [Dict.get?, Matrix.loaded, Dict.lookup_map]
  congr 2
  funext e
  simp [MatrixEntry.row, MatrixRow.key]

/-- On text names the lookup is that of `Matrix.resolve`. -/
theorem resolveRow_loaded (matrix : Matrix) (agentId : String) :
    resolveRow matrix.loaded agentId =
      ((matrix.resolve agentId).toOption).map MatrixEntry.row := by
  rw [resolveRow, Matrix.resolve]
  by_cases hsut : agentId = sutId
  · rw [if_pos hsut, if_pos hsut]
    rfl
  · rw [if_neg hsut, if_neg hsut]
    cases hparts : agentIdParts agentId with
    | none => rfl
    | some parts =>
        obtain ⟨sdk, line⟩ := parts
        rw [Option.bind_some, get?_loaded]
        dsimp only
        cases matrix.rows.find? fun e => e.sdk = sdk && e.line = line with
        | none => rfl
        | some e => rfl

end TextNames

end A2aItk.Scenarios
