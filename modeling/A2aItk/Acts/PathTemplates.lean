import A2aItk.Acts.Deviations
import A2aItk.Python.Joined
import A2aItk.Python.Replace
import A2aItk.Python.Value

/-!
# REST path templates

How an operation's path is filled in from its parameters. The placeholders are
replaced one after the other in the growing path. Filled at once, they would be
replaced in the template, where no value can be taken for a placeholder.

## Implementation notes

Names are words in the sense of `isWord`, and `beyond` is what the regular expression
takes for a word character beyond ASCII.
-/

namespace A2aItk.Acts

open Python

namespace Operation

/-- `OPERATIONS[operation].rest_path`. -/
def restPath : Operation → String
  | sendMessage => "/message:send"
  | sendStreamingMessage => "/message:stream"
  | getTask => "/tasks/\x7bid\x7d"
  | listTasks => "/tasks"
  | cancelTask => "/tasks/\x7bid\x7d:cancel"
  | subscribeToTask => "/tasks/\x7bid\x7d:subscribe"
  | getAgentCard => "/.well-known/agent-card.json"
  | getExtendedAgentCard => "/extendedAgentCard"
  | createPushConfig => "/tasks/\x7btaskId\x7d/pushNotificationConfigs"
  | getPushConfig => "/tasks/\x7btaskId\x7d/pushNotificationConfigs/\x7bid\x7d"
  | listPushConfigs => "/tasks/\x7btaskId\x7d/pushNotificationConfigs"
  | deletePushConfig => "/tasks/\x7btaskId\x7d/pushNotificationConfigs/\x7bid\x7d"

end Operation

namespace PathTemplate

/-- A piece of a template: a character that stands for itself, or a placeholder. -/
inductive Piece
  | char (c : Char)
  | placeholder (name : String)
  deriving DecidableEq

/-- How a template writes a placeholder. -/
def spelling (name : String) : List Char := '\x7b' :: (name.toList ++ ['\x7d'])

/-- The names of the placeholders, in order of appearance. -/
def names : List Piece → List String
  | [] => []
  | .char _ :: rest => names rest
  | .placeholder name :: rest => name :: names rest

/-- The pieces written out, with a text for each placeholder. -/
def fill (texts : String → List Char) : List Piece → List Char
  | [] => []
  | .char c :: rest => c :: fill texts rest
  | .placeholder name :: rest => texts name ++ fill texts rest

section Scan

variable (beyond : Char → Bool)

/-- `_PLACEHOLDER_RE` at the start of a text, with the name it captures. -/
def placeholderAt : List Char → Option (List Char)
  | [] => none
  | c :: rest =>
      let name := rest.takeWhile (isWord beyond)
      if c = '\x7b' ∧ name ≠ [] ∧ (rest.drop name.length).head? = some '\x7d' then some name
      else none

/-- The worker of `scan`: `skip` characters of a placeholder are still to be passed over. -/
def scanGo : ℕ → List Char → List Piece
  | _, [] => []
  | skip + 1, _ :: rest => scanGo skip rest
  | 0, c :: rest =>
      match placeholderAt beyond (c :: rest) with
      | some name => .placeholder (String.ofList name) :: scanGo (name.length + 1) rest
      | none => .char c :: scanGo 0 rest

def scan (s : List Char) : List Piece := scanGo beyond 0 s

/-- `path_params`. -/
def pathParams (restPath : String) : List String :=
  names (scan beyond restPath.toList)

end Scan

section Format

variable (py : Interpreter) (beyond : Char → Bool)

def missingParam (restPath name : String) (remaining : Dict String Value) : PyError :=
  .keyError (restPath ++ " needs param " ++ Text.repr name ++ "; got " ++
    (Value.list ((remaining.keys.insertionSort (· ≤ ·)).map .str)).repr py)

/-- The loop of `format_path` over the names that are left. -/
def formatNames (restPath : String) :
    List String → List Char → Dict String Value → Except PyError (List Char × Dict String Value)
  | [], path, remaining => .ok (path, remaining)
  | name :: names, path, remaining =>
      match remaining.get? name with
      | none => .error (missingParam py restPath name remaining)
      | some v =>
          formatNames restPath names
            (Replace.replace (spelling name) (v.text py).toList path) (remaining.erase name)

/-- `format_path`. -/
def formatPath (restPath : String) (params : Dict String Value) :
    Except PyError (String × Dict String Value) :=
  (formatNames py restPath (pathParams beyond restPath) restPath.toList params).map
    fun result => (String.ofList result.1, result.2)

/-- The text of a parameter. -/
def paramText (params : Dict String Value) (name : String) : List Char :=
  ((params.get? name).map fun v => (v.text py).toList).getD []

/-- All placeholders filled at once, each by the text of its own parameter. -/
def filledPath (restPath : String) (params : Dict String Value) : String :=
  String.ofList (fill (paramText py params) (scan beyond restPath.toList))

/-- The parameters no placeholder consumes. -/
def otherParams (restPath : String) (params : Dict String Value) : Dict String Value :=
  params.filter fun entry => entry.1 ∉ pathParams beyond restPath

/-- The template with some of the placeholders filled at once and the others as written. -/
def partlyFilled (params : Dict String Value) (names : List String) (pieces : List Piece) :
    List Char :=
  fill (fun name => if name ∈ names then paramText py params name else spelling name) pieces

/-- No placeholder is named twice. Once those before it are filled in, each placeholder is
spelled exactly once in the path, unless its own text is that spelling. -/
structure Unmistakable (restPath : String) (params : Dict String Value) : Prop where
  distinct : (pathParams beyond restPath).Nodup
  once : ∀ earlier name later, pathParams beyond restPath = earlier ++ name :: later →
    Replace.count (spelling name)
        (partlyFilled py params earlier (scan beyond restPath.toList)) = 1 ∨
      paramText py params name = spelling name

end Format

section ScanLemmas

variable {beyond : Char → Bool}

theorem spelling_ne_nil (name : String) : spelling name ≠ [] := List.cons_ne_nil _ _

/-- What a placeholder can be named. -/
def IsName (beyond : Char → Bool) (name : String) : Prop :=
  name.toList ≠ [] ∧ ∀ c ∈ name.toList, isWord beyond c = true

theorem IsName.brace_notMem {name : String} (h : IsName beyond name) :
    '\x7b' ∉ name.toList ++ ['\x7d'] := by
  intro hmem
  rcases List.mem_append.mp hmem with hmem | hmem
  · exact Bool.false_ne_true (h.2 _ hmem)
  · simp at hmem

/-- A name is followed by the closing brace, which is no part of a word. -/
theorem placeholderAt_spelling {name : String} (h : IsName beyond name) (r : List Char) :
    placeholderAt beyond (spelling name ++ r) = some name.toList := by
  have hspan := span_append (r := '\x7d' :: r) h.2 (by simp [isWord])
  have htake : (name.toList ++ ['\x7d'] ++ r).takeWhile (isWord beyond) = name.toList := by
    rw [List.append_assoc]
    exact hspan.1
  rw [spelling, List.cons_append, placeholderAt, htake]
  simp [h.1]

theorem exists_eq_spelling_append {s name : List Char} (h : placeholderAt beyond s = some name) :
    ∃ r, IsName beyond (String.ofList name) ∧ s = spelling (String.ofList name) ++ r := by
  cases s with
  | nil => cases h
  | cons c rest =>
      rw [placeholderAt, Option.ite_none_right_eq_some, Option.some.injEq] at h
      obtain ⟨⟨hopen, hne, hclose⟩, hname⟩ := h
      obtain ⟨r, hr⟩ := List.head?_eq_some_iff.mp hclose
      rw [hname] at hne hr
      have hrest : rest = name ++ '\x7d' :: r := by
        rw [← hr, ← hname]
        exact (List.prefix_iff_eq_append.mp (List.takeWhile_prefix _)).symm
      refine ⟨r, ⟨by simpa using hne, ?_⟩, by simp [spelling, hopen, hrest]⟩
      intro d hd
      rw [String.toList_ofList, ← hname] at hd
      exact List.mem_takeWhile_imp hd

theorem spelling_not_occurs {c : Char} {rest : List Char} {name : String}
    (h : placeholderAt beyond (c :: rest) = none) (hname : IsName beyond name) :
    ¬ spelling name <+: c :: rest := by
  rintro ⟨r, hr⟩
  rw [← hr, placeholderAt_spelling hname] at h
  cases h

theorem scanGo_skip (skip : ℕ) (s : List Char) :
    scanGo beyond skip s = scan beyond (s.drop skip) := by
  induction s generalizing skip with
  | nil => cases skip <;> rfl
  | cons c rest ih =>
      cases skip with
      | zero => rfl
      | succ skip => exact ih skip

theorem scan_spelling_append {name : String} (h : IsName beyond name) (r : List Char) :
    scan beyond (spelling name ++ r) = .placeholder name :: scan beyond r := by
  have hat := placeholderAt_spelling h r
  rw [spelling, List.cons_append] at hat ⊢
  rw [scan, scanGo, hat]
  simp [scanGo_skip]

theorem scan_cons {c : Char} {rest : List Char} (h : placeholderAt beyond (c :: rest) = none) :
    scan beyond (c :: rest) = .char c :: scan beyond rest := by
  rw [scan, scanGo, h]
  rfl

/-- A template is built from placeholders and from characters that begin none. -/
theorem scan_induction (beyond : Char → Bool) {P : List Char → Prop} (s : List Char)
    (hnil : P [])
    (hplaceholder : ∀ name r, IsName beyond name → P r → P (spelling name ++ r))
    (hchar : ∀ c rest, placeholderAt beyond (c :: rest) = none → P rest → P (c :: rest)) :
    P s := by
  induction hlen : s.length using Nat.strong_induction_on generalizing s with
  | _ n ih =>
      cases s with
      | nil => exact hnil
      | cons c rest =>
          cases hat : placeholderAt beyond (c :: rest) with
          | none => exact hchar c rest hat (ih rest.length (by simp [← hlen]) rest rfl)
          | some name =>
              obtain ⟨r, hname, hr⟩ := exists_eq_spelling_append hat
              rw [hr] at hlen ⊢
              refine hplaceholder _ r hname (ih r.length ?_ r rfl)
              simp only [spelling, List.length_append, List.length_cons] at hlen
              omega

/-- A template is its pieces as they are written. -/
theorem fill_spelling_scan (s : List Char) : fill spelling (scan beyond s) = s := by
  induction s using scan_induction beyond with
  | hnil => rfl
  | hplaceholder name r h ih => rw [scan_spelling_append h, fill, ih]
  | hchar c rest h ih => rw [scan_cons h, fill, ih]

theorem isName_of_mem_names {s : List Char} {name : String} (h : name ∈ names (scan beyond s)) :
    IsName beyond name := by
  induction s using scan_induction beyond with
  | hnil => cases h
  | hplaceholder other r hother ih =>
      rw [scan_spelling_append hother, names, List.mem_cons] at h
      rcases h with rfl | h
      · exact hother
      · exact ih h
  | hchar c rest hat ih =>
      rw [scan_cons hat, names] at h
      exact ih h

/-- Two spellings in front of a text are those of the same name. -/
theorem eq_of_spelling_append {name other : String} (h : IsName beyond name)
    (hother : IsName beyond other) {r r' : List Char}
    (heq : spelling name ++ r = spelling other ++ r') : name = other := by
  have hat := placeholderAt_spelling h r
  rw [heq, placeholderAt_spelling hother, Option.some.injEq] at hat
  exact String.toList_injective hat.symm

/-- A template spells a name as often as its placeholders have it. -/
theorem count_spelling {name : String} (h : IsName beyond name) (s : List Char) :
    Replace.count (spelling name) s = (names (scan beyond s)).count name := by
  induction s using scan_induction beyond with
  | hnil => rfl
  | hplaceholder other r hother ih =>
      rw [scan_spelling_append hother, names]
      by_cases hname : other = name
      · rw [hname, Replace.count_append_self (spelling_ne_nil name), ih, List.count_cons_self]
      · have hno : ¬ spelling name <+: spelling other ++ r := by
          rintro ⟨r', hr⟩
          exact hname (eq_of_spelling_append h hother hr).symm
        calc
          Replace.count (spelling name) (spelling other ++ r)
              = Replace.count (spelling name) (other.toList ++ ['\x7d'] ++ r) :=
            Replace.count_of_no_match hno
          _ = Replace.count (spelling name) r :=
            Replace.count_append_of_notMem hother.brace_notMem
          _ = (names (scan beyond r)).count name := ih
          _ = (other :: names (scan beyond r)).count name := (List.count_cons_of_ne hname).symm
  | hchar c rest hat ih =>
      rw [scan_cons hat, names, ← ih, Replace.count_of_no_match (spelling_not_occurs hat h)]

end ScanLemmas

section FillLemmas

variable {texts texts' : String → List Char}

theorem names_append (pieces rest : List Piece) :
    names (pieces ++ rest) = names pieces ++ names rest := by
  induction pieces with
  | nil => rfl
  | cons piece pieces ih =>
      cases piece with
      | char c => exact ih
      | placeholder name => exact congrArg (name :: ·) ih

theorem fill_append (pieces rest : List Piece) :
    fill texts (pieces ++ rest) = fill texts pieces ++ fill texts rest := by
  induction pieces with
  | nil => rfl
  | cons piece pieces ih =>
      cases piece with
      | char c => exact congrArg (c :: ·) ih
      | placeholder name =>
          rw [List.cons_append, fill, ih, fill, List.append_assoc]

/-- Only the texts of the names that occur matter. -/
theorem fill_congr {pieces : List Piece} (h : ∀ name ∈ names pieces, texts name = texts' name) :
    fill texts pieces = fill texts' pieces := by
  induction pieces with
  | nil => rfl
  | cons piece pieces ih =>
      cases piece with
      | char c => exact congrArg (c :: ·) (ih h)
      | placeholder name =>
          rw [names, List.forall_mem_cons] at h
          rw [fill, fill, h.1, ih h.2]

theorem placeholder_mem {pieces : List Piece} {name : String} (h : name ∈ names pieces) :
    .placeholder name ∈ pieces := by
  induction pieces with
  | nil => cases h
  | cons piece pieces ih =>
      cases piece with
      | char c => exact List.mem_cons_of_mem _ (ih h)
      | placeholder other =>
          rcases List.mem_cons.mp h with rfl | h
          · exact List.mem_cons_self
          · exact List.mem_cons_of_mem _ (ih h)

/-- The pieces around the only placeholder of a name. -/
theorem exists_split {pieces : List Piece} {name : String} (h : name ∈ names pieces)
    (hdistinct : (names pieces).Nodup) :
    ∃ before after, pieces = before ++ .placeholder name :: after ∧
      name ∉ names before ∧ name ∉ names after := by
  obtain ⟨before, after, rfl⟩ := List.append_of_mem (placeholder_mem h)
  rw [names_append, names, List.nodup_middle, List.nodup_cons, List.mem_append, not_or]
    at hdistinct
  exact ⟨before, after, rfl, hdistinct.1⟩

end FillLemmas

section Steps

variable {py : Interpreter} {beyond : Char → Bool} {params : Dict String Value}
  {pieces : List Piece} {earlier : List String} {name : String}

theorem partlyFilled_append_of_notMem (h : name ∉ names pieces) :
    partlyFilled py params (earlier ++ [name]) pieces = partlyFilled py params earlier pieces := by
  apply fill_congr
  intro other hother
  have hne : other ≠ name := by
    rintro rfl
    exact h hother
  simp [hne]

/-- One turn of the loop fills in its placeholder and nothing else just where the path
spells it once, or where its text is the spelling. -/
theorem replace_partlyFilled_iff (hname : IsName beyond name) (hmem : name ∈ names pieces)
    (hdistinct : (names pieces).Nodup) (hnew : name ∉ earlier) :
    Replace.replace (spelling name) (paramText py params name)
        (partlyFilled py params earlier pieces) =
        partlyFilled py params (earlier ++ [name]) pieces ↔
      Replace.count (spelling name) (partlyFilled py params earlier pieces) = 1 ∨
        paramText py params name = spelling name := by
  obtain ⟨before, after, rfl, hbefore, hafter⟩ := exists_split hmem hdistinct
  have hpath : partlyFilled py params earlier (before ++ .placeholder name :: after) =
      partlyFilled py params earlier before ++
        (spelling name ++ partlyFilled py params earlier after) := by
    rw [partlyFilled, fill_append, fill, if_neg hnew]
    rfl
  have hnext : partlyFilled py params (earlier ++ [name]) (before ++ .placeholder name :: after) =
      partlyFilled py params earlier before ++
        (paramText py params name ++ partlyFilled py params earlier after) := by
    rw [← partlyFilled_append_of_notMem hbefore, ← partlyFilled_append_of_notMem hafter,
      partlyFilled, fill_append, fill, if_pos (by simp)]
    rfl
  rw [hnext, hpath]
  exact Replace.replace_once_iff hname.brace_notMem

end Steps

section Runs

variable {py : Interpreter} {beyond : Char → Bool} {restPath : String}
  {params : Dict String Value}

/-- The loop, without the parameters it consumes. -/
def replaceNames (texts : String → List Char) (names : List String) (path : List Char) :
    List Char :=
  names.foldl (fun path name => Replace.replace (spelling name) (texts name) path) path

theorem replaceNames_nil (texts : String → List Char) (path : List Char) :
    replaceNames texts [] path = path := rfl

theorem replaceNames_cons (texts : String → List Char) (name : String) (names : List String)
    (path : List Char) :
    replaceNames texts (name :: names) path =
      replaceNames texts names (Replace.replace (spelling name) (texts name) path) := rfl

theorem paramText_erase_of_ne {name other : String} (h : other ≠ name) :
    paramText py (params.erase name) other = paramText py params other := by
  rw [paramText, Dict.get?_erase_of_ne params h, paramText]

theorem paramText_of_get? {name : String} {v : Value} (h : params.get? name = some v) :
    paramText py params name = (v.text py).toList := by
  rw [paramText, h]
  rfl

/-- The loop runs to its end just where no name comes twice and each has a parameter. -/
theorem formatNames_eq_ok_iff {names : List String} {path : List Char}
    {result : List Char × Dict String Value} :
    formatNames py restPath names path params = .ok result ↔
      names.Nodup ∧ (∀ name ∈ names, name ∈ params.keys) ∧
        result = (replaceNames (paramText py params) names path,
          params.filter fun entry => entry.1 ∉ names) := by
  induction names generalizing path params with
  | nil =>
      rw [formatNames, Dict.filter_notMem_nil, replaceNames_nil, Except.ok.injEq, eq_comm]
      simp
  | cons name names ih =>
      rw [formatNames, List.nodup_cons, List.forall_mem_cons]
      cases hget : params.get? name with
      | none => simp [Dict.get?_eq_none_iff.mp hget]
      | some v =>
          have hkey : name ∈ params.keys := by
            by_contra hno
            simp [Dict.get?_eq_none_iff.mpr hno] at hget
          simp only [ih, Dict.filter_notMem_erase, Dict.mem_keys_erase]
          by_cases hmem : name ∈ names
          · -- the parameter is gone at the second time
            refine iff_of_false (fun h => ?_) fun h => h.1.1 hmem
            exact (h.2.1 name hmem).1 rfl
          · have hne : ∀ other ∈ names, other ≠ name := fun other hother heq => hmem (heq ▸ hother)
            have htexts : ∀ path, replaceNames (paramText py (params.erase name)) names path =
                replaceNames (paramText py params) names path := by
              intro path
              apply List.foldl_ext
              intro path other hother
              rw [paramText_erase_of_ne (hne other hother)]
            have hkeys : (∀ other ∈ names, other ≠ name ∧ other ∈ params.keys) ↔
                ∀ other ∈ names, other ∈ params.keys :=
              forall₂_congr fun other hother => and_iff_right (hne other hother)
            rw [htexts, hkeys, replaceNames_cons, paramText_of_get? hget]
            simp [hmem, hkey]

/-- `format_path` fills the template in at once just where its loop does. -/
theorem formatPath_eq_ok_iff (hheld : ∀ name ∈ pathParams beyond restPath, name ∈ params.keys) :
    formatPath py beyond restPath params =
        .ok (filledPath py beyond restPath params, otherParams beyond restPath params) ↔
      (pathParams beyond restPath).Nodup ∧
        replaceNames (paramText py params) (pathParams beyond restPath) restPath.toList =
          fill (paramText py params) (scan beyond restPath.toList) := by
  have hmap : formatPath py beyond restPath params =
      .ok (filledPath py beyond restPath params, otherParams beyond restPath params) ↔
      formatNames py restPath (pathParams beyond restPath) restPath.toList params =
        .ok (fill (paramText py params) (scan beyond restPath.toList),
          otherParams beyond restPath params) := by
    rw [formatPath, filledPath]
    cases formatNames py restPath (pathParams beyond restPath) restPath.toList params with
    | error e => simp [Except.map]
    | ok result => simp [Except.map, Prod.ext_iff, String.ofList_inj]
  rw [hmap, formatNames_eq_ok_iff, and_iff_right hheld]
  simp [otherParams, eq_comm]

theorem partlyFilled_nil (params : Dict String Value) (s : List Char) :
    partlyFilled py params [] (scan beyond s) = s := by
  simpa [partlyFilled] using fill_spelling_scan s

theorem partlyFilled_names (params : Dict String Value) (pieces : List Piece) :
    partlyFilled py params (names pieces) pieces = fill (paramText py params) pieces := by
  apply fill_congr
  intro name hname
  rw [if_pos hname]

/-- From a path in which the names so far are filled in at once, the loop fills in the
others in the same way. -/
theorem replaceNames_of_once {earlier later : List String}
    (hsplit : pathParams beyond restPath = earlier ++ later)
    (h : Unmistakable py beyond restPath params) :
    replaceNames (paramText py params) later
        (partlyFilled py params earlier (scan beyond restPath.toList)) =
      partlyFilled py params (earlier ++ later) (scan beyond restPath.toList) := by
  induction later generalizing earlier with
  | nil => rw [List.append_nil]; rfl
  | cons name later ih =>
      have hdistinct := h.distinct
      have hmem : name ∈ pathParams beyond restPath := by simp [hsplit]
      have hnew : name ∉ earlier := by
        rw [hsplit, List.nodup_middle, List.nodup_cons] at hdistinct
        exact fun hin => hdistinct.1 (List.mem_append_left _ hin)
      have hstep := (replace_partlyFilled_iff (isName_of_mem_names hmem) hmem h.distinct
        hnew).mpr (h.once earlier name later hsplit)
      have hrest := @ih (earlier ++ [name]) (by simp [hsplit])
      rw [replaceNames_cons, hstep, hrest, List.append_assoc, List.singleton_append]

/-- The first placeholder is spelled in the template as often as it occurs there. -/
theorem once_first {name : String} {later : List String}
    (hsplit : pathParams beyond restPath = name :: later)
    (hdistinct : (pathParams beyond restPath).Nodup) :
    Replace.count (spelling name)
      (partlyFilled py params [] (scan beyond restPath.toList)) = 1 := by
  have hmem : name ∈ pathParams beyond restPath := by simp [hsplit]
  rw [partlyFilled_nil, count_spelling (isName_of_mem_names hmem)]
  exact List.count_eq_one_of_mem hdistinct hmem

theorem formatPath_of_unmistakable
    (hheld : ∀ name ∈ pathParams beyond restPath, name ∈ params.keys)
    (h : Unmistakable py beyond restPath params) :
    formatPath py beyond restPath params =
      .ok (filledPath py beyond restPath params, otherParams beyond restPath params) := by
  rw [formatPath_eq_ok_iff hheld]
  refine ⟨h.distinct, ?_⟩
  have hrun := @replaceNames_of_once py beyond restPath params [] (pathParams beyond restPath)
    rfl h
  rw [partlyFilled_nil] at hrun
  rw [hrun]
  exact partlyFilled_names params _

/-- With at most two placeholders nothing makes up for a text taken for a placeholder. -/
theorem unmistakable_of_formatPath
    (hheld : ∀ name ∈ pathParams beyond restPath, name ∈ params.keys)
    (htwo : (pathParams beyond restPath).length ≤ 2)
    (h : formatPath py beyond restPath params =
      .ok (filledPath py beyond restPath params, otherParams beyond restPath params)) :
    Unmistakable py beyond restPath params := by
  obtain ⟨hdistinct, hrun⟩ := (formatPath_eq_ok_iff hheld).mp h
  refine ⟨hdistinct, ?_⟩
  intro earlier name later hsplit
  have hlen := congrArg List.length hsplit
  rw [List.length_append, List.length_cons] at hlen
  rcases earlier with _ | ⟨first, _ | ⟨second, earlier⟩⟩
  · exact .inl (once_first hsplit hdistinct)
  · -- the last placeholder, after a first one that was filled in as wished
    obtain rfl : later = [] := List.eq_nil_of_length_eq_zero (by simp at hlen; omega)
    have hfirst : first ∈ pathParams beyond restPath := by simp [hsplit]
    have hlast : name ∈ pathParams beyond restPath := by simp [hsplit]
    have hnew : name ∉ [first] := by
      rw [hsplit] at hdistinct
      exact (List.nodup_cons.mp (List.nodup_append_comm.mp hdistinct)).1
    have hstep : Replace.replace (spelling first) (paramText py params first)
        (partlyFilled py params [] (scan beyond restPath.toList)) =
        partlyFilled py params ([] ++ [first]) (scan beyond restPath.toList) :=
      (replace_partlyFilled_iff (isName_of_mem_names hfirst) hfirst hdistinct
        List.not_mem_nil).mpr (.inl (once_first hsplit hdistinct))
    apply (replace_partlyFilled_iff (isName_of_mem_names hlast) hlast hdistinct hnew).mp
    rw [hsplit, List.singleton_append, replaceNames_cons, replaceNames_cons, replaceNames_nil]
      at hrun
    rw [partlyFilled_nil, List.nil_append] at hstep
    rw [hstep] at hrun
    rw [hrun, ← partlyFilled_names]
    exact congrArg (fun l => partlyFilled py params l (scan beyond restPath.toList)) hsplit
  · simp only [List.length_cons] at hlen
    omega

/-- The templates of the operations have at most two placeholders. -/
theorem length_pathParams_restPath_le (operation : Operation) :
    (pathParams beyond operation.restPath).length ≤ 2 := by
  cases operation <;> exact Nat.le_of_ble_eq_true rfl

end Runs

/-- An unmistakable template is filled in as if at once, and the parameters left are the
others. With at most two placeholders no other template is. -/
theorem formatPath_fills_at_once (py : Interpreter) (beyond : Char → Bool) (restPath : String)
    (params : Dict String Value)
    (hheld : ∀ name ∈ pathParams beyond restPath, name ∈ params.keys) :
    (Unmistakable py beyond restPath params →
      formatPath py beyond restPath params =
        .ok (filledPath py beyond restPath params, otherParams beyond restPath params)) ∧
    (((pathParams beyond restPath).length ≤ 2 ∨
        ∃ operation : Operation, restPath = operation.restPath) →
      (formatPath py beyond restPath params =
          .ok (filledPath py beyond restPath params, otherParams beyond restPath params) ↔
        Unmistakable py beyond restPath params)) := by
  refine ⟨formatPath_of_unmistakable hheld, fun htwo => ?_⟩
  have hlen : (pathParams beyond restPath).length ≤ 2 := by
    rcases htwo with hlen | ⟨operation, rfl⟩
    · exact hlen
    · exact length_pathParams_restPath_le operation
  exact ⟨unmistakable_of_formatPath hheld hlen, formatPath_of_unmistakable hheld⟩

def configParams : Dict String Value :=
  ⟨[("taskId", .str "t1"), ("id", .str "c1"), ("limit", .int 3)], by decide⟩

theorem configParams_unmistakable :
    Unmistakable .plain (fun _ => false) Operation.getPushConfig.restPath configParams :=
  ((formatPath_fills_at_once .plain (fun _ => false) Operation.getPushConfig.restPath
    configParams (by decide +kernel)).2 (.inr ⟨.getPushConfig, rfl⟩)).mp rfl

/-- A task id that is spelled like the other placeholder. -/
def clashingParams : Dict String Value :=
  ⟨[("taskId", .str "\x7bid\x7d"), ("id", .str "c1")], by decide⟩

theorem formatPath_clashingParams :
    (∀ name ∈ pathParams (fun _ => false) Operation.getPushConfig.restPath,
      name ∈ clashingParams.keys) ∧
    (formatPath .plain (fun _ => false) Operation.getPushConfig.restPath clashingParams).map
      Prod.fst = .ok "/tasks/c1/pushNotificationConfigs/c1" ∧
    formatPath .plain (fun _ => false) Operation.getPushConfig.restPath clashingParams ≠
      .ok (filledPath .plain (fun _ => false) Operation.getPushConfig.restPath clashingParams,
        otherParams (fun _ => false) Operation.getPushConfig.restPath clashingParams) := by
  have hpath : (formatPath .plain (fun _ => false) Operation.getPushConfig.restPath
      clashingParams).map Prod.fst = .ok "/tasks/c1/pushNotificationConfigs/c1" := rfl
  refine ⟨by decide +kernel, hpath, fun h => ?_⟩
  have hfilled := congrArg (Except.map Prod.fst) h
  rw [hpath] at hfilled
  have hne : "/tasks/c1/pushNotificationConfigs/c1" ≠ filledPath .plain (fun _ => false)
      Operation.getPushConfig.restPath clashingParams := by decide +kernel
  exact hne (Except.ok.inj hfilled)

end PathTemplate

end A2aItk.Acts
