import A2aItk.Launcher.Errors
import A2aItk.Launcher.TargetSpec
import A2aItk.Python.Joined

/-!
# Resolving refs

`resolve_ref` and `_pick_sha` of `launcher/fetch.py`: the commit a branch or tag name stands
for, picked from what `git ls-remote` lists.

## Implementation notes

`git` stands for the commands of a call: how each query of each attempt ends. The text of
the timeout and `str.lower` are parameters.
-/

namespace A2aItk.Launcher

open Python

/-- How a command ends. -/
inductive GitResult
  | timeout
  | exited (returncode : ℤ) (stdout stderr : String)

/-- `--heads --tags --refs`, and the query without filter. -/
inductive Query
  | branchesAndTags
  | everything

section Picking

/-- Forty digits. -/
def isSha (s : List Char) : Bool := s.length = 40 && s.all isShaChar

/-- The commit and the name on a line, where it has both. -/
def readLine (raw : List Char) : Option (String × String) :=
  match Text.partition ['\t'] (Text.strip raw) with
  | (sha, true, name) =>
      if isSha (Text.strip sha) then
        some (String.ofList (Text.strip sha), String.ofList (Text.strip name))
      else none
  | _ => none

/-- The ref is a branch. -/
def isBranch (name : String) : Bool := "refs/heads/".toList.isPrefixOf name.toList

/-- The ref is a tag. -/
def isTag (name : String) : Bool := "refs/tags/".toList.isPrefixOf name.toList

/-- The first commit seen of each kind. -/
structure Picks where
  head : Option String := none
  tag : Option String := none
  other : Option String := none

/-- One more line: the first branch, the first tag and the first of the rest are kept. -/
def Picks.note (picks : Picks) (line : String × String) : Picks :=
  if isBranch line.2 && picks.head.isNone then { picks with head := some line.1 }
  else if isTag line.2 && picks.tag.isNone then { picks with tag := some line.1 }
  else if picks.other.isNone then { picks with other := some line.1 }
  else picks

/-- Branches before tags, and tags before anything else. -/
def Picks.best (picks : Picks) : Option String := picks.head <|> picks.tag <|> picks.other

/-- `_pick_sha` of what `git` has printed. -/
def pickSha (stdout : String) : Option String :=
  (((Text.splitlines stdout.toList).filterMap readLine).foldl Picks.note {}).best

end Picking

section Resolving

variable (lower : String → String) (timeoutText : String)

/-- The texts by which a failure is told to be permanent. -/
def permanentMarkers : List String :=
  ["repository not found", "couldn't find remote ref", "did not send all necessary objects",
    "unadvertised object", "reference is not a tree", "unknown revision", "bad object",
    "authentication failed", "permission denied", "404 not found", "not our ref",
    "upload-pack: not our ref"]

/-- `_classify_git_failure(stderr) is PermanentError`. -/
def isPermanent (stderr : String) : Bool :=
  permanentMarkers.any fun marker => decide (marker.toList <:+: (lower stderr).toList)

/-- `stderr.strip() or …`. -/
def stderrOr (stderr default : String) : String :=
  let stripped := String.ofList (Text.strip stderr.toList)
  if stripped = "" then default else stripped

/-- The error where a ref is listed nowhere. -/
def noMatch (repo ref : String) : LauncherError :=
  .permanentError (some repo) (some ref) .fetch
    s!"ls-remote returned no matching ref for {Text.repr ref}"

/-- The attempts from one on, with the failure of the last one before. -/
def resolveFrom (git : ℕ → Query → GitResult) (repo ref : String) :
    ℕ → ℕ → Option String → Except LauncherError String
  | 0, _, cause => .error (.infraFailure (some repo) (some ref) .fetch cause none)
  | remaining + 1, attempt, _ =>
      match git attempt .branchesAndTags with
      | .timeout => resolveFrom git repo ref remaining (attempt + 1) (some timeoutText)
      | .exited returncode stdout stderr =>
          if returncode = 0 then
            match pickSha stdout with
            | some chosen => .ok chosen
            | none =>
                match git attempt .everything with
                | .timeout => resolveFrom git repo ref remaining (attempt + 1) (some timeoutText)
                | .exited returncode stdout _ =>
                    match (if returncode = 0 then pickSha stdout else none) with
                    | some chosen => .ok chosen
                    | none => .error (noMatch repo ref)
          else if isPermanent lower stderr then
            .error (.permanentError (some repo) (some ref) .fetch
              (stderrOr stderr "ls-remote failed"))
          else
            resolveFrom git repo ref remaining (attempt + 1)
              (some (stderrOr stderr s!"ls-remote exit {returncode}"))

/-- `resolve_ref`, from its first attempt on. -/
def resolveRef (git : ℕ → Query → GitResult) (repo ref : String) (retries : ℕ) :
    Except LauncherError String :=
  resolveFrom lower timeoutText git repo ref retries 0 none

end Resolving

section Listings

/-- A ref and the commit at its tip. -/
structure ListedRef where
  sha : String
  name : String
  deriving DecidableEq

/-- Forty digits, and a name on one line without space around it. -/
structure ListedRef.WellFormed (listed : ListedRef) : Prop where
  sha : isSha listed.sha.toList = true
  named : listed.name ≠ ""
  noBreak : ∀ c ∈ listed.name.toList, Text.isLineBreak c = false
  noSpaceBefore : ∀ c ∈ listed.name.toList.head?, Text.isSpace c = false
  noSpaceAfter : ∀ c ∈ listed.name.toList.getLast?, Text.isSpace c = false

/-- The line `git` prints for a ref. -/
def ListedRef.line (listed : ListedRef) : List Char :=
  listed.sha.toList ++ '\t' :: listed.name.toList

/-- What `git` prints for these refs. -/
def output (refs : List ListedRef) : String :=
  String.ofList (refs.flatMap fun listed => listed.line ++ ['\n'])

/-- An answer: every ref is listed once. -/
structure Listing where
  refs : List ListedRef
  wellFormed : ∀ listed ∈ refs, listed.WellFormed
  distinct : (refs.map ListedRef.name).Nodup

end Listings

end A2aItk.Launcher
