import Mathlib.Data.Nat.Notation

/-!
# Launcher errors

`launcher/errors.py`, and the exceptions the handlers of the launcher tell apart.
-/

namespace A2aItk.Launcher

/-- `Stage`: where in the launcher pipeline a failure occurred. -/
inductive FailureStage
  | fetch
  | build
  | spawn
  | ready
  deriving DecidableEq

/-- The stage as the reports spell it. -/
def FailureStage.value : FailureStage → String
  | fetch => "fetch"
  | build => "build"
  | spawn => "spawn"
  | ready => "ready"

/-- `sha[:12]`. -/
def shortSha (sha : String) : String := String.ofList (sha.toList.take 12)

/-- How an error names what it is about, with whatever is known of it. -/
def targetLabel : (repo sha : Option String) → String
  | none, none => "mount"
  | none, some sha => s!"?@{shortSha sha}"
  | some repo, none => s!"{repo}@?"
  | some repo, some sha => s!"{repo}@{shortSha sha}"

/-- The errors the launcher raises itself; of a cause only the text is kept. -/
inductive LauncherError
  | infraFailure (repo sha : Option String) (stage : FailureStage)
      (cause : Option String) (message : Option String)
  | permanentError (repo sha : Option String) (stage : FailureStage) (message : String)
  deriving DecidableEq

/-- The stage at which it was raised. -/
def LauncherError.stage : LauncherError → FailureStage
  | infraFailure _ _ stage _ _ | permanentError _ _ stage _ => stage

/-- `message or …`: an empty message counts as none. -/
def messageOr (message : Option String) (default : String) : String :=
  match message with
  | some text => if text = "" then default else text
  | none => default

/-- `str(error)`. -/
def LauncherError.text : LauncherError → String
  | infraFailure repo sha stage cause message =>
      let msg := messageOr message s!"{stage.value} failed for {targetLabel repo sha}"
      match cause with
      | some cause => s!"{msg}: {cause}"
      | none => msg
  | permanentError repo sha stage message =>
      s!"{stage.value} permanently failed for {targetLabel repo sha}: {message}"

/-- An exception, by the classes that handlers catch. -/
inductive Raised
  | launcher (error : LauncherError)
  | runtimeError (message : String)
  | osError (errno : ℕ) (message : String)
  | subprocessError (message : String)
  /-- any other `Exception` -/
  | exception (message : String)
  /-- `KeyboardInterrupt` and the like, which are no `Exception` -/
  | interrupt
  deriving DecidableEq

namespace Raised

/-- `str(exc)`. -/
def text : Raised → String
  | launcher error => error.text
  | runtimeError message | osError _ message | subprocessError message
  | exception message => message
  | interrupt => ""

/-- Caught by `except LauncherError`. -/
def isLauncherError : Raised → Bool
  | launcher _ => true
  | _ => false

/-- Caught by `except RuntimeError`. -/
def isRuntimeError : Raised → Bool
  | runtimeError _ => true
  | _ => false

/-- Caught by `except OSError`. -/
def isOSError : Raised → Bool
  | osError .. => true
  | _ => false

/-- Caught by `except subprocess.SubprocessError`. -/
def isSubprocessError : Raised → Bool
  | subprocessError _ => true
  | _ => false

/-- `ProcessLookupError`, `PermissionError`, or another `OSError` with the number of one:
`ESRCH` is 3, `EPERM` is 1, and `EACCES`, which is 13, is a `PermissionError` too. -/
def isGone : Raised → Bool
  | osError errno _ => errno = 3 || errno = 1 || errno = 13
  | _ => false

end Raised

end A2aItk.Launcher
