import A2aItk.Acts.Schema
import A2aItk.Python.Dict

/-!
# Loaded tests

`acts/loader.py`: what a manifest is flattened into. Every test carries where it came
from, and what failed to validate is kept as data.

## Implementation notes

A path is its text.
-/

namespace A2aItk.Acts

open Python

/-- A test plus where it came from. -/
structure LoadedTest where
  test : Test
  suiteId : String
  suiteName : String
  source : String

namespace LoadedTest

def id (loaded : LoadedTest) : String := loaded.test.id

def level (loaded : LoadedTest) : Level := loaded.test.level

end LoadedTest

/-- One test that failed validation, and why. -/
structure LoadError where
  source : String
  place : String
  message : String
  deriving DecidableEq

/-- Everything a manifest pulled in, in load order. -/
structure LoadedSuite where
  tests : List LoadedTest := []
  vars : Dict String String := Dict.empty
  sources : List String := []
  errors : List LoadError := []

end A2aItk.Acts
