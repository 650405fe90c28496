import A2aItk.Python.Dict
import A2aItk.Transition.Runs
import Mathlib.Data.Finset.Basic

/-!
# Port allocation

`launcher/ports.py`: the threads that allocate ports from one reservoir, and the kernel
that picks the ports.

## Implementation notes

`contains` and `take` each lock the reservoir, and are each a step; so are the binding and
the closing of the socket. The kernel hands out any port that no socket is bound to. A port
is held from the return of the call that found it until it is released.
-/

namespace A2aItk.Launcher

open Python

/-- What a call of `_one_free_port` is for. -/
inductive Frame
  | single
  | http
  | grpc (http : ℕ)
  deriving DecidableEq

/-- Where a call of `_one_free_port` is; `attempts` are left. -/
inductive Search
  | probing (attempts : ℕ)
  | bound (attempts port : ℕ)
  | closed (attempts port : ℕ)
  /-- the reservoir did not contain the port -/
  | found (port : ℕ)
  deriving DecidableEq

structure Call where
  frame : Frame
  search : Search
  deriving DecidableEq

structure Ports where
  /-- the ports of the reservoir -/
  used : Finset ℕ
  /-- the ports agents and other programs are bound to -/
  elsewhere : Finset ℕ
  /-- the calls in progress, one for a thread -/
  calls : Dict ℕ Call
  /-- the ports that were returned and not released -/
  held : List ℕ

inductive PortAction
  /-- `free_port`, or `allocate_pair` -/
  | allocate (thread : ℕ) (pair : Bool)
  | bind (thread port : ℕ)
  | close (thread : ℕ)
  | contains (thread : ℕ)
  | take (thread : ℕ)
  /-- something raises, or the attempts are used up -/
  | fails (thread : ℕ)
  | release (port : ℕ)
  | bindElsewhere (port : ℕ)
  | closeElsewhere (port : ℕ)

namespace Ports

variable (s : Ports) (thread port : ℕ)

/-- The reservoir is new, and nothing is in progress. -/
def initial (elsewhere : Finset ℕ) : Ports := ⟨∅, elsewhere, Dict.empty, []⟩

def goto (call : Call) : Ports := { s with calls := s.calls.set thread call }

def leave : Ports := { s with calls := s.calls.erase thread }

/-- Whether some socket is bound to the port. -/
def isBound : Bool :=
  port ∈ s.elsewhere ||
    s.calls.values.any fun call =>
      match call.search with
      | .bound _ p => p = port
      | _ => false

/-- The first search of a call. -/
def search (frame : Frame) : Ports := s.goto thread ⟨frame, .probing 100⟩

/-- `reservoir.take`, and what the caller does with the port. -/
def take (frame : Frame) : Ports :=
  let taken := { s with used := insert port s.used }
  match frame with
  | .single => { taken.leave thread with held := port :: s.held }
  | .http => taken.search thread (.grpc port)
  | .grpc http =>
      -- `assert http != grpc`
      if http = port then taken.leave thread
      else { taken.leave thread with held := http :: port :: s.held }

/-- An exception in `_one_free_port`: a pair gives its first port back. -/
def abandon (frame : Frame) : Ports :=
  match frame with
  | .grpc http => { s.leave thread with used := s.used.erase http }
  | .single | .http => s.leave thread

/-- One step of a thread, of a holder or of another program. -/
def step (s : Ports) : PortAction → Option Ports
  | .allocate thread pair =>
      if (s.calls.get? thread).isNone then
        some (s.search thread (if pair then .http else .single))
      else none
  | .bind thread port =>
      match s.calls.get? thread with
      | some ⟨frame, .probing (attempts + 1)⟩ =>
          if s.isBound port then none else some (s.goto thread ⟨frame, .bound attempts port⟩)
      | _ => none
  | .close thread =>
      match s.calls.get? thread with
      | some ⟨frame, .bound attempts port⟩ => some (s.goto thread ⟨frame, .closed attempts port⟩)
      | _ => none
  | .contains thread =>
      match s.calls.get? thread with
      | some ⟨frame, .closed attempts port⟩ =>
          if port ∈ s.used then some (s.goto thread ⟨frame, .probing attempts⟩)
          else some (s.goto thread ⟨frame, .found port⟩)
      | _ => none
  | .take thread =>
      match s.calls.get? thread with
      | some ⟨frame, .found port⟩ => some (s.take thread port frame)
      | _ => none
  | .fails thread => (s.calls.get? thread).map fun call => s.abandon thread call.frame
  | .release port =>
      if port ∈ s.held then
        some { s with used := s.used.erase port, held := s.held.erase port }
      else none
  | .bindElsewhere port =>
      if s.isBound port then none else some { s with elsewhere := insert port s.elsewhere }
  | .closeElsewhere port => some { s with elsewhere := s.elsewhere.erase port }

end Ports

end A2aItk.Launcher
