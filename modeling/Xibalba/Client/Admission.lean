import Mathlib.Tactic.Common

/-!
# `Client.Admission` — permits, one atomic step at a time

`Admission` and `Permit` of `xibalba-client/src/admission.rs`. Any number of calls of `try_admit` are in progress at
the same time, and each access to the shared counter is a step of its own; `Client.AsyncClient` sees a call as one step.
A call is named by its place in the list of all calls so far, and so is the permit it returns. The counter is a `usize`
of 64 bits; nothing here depends on how memory accesses are ordered, since all of them are to the one counter.
-/

namespace Xibalba

/-! ## The atomic operations -/

/-- `AtomicUsize::compare_exchange_weak` on a counter that holds `value`: the answer, and what it holds afterwards. The
    weak exchange may fail although the values agree (`spurious`). -/
def compareExchangeWeak (value current new : UInt64) (spurious : Bool) : Except UInt64 UInt64 × UInt64 :=
  if value = current ∧ spurious = false then (.ok value, new) else (.error value, value)

/-- `AtomicUsize::fetch_sub`, which wraps around. -/
def fetchSub (value amount : UInt64) : UInt64 × UInt64 := (value, value - amount)

/-! ## Calls and permits -/

/-- Where a call of `try_admit` stands, and what became of the permit it returned. -/
inductive TryAdmit where
  /-- called, about to load the counter -/
  | entered
  /-- at the top of the loop -/
  | looping (current : UInt64)
  /-- there was room, about to exchange -/
  | exchanging (current : UInt64)
  /-- returned `None` -/
  | refused
  /-- returned `Some(Permit)`, and the permit is live -/
  | admitted
  /-- the permit was dropped -/
  | released
deriving DecidableEq, Repr

namespace TryAdmit

/-- The call has not returned. -/
def isRunning : TryAdmit → Bool
  | entered | looping _ | exchanging _ => true
  | refused | admitted | released => false

/-- The call has returned a permit that is live. -/
def isLive : TryAdmit → Bool
  | admitted => true
  | _ => false

end TryAdmit

/-- The counter, its limit, and the calls that were made on it. -/
structure Admission where
  outstanding : UInt64
  max : UInt64
  calls : List TryAdmit
deriving DecidableEq, Repr

/-- The atomic steps of the calls, and of the drops of their permits. -/
inductive Atomic where
  /-- some thread calls `try_admit` -/
  | call
  | load (i : Nat)
  /-- `if current >= this.max`, a step of the call alone -/
  | compare (i : Nat)
  | exchange (i : Nat) (spurious : Bool)
  /-- `Permit::drop` -/
  | drop (i : Nat)
deriving DecidableEq, Repr

namespace Admission

def new (max : UInt64) : Admission := ⟨0, max, []⟩

/-- The call `i` goes on. -/
def goOn (s : Admission) (i : Nat) (c : TryAdmit) : Admission := { s with calls := s.calls.set i c }

/-- One step, if it can be taken. -/
def step (s : Admission) : Atomic → Option Admission
  | .call => some { s with calls := s.calls ++ [.entered] }
  | .load i =>
    match s.calls[i]? with
    | some .entered => some (s.goOn i (.looping s.outstanding))
    | _ => none
  | .compare i =>
    match s.calls[i]? with
    | some (.looping current) => some (s.goOn i (if current ≥ s.max then .refused else .exchanging current))
    | _ => none
  | .exchange i spurious =>
    match s.calls[i]? with
    | some (.exchanging current) =>
      match compareExchangeWeak s.outstanding current (current + 1) spurious with
      | (.ok _, value) => some { s.goOn i .admitted with outstanding := value }
      | (.error actual, value) => some { s.goOn i (.looping actual) with outstanding := value }
    | _ => none
  | .drop i =>
    match s.calls[i]? with
    | some .admitted => some { s.goOn i .released with outstanding := (fetchSub s.outstanding 1).2 }
    | _ => none

/-- How many permits are live. -/
def permits (s : Admission) : Nat := s.calls.countP TryAdmit.isLive

end Admission

end Xibalba
