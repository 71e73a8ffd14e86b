import Paystream.Library.History

/-!
# Polling the claimable amount

`pollClaimable` of `sdk/src/poll.ts`, from the call on.  Its `tick` asks the
contract, hands the answer to the callback or the error to the handler, and arms a
timer for the next `tick`.  What is awaited settles at any time; a timer fires no
earlier than it is due.  The caller may unsubscribe at any time, from within the
callback or the handler too, and both may throw.

Times are milliseconds since the call.  The default handler, which writes to the
console, neither unsubscribes nor throws.
-/

namespace Paystream
namespace Services
namespace Polling

open Library

def safeInterval (intervalMs : Int) : Int := max intervalMs 1000

/-- The delay of `setTimeout`, which takes one of more than 31 bits for 1. -/
def setTimeoutDelay (ms : Int) : Nat := if ms ≤ 2147483647 then ms.toNat else 1

/-- The variable `active`, the requests that were not answered yet, and the timers
that were armed, by the times at which this was done. -/
structure State where
  active : Bool
  inFlight : List Nat
  timers : List Nat
  deriving DecidableEq

/-- What the caller's code does when it is called. -/
structure Reaction where
  unsubscribes : Bool
  throws : Bool
  deriving DecidableEq

inductive Action
  /-- the answer to a request, or none if it fails -/
  | settle (request : Nat) (amount : Option Int) (callback onError : Reaction)
      (now : Nat)
  | fire (timer : Nat) (now : Nat)
  | unsubscribe (now : Nat)
  deriving DecidableEq

/-- What the caller, or the contract, gets to see. -/
inductive Effect
  | request
  | callback (amount : Int)
  | onError
  deriving DecidableEq

def Action.now : Action → Nat
  | .settle _ _ _ _ now => now
  | .fire _ now => now
  | .unsubscribe now => now

/-- The code of the caller has run. -/
def State.ran (s : State) (reaction : Reaction) : State :=
  { s with active := s.active && !reaction.unsubscribes }

/-- The `catch` clause: the state after it, what was seen, and whether it threw. -/
def catchError (s : State) (onError : Reaction) : State × List Effect × Bool :=
  if s.active then (s.ran onError, [.onError], onError.throws) else (s, [], false)

/-- The `try` and `catch` clauses after the answer has come. -/
def handleAnswer (s : State) (amount : Option Int) (callback onError : Reaction) :
    State × List Effect × Bool :=
  match amount with
  | none => catchError s onError
  | some amount =>
      if s.active then
        if callback.throws then
          let (s, effects, threw) := catchError (s.ran callback) onError
          (s, .callback amount :: effects, threw)
        else (s.ran callback, [.callback amount], false)
      else (s, [], false)

/-- The rest of a `tick`, from the answer on. -/
def settle (s : State) (amount : Option Int) (callback onError : Reaction)
    (now : Nat) : State × List Effect :=
  let (s, effects, threw) := handleAnswer s amount callback onError
  if threw then (s, effects)
  else if s.active then ({ s with timers := now :: s.timers }, effects)
  else (s, effects)

/-- The beginning of a `tick`. -/
def tick (s : State) (now : Nat) : State × List Effect :=
  if s.active then ({ s with inFlight := now :: s.inFlight }, [.request]) else (s, [])

/-- One step; what cannot happen in the state changes nothing. -/
def react (intervalMs : Int) (s : State) : Action → State × List Effect
  | .settle request amount callback onError now =>
      if request ∈ s.inFlight then
        settle { s with inFlight := s.inFlight.erase request } amount callback onError now
      else (s, [])
  | .fire timer now =>
      if timer ∈ s.timers ∧ timer + setTimeoutDelay (safeInterval intervalMs) ≤ now then
        tick { s with timers := s.timers.erase timer } now
      else (s, [])
  | .unsubscribe _ => ({ s with active := false }, [])

/-- The state after the call, which has run the first `tick` up to its request. -/
def started : State := ⟨true, [0], []⟩

def system (intervalMs : Int) : System State Action where
  initial s := s = started
  time action := action.now
  step s action := (react intervalMs s action).1

end Polling
end Services
end Paystream
