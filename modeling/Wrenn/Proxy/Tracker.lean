import Mathlib.Data.Int.Notation
import Wrenn.Lib.Places
import Wrenn.Lib.Runs

/-!
# The connection tracker of a sandbox

A proxy request acquires the tracker, asks for its context, and releases it.  Before a pause, `Drain` refuses new
requests and waits for the others, and `ForceClose` cancels the context; `Reset` lets requests in again, with a new
context.  The three are called one after the other, the requests run at any time.

The flag `draining` is an atomic, the counter and the channel `zeroCh` are guarded by `mu`.  `Acquire`
loads the flag before it takes `mu` and once more while it holds it, so these are steps of their own; what
else is done under a mutex is one step.  A channel is the number of channels made before it, and `closed`
lists the closes.
-/

namespace Wrenn.Proxy.Tracker

/-! ### Requests -/

inductive Pc
  /-- before the first load of `draining` -/
  | start
  /-- before `mu.Lock` -/
  | lock
  /-- has `mu`, before the second load -/
  | recheck
  /-- has `mu`, before `count++` -/
  | increment
  /-- `Acquire` has returned true -/
  | admitted
  | serving (ctx : ℕ)
  | released
  /-- `Acquire` has returned false -/
  | refused
  deriving DecidableEq, Repr

structure Request where
  pc : Pc
  /-- how many `ForceClose` calls had cancelled their context when the request was admitted -/
  since : ℕ
  deriving DecidableEq, Repr

def Pc.holds : Pc → Bool
  | .recheck | .increment => true
  | _ => false

def Pc.inFlight : Pc → Bool
  | .admitted | .serving _ => true
  | _ => false

/-! ### The tracker -/

/-- Where the caller of `Drain`, `ForceClose` and `Reset` is. -/
inductive Control
  | idle
  | drainRegister
  | drainWait (cancel : ℕ)
  | drainSelect (zero : Option ℕ) (cancel : ℕ)
  | closeWait
  | closeSelect (zero : Option ℕ)
  | resetCtx
  | resetStore
  deriving DecidableEq, Repr

structure State where
  draining : Bool
  mu : Option ℕ
  count : ℤ
  zeroCh : Option ℕ
  cancelDrain : Option ℕ
  ctx : Option ℕ
  requests : List Request
  control : Control
  channels : ℕ
  closed : List ℕ
  contexts : ℕ
  cancelled : List ℕ
  /-- how many `ForceClose` calls have cancelled their context -/
  closes : ℕ
  deriving DecidableEq, Repr

def State.setPc (s : State) (i : ℕ) (r : Request) (pc : Pc) : State :=
  { s with requests := s.requests.set i { r with pc := pc } }

/-- The section of `Acquire` behind the second load. -/
def State.increment (s : State) (i : ℕ) : State :=
  let s' := { s with count := s.count + 1, mu := none, requests := s.requests.set i ⟨.admitted, s.closes⟩ }
  if s.count + 1 = 1 then { s' with zeroCh := some s.channels, channels := s.channels + 1 } else s'

/-- `Context` -/
def State.context (s : State) (i : ℕ) (r : Request) : State :=
  match s.ctx with
  | some c => s.setPc i r (.serving c)
  | none => { s with ctx := some s.contexts, contexts := s.contexts + 1 }.setPc i r (.serving s.contexts)

/-- `Release` -/
def State.release (s : State) (i : ℕ) (r : Request) : State :=
  let s' := { s with count := s.count - 1 }.setPc i r .released
  match s.zeroCh with
  | some ch => if s.count - 1 = 0 then { s' with closed := ch :: s.closed, zeroCh := none } else s'
  | none => s'

def State.advance (s : State) (i : ℕ) (r : Request) : Option State :=
  match r.pc with
  | .start => some (s.setPc i r (if s.draining then .refused else .lock))
  | .lock => if s.mu = none then some ({ s with mu := some i }.setPc i r .recheck) else none
  | .recheck => some (if s.draining then { s with mu := none }.setPc i r .refused else s.setPc i r .increment)
  | .increment => some (s.increment i)
  | .admitted => some (s.context i r)
  | .serving _ => if s.mu = none then some (s.release i r) else none
  | .released | .refused => none

/-- `waitDrain`: the channel it returns, of the state it leaves. -/
def State.waitDrain (s : State) : State × Option ℕ :=
  if s.count = 0 then ({ s with closed := s.channels :: s.closed, channels := s.channels + 1 }, some s.channels)
  else (s, s.zeroCh)

/-- The first section of `Reset`. -/
def State.signalDrain (s : State) : State :=
  match s.cancelDrain with
  | some ch => { s with closed := if ch ∈ s.closed then s.closed else ch :: s.closed, cancelDrain := none }
  | none => s

/-- Which case of a `select` is taken. -/
inductive Wake
  | zero
  | cancel
  | timeout
  deriving DecidableEq, Repr

/-- A `select` over `waitDrain`, the cancel channel and the timeout. -/
def State.wakes (s : State) (zero cancel : Option ℕ) : Wake → Bool
  | .zero => zero.any fun ch => decide (ch ∈ s.closed)
  | .cancel => cancel.any fun ch => decide (ch ∈ s.closed)
  | .timeout => true

def State.proceed (s : State) (w : Wake) : Option State :=
  match s.control with
  | .idle => none
  | .drainRegister =>
    some { s with cancelDrain := some s.channels, channels := s.channels + 1, control := .drainWait s.channels }
  | .drainWait cancel =>
    if s.mu = none then some { s.waitDrain.1 with control := .drainSelect s.waitDrain.2 cancel } else none
  | .drainSelect zero cancel => if s.wakes zero (some cancel) w then some { s with control := .idle } else none
  | .closeWait => if s.mu = none then some { s.waitDrain.1 with control := .closeSelect s.waitDrain.2 } else none
  | .closeSelect zero => if s.wakes zero none w then some { s with control := .idle } else none
  | .resetCtx => some { s with ctx := some s.contexts, contexts := s.contexts + 1, control := .resetStore }
  | .resetStore => some { s with draining := false, control := .idle }

inductive Act
  | request
  | move (i : ℕ)
  | drain
  | forceClose
  | reset
  | proceed (w : Wake)
  deriving DecidableEq, Repr

def step (s : State) : Act → Option State
  | .request => some { s with requests := s.requests ++ [⟨.start, 0⟩] }
  | .move i => (s.requests[i]?).bind (s.advance i)
  | .drain => if s.control = .idle then some { s with draining := true, control := .drainRegister } else none
  | .forceClose =>
    if s.control = .idle then
      some { s with cancelled := s.ctx.toList ++ s.cancelled, closes := s.closes + 1, control := .closeWait }
    else none
  | .reset => if s.control = .idle then some { s.signalDrain with control := .resetCtx } else none
  | .proceed w => s.proceed w

/-- The zero value. -/
def fresh : State := ⟨false, none, 0, none, none, none, [], .idle, 0, [], 0, [], 0⟩

def Initial (s : State) : Prop := s = fresh

end Wrenn.Proxy.Tracker
