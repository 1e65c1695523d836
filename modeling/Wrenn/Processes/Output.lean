import Wrenn.Lib.Broadcast
import Wrenn.Lib.Runs
import Wrenn.Lib.Threads

/-!
# The output of a process

A process started through envd has a handle: a log of its recent output, a broadcast channel for the output, one
for the end event, and the end event itself once it is known.  Reader threads publish the output, into the log and
the channel under one lock.  The waiter joins them, stores the end event, and broadcasts it.

`Start` subscribes before the readers run.  `Connect` takes the log and a receiver under the lock, subscribes to the
end, and then looks whether the process has ended.  From there on both are `process_event_stream`: each of its
receives is a step, and each poll of its `select!` two of them.

`reach_stream` is the result: a stream whose receiver has not lagged yields the start event, the output without a
gap, and the end event.
-/

namespace Wrenn.Processes.Output

open Lib.Broadcast Lib.Threads

/-! ### The handle -/

def BROADCAST_CAPACITY : ℕ := 4096

/-- The capacity of the channel for the end event. -/
def END_CAPACITY : ℕ := 16

def OUTPUT_LOG_CAPACITY : ℕ := 256 * 1024

inductive DataEvent
  | stdout (d : List UInt8)
  | stderr (d : List UInt8)
  | pty (d : List UInt8)
  deriving DecidableEq, Repr

def evLen : DataEvent → ℕ
  | .stdout d | .stderr d | .pty d => d.length

structure EndEvent where
  exitCode : ℤ
  exited : Bool
  status : String
  error : Option String
  deriving DecidableEq, Repr

/-- What `wait` tells of a child: its exit code, unless a signal has killed it. -/
structure ExitStatus where
  code : Option ℤ
  text : String
  deriving DecidableEq, Repr

/-- The end event of the waiter. -/
def endEvent : Except String ExitStatus → EndEvent
  | .ok s => ⟨s.code.getD (-1), s.code.isSome, s.text, none⟩
  | .error e => ⟨-1, false, "error", some e⟩

/-- A handle, with what its threads have done. -/
structure Core where
  pid : ℕ
  /-- all output that was published: the data channel has carried it -/
  published : List DataEvent
  outputLog : Log DataEvent
  ended : Option EndEvent
  /-- what the end channel has carried -/
  ends : List EndEvent
  /-- the waiter holds the handle -/
  waiting : Bool
  /-- the registry holds the handle -/
  registered : Bool
  /-- the requests that hold the handle -/
  refs : ℕ
  deriving DecidableEq, Repr

/-- A handle right after `spawn_process`, held by the `Start` request. -/
def Core.new (pid : ℕ) : Core := ⟨pid, [], ⟨[], 0⟩, none, [], true, true, 1⟩

/-- The senders of both channels are gone with the handle. -/
def Core.closed (k : Core) : Bool := !k.waiting && !k.registered && k.refs == 0

/-- `publish_data` -/
def Core.publishData (k : Core) (ev : DataEvent) : Core :=
  { k with published := k.published ++ [ev], outputLog := k.outputLog.push evLen OUTPUT_LOG_CAPACITY ev }

/-! ### Streams -/

inductive ProcessEvent
  | startEvent (pid : ℕ)
  | dataEvent (ev : DataEvent)
  | endEvent (e : EndEvent)
  deriving DecidableEq, Repr

inductive Origin
  | start
  | connect
  deriving DecidableEq, Repr

/-- A stream, with the positions of its receivers and what it has yielded. -/
structure Feed where
  origin : Origin
  /-- the output published before the attach -/
  first : ℕ
  snapshot : List DataEvent
  next : ℕ
  endNext : ℕ
  lagged : Bool
  out : List ProcessEvent
  deriving DecidableEq, Repr

def Feed.yield (f : Feed) (ev : ProcessEvent) : Feed := { f with out := f.out ++ [ev] }

inductive Proc
  | lookup
  | subscribeDataReplay
  | subscribeEnd (f : Feed)
  | cachedEnd (f : Feed)
  /-- the request returns its stream, and drops the handle -/
  | release (f : Feed) (cached : Option EndEvent)
  | begin (f : Feed) (cached : Option EndEvent)
  | replay (f : Feed) (left : List DataEvent) (cached : Option EndEvent)
  | recvData (f : Feed)
  | recvEnd (f : Feed)
  /-- the output that is left, and then the end event if it was received -/
  | drain (f : Feed) (e : Option EndEvent)
  /-- the data channel is closed -/
  | tryRecvEnd (f : Feed)
  | finished (f : Feed)
  | gone
  deriving DecidableEq, Repr

def run (k : Core) (_ : Unit) : Proc → Option (Core × Proc)
  | .lookup => some (if k.registered then ({ k with refs := k.refs + 1 }, .subscribeDataReplay) else (k, .gone))
  | .subscribeDataReplay =>
    some (k, .subscribeEnd ⟨.connect, k.published.length, k.outputLog.events, k.published.length, 0, false, []⟩)
  | .subscribeEnd f => some (k, .cachedEnd { f with endNext := k.ends.length })
  | .cachedEnd f => some (k, .release f k.ended)
  | .release f cached => some ({ k with refs := k.refs - 1 }, .begin f cached)
  | .begin f cached => some (k, .replay (f.yield (.startEvent k.pid)) f.snapshot cached)
  | .replay f (ev :: left) cached => some (k, .replay (f.yield (.dataEvent ev)) left cached)
  | .replay f [] (some e) => some (k, .drain f (some e))
  | .replay f [] none => some (k, .recvData f)
  | .recvData f =>
    match recv BROADCAST_CAPACITY k.published k.closed f.next with
    | (.message ev, next) => some (k, .recvData ({ f with next := next }.yield (.dataEvent ev)))
    | (.lagged, next) => some (k, .recvData { f with next := next, lagged := true })
    | (.closed, _) => some (k, .tryRecvEnd f)
    | (.empty, _) => some (k, .recvEnd f)
  | .recvEnd f =>
    match recv END_CAPACITY k.ends k.closed f.endNext with
    | (.message e, next) => some (k, .drain { f with endNext := next } (some e))
    | (.empty, _) => some (k, .recvData f)
    | (.lagged, next) => some (k, .drain { f with endNext := next } none)
    | (.closed, _) => some (k, .drain f none)
  | .drain f e =>
    match recv BROADCAST_CAPACITY k.published k.closed f.next with
    | (.message ev, next) => some (k, .drain ({ f with next := next }.yield (.dataEvent ev)) e)
    | (.lagged, next) => some (k, .drain { f with next := next, lagged := true } e)
    | (.closed, _) | (.empty, _) => some (k, .finished (e.elim f fun e => f.yield (.endEvent e)))
  | .tryRecvEnd f =>
    match recv END_CAPACITY k.ends k.closed f.endNext with
    | (.message e, next) => some (k, .finished ({ f with endNext := next }.yield (.endEvent e)))
    | _ => some (k, .finished f)
  | .finished _ | .gone => none

inductive Call
  | connect
  deriving DecidableEq, Repr

def spawn (k : Core) : Call → Option (Core × Proc)
  | .connect => some (k, .lookup)

/-- The threads of the process. -/
inductive Env
  | publishData (ev : DataEvent)
  /-- the waiter has joined the readers, and stores the end event -/
  | storeEnd (status : Except String ExitStatus)
  | sendEnd
  | exitWaiter
  /-- the handle leaves the registry -/
  | unregister

def env (k : Core) : Env → Option Core
  | .publishData ev => if k.ended.isNone then some (k.publishData ev) else none
  | .storeEnd status => if k.ended.isNone then some { k with ended := some (endEvent status) } else none
  | .sendEnd => k.ended.bind fun e => if k.ends = [] then some { k with ends := [e] } else none
  | .exitWaiter => if k.ends = [] then none else some { k with waiting := false }
  | .unregister => some { k with registered := false }

/-- A stream that its client drops halts anywhere; the attach has no await in it. -/
def prog : Prog Core Proc Call Unit Env where
  spawn := spawn
  run := run
  halt := .gone
  env := env

abbrev State := Sys Core Proc

abbrev Act := Label Call Unit Env

def step : State → Act → Option State := prog.step

/-- The stream of `Start`, whose receivers are as old as the handle. -/
def startFeed : Feed := ⟨.start, 0, [], 0, 0, false, []⟩

def Initial (s : State) : Prop := ∃ pid, s = ⟨Core.new pid, [.release startFeed none]⟩

def feed : Proc → Option Feed
  | .lookup | .subscribeDataReplay | .gone => none
  | .subscribeEnd f | .cachedEnd f | .release f _ | .begin f _ | .replay f _ _ | .recvData f | .recvEnd f | .drain f _
  | .tryRecvEnd f | .finished f => some f

/-! ### What a stream has to yield -/

/-- The stream has come to its end and has yielded the start event, a run of the output up to its last event, and the
end event.  With `Start` this is all of the output; with `Connect` it begins with as much of what was published before
the attach as the log may keep. -/
def Complete (k : Core) (f : Feed) : Prop :=
  ∃ output e, f.out = .startEvent k.pid :: (output.map .dataEvent ++ [.endEvent e]) ∧ k.ended = some e ∧
    output <:+ k.published ∧ (f.origin = .start → output = k.published) ∧
    (f.origin = .connect → ∃ kept, Longest evLen OUTPUT_LOG_CAPACITY (k.published.take f.first) kept ∧
      output = kept ++ k.published.drop f.first)

/-- What the stream has yielded so far is the start event and a run of the output, or all there is. -/
def SoFar (k : Core) (f : Feed) : Prop :=
  f.out = [] ∨ (∃ output, output <:+: k.published ∧ f.out = .startEvent k.pid :: output.map .dataEvent) ∨ Complete k f

/-- The output that the stream has in hand. -/
def Core.output (k : Core) (f : Feed) : List DataEvent := f.snapshot ++ window k.published f.first f.next

end Wrenn.Processes.Output
