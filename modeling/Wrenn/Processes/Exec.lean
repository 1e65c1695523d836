import Mathlib.Tactic.Ring
import Wrenn.Processes.Delivery

/-!
# Exec

The host agent runs a command through `Start`, and collects what the stream of process events carries.  This module
puts both ends on the streams of `Output`: the pipes of the process, with the threads that read and coalesce its
output, and the loop of the agent's `Exec`.

A reader that fails ends as if at the end of its pipe, a receiver that has lagged goes on, and `Exec` looks neither at
the error of the end event nor for one.  `reach_exec_faithful` says that besides these nothing is lost:
if the channel never holds more unread events than it keeps, no read fails and `wait` succeeds, a result without an
error is all that the process wrote, and its exit code.  `flood_reported` is a run with one event too many.
-/

namespace Wrenn.Processes.Exec

open Lib.Broadcast Lib.Runs Lib.Threads
open Output (DataEvent EndEvent ExitStatus ProcessEvent Feed Proc feed endEvent BROADCAST_CAPACITY)
open Delivery (Good)

/-! ### The pipes -/

def STD_CHUNK_SIZE : ℕ := 32768

def COALESCE_CAP : ℕ := 64 * 1024

inductive Fd
  | stdout
  | stderr
  deriving DecidableEq, Repr

def Fd.event : Fd → List UInt8 → DataEvent
  | .stdout => .stdout
  | .stderr => .stderr

/-- An output of the process, with the thread that reads it. -/
structure Pipe where
  /-- all that was ever written -/
  written : List UInt8
  buffer : List UInt8
  /-- no process has the write end open -/
  closed : Bool
  acc : List UInt8
  reading : Bool
  deriving DecidableEq, Repr

structure State where
  sys : Output.State
  stdout : Pipe
  stderr : Pipe
  exit : Option ExitStatus
  /-- what `wait` has returned -/
  waited : Option (Except String ExitStatus)

def State.pipes (s : State) : Fd → Pipe
  | .stdout => s.stdout
  | .stderr => s.stderr

def State.setPipe (s : State) : Fd → Pipe → State
  | .stdout, p => { s with stdout := p }
  | .stderr, p => { s with stderr := p }

inductive Act
  | write (fd : Fd) (d : List UInt8)
  | close (fd : Fd)
  | exit (status : ExitStatus)
  | wait (error : Option String)
  /-- a read of `coalesce_read_loop`, the first of a burst or one of its others -/
  | read (fd : Fd) (n : ℕ)
  /-- the burst is over: what has accumulated is published -/
  | flush (fd : Fd)
  | eof (fd : Fd)
  /-- a read fails, and the loop ends -/
  | fail (fd : Fd)
  /-- the waiter has joined the readers -/
  | store
  | sys (a : Output.Act)

/-- The steps of the handle and its streams that are not made by a reader or the waiter's store. -/
def foreign : Output.Act → Bool
  | .env (.publishData _) | .env (.storeEnd _) => false
  | _ => true

def step (s : State) : Act → Option State
  | .write fd d =>
    let p := s.pipes fd
    if p.closed then none else some (s.setPipe fd { p with written := p.written ++ d, buffer := p.buffer ++ d })
  | .close fd => some (s.setPipe fd { s.pipes fd with closed := true })
  | .exit status => if s.exit.isSome then none else some { s with exit := some status }
  | .wait error =>
    if s.waited.isSome then none
    else s.exit.map fun status => { s with waited := some (error.elim (.ok status) .error) }
  | .read fd n =>
    let p := s.pipes fd
    if p.reading ∧ p.acc.length < COALESCE_CAP ∧ 0 < n ∧ n ≤ p.buffer.length ∧ n ≤ STD_CHUNK_SIZE then
      some (s.setPipe fd { p with acc := p.acc ++ p.buffer.take n, buffer := p.buffer.drop n })
    else none
  | .flush fd =>
    let p := s.pipes fd
    if p.reading ∧ p.acc ≠ [] then
      (Output.step s.sys (.env (.publishData (fd.event p.acc)))).map fun sys =>
        { s with sys := sys }.setPipe fd { p with acc := [] }
    else none
  | .eof fd =>
    let p := s.pipes fd
    if p.reading ∧ p.acc = [] ∧ p.buffer = [] ∧ p.closed then some (s.setPipe fd { p with reading := false }) else none
  | .fail fd =>
    let p := s.pipes fd
    if p.reading ∧ p.acc = [] then some (s.setPipe fd { p with reading := false }) else none
  | .store =>
    if (s.pipes .stdout).reading ∨ (s.pipes .stderr).reading then none
    else s.waited.bind fun r => (Output.step s.sys (.env (.storeEnd r))).map fun sys => { s with sys := sys }
  | .sys a => if foreign a then (Output.step s.sys a).map fun sys => { s with sys := sys } else none

/-- The stream of the `Start` request is the first of the streams. -/
def initial (pid : ℕ) : State :=
  ⟨⟨.new pid, [.release Output.startFeed none]⟩, ⟨[], [], false, [], true⟩, ⟨[], [], false, [], true⟩, none, none⟩

def Initial (s : State) : Prop := ∃ pid, s = initial pid

/-! ### The client -/

def maxExecCaptureBytes : ℕ := 64 * 2 ^ 20

structure ExecResult where
  stdout : List UInt8
  stderr : List UInt8
  exitCode : ℤ
  deriving DecidableEq, Repr

inductive ExecStreamEvent
  | start (pid : ℕ)
  | stdout (d : List UInt8)
  | stderr (d : List UInt8)
  | ended (exitCode : ℤ) (error : Option String)
  deriving DecidableEq, Repr

def procEventToStreamEvent : ProcessEvent → Option ExecStreamEvent
  | .startEvent pid => some (.start pid)
  | .dataEvent (.stdout d) => some (.stdout d)
  | .dataEvent (.stderr d) => some (.stderr d)
  | .dataEvent (.pty _) => none
  | .endEvent e => some (.ended e.exitCode e.error)

/-- `stream.Err()` after the last message. -/
inductive StreamEnd
  | eof
  | error (message : String)
  deriving DecidableEq, Repr

def overCap : String :=
  "exec output exceeded " ++ toString maxExecCaptureBytes ++ "-byte cap; use streaming exec for large output"

/-- The loop of `Exec`. -/
def receive (r : ExecResult) (captured : ℕ) : List ProcessEvent → StreamEnd → ExecResult × Option String
  | [], .eof => (r, none)
  | [], .error e => (r, some ("stream error: " ++ e))
  | m :: ms, e =>
    match procEventToStreamEvent m with
    | some (.stdout d) =>
      if captured + d.length > maxExecCaptureBytes then (r, some overCap)
      else receive { r with stdout := r.stdout ++ d } (captured + d.length) ms e
    | some (.stderr d) =>
      if captured + d.length > maxExecCaptureBytes then (r, some overCap)
      else receive { r with stderr := r.stderr ++ d } (captured + d.length) ms e
    | some (.ended exitCode _) => receive { r with exitCode := exitCode } captured ms e
    | some (.start _) | none => receive r captured ms e

/-- `Client.Exec`, given what `Start` returns. -/
def clientExec : Except String (List ProcessEvent × StreamEnd) → Option ExecResult × Option String
  | .error e => (none, some ("start process: " ++ e))
  | .ok (ms, e) => ((receive ⟨[], [], 0⟩ 0 ms e).1, (receive ⟨[], [], 0⟩ 0 ms e).2)

/-- What the client can get from a stream: the whole of it once it has come to its end, or anything and an error. -/
inductive Receives : Proc → List ProcessEvent → StreamEnd → Prop
  | complete (f : Feed) : Receives (.finished f) f.out .eof
  | cut (p : Proc) (ms : List ProcessEvent) (message : String) : Receives p ms (.error message)

/-! ### The output of a process -/

def bytes : Fd → DataEvent → List UInt8
  | .stdout, .stdout d => d
  | .stderr, .stderr d => d
  | _, _ => []

def bytesOf (fd : Fd) (evs : List DataEvent) : List UInt8 := evs.flatMap (bytes fd)

theorem bytesOf_append (fd : Fd) (evs evs' : List DataEvent) :
    bytesOf fd (evs ++ evs') = bytesOf fd evs ++ bytesOf fd evs' :=
  List.flatMap_append

theorem bytes_event_self (fd : Fd) (d : List UInt8) : bytes fd (fd.event d) = d := by cases fd <;> rfl

theorem bytes_event_of_ne {fd fd' : Fd} (h : fd ≠ fd') (d : List UInt8) : bytes fd (fd'.event d) = [] := by
  cases fd <;> cases fd'
  · exact absurd rfl h
  · rfl
  · rfl
  · exact absurd rfl h

/-- Unless the cap is hit, `Exec` collects the bytes of the output in order. -/
theorem receive_data : ∀ (evs : List DataEvent) (r : ExecResult) (captured : ℕ) (ms : List ProcessEvent)
    (e : StreamEnd),
    (receive r captured (evs.map .dataEvent ++ ms) e).2 = none →
    ∃ captured', receive r captured (evs.map .dataEvent ++ ms) e =
      receive ⟨r.stdout ++ bytesOf .stdout evs, r.stderr ++ bytesOf .stderr evs, r.exitCode⟩ captured' ms e
  | [], r, captured, ms, e, _ => ⟨captured, by simp [bytesOf]⟩
  | ev :: evs, r, captured, ms, e, h => by
    have hcons : ∀ fd, bytesOf fd (ev :: evs) = bytes fd ev ++ bytesOf fd evs := fun fd => List.flatMap_cons
    rw [hcons, hcons]
    cases ev with
    | stdout d | stderr d =>
      simp only [List.map_cons, List.cons_append, receive, procEventToStreamEvent] at h ⊢
      split_ifs at h ⊢ with hcap
      obtain ⟨captured', hrest⟩ := receive_data evs _ _ ms e h
      exact ⟨captured', by rw [hrest]; simp [bytes]⟩
    | pty d =>
      obtain ⟨captured', hrest⟩ := receive_data evs r captured ms e h
      exact ⟨captured', by simpa [receive, procEventToStreamEvent, bytes] using hrest⟩

/-- A stream that was cut gives an error. -/
theorem receive_error (ms : List ProcessEvent) (r : ExecResult) (captured : ℕ) (message : String) :
    (receive r captured ms (.error message)).2 ≠ none := by
  induction ms generalizing r captured with
  | nil => simp [receive]
  | cons m ms ih =>
    simp only [receive]
    split
    · split_ifs
      · simp
      · exact ih _ _
    · split_ifs
      · simp
      · exact ih _ _
    all_goals exact ih _ _

/-- `Exec` over a whole stream. -/
theorem clientExec_complete {pid : ℕ} {evs : List DataEvent} {e : EndEvent} {r : ExecResult}
    (h : clientExec (.ok (.startEvent pid :: (evs.map .dataEvent ++ [.endEvent e]), .eof)) = (some r, none)) :
    r = ⟨bytesOf .stdout evs, bytesOf .stderr evs, e.exitCode⟩ := by
  simp only [clientExec, receive, procEventToStreamEvent, Prod.mk.injEq, Option.some.injEq] at h
  obtain ⟨hr, herr⟩ := h
  obtain ⟨captured', hall⟩ := receive_data evs ⟨[], [], 0⟩ 0 [.endEvent e] .eof herr
  rw [hall] at hr
  simpa [receive, procEventToStreamEvent] using hr.symm

/-! ### The condition -/

/-- The unread events of the stream of `Start` fit into the channel, no output is read in vain, and `wait` returns a
status. -/
def Lossless (s : State) : Act → Prop
  | .flush _ => ∀ f ∈ (s.sys.threads[0]?).bind feed, s.sys.core.published.length < f.next + BROADCAST_CAPACITY
  | .fail _ => False
  | .wait error => error = none
  | _ => True

instance (s : State) : ∀ a, Decidable (Lossless s a)
  | .flush _ => inferInstanceAs (Decidable
      (∀ f ∈ (s.sys.threads[0]?).bind feed, s.sys.core.published.length < f.next + BROADCAST_CAPACITY))
  | .fail _ => isFalse not_false
  | .wait error => inferInstanceAs (Decidable (error = none))
  | .write _ _ | .close _ | .exit _ | .read _ _ | .eof _ | .store | .sys _ => isTrue trivial

/-- The stream of the `Start` request, unless its client has dropped it. -/
def Mine (k : Output.Core) (p : Proc) : Prop :=
  p = .gone ∨ ∃ f, feed p = some f ∧ f.origin = .start ∧ f.lagged = false ∧
    k.published.length ≤ f.next + BROADCAST_CAPACITY

def MineAt (s : Output.State) : Prop := ∃ p, s.threads[0]? = some p ∧ Mine s.core p

section Streams

variable {s s' : Output.State}

theorem Mine.of_published {k k' : Output.Core} {p : Proc} (h : Mine k p)
    (hk : k'.published = k.published) : Mine k' p := by
  rcases h with rfl | ⟨f, hf, horigin, hlag, hle⟩
  · exact .inl rfl
  · exact .inr ⟨f, hf, horigin, hlag, hk ▸ hle⟩

theorem Mine.run {k k' : Output.Core} {p p' : Proc} (h : Mine k p) (hrun : Output.run k () p = some (k', p')) :
    Mine k' p' := by
  obtain ⟨n, rfl⟩ := Delivery.run_core hrun
  rcases h with rfl | ⟨f, hf, horigin, hlag, hle⟩
  · cases hrun
  · obtain ⟨f', hf', horigin', hnext, hlag'⟩ := Delivery.feed_run hf hrun
    refine .inr ⟨f', hf', horigin'.trans horigin, hlag' hlag hle, ?_⟩
    show k.published.length ≤ f'.next + BROADCAST_CAPACITY
    omega

/-- The steps of the other streams, and those of the process that publish nothing. -/
theorem mineAt_foreign {a : Output.Act} (h : MineAt s) (ha : foreign a = true) (hs : Output.step s a = some s') :
    MineAt s' := by
  obtain ⟨p, hp, hmine⟩ := h
  obtain ⟨h0, -⟩ := List.getElem?_eq_some_iff.mp hp
  cases a with
  | start i =>
    cases i with
    | connect =>
      cases hs
      exact ⟨p, by rw [List.getElem?_append_left h0]; exact hp, hmine⟩
  | act t c =>
    obtain ⟨q, hq, hs⟩ := Option.bind_eq_some_iff.mp hs
    obtain ⟨⟨k, q'⟩, hrun, rfl⟩ := Option.map_eq_some_iff.mp hs
    by_cases ht : t = 0
    · subst ht
      rw [hp] at hq
      cases hq
      exact ⟨q', List.getElem?_set_self h0, hmine.run hrun⟩
    · obtain ⟨n, rfl⟩ := Delivery.run_core hrun
      exact ⟨p, by rw [List.getElem?_set_ne ht]; exact hp, hmine.of_published rfl⟩
  | crash t =>
    cases hs
    by_cases ht : t = 0
    · subst ht
      exact ⟨.gone, List.getElem?_set_self h0, .inl rfl⟩
    · exact ⟨p, by rw [List.getElem?_set_ne ht]; exact hp, hmine⟩
  | env e =>
    obtain ⟨k, hk, rfl⟩ := Option.map_eq_some_iff.mp hs
    refine ⟨p, hp, hmine.of_published ?_⟩
    cases e with
    | publishData ev | storeEnd r => cases ha
    | sendEnd =>
      obtain ⟨e, -, hk⟩ := Option.bind_eq_some_iff.mp hk
      obtain ⟨-, hk⟩ := Option.ite_none_right_eq_some.mp hk
      cases hk
      rfl
    | exitWaiter =>
      obtain ⟨-, hk⟩ := Option.ite_none_left_eq_some.mp hk
      cases hk
      rfl
    | unregister =>
      cases hk
      rfl

/-- A publication, while the channel has room for it. -/
theorem publish_step {ev : DataEvent} (hs : Output.step s (.env (.publishData ev)) = some s') :
    s.core.ended = none ∧ s' = { s with core := s.core.publishData ev } := by
  obtain ⟨k, hk, rfl⟩ := Option.map_eq_some_iff.mp hs
  obtain ⟨hnone, hk⟩ := Option.ite_none_right_eq_some.mp hk
  cases hk
  exact ⟨Option.isNone_iff_eq_none.mp hnone, rfl⟩

theorem store_step {r : Except String ExitStatus} (hs : Output.step s (.env (.storeEnd r)) = some s') :
    s' = { s with core := { s.core with ended := some (endEvent r) } } := by
  obtain ⟨k, hk, rfl⟩ := Option.map_eq_some_iff.mp hs
  obtain ⟨-, hk⟩ := Option.ite_none_right_eq_some.mp hk
  cases hk
  rfl

theorem MineAt.publish {ev : DataEvent} (h : MineAt s)
    (hroom : ∀ f ∈ (s.threads[0]?).bind feed, s.core.published.length < f.next + BROADCAST_CAPACITY) :
    MineAt { s with core := s.core.publishData ev } := by
  obtain ⟨p, hp, hmine⟩ := h
  refine ⟨p, hp, ?_⟩
  rcases hmine with rfl | ⟨f, hf, horigin, hlag, -⟩
  · exact .inl rfl
  · have hlt := hroom f (by rw [hp]; exact hf)
    refine .inr ⟨f, hf, horigin, hlag, ?_⟩
    show (s.core.published ++ [ev]).length ≤ f.next + BROADCAST_CAPACITY
    rw [List.length_append]
    exact hlt

end Streams

/-! ### Nothing is lost on the way to the channel -/

/-- What was written to a pipe is published, or with the reader, or in the pipe; a reader ends at the end. -/
structure Piped (published : List DataEvent) (fd : Fd) (p : Pipe) : Prop where
  whole : bytesOf fd published ++ p.acc ++ p.buffer = p.written
  ended : p.reading = false → p.closed = true ∧ p.acc = [] ∧ p.buffer = []

structure Whole (s : State) : Prop where
  good : Good s.sys
  mine : MineAt s.sys
  piped : ∀ fd, Piped s.sys.core.published fd (s.pipes fd)
  waited : ∀ r, s.waited = some r → ∃ status, s.exit = some status ∧ r = .ok status
  stored : ∀ e, s.sys.core.ended = some e →
    (∀ fd, (s.pipes fd).reading = false) ∧ ∃ status, s.exit = some status ∧ e = endEvent (.ok status)

section Whole

variable {s s' : State} {fd : Fd} {p : Pipe}

theorem setPipe_self (s : State) (fd : Fd) (p : Pipe) : (s.setPipe fd p).pipes fd = p := by cases fd <;> rfl

theorem setPipe_of_ne (s : State) {fd fd' : Fd} (h : fd' ≠ fd) (p : Pipe) :
    (s.setPipe fd p).pipes fd' = s.pipes fd' := by
  cases fd <;> cases fd'
  · exact absurd rfl h
  · rfl
  · rfl
  · exact absurd rfl h

theorem setPipe_frame (s : State) (fd : Fd) (p : Pipe) :
    (s.setPipe fd p).sys = s.sys ∧ (s.setPipe fd p).exit = s.exit ∧ (s.setPipe fd p).waited = s.waited := by
  cases fd <;> exact ⟨rfl, rfl, rfl⟩

/-- A step of one pipe that publishes nothing and does not stop a reader before its end. -/
theorem Whole.setPipe (h : Whole s) (hp : Piped s.sys.core.published fd p)
    (hreading : (s.pipes fd).reading = false → p.reading = false) : Whole (s.setPipe fd p) := by
  obtain ⟨hsys, hexit, hwaited⟩ := setPipe_frame s fd p
  refine ⟨hsys ▸ h.good, hsys ▸ h.mine, fun fd' => ?_, ?_, fun e he => ?_⟩
  · rw [hsys]
    by_cases hfd : fd' = fd
    · subst hfd
      rw [setPipe_self]
      exact hp
    · rw [setPipe_of_ne s hfd]
      exact h.piped fd'
  · rw [hwaited, hexit]
    exact h.waited
  · rw [hsys] at he
    obtain ⟨hread, hstatus⟩ := h.stored e he
    rw [hexit]
    refine ⟨fun fd' => ?_, hstatus⟩
    by_cases hfd : fd' = fd
    · subst hfd
      rw [setPipe_self]
      exact hreading (hread fd')
    · rw [setPipe_of_ne s hfd]
      exact hread fd'

/-- A publication moves bytes of one pipe from the reader to the channel. -/
theorem Piped.publish {published : List DataEvent} (h : ∀ fd, Piped published fd (s.pipes fd))
    (hreading : (s.pipes fd).reading = true) (fd' : Fd) :
    Piped (published ++ [fd.event (s.pipes fd).acc]) fd' ((s.setPipe fd { s.pipes fd with acc := [] }).pipes fd') := by
  have hpublished : bytesOf fd' (published ++ [fd.event (s.pipes fd).acc]) =
      bytesOf fd' published ++ bytes fd' (fd.event (s.pipes fd).acc) := by
    rw [bytesOf_append]
    simp [bytesOf]
  obtain ⟨hwhole, hended⟩ := h fd'
  by_cases hfd : fd' = fd
  · subst hfd
    rw [setPipe_self]
    refine ⟨?_, fun hread => ?_⟩
    · show bytesOf fd' (published ++ [_]) ++ [] ++ (s.pipes fd').buffer = (s.pipes fd').written
      rw [hpublished, bytes_event_self, List.append_nil]
      exact hwhole
    · have hread' : (s.pipes fd').reading = false := hread
      rw [hreading] at hread'
      cases hread'
  · rw [setPipe_of_ne _ hfd]
    refine ⟨?_, hended⟩
    rw [hpublished, bytes_event_of_ne hfd, List.append_nil]
    exact hwhole

theorem Whole.flush (h : Whole s) (hreading : (s.pipes fd).reading = true)
    (hroom : ∀ f ∈ (s.sys.threads[0]?).bind feed, s.sys.core.published.length < f.next + BROADCAST_CAPACITY)
    {sys : Output.State} (hs : Output.step s.sys (.env (.publishData (fd.event (s.pipes fd).acc))) = some sys) :
    Whole ({ s with sys := sys }.setPipe fd { s.pipes fd with acc := [] }) := by
  have hgood := Delivery.good_step h.good hs
  obtain ⟨hnone, rfl⟩ := publish_step hs
  have hpiped := Piped.publish h.piped hreading
  have hnot : ∀ e, s.sys.core.ended ≠ some e := fun e he => by
    rw [hnone] at he
    cases he
  cases fd <;> exact ⟨hgood, h.mine.publish hroom, fun fd' => by cases fd' <;> exact hpiped _, h.waited,
    fun e he => absurd he (hnot e)⟩

theorem Whole.store (h : Whole s) (hread : ∀ fd, (s.pipes fd).reading = false) {r : Except String ExitStatus}
    (hr : s.waited = some r) {sys : Output.State} (hs : Output.step s.sys (.env (.storeEnd r)) = some sys) :
    Whole { s with sys := sys } := by
  have hgood := Delivery.good_step h.good hs
  obtain rfl := store_step hs
  obtain ⟨status, hexit, rfl⟩ := h.waited r hr
  obtain ⟨p, hp, hmine⟩ := h.mine
  refine ⟨hgood, ⟨p, hp, hmine.of_published rfl⟩, h.piped, h.waited, fun e he => ⟨hread, status, hexit, ?_⟩⟩
  exact (Option.some.inj he).symm

theorem Whole.foreign (h : Whole s) {a : Output.Act} (ha : foreign a = true) {sys : Output.State}
    (hs : Output.step s.sys a = some sys) : Whole { s with sys := sys } := by
  have hcore : sys.core.published = s.sys.core.published ∧ sys.core.ended = s.sys.core.ended := by
    cases moves_of_step hs with
    | @start i k q threads hspawn _ =>
      cases i
      cases hspawn
      exact ⟨rfl, rfl⟩
    | act _ hrun _ _ =>
      obtain ⟨n, rfl⟩ := Delivery.run_core hrun
      exact ⟨rfl, rfl⟩
    | crash _ _ _ | noCrash => exact ⟨rfl, rfl⟩
    | @env e k hk =>
      cases e with
      | publishData ev | storeEnd r => cases ha
      | sendEnd =>
        obtain ⟨e, -, hk⟩ := Option.bind_eq_some_iff.mp hk
        obtain ⟨-, hk⟩ := Option.ite_none_right_eq_some.mp hk
        cases hk
        exact ⟨rfl, rfl⟩
      | exitWaiter =>
        obtain ⟨-, hk⟩ := Option.ite_none_left_eq_some.mp hk
        cases hk
        exact ⟨rfl, rfl⟩
      | unregister =>
        cases hk
        exact ⟨rfl, rfl⟩
  refine ⟨Delivery.good_step h.good hs, mineAt_foreign h.mine ha hs, fun fd => ?_, h.waited, fun e he => ?_⟩
  · show Piped sys.core.published fd (s.pipes fd)
    rw [hcore.1]
    exact h.piped fd
  · exact h.stored e (hcore.2 ▸ he)

end Whole

theorem whole_step {s s' : State} {a : Act} (h : Whole s) (hok : Lossless s a) (hs : step s a = some s') :
    Whole s' := by
  cases a with
  | write fd d =>
    obtain ⟨hopen, hs⟩ := Option.ite_none_left_eq_some.mp hs
    cases hs
    obtain ⟨hwhole, hended⟩ := h.piped fd
    refine h.setPipe ⟨?_, fun hread => ?_⟩ id
    · show bytesOf fd s.sys.core.published ++ (s.pipes fd).acc ++ ((s.pipes fd).buffer ++ d) = (s.pipes fd).written ++ d
      rw [← List.append_assoc, hwhole]
    · exact absurd (hended hread).1 hopen
  | close fd =>
    cases hs
    obtain ⟨hwhole, hended⟩ := h.piped fd
    exact h.setPipe ⟨hwhole, fun hread => ⟨rfl, (hended hread).2⟩⟩ id
  | exit status =>
    obtain ⟨hnone, hs⟩ := Option.ite_none_left_eq_some.mp hs
    cases hs
    have hexit : ∀ status', s.exit ≠ some status' := by
      intro status' hsome
      rw [hsome] at hnone
      exact hnone rfl
    refine ⟨h.good, h.mine, h.piped, fun r hr => ?_, fun e he => ?_⟩
    · obtain ⟨status', hsome, -⟩ := h.waited r hr
      exact absurd hsome (hexit status')
    · obtain ⟨-, status', hsome, -⟩ := h.stored e he
      exact absurd hsome (hexit status')
  | wait error =>
    have hnone : error = none := hok
    subst hnone
    obtain ⟨-, hs⟩ := Option.ite_none_left_eq_some.mp hs
    obtain ⟨status, hexit, rfl⟩ := Option.map_eq_some_iff.mp hs
    refine ⟨h.good, h.mine, h.piped, fun r hr => ⟨status, hexit, ?_⟩, h.stored⟩
    exact (Option.some.inj hr).symm
  | read fd n =>
    obtain ⟨⟨hread, -⟩, hs⟩ := Option.ite_none_right_eq_some.mp hs
    cases hs
    obtain ⟨hwhole, -⟩ := h.piped fd
    refine h.setPipe ⟨?_, fun hread' => ?_⟩ id
    · show bytesOf fd s.sys.core.published ++ ((s.pipes fd).acc ++ (s.pipes fd).buffer.take n) ++
        (s.pipes fd).buffer.drop n = (s.pipes fd).written
      rw [← hwhole]
      simp only [List.append_assoc, List.take_append_drop]
    · have hread'' : (s.pipes fd).reading = false := hread'
      rw [hread] at hread''
      cases hread''
  | flush fd =>
    obtain ⟨⟨hread, -⟩, hs⟩ := Option.ite_none_right_eq_some.mp hs
    obtain ⟨sys, hsys, rfl⟩ := Option.map_eq_some_iff.mp hs
    exact h.flush hread hok hsys
  | eof fd =>
    obtain ⟨⟨-, hacc, hbuffer, hclosed⟩, hs⟩ := Option.ite_none_right_eq_some.mp hs
    cases hs
    exact h.setPipe ⟨(h.piped fd).whole, fun _ => ⟨hclosed, hacc, hbuffer⟩⟩ fun _ => rfl
  | fail fd => exact hok.elim
  | store =>
    obtain ⟨hread, hs⟩ := Option.ite_none_left_eq_some.mp hs
    obtain ⟨r, hr, hs⟩ := Option.bind_eq_some_iff.mp hs
    obtain ⟨sys, hsys, rfl⟩ := Option.map_eq_some_iff.mp hs
    have hboth : ∀ fd, (s.pipes fd).reading = false := by
      intro fd
      rw [not_or] at hread
      cases fd with
      | stdout => simpa using hread.1
      | stderr => simpa using hread.2
    exact h.store hboth hr hsys
  | sys a =>
    obtain ⟨ha, hs⟩ := Option.ite_none_right_eq_some.mp hs
    obtain ⟨sys, hsys, rfl⟩ := Option.map_eq_some_iff.mp hs
    exact h.foreign ha hsys

theorem whole_initial {s : State} (h : Initial s) : Whole s := by
  obtain ⟨pid, rfl⟩ := h
  have hpipe : ∀ fd, Piped [] fd ⟨[], [], false, [], true⟩ := fun fd => ⟨rfl, by rintro ⟨⟩⟩
  exact ⟨Delivery.good_initial ⟨pid, rfl⟩, ⟨_, rfl, .inr ⟨_, rfl, rfl, rfl, Nat.zero_le _⟩⟩,
    fun fd => by cases fd <;> exact hpipe _, by rintro r ⟨⟩, by rintro e ⟨⟩⟩

/-! ### The result -/

/-- In runs without a full channel, a failed read or a failed `wait`, a result that `Exec` returns without an error is
what the process has written to its two outputs, and its exit code; that of a process killed by a signal is -1. -/
theorem reach_exec_faithful {s : State} (h : Reach step Lossless Initial s) :
    ∀ p, s.sys.threads[0]? = some p → ∀ ms e, Receives p ms e → ∀ r, clientExec (.ok (ms, e)) = (some r, none) →
      r.stdout = (s.pipes .stdout).written ∧ r.stderr = (s.pipes .stderr).written ∧
      ∃ status, s.exit = some status ∧ r.exitCode = status.code.getD (-1) := by
  have hw : Whole s := h.invariant (fun _ => whole_initial) fun _ _ _ hi hok hs => whole_step hi hok hs
  intro p hp ms e hrec r hr
  cases hrec with
  | cut _ _ message => exact absurd (Prod.mk.inj hr).2 (receive_error ms _ _ message)
  | complete f =>
    obtain ⟨q, hq, hmine⟩ := hw.mine
    rw [hp] at hq
    cases hq
    obtain ⟨g, hg, horigin, hlag, -⟩ := hmine.resolve_left (by simp)
    cases hg
    obtain ⟨output, e, hout, hended, -, hall, -⟩ := (hw.good.threads _ (List.mem_of_getElem? hp)).2 hlag
    rw [hout] at hr
    obtain rfl := clientExec_complete hr
    obtain ⟨hread, status, hexit, rfl⟩ := hw.stored e hended
    have hwritten : ∀ fd, bytesOf fd output = (s.pipes fd).written := by
      intro fd
      obtain ⟨hwhole, hend⟩ := hw.piped fd
      obtain ⟨-, hacc, hbuffer⟩ := hend (hread fd)
      rw [← hwhole, hacc, hbuffer, hall horigin, List.append_nil, List.append_nil]
    exact ⟨hwritten .stdout, hwritten .stderr, status, hexit, rfl⟩

/-! ### A command with little output -/

def quietRun : List Act :=
  List.replicate 3 (.sys (.act 0 ())) ++
    ([.write .stdout [104], .read .stdout 1, .write .stderr [101], .write .stdout [105], .read .stdout 1,
      .flush .stdout,
      .exit ⟨some 3, "exit status: 3"⟩, .close .stdout, .close .stderr, .wait none, .read .stderr 1, .eof .stdout,
      .flush .stderr, .eof .stderr, .store, .sys (.env .sendEnd)] ++ List.replicate 5 (.sys (.act 0 ())))

theorem quiet_run_faithful :
    ∃ r, clientExec (.ok ([.startEvent 7, .dataEvent (.stdout [104, 105]), .dataEvent (.stderr [101]),
        .endEvent ⟨3, true, "exit status: 3", none⟩], .eof)) = (some r, none) ∧
      r.stdout = ((last step (initial 7) quietRun).pipes .stdout).written ∧
      r.stderr = ((last step (initial 7) quietRun).pipes .stderr).written ∧
      ∃ status, (last step (initial 7) quietRun).exit = some status ∧ r.exitCode = status.code.getD (-1) := by
  have hadm : Admits step Lossless (initial 7) quietRun := by decide +kernel
  have hthread : (last step (initial 7) quietRun).sys.threads[0]? =
      some (.finished ⟨.start, 0, [], 2, 1, false, [.startEvent 7, .dataEvent (.stdout [104, 105]),
        .dataEvent (.stderr [101]), .endEvent ⟨3, true, "exit status: 3", none⟩]⟩) := by decide +kernel
  have hexec : clientExec (.ok ([.startEvent 7, .dataEvent (.stdout [104, 105]), .dataEvent (.stderr [101]),
      .endEvent ⟨3, true, "exit status: 3", none⟩], .eof)) = (some ⟨[104, 105], [101], 3⟩, none) := by decide +kernel
  exact ⟨_, hexec, reach_exec_faithful (.last ⟨7, rfl⟩ hadm) _ hthread _ _ (.complete _) _ hexec⟩

/-! ### A command with too much output -/

section Flood

/-- One byte on its way to the channel. -/
def oneByte : List Act := [.write .stdout [0], .read .stdout 1, .flush .stdout]

def byteEvent : DataEvent := .stdout [0]

def floodCore : ℕ → Output.Core
  | 0 => { Output.Core.new 7 with refs := 0 }
  | n + 1 => (floodCore n).publishData byteEvent

/-- The stream of the `Start` request, which has yielded the start event. -/
def idleFeed : Feed := ⟨.start, 0, [], 0, 0, false, [.startEvent 7]⟩

def floodState (k : Output.Core) (stdout : Pipe) : State :=
  ⟨⟨k, [.recvData idleFeed]⟩, stdout, ⟨[], [], false, [], true⟩, none, none⟩

def flooded (n : ℕ) : State := floodState (floodCore n) ⟨List.replicate n 0, [], false, [], true⟩

theorem floodCore_frame : ∀ n, (floodCore n).published = List.replicate n byteEvent ∧ (floodCore n).ended = none ∧
    (floodCore n).ends = [] ∧ (floodCore n).registered = true
  | 0 => ⟨rfl, rfl, rfl, rfl⟩
  | n + 1 => by
    obtain ⟨hpublished, hrest⟩ := floodCore_frame n
    refine ⟨?_, hrest⟩
    show (floodCore n).published ++ [byteEvent] = _
    rw [hpublished, List.replicate_succ']

theorem exec_oneByte (n : ℕ) : exec step (flooded n) oneByte = some (flooded (n + 1)) := by
  have hwrite : step (flooded n) (.write .stdout [0]) =
      some (floodState (floodCore n) ⟨List.replicate n 0 ++ [0], [0], false, [], true⟩) := rfl
  have hread : step (floodState (floodCore n) ⟨List.replicate n 0 ++ [0], [0], false, [], true⟩) (.read .stdout 1) =
      some (floodState (floodCore n) ⟨List.replicate n 0 ++ [0], [], false, [0], true⟩) := rfl
  have hpublish : Output.step ⟨floodCore n, [.recvData idleFeed]⟩ (.env (.publishData byteEvent)) =
      some ⟨floodCore (n + 1), [.recvData idleFeed]⟩ := by
    show (Output.env (floodCore n) (.publishData byteEvent)).map _ = _
    rw [Output.env, (floodCore_frame n).2.1]
    rfl
  have hflush : step (floodState (floodCore n) ⟨List.replicate n 0 ++ [0], [], false, [0], true⟩) (.flush .stdout) =
      some (flooded (n + 1)) := by
    show (Output.step ⟨floodCore n, [.recvData idleFeed]⟩ (.env (.publishData byteEvent))).map _ = _
    rw [hpublish, flooded, List.replicate_succ']
    rfl
  simp only [oneByte, exec, hwrite, hread, hflush]

theorem exec_flood : ∀ n m, exec step (flooded m) (List.replicate n oneByte).flatten = some (flooded (m + n))
  | 0, m => rfl
  | n + 1, m => by
    rw [List.replicate_succ, List.flatten_cons, exec_append, exec_oneByte]
    show exec step (flooded (m + 1)) _ = _
    rw [exec_flood n (m + 1), Nat.add_right_comm, Nat.add_assoc]

/-- The process ends. -/
def ending : List Act :=
  [.close .stdout, .close .stderr, .eof .stdout, .eof .stderr, .exit ⟨some 0, "exit status: 0"⟩, .wait none, .store,
    .sys (.env .sendEnd)]

def success : EndEvent := ⟨0, true, "exit status: 0", none⟩

def endedCore (n : ℕ) : Output.Core := { floodCore n with ended := some success, ends := [success] }

def flushed (n : ℕ) (sys : Output.State) : State :=
  ⟨sys, ⟨List.replicate n 0, [], true, [], false⟩, ⟨[], [], true, [], false⟩, some ⟨some 0, "exit status: 0"⟩,
    some (.ok ⟨some 0, "exit status: 0"⟩)⟩

theorem exec_ending (n : ℕ) : exec step (flooded n) ending = some (flushed n ⟨endedCore n, [.recvData idleFeed]⟩) := by
  have hclose : exec step (flooded n) [.close .stdout, .close .stderr, .eof .stdout, .eof .stderr,
      .exit ⟨some 0, "exit status: 0"⟩, .wait none] = some (flushed n ⟨floodCore n, [.recvData idleFeed]⟩) := rfl
  have hstore : step (flushed n ⟨floodCore n, [.recvData idleFeed]⟩) .store =
      some (flushed n ⟨{ floodCore n with ended := some success }, [.recvData idleFeed]⟩) := by
    show (((Output.env (floodCore n) (.storeEnd (.ok ⟨some 0, "exit status: 0"⟩))).map _).map _) = _
    rw [Output.env, (floodCore_frame n).2.1]
    rfl
  have hsend : step (flushed n ⟨{ floodCore n with ended := some success }, [.recvData idleFeed]⟩)
      (.sys (.env .sendEnd)) =
      some (flushed n ⟨endedCore n, [.recvData idleFeed]⟩) := by
    have hsends : Output.env { floodCore n with ended := some success } .sendEnd = some (endedCore n) :=
      if_pos (floodCore_frame n).2.2.1
    show (((Output.env { floodCore n with ended := some success } .sendEnd).map _).map _) = _
    rw [hsends]
    rfl
  have hsplit : ending = [.close .stdout, .close .stderr, .eof .stdout, .eof .stderr, .exit ⟨some 0, "exit status: 0"⟩,
      .wait none] ++ [.store, .sys (.env .sendEnd)] := rfl
  rw [hsplit, exec_append, hclose]
  simp only [Option.bind_some, exec, hstore, hsend]

theorem exec_sys (n : ℕ) : ∀ {as : List Output.Act} {sys sys' : Output.State}, (∀ a ∈ as, foreign a = true) →
    exec Output.step sys as = some sys' → exec step (flushed n sys) (as.map .sys) = some (flushed n sys')
  | [], _, _, _, h => by
    cases h
    rfl
  | a :: as, sys, sys', hforeign, h => by
    rw [exec] at h
    cases hs : Output.step sys a with
    | none =>
      rw [hs] at h
      cases h
    | some sys1 =>
      rw [hs] at h
      have hstep : step (flushed n sys) (.sys a) = some (flushed n sys1) := by
        show (if foreign a = true then (Output.step sys a).map _ else none) = _
        rw [if_pos (hforeign a List.mem_cons_self), hs]
        rfl
      rw [List.map_cons, exec, hstep]
      exact exec_sys n (fun b hb => hforeign b (List.mem_cons_of_mem _ hb)) h

/-- A stream that is alone. -/
theorem step_stream {k k' : Output.Core} {p p' : Proc} (h : Output.run k () p = some (k', p')) :
    Output.step ⟨k, [p]⟩ (.act 0 ()) = some ⟨k', [p']⟩ := by
  show (Output.run k () p).map _ = _
  rw [h]
  rfl

/-- The stream reads what the channel has kept. -/
theorem exec_backlog {n : ℕ} : ∀ m (f : Feed), f.next + m ≤ n → n ≤ f.next + BROADCAST_CAPACITY →
    exec Output.step ⟨endedCore n, [.recvData f]⟩ (List.replicate m (.act 0 ())) = some ⟨endedCore n, [.recvData
      { f with next := f.next + m, out := f.out ++ List.replicate m (.dataEvent byteEvent) }]⟩
  | 0, f, _, _ => by simp [exec]
  | m + 1, f, hm, hn => by
    have hlen : ¬ f.next + BROADCAST_CAPACITY < (List.replicate n byteEvent).length := by
      rw [List.length_replicate]
      omega
    have hget : (List.replicate n byteEvent)[f.next]? = some byteEvent := by
      rw [List.getElem?_replicate, if_pos (by omega)]
    have hstep : Output.step ⟨endedCore n, [.recvData f]⟩ (.act 0 ()) = some ⟨endedCore n,
        [.recvData ({ f with next := f.next + 1 }.yield (.dataEvent byteEvent))]⟩ := by
      have hpublished : (endedCore n).published = List.replicate n byteEvent := (floodCore_frame n).1
      refine step_stream ?_
      simp only [Output.run, recv, hpublished, if_neg hlen, hget]
    rw [List.replicate_succ, exec, hstep]
    have hrest := exec_backlog m ({ f with next := f.next + 1 }.yield (.dataEvent byteEvent))
      (by show f.next + 1 + m ≤ n; omega) (by show n ≤ f.next + 1 + BROADCAST_CAPACITY; omega)
    show exec Output.step _ _ = _
    rw [hrest]
    simp [Feed.yield, List.replicate_succ, Nat.add_comm, Nat.add_left_comm]

/-- The stream of a flooded channel: one event is skipped. -/
def floodedFeed (c : ℕ) : Feed :=
  ⟨.start, 0, [], c + 1, 1, true, .startEvent 7 :: (List.replicate c (.dataEvent byteEvent) ++ [.endEvent success])⟩

/-- The same stream when it has read all that the channel has kept. -/
def lateFeed (c : ℕ) : Feed :=
  ⟨.start, 0, [], 1 + c, 0, true, [.startEvent 7] ++ List.replicate c (.dataEvent byteEvent)⟩

theorem exec_lagging {c : ℕ} (hc : BROADCAST_CAPACITY = c) :
    exec Output.step ⟨endedCore (c + 1), [.recvData idleFeed]⟩ (List.replicate (c + 4) (.act 0 ())) =
      some ⟨endedCore (c + 1), [.finished (floodedFeed c)]⟩ := by
  have hpublished : (endedCore (c + 1)).published = List.replicate (c + 1) byteEvent := (floodCore_frame (c + 1)).1
  have hopen : (endedCore (c + 1)).closed = false := by
    simp [Output.Core.closed, endedCore, (floodCore_frame (c + 1)).2.2.2]
  have hlag : Output.step ⟨endedCore (c + 1), [.recvData idleFeed]⟩ (.act 0 ()) =
      some ⟨endedCore (c + 1), [.recvData { idleFeed with next := 1, lagged := true }]⟩ := by
    have hlen : 0 + c < (List.replicate (c + 1) byteEvent).length := by
      rw [List.length_replicate]
      omega
    have hnext : (List.replicate (c + 1) byteEvent).length - c = 1 := by
      rw [List.length_replicate]
      omega
    refine step_stream ?_
    simp only [Output.run, recv, hpublished, hc, idleFeed, if_pos hlen, hnext]
  have hread : exec Output.step ⟨endedCore (c + 1), [.recvData { idleFeed with next := 1, lagged := true }]⟩
      (List.replicate c (.act 0 ())) = some ⟨endedCore (c + 1), [.recvData (lateFeed c)]⟩ :=
    exec_backlog c { idleFeed with next := 1, lagged := true } (by simp only []; omega)
      (by rw [hc]; simp only []; omega)
  have hempty : ∀ f : Feed, f.next = 1 + c →
      recv BROADCAST_CAPACITY (endedCore (c + 1)).published (endedCore (c + 1)).closed f.next = (.empty, f.next) := by
    intro f hf
    rw [hpublished, hopen, hf, recv, if_neg (by rw [List.length_replicate]; omega),
      List.getElem?_eq_none (by rw [List.length_replicate]; omega)]
    rfl
  have hend : recv Output.END_CAPACITY (endedCore (c + 1)).ends (endedCore (c + 1)).closed 0 =
      (.message success, 1) := by
    rw [hopen]
    rfl
  have hlast : exec Output.step ⟨endedCore (c + 1), [.recvData (lateFeed c)]⟩ [.act 0 (), .act 0 (), .act 0 ()] =
      some ⟨endedCore (c + 1), [.finished (floodedFeed c)]⟩ := by
    have h1 : ∀ f : Feed, f.next = 1 + c → Output.run (endedCore (c + 1)) () (.recvData f) =
        some (endedCore (c + 1), .recvEnd f) := fun f hf => by simp only [Output.run, hempty f hf]
    have h2 : ∀ f : Feed, f.endNext = 0 → Output.run (endedCore (c + 1)) () (.recvEnd f) =
        some (endedCore (c + 1), .drain { f with endNext := 1 } (some success)) := fun f hf => by
      simp only [Output.run, hf, hend]
    have h3 : ∀ f : Feed, f.next = 1 + c → Output.run (endedCore (c + 1)) () (.drain f (some success)) =
        some (endedCore (c + 1), .finished (f.yield (.endEvent success))) := fun f hf => by
      simp only [Output.run, hempty f hf]
      rfl
    rw [exec, step_stream (h1 _ rfl)]
    simp only [exec]
    rw [step_stream (h2 _ rfl)]
    simp only []
    rw [step_stream (h3 _ rfl)]
    simp [floodedFeed, lateFeed, Feed.yield, Nat.add_comm]
  have hsplit : List.replicate (c + 4) (Label.act 0 () : Output.Act) =
      .act 0 () :: (List.replicate c (.act 0 ()) ++ [.act 0 (), .act 0 (), .act 0 ()]) := by
    rw [show c + 4 = c + 3 + 1 from rfl, List.replicate_succ, List.replicate_add]
    rfl
  rw [hsplit, exec, hlag]
  show exec Output.step _ (_ ++ _) = _
  rw [exec_append, hread]
  exact hlast

/-- The whole run: the stream has yielded its start event when the process begins to write, and reads on only after
its end. -/
def floodRun : List Act :=
  List.replicate 3 (.sys (.act 0 ())) ++ ((List.replicate (BROADCAST_CAPACITY + 1) oneByte).flatten ++
    (ending ++ (List.replicate (BROADCAST_CAPACITY + 4) (.act 0 ())).map .sys))

theorem exec_floodRun : exec step (initial 7) floodRun =
    some (flushed (BROADCAST_CAPACITY + 1)
      ⟨endedCore (BROADCAST_CAPACITY + 1), [.finished (floodedFeed BROADCAST_CAPACITY)]⟩) := by
  generalize hc : BROADCAST_CAPACITY = c
  have hbegin : exec step (initial 7) (List.replicate 3 (.sys (.act 0 ()))) = some (flooded 0) := rfl
  have hstream : exec step (flushed (c + 1) ⟨endedCore (c + 1), [.recvData idleFeed]⟩)
      ((List.replicate (c + 4) (.act 0 ())).map .sys) =
      some (flushed (c + 1) ⟨endedCore (c + 1), [.finished (floodedFeed c)]⟩) := by
    refine exec_sys (c + 1) (fun a ha => ?_) (exec_lagging hc)
    rw [List.eq_of_mem_replicate ha]
    rfl
  rw [floodRun, hc, exec_append, hbegin, Option.bind_some, exec_append, exec_flood, Option.bind_some, exec_append,
    Nat.zero_add, exec_ending, Option.bind_some, hstream]

/-- `Exec` over the stream of the flood. -/
theorem receive_flood : ∀ n (r : ExecResult) (captured : ℕ) (ms : List ProcessEvent) (e : StreamEnd),
    captured + n ≤ maxExecCaptureBytes →
    receive r captured (List.replicate n (.dataEvent byteEvent) ++ ms) e =
      receive { r with stdout := r.stdout ++ List.replicate n 0 } (captured + n) ms e
  | 0, r, captured, ms, e, _ => by simp
  | n + 1, r, captured, ms, e, h => by
    have hfits : ¬ captured + 1 > maxExecCaptureBytes := by omega
    have hrest := receive_flood n { r with stdout := r.stdout ++ [0] } (captured + 1) ms e (by omega)
    rw [List.replicate_succ, List.cons_append, receive, byteEvent, procEventToStreamEvent]
    simp only [List.length_singleton, if_neg hfits]
    rw [← byteEvent, hrest]
    simp [List.replicate_succ, Nat.add_comm, Nat.add_left_comm]

/-- The process writes one byte more than the channel keeps events; `Exec` returns without an error, and a byte is
missing. -/
theorem flood_reported :
    ∃ s f, exec step (initial 7) floodRun = some s ∧ s.sys.threads[0]? = some (.finished f) ∧
      Receives (.finished f) f.out .eof ∧
      clientExec (.ok (f.out, .eof)) = (some ⟨List.replicate 4096 0, [], 0⟩, none) ∧
      (s.pipes .stdout).written = List.replicate 4097 0 := by
  refine ⟨_, _, exec_floodRun, rfl, .complete _, ?_, rfl⟩
  have hreceive := receive_flood BROADCAST_CAPACITY ⟨[], [], 0⟩ 0 [.endEvent success] .eof (by decide)
  rw [List.nil_append] at hreceive
  simp only [clientExec, floodedFeed, receive, procEventToStreamEvent, hreceive]
  rfl

end Flood

end Wrenn.Processes.Exec
