import Wrenn.Lib.Streams

/-!
# The consumers of the event stream

Two workers read the stream of events, each through a consumer group of its own: the reconciler, which writes
what hosts report into the database and calls the hooks of extensions, and the dispatcher, which notifies the
channels of a team.  A failed hook keeps the reconciler from acknowledging the event; the dispatcher
acknowledges always, and tries a failed delivery twice more by itself.

Neither reads its pending entries.  `reach_events_at_least_once` therefore needs that nothing fails and that
no restart comes before the last acknowledgement; `hook_error_loses_event` and the runs after it show what
becomes of an event otherwise.
-/

namespace Wrenn.Events.Consumers

open Lib.Runs Lib.Streams

/-! ### Events -/

inductive Kind
  | capsuleCreate
  | capsulePause
  | capsuleResume
  | capsuleDestroy
  | capsuleStateChanged
  | otherCapsule
  | other
  deriving DecidableEq, Repr

structure Event where
  kind : Kind
  /-- the actor is the system -/
  system : Bool
  success : Bool
  /-- the parsed id of the capsule -/
  sandbox : Option ℕ
  /-- the parsed id of the team -/
  team : Option ℕ
  /-- `Metadata["reason"]` -/
  reason : String
  deriving DecidableEq, Repr

inductive Message
  | noPayload
  | malformed
  | event (e : Event)
  deriving DecidableEq, Repr

/-! ### `SandboxEventConsumer` -/

inductive DbReply
  | ok
  | noRows
  | failed
  deriving DecidableEq, Repr

/-- The replies of the database, in the order of the statements, and those of the hooks. -/
structure Calls where
  db : ℕ → DbReply
  hook : ℕ → Bool

/-- Statements tried one after the other until one of them updates a row. -/
def attempts (db : ℕ → DbReply) (i : ℕ) : ℕ → List DbReply
  | 0 => []
  | n + 1 => db i :: if db i = .ok then [] else attempts db (i + 1) n

def handleStarted (db : ℕ → DbReply) : List DbReply := attempts db 0 1

/-- from `running`, `pausing` -/
def handleAutoPaused (db : ℕ → DbReply) : List DbReply := attempts db 0 2

/-- The volumes are detached; from `stopping`, `running` -/
def handleStopped (db : ℕ → DbReply) : List DbReply := db 0 :: attempts db 1 2

/-- The volumes are detached; from `running`, `starting`, `pausing`, `resuming`, `snapshotting` -/
def handleFailed (db : ℕ → DbReply) : List DbReply := db 0 :: attempts db 1 5

/-- The statements that an event leads to, by their replies. -/
def statements (e : Event) (db : ℕ → DbReply) : List DbReply :=
  match e.kind, e.success with
  | .capsuleCreate, true | .capsuleResume, true => handleStarted db
  | .capsuleCreate, false | .capsuleResume, false => handleFailed db
  | .capsulePause, true => handleAutoPaused db
  | .capsuleDestroy, true => handleStopped db
  | _, _ => []

/-- The kinds that have a canonical verb. -/
def canonicalSandboxVerb : Kind → Option String
  | .capsuleCreate => some "created"
  | .capsuleResume => some "resumed"
  | .capsulePause => some "paused"
  | .capsuleDestroy => some "destroyed"
  | _ => none

/-- The event drives the reconciliation. -/
def drives (e : Event) : Bool :=
  decide (e.kind ≠ .other ∧ e.kind ≠ .capsuleStateChanged) && e.system && e.sandbox.isSome

/-- The hooks are called for the event. -/
def hooked (e : Event) : Bool := e.success && (canonicalSandboxVerb e.kind).isSome

/-- No hook fails; the first that does ends the loop. -/
def runHooks (hooks : ℕ) (hook : ℕ → Bool) : Bool := (List.range hooks).all hook

/-- The errors of the statements are not looked at, the error of a hook keeps the acknowledgement back. -/
def reconcile (hooks : ℕ) : Message → Calls → Verdict
  | .noPayload, _ | .malformed, _ => ⟨true, true⟩
  | .event e, calls =>
    if drives e then
      let written := (statements e calls.db).all fun r => decide (r ≠ .failed)
      if hooked e then ⟨runHooks hooks calls.hook, written && runHooks hooks calls.hook⟩ else ⟨true, written⟩
    else ⟨true, true⟩

def reconciler (hooks : ℕ) : Worker Unit Message Calls Empty where
  count := 10
  handle := fun _ m calls => ((), reconcile hooks m calls)
  background := fun _ b => nomatch b
  restart := id

/-- No statement and no hook that the message leads to fails. -/
def Reconciled (hooks : ℕ) (m : Message) (calls : Calls) : Prop :=
  match m with
  | .event e => drives e = true →
      (∀ r ∈ statements e calls.db, r ≠ .failed) ∧ (hooked e = true → ∀ i < hooks, calls.hook i = true)
  | _ => True

variable {m : Message}

theorem reconcile_of_reconciled {hooks : ℕ} {calls : Calls} (h : Reconciled hooks m calls) :
    reconcile hooks m calls = ⟨true, true⟩ := by
  cases m with
  | noPayload | malformed => rfl
  | event e =>
    unfold reconcile
    by_cases hd : drives e = true
    · obtain ⟨hdb, hhook⟩ := h hd
      have hwritten : ((statements e calls.db).all fun r => decide (r ≠ .failed)) = true :=
        List.all_eq_true.mpr fun r hr => decide_eq_true (hdb r hr)
      by_cases hh : hooked e = true
      · have hrun : runHooks hooks calls.hook = true :=
          List.all_eq_true.mpr fun i hi => hhook hh i (List.mem_range.mp hi)
        simp only [hd, hh, hwritten, hrun, if_true, Bool.and_true]
      · simp only [hd, hh, hwritten, if_true, if_false, Bool.false_eq_true]
    · simp [hd]

/-! ### `Dispatcher` -/

/-- `maxConcurrentRetries` -/
def maxConcurrentRetries : ℕ := 64

/-- The number of `retryDelays`. -/
def retryAttempts : ℕ := 2

/-- A delivery that is tried again in the background. -/
structure Retry where
  event : Event
  channel : ℕ
  left : ℕ
  deriving DecidableEq, Repr

/-- A channel of the event, whether its configuration can be decrypted and whether the delivery succeeds. -/
structure Attempt where
  channel : ℕ
  decrypted : Bool
  delivered : Bool
  deriving DecidableEq, Repr

def dispatch (e : Event) (retries : List Retry) (a : Attempt) : List Retry :=
  if ¬ a.decrypted then retries
  else if a.delivered then retries
  else if retries.length < maxConcurrentRetries then retries ++ [⟨e, a.channel, retryAttempts⟩]
  else retries

/-- A system event without a reason follows the event of the user. -/
def isRedundantSystemFollowup (e : Event) : Bool :=
  e.system && decide (e.kind ∈ [.capsuleCreate, .capsulePause, .capsuleResume, .capsuleDestroy]) &&
    decide (e.reason = "")

/-- The channels of the event are looked up. -/
def notifies (e : Event) : Bool := !isRedundantSystemFollowup e && e.team.isSome

/-- `none` says that the channels of the event cannot be listed. -/
def dispatchMessage (retries : List Retry) : Message → Option (List Attempt) → List Retry × Verdict
  | .noPayload, _ | .malformed, _ => (retries, ⟨true, true⟩)
  | .event e, channels =>
    if notifies e then
      match channels with
      | none => (retries, ⟨true, false⟩)
      | some l => (l.foldl (dispatch e) retries, ⟨true, l.all fun a => a.decrypted && a.delivered⟩)
    else (retries, ⟨true, true⟩)

/-- One attempt of the retry in slot `i`; after the last one the slot is given up. -/
def retryDeliver (retries : List Retry) (i : ℕ) (delivered : Bool) : Option (List Retry) :=
  (retries[i]?).map fun r =>
    if delivered ∨ r.left ≤ 1 then retries.eraseIdx i else retries.set i { r with left := r.left - 1 }

def dispatcher : Worker (List Retry) Message (Option (List Attempt)) (ℕ × Bool) where
  count := 10
  handle := dispatchMessage
  background := fun retries b => retryDeliver retries b.1 b.2
  restart := fun _ => []

/-- The channels are listed and every delivery succeeds at once. -/
def Notified (m : Message) (channels : Option (List Attempt)) : Prop :=
  match m with
  | .event e => notifies e = true →
      ∃ l ∈ channels, ∀ a ∈ l, a.decrypted = true ∧ a.delivered = true
  | _ => True

variable {retries : List Retry}

theorem dispatchMessage_of_notified {channels : Option (List Attempt)} (h : Notified m channels) :
    (dispatchMessage retries m channels).2 = ⟨true, true⟩ := by
  cases m with
  | noPayload | malformed => rfl
  | event e =>
    unfold dispatchMessage
    by_cases hn : notifies e = true
    · obtain ⟨l, hl, hall⟩ := h hn
      rw [Option.mem_def] at hl
      subst hl
      have hok : (l.all fun a => a.decrypted && a.delivered) = true :=
        List.all_eq_true.mpr fun a ha => by simp [hall a ha]
      simp [hn, hok]
    · simp [hn]

/-! ### At least once -/

instance (hooks : ℕ) : ∀ m calls, Decidable (Reconciled hooks m calls)
  | .noPayload, _ | .malformed, _ => isTrue trivial
  | .event e, calls => inferInstanceAs (Decidable (drives e = true →
      (∀ r ∈ statements e calls.db, r ≠ .failed) ∧ (hooked e = true → ∀ i < hooks, calls.hook i = true)))

instance : ∀ m channels, Decidable (Notified m channels)
  | .noPayload, _ | .malformed, _ => isTrue trivial
  | .event e, channels => inferInstanceAs (Decidable (notifies e = true →
      ∃ l ∈ channels, ∀ a ∈ l, a.decrypted = true ∧ a.delivered = true))

/-- Every event that was delivered to one of the groups is acknowledged after its handlers succeeded, or in
hand, provided that the statements, hooks, deliveries and acknowledgements succeed, no reply to a read is lost,
and the worker restarts only between two batches. -/
theorem reach_events_at_least_once (hooks : ℕ) :
    (∀ s, Reach (reconciler hooks).step (Undisturbed (Reconciled hooks)) (Initial ()) s →
      AtLeastOnce (reconciler hooks) s) ∧
    ∀ s, Reach dispatcher.step (Undisturbed Notified) (Initial []) s → AtLeastOnce dispatcher s := by
  constructor
  · intro s hs
    exact (reach_kept (fun _ _ _ h => reconcile_of_reconciled h) hs).atLeastOnce
  · intro s hs
    exact (reach_kept (fun _ _ _ h => dispatchMessage_of_notified h) hs).atLeastOnce

/-! ### Runs -/

/-- A host reports that a capsule was paused. -/
def autoPause : Event := ⟨.capsulePause, true, true, some 1, some 7, "ttl_expired"⟩

def noEvents {σ : Type} (side : σ) : State σ Message := ⟨⟨[], 0, []⟩, [], none, side, [], []⟩

/-- All calls succeed; one hook is registered. -/
def reconciledRun : List (Act Message Calls Empty) :=
  [.publish (.event autoPause), .read, .handle ⟨fun _ => .ok, fun _ => true⟩, .ack .ok, .restart]

/-- The event is delivered to the one channel that wants it. -/
def notifiedRun : List (Act Message (Option (List Attempt)) (ℕ × Bool)) :=
  [.publish (.event autoPause), .read, .handle (some [⟨4, true, true⟩]), .ack .ok, .restart]

theorem calm_runs_settle :
    (AtLeastOnce (reconciler 1) (last (reconciler 1).step (noEvents ()) reconciledRun) ∧
      (last (reconciler 1).step (noEvents ()) reconciledRun).group.cursor = 1) ∧
    AtLeastOnce dispatcher (last dispatcher.step (noEvents []) notifiedRun) ∧
      (last dispatcher.step (noEvents []) notifiedRun).group.cursor = 1 := by
  have hrec : Admits (reconciler 1).step (Undisturbed (Reconciled 1)) (noEvents ()) reconciledRun := by
    decide +kernel
  have hdis : Admits dispatcher.step (Undisturbed Notified) (noEvents []) notifiedRun := by decide +kernel
  have hboth := reach_events_at_least_once 1
  exact ⟨⟨hboth.1 _ (.last rfl hrec), by decide +kernel⟩, hboth.2 _ (.last rfl hdis), by decide +kernel⟩

/-- The hook of the event fails, so it is not acknowledged, and after that it is never handed to the
reconciler again. -/
def hookError : List (Act Message Calls Empty) :=
  [.publish (.event autoPause), .read, .handle ⟨fun _ => .ok, fun _ => false⟩]

/-- The delivery fails and the process restarts before the next attempt: the event is acknowledged and its
channel never notified. -/
def droppedDelivery : List (Act Message (Option (List Attempt)) (ℕ × Bool)) :=
  [.publish (.event autoPause), .read, .handle (some [⟨4, true, false⟩]), .ack .ok, .restart]

theorem not_atLeastOnce {σ μ ω β : Type} {W : Worker σ μ ω β} {s : State σ μ} {i : ℕ} (hi : i < s.group.cursor)
    (hhand : i ∉ s.batch.map Prod.snd ∧ s.acking ≠ some i) (hlost : i ∉ s.done) : ¬ AtLeastOnce W s := by
  intro h
  rcases atLeastOnce_iff.mp h i hi with (hmem | hack) | ⟨-, hdone⟩
  · exact hhand.1 hmem
  · exact hhand.2 hack
  · exact hlost hdone

/-- Runs of both workers that lose the only event. -/
theorem hook_error_loses_event :
    (∃ s, exec (reconciler 1).step (noEvents ()) hookError = some s ∧ s.group.pending = [0] ∧ s.handed = [0] ∧
      ¬ AtLeastOnce (reconciler 1) s) ∧
    ∃ s, exec dispatcher.step (noEvents []) droppedDelivery = some s ∧ s.group.pending = [] ∧ s.side = [] ∧
      ¬ AtLeastOnce dispatcher s := by
  constructor
  all_goals refine ⟨_, rfl, rfl, rfl, not_atLeastOnce (i := 0) ?_ ?_ ?_⟩ <;> decide +kernel

end Wrenn.Events.Consumers
