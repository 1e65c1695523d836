import Wrenn.Lib.Runs
import Wrenn.ControlPlane.Database
import Wrenn.Sandbox.Startup

/-!
# The control plane and its hosts

`SandboxService` with its background goroutines, the host monitor, the consumer of lifecycle events and the
volume reaper, over the tables of `Database` and over what the agents have on their hosts.

Every party is a script: a list of statements (`Stmt`), of which a step executes the first.  A statement is
one SQL query or one RPC, or a read that decides what comes next; `execute` gives the state after it and the
statements it puts in front of the rest.  RPCs are executed, are executed without the caller learning of it,
or are not executed (`Reply`).  A `CreateSandbox` takes two steps on the host, since the machine boots
before it is listed; a `DestroySandbox` may take two, since the capsule is taken out of the list before the
machine ends, and may come back with the capsule still there (`Reply.spared`).  Any number of scripts run at a
time, and each may stop for good at any point.

What agents do by themselves is `Act.agent` and `Act.vanish`; what they report of it arrives later, if at
all (`Act.post`), as do published events (`Request.deliver`).
-/

namespace Wrenn.ControlPlane.Model

open Lib.Tables Database
open Sandbox.Startup (SandboxStatus)

/-! ### Hosts -/

/-- A capsule on its host. -/
structure Box where
  id : ℕ
  host : ℕ
  /-- none while the agent's `Create` has not registered it -/
  status : Option SandboxStatus
  vm : Bool
  /-- a pause snapshot is on disk -/
  snapshot : Bool
  /-- the volumes that the machine and the pause metadata name -/
  mounts : List ℕ
  /-- a `Destroy` has taken it out of the list and has not come to its end -/
  leaving : Bool
  deriving DecidableEq, Repr

abbrev Boxes := Table Box.id

/-- The agent's `CreateSandbox` has come to its end. -/
def register (t : Boxes) (c : ℕ) : Boxes :=
  t.update (fun b => decide (b.id = c ∧ b.status = none))
    (fun b => { b with status := some .running, vm := true }) fun _ => rfl

def pauseBox (t : Boxes) (c : ℕ) : Boxes :=
  t.update (fun b => decide (b.id = c)) (fun b => { b with status := some .paused, vm := false, snapshot := true })
    fun _ => rfl

def resumeBox (t : Boxes) (c : ℕ) : Boxes :=
  t.update (fun b => decide (b.id = c)) (fun b => { b with status := some .running, vm := true }) fun _ => rfl

/-- The agent's `Destroy`, to its end; a `Create` in flight is aborted. -/
def destroyBox (t : Boxes) (c : ℕ) : Boxes := t.delete fun b => decide (b.id = c)

/-- A second `Destroy` does not find the capsule and removes the pause directory. -/
def removeSnapshot (t : Boxes) (c : ℕ) : Boxes :=
  t.update (fun b => decide (b.id = c)) (fun b => { b with snapshot := false }) fun _ => rfl

/-- The agent's `Destroy` returns nil with the capsule still on the host: another `Destroy` is at it, or a `Pause`
has completed while this one waited for it, and the capsule is put back into the list. -/
def spareBox (t : Boxes) (c : ℕ) : Option Boxes :=
  (t.select c).bind fun b =>
    if b.leaving then some (removeSnapshot t c)
    else if b.status ≠ none ∧ b.status ≠ some .paused ∧ b.vm then some (pauseBox t c)
    else none

/-- What an agent can make of a capsule by itself.  A registered capsule stays registered and does not come back
into the list, and neither a machine nor a snapshot comes from nothing. -/
def drifts (b b' : Box) : Bool :=
  decide (b'.id = b.id ∧ b'.host = b.host ∧ b'.mounts = b.mounts ∧
    (b.status ≠ none → b'.status ≠ none) ∧ (b.leaving → b'.leaving) ∧
    (b'.leaving → b.leaving ∨ b'.status ≠ none) ∧
    (b.status ≠ none → b.vm = false → b.snapshot = false → b'.vm = false ∧ b'.snapshot = false))

def setBox (t : Boxes) (b : Box) : Boxes :=
  t.update (fun b1 => decide (b1.id = b.id))
    (fun b1 => { b1 with status := b.status, vm := b.vm, snapshot := b.snapshot, leaving := b.leaving })
    fun _ => rfl

/-- `ListSandboxes`. -/
def report (t : Boxes) (h : ℕ) : List (ℕ × SandboxStatus) :=
  t.rows.filterMap fun b => if b.host = h ∧ ¬b.leaving then b.status.map (Prod.mk b.id) else none

/-! ### Events -/

inductive Verb
  | create
  | resume
  | pause
  | destroy
  deriving DecidableEq, Repr

/-- The `reason` of an event's metadata. -/
inductive Reason
  | unspecified
  | ttlExpired
  | hostFailure
  | createFailed
  | resumeFailed
  | pauseFailed
  | destroyFailed
  | transientTimeout
  | transientTimeoutInferred
  | orphaned
  | destroyRetry
  | pausedZombieCleanup
  | hostStateSync
  | restoredAfterHostRecovery
  deriving DecidableEq, Repr

/-- A `capsule.*` event of the system actor. -/
structure Event where
  verb : Verb
  success : Bool
  capsule : ℕ
  reason : Reason
  deriving DecidableEq, Repr

/-- What an agent tells the control plane. -/
inductive Notice
  | autoPaused (c : ℕ)
  | stopped (c : ℕ)
  | error (c : ℕ)
  deriving DecidableEq, Repr

def Notice.capsule : Notice → ℕ
  | .autoPaused c | .stopped c | .error c => c

def verbForFailure : Status → Verb
  | .starting => .create
  | .resuming => .resume
  | .pausing => .pause
  | .snapshotting => .create
  | _ => .destroy

def translate (n : Notice) (st : Status) : Event :=
  match n with
  | .autoPaused c => ⟨.pause, true, c, .ttlExpired⟩
  | .stopped c => ⟨.destroy, true, c, .unspecified⟩
  | .error c => ⟨verbForFailure st, false, c, .hostFailure⟩

/-! ### State and statements -/

structure Core where
  now : ℕ
  rows : Sandboxes
  volumes : Volumes
  boxes : Boxes
  events : List Event
  notices : List Notice
  /-- `id.NewSandboxID` -/
  nextID : ℕ
  /-- the capsules for which `SandboxService.Destroy` has returned nil -/
  accepted : List ℕ

/-- `Pause`, `Resume` and `CreateSnapshot`, the last with the status it has read. -/
inductive Op
  | pause
  | resume
  | snapshot (orig : Status)
  deriving DecidableEq, Repr

def Op.old : Op → Status
  | .pause => .running
  | .resume => .paused
  | .snapshot orig => orig

def Op.during : Op → Status
  | .pause => .pausing
  | .resume => .resuming
  | .snapshot _ => .snapshotting

inductive Request
  | pause
  | resume
  | createSnapshot
  deriving DecidableEq, Repr

inductive Stmt
  /-- the loop of `reserveVolumesForCreate` -/
  | reserve (c h : ℕ) (refs reserved : List ℕ)
  | insert (c h : ℕ) (reserved : List ℕ)
  /-- the loop of `linkVolumeReservations` -/
  | link (c h : ℕ) (todo reserved : List ℕ)
  | createCall (c h : ℕ) (reserved : List ℕ)
  | createReply (c h : ℕ) (reserved : List ℕ)
  /-- `sandboxConfirmedGone` -/
  | confirmGone (c : ℕ) (reserved : List ℕ)
  | release (c v : ℕ)
  | mark (c h v : ℕ)
  | read (q : Request) (c : ℕ)
  | claim (op : Op) (c : ℕ)
  /-- `agentForHost` -/
  | agent (op : Op) (c : ℕ)
  | call (op : Op) (c : ℕ)
  | destroyRead (c : ℕ)
  | destroyMark (c : ℕ)
  | destroyCall (c attempts : ℕ)
  | detach (c : ℕ)
  /-- `UpdateSandboxStatusIf` for one old status after the other, until one applies -/
  | updateIf (c : ℕ) (olds : List Status) (new : Status)
  | publish (e : Event)
  | markMissing (h : ℕ)
  | listSandboxes (h : ℕ)
  | readMissing (h : ℕ) (rep : List (ℕ × SandboxStatus))
  | readRunning (h : ℕ) (rep : List (ℕ × SandboxStatus))
  | readStopped (h : ℕ) (rep : List (ℕ × SandboxStatus))
  | readTransient (h : ℕ) (rep : List (ℕ × SandboxStatus))
  /-- the body of the monitor's loop over the transient rows -/
  | settle (h : ℕ) (rep : List (ℕ × SandboxStatus)) (r : Row)
  | restore (ids : List ℕ) (st : Status)
  | bulkUpdate (ids : List ℕ) (st : Status)
  | detachIDs (ids : List ℕ)
  /-- `UpdateSandboxStatusIf` of the monitor -/
  | resolve (c : ℕ) (old new : Status)
  /-- `DestroySandbox` of the monitor, of a zombie or again (`retry`) -/
  | redestroy (c : ℕ) (retry : Bool)
  /-- only if the last `resolve` has found its row -/
  | onHit (s : Stmt)
  | releaseStale (cutoff : ℕ)
  deriving DecidableEq, Repr

/-! ### The host monitor -/

def transientGracePeriod : ℕ := 120

def snapshotGracePeriod : ℕ := 900

/-- Transient statuses are recorded as mere presence. -/
def coerce : SandboxStatus → Option SandboxStatus
  | .pausing => none
  | st => some st

/-- `none`: not reported; `some none`: the empty string. -/
def aliveStatus (rep : List (ℕ × SandboxStatus)) : ℕ → Option (Option SandboxStatus) :=
  rep.foldl (fun m sb => Function.update m sb.1 (some (coerce sb.2))) fun _ => none

def label : SandboxStatus → Status
  | .pending => .pending
  | .running => .running
  | .pausing => .pausing
  | .paused => .paused
  | .snapshotting => .snapshotting
  | .stopped => .stopped
  | .error => .error

def absentIDs (rep : List (ℕ × SandboxStatus)) (rows : List Row) : List ℕ :=
  (rows.filter fun r => decide (aliveStatus rep r.id = none)).map Row.id

def reportedIDs (rep : List (ℕ × SandboxStatus)) (rows : List Row) (st : SandboxStatus) : List ℕ :=
  (rows.filter fun r => decide (aliveStatus rep r.id = some (some st))).map Row.id

/-- The rows that are not on the host any more. -/
def stopStmts (ids : List ℕ) : List Stmt :=
  if ids = [] then []
  else [.bulkUpdate ids .stopped, .detachIDs ids] ++
    ids.map fun c => .publish ⟨.destroy, true, c, .orphaned⟩

/-- One group of rows by reported status. -/
def groupStmts (ids : List ℕ) (st : SandboxStatus) (write : List ℕ → Status → Stmt) (why : Reason) : List Stmt :=
  if ids = [] then []
  else write ids (label st) ::
    if st = .paused then ids.map fun c => .publish ⟨.pause, true, c, why⟩ else []

/-- The statuses a row can be set to, in one of the orders of Go's map iteration. -/
def groups : List SandboxStatus := [.pending, .running, .paused, .snapshotting, .stopped, .error]

def missingPhase (rep : List (ℕ × SandboxStatus)) (rows : List Row) : List Stmt :=
  (groups.flatMap fun st => groupStmts (reportedIDs rep rows st) st .restore .restoredAfterHostRecovery) ++
    stopStmts (absentIDs rep rows)

def runningPhase (rep : List (ℕ × SandboxStatus)) (rows : List Row) : List Stmt :=
  stopStmts (absentIDs rep rows) ++
    (groups.erase .running).flatMap fun st =>
      groupStmts (reportedIDs rep rows st) st .bulkUpdate .hostStateSync

def zombiePhase (rep : List (ℕ × SandboxStatus)) (rows : List Row) : List Stmt :=
  (reportedIDs rep rows .paused).map fun c => .redestroy c false

/-- Where a row goes whose capsule is not on the host. -/
def finalStatus : Status → Status
  | .starting | .resuming | .snapshotting => .error
  | .pausing => .paused
  | _ => .stopped

/-- The event about it. -/
def finalEvent (c : ℕ) : Status → List Event
  | .starting => [⟨.create, false, c, .transientTimeout⟩]
  | .resuming => [⟨.resume, false, c, .transientTimeout⟩]
  | .pausing => [⟨.pause, true, c, .transientTimeoutInferred⟩]
  | .stopping => [⟨.destroy, true, c, .transientTimeoutInferred⟩]
  | _ => []

def recoverTo : Option SandboxStatus → Status
  | some .paused => .paused
  | _ => .running

def transientStmts (rep : List (ℕ × SandboxStatus)) (now : ℕ) (r : Row) : List Stmt :=
  match aliveStatus rep r.id with
  | some agentStatus =>
    match r.status with
    | .starting | .resuming => [.resolve r.id r.status .running]
    | .stopping =>
      if transientGracePeriod ≤ now - r.lastUpdated then [.redestroy r.id true] else []
    | .snapshotting =>
      if snapshotGracePeriod ≤ now - r.lastUpdated then [.resolve r.id .snapshotting (recoverTo agentStatus)]
      else []
    | _ => []
  | none =>
    if now - r.lastUpdated < transientGracePeriod then []
    else
      .resolve r.id r.status (finalStatus r.status) ::
        (if finalStatus r.status = .error ∨ finalStatus r.status = .stopped then [.onHit (.detachIDs [r.id])]
          else []) ++
        (finalEvent r.id r.status).map fun e => .onHit (.publish e)

/-- What follows a `DestroySandbox` of the monitor. -/
def redestroyed (c : ℕ) (retry : Bool) : List Stmt :=
  if retry then
    [.resolve c .stopping .stopped, .onHit (.detachIDs [c]), .onHit (.publish ⟨.destroy, true, c, .destroyRetry⟩)]
  else [.publish ⟨.destroy, true, c, .pausedZombieCleanup⟩]

/-! ### Consumer -/

def handleFailed (c : ℕ) : List Stmt :=
  [.detach c, .updateIf c [.running, .starting, .pausing, .resuming, .snapshotting] .error]

def handleStopped (c : ℕ) : List Stmt := [.detach c, .updateIf c [.stopping, .running] .stopped]

def handleAutoPaused (c : ℕ) : List Stmt := [.updateIf c [.running, .pausing] .paused]

def handleStarted (c : ℕ) (old : Status) : List Stmt := [.updateIf c [old] .running]

def handleMessage (e : Event) : List Stmt :=
  match e.verb, e.success with
  | .create, true => handleStarted e.capsule .starting
  | .create, false => handleFailed e.capsule
  | .resume, true => handleStarted e.capsule .resuming
  | .resume, false => handleFailed e.capsule
  | .pause, true => handleAutoPaused e.capsule
  | .pause, false => []
  | .destroy, true => handleStopped e.capsule
  | .destroy, false => []

/-! ### Statements -/

/-- What becomes of a call. -/
inductive Reply
  | ok
  /-- executed, but the caller gets an error -/
  | lost
  | failed
  /-- of a `DestroySandbox`: it answers, but the capsule is still on its host -/
  | spared
  deriving DecidableEq, Repr

/-- What follows the RPC of `pauseInBackground`, `resumeInBackground` or `snapshotInBackground`. -/
def Op.finish (c : ℕ) (ok : Bool) : Op → List Stmt
  | .pause =>
    if ok then [.updateIf c [.pausing] .paused, .publish ⟨.pause, true, c, .unspecified⟩]
    else [.updateIf c [.pausing] .running, .publish ⟨.pause, false, c, .pauseFailed⟩]
  | .resume =>
    if ok then [.updateIf c [.resuming] .running, .publish ⟨.resume, true, c, .unspecified⟩]
    else [.updateIf c [.resuming] .paused, .publish ⟨.resume, false, c, .resumeFailed⟩]
  | .snapshot orig => [.updateIf c [.snapshotting] orig]

/-- The RPC on the host, if the capsule allows it.  A capsule that is paused, or runs, already is left alone. -/
def Op.onHost (t : Boxes) (c : ℕ) : Op → Option Boxes
  | .pause =>
    match (t.select c).filter fun b => !b.leaving with
    | some b =>
      if b.status = some .paused then some t
      else if b.status = some .running ∧ b.vm then some (pauseBox t c)
      else none
    | none => none
  | .resume =>
    match (t.select c).filter fun b => !b.leaving with
    | some b =>
      if b.status = some .running then some t
      else if b.status = some .paused ∧ b.snapshot then some (resumeBox t c)
      else none
    | none => none
  | .snapshot _ => some t

/-- What `createInBackground` does when the host has confirmed that the capsule is gone. -/
def confirmedGone (c : ℕ) (reserved : List ℕ) : List Stmt :=
  reserved.map (.release c) ++ [.updateIf c [.starting] .error, .publish ⟨.create, false, c, .createFailed⟩]

/-- What follows the `DestroySandbox` of `destroyInBackground`. -/
def destroyed (c : ℕ) : List Stmt :=
  [.detach c, .updateIf c [.stopping] .stopped, .publish ⟨.destroy, true, c, .unspecified⟩]

/-- `destroySandboxRetries`. -/
def destroySandboxRetries : ℕ := 3

/-- A statement: the state, whether the last `resolve` has found its row, and what comes before the rest of
the script. -/
structure Result where
  core : Core
  hit : Bool
  next : List Stmt

def execute (k : Core) (hit : Bool) (ch : Reply) : Stmt → Option Result
  | .reserve c h [] reserved => some ⟨k, hit, [.insert c h reserved]⟩
  | .reserve c h (v :: refs) reserved =>
    -- a volume attaches at most once per capsule
    if v ∈ reserved then some ⟨k, hit, [.reserve c h refs reserved]⟩
    else if ch = .ok ∧ volumeIs k.volumes v .detached then
      some ⟨{ k with volumes := reserveVolumeForAttach k.volumes v k.now }, hit,
        [.reserve c h refs (reserved ++ [v])]⟩
    else some ⟨k, hit, reserved.map (.release c)⟩
  | .insert c h reserved =>
    match ch, insertSandbox k.rows c h k.now with
    | .ok, some rows => some ⟨{ k with rows := rows }, hit, [.link c h reserved reserved]⟩
    | _, _ => some ⟨k, hit, reserved.map (.release c)⟩
  | .link c h [] reserved => some ⟨k, hit, [.createCall c h reserved]⟩
  | .link c h (v :: todo) reserved =>
    some ⟨{ k with volumes := linkVolumeReservation k.volumes v c k.now }, hit, [.link c h todo reserved]⟩
  | .createCall c h reserved =>
    match ch, k.boxes.insert ⟨c, h, none, false, false, reserved, false⟩ with
    | .ok, some boxes => some ⟨{ k with boxes := boxes }, hit, [.createReply c h reserved]⟩
    | _, _ => some ⟨k, hit, [.confirmGone c reserved]⟩
  | .createReply c h reserved =>
    match ch with
    | .failed | .spared => some ⟨k, hit, [.confirmGone c reserved]⟩
    | .lost =>
      if (k.boxes.select c).isSome then
        some ⟨{ k with boxes := register k.boxes c }, hit, [.confirmGone c reserved]⟩
      else none
    | .ok =>
      if (k.boxes.select c).isSome then
        some ⟨{ k with boxes := register k.boxes c }, hit,
          reserved.map (.mark c h) ++
            [.updateIf c [.starting] .running, .publish ⟨.create, true, c, .unspecified⟩]⟩
      else none
  | .confirmGone c reserved =>
    match ch with
    | .failed => some ⟨k, hit, []⟩
    | .lost => some ⟨{ k with boxes := destroyBox k.boxes c }, hit, []⟩
    | .ok => some ⟨{ k with boxes := destroyBox k.boxes c }, hit, confirmedGone c reserved⟩
    | .spared => (spareBox k.boxes c).map fun boxes => ⟨{ k with boxes := boxes }, hit, confirmedGone c reserved⟩
  | .release _ v => some ⟨{ k with volumes := releaseVolumeReservation k.volumes v k.now }, hit, []⟩
  | .mark c h v => some ⟨{ k with volumes := markVolumeAttached k.volumes v h c k.now }, hit, []⟩
  | .read q c =>
    match q, (k.rows.select c).map Row.status with
    | .pause, some .paused => some ⟨k, hit, []⟩
    | .pause, some _ => some ⟨k, hit, [.claim .pause c]⟩
    | .resume, some .running => some ⟨k, hit, []⟩
    | .resume, some _ => some ⟨k, hit, [.claim .resume c]⟩
    | .createSnapshot, some .running => some ⟨k, hit, [.claim (.snapshot .running) c]⟩
    | .createSnapshot, some .paused => some ⟨k, hit, [.claim (.snapshot .paused) c]⟩
    | _, _ => some ⟨k, hit, []⟩
  | .claim op c =>
    if statusIs k.rows c op.old then
      some ⟨{ k with rows := updateSandboxStatusIf k.rows c op.old op.during k.now }, hit, [.agent op c]⟩
    else some ⟨k, hit, []⟩
  | .agent op c => some ⟨k, hit, if ch = .ok then [.call op c] else [.updateIf c [op.during] op.old]⟩
  | .call op c =>
    match ch with
    | .failed | .spared => some ⟨k, hit, op.finish c false⟩
    | .lost => (op.onHost k.boxes c).map fun boxes => ⟨{ k with boxes := boxes }, hit, op.finish c false⟩
    | .ok => (op.onHost k.boxes c).map fun boxes => ⟨{ k with boxes := boxes }, hit, op.finish c true⟩
  | .destroyRead c =>
    match (k.rows.select c).map Row.status with
    | none => some ⟨k, hit, []⟩
    | some .stopped => some ⟨{ k with accepted := c :: k.accepted }, hit, []⟩
    | some .error => some ⟨{ k with accepted := c :: k.accepted }, hit, []⟩
    | some _ => some ⟨k, hit, if ch = .ok then [.destroyMark c] else []⟩
  | .destroyMark c =>
    if (k.rows.select c).isSome then
      some ⟨{ k with
        rows := updateSandboxStatus k.rows c .stopping k.now
        accepted := c :: k.accepted }, hit, [.destroyCall c destroySandboxRetries]⟩
    else some ⟨k, hit, []⟩
  | .destroyCall c 0 => some ⟨k, hit, [.publish ⟨.destroy, false, c, .destroyFailed⟩]⟩
  | .destroyCall c (n + 1) =>
    match ch with
    | .failed => some ⟨k, hit, [.destroyCall c n]⟩
    | .lost => some ⟨{ k with boxes := destroyBox k.boxes c }, hit, [.destroyCall c n]⟩
    | .ok => some ⟨{ k with boxes := destroyBox k.boxes c }, hit, destroyed c⟩
    | .spared => (spareBox k.boxes c).map fun boxes => ⟨{ k with boxes := boxes }, hit, destroyed c⟩
  | .detach c => some ⟨{ k with volumes := detachVolumesBySandbox k.volumes c k.now }, hit, []⟩
  | .updateIf _ [] _ => some ⟨k, hit, []⟩
  | .updateIf c (old :: olds) new =>
    if statusIs k.rows c old then
      some ⟨{ k with rows := updateSandboxStatusIf k.rows c old new k.now }, hit, []⟩
    else some ⟨k, hit, [.updateIf c olds new]⟩
  | .publish e => some ⟨{ k with events := e :: k.events }, hit, []⟩
  | .markMissing h => some ⟨{ k with rows := markSandboxesMissingByHost k.rows h k.now }, hit, []⟩
  | .listSandboxes h =>
    let rep := report k.boxes h
    if ch = .ok then
      some ⟨k, hit, [.readMissing h rep, .readRunning h rep] ++
        (if rep.any (fun sb => decide (sb.2 = .paused)) then [.readStopped h rep] else []) ++
        [.readTransient h rep]⟩
    else some ⟨k, hit, []⟩
  | .readMissing h rep =>
    some ⟨k, hit, missingPhase rep (listSandboxesByHostAndStatus k.rows h [.missing])⟩
  | .readRunning h rep =>
    some ⟨k, hit, runningPhase rep (listSandboxesByHostAndStatus k.rows h [.running])⟩
  | .readStopped h rep =>
    some ⟨k, hit, zombiePhase rep (listSandboxesByHostAndStatus k.rows h [.stopped])⟩
  | .readTransient h rep =>
    some ⟨k, hit, (listSandboxesByHostAndStatus k.rows h
      [.starting, .resuming, .pausing, .stopping, .snapshotting]).map (.settle h rep)⟩
  | .settle _ rep r => some ⟨k, hit, transientStmts rep k.now r⟩
  | .restore ids st => some ⟨{ k with rows := bulkRestoreMissingToStatus k.rows ids st k.now }, hit, []⟩
  | .bulkUpdate ids st => some ⟨{ k with rows := bulkUpdateStatusByIDs k.rows ids st k.now }, hit, []⟩
  | .detachIDs ids => some ⟨{ k with volumes := detachVolumesBySandboxIDs k.volumes ids k.now }, hit, []⟩
  | .resolve c old new =>
    some ⟨{ k with rows := updateSandboxStatusIf k.rows c old new k.now }, statusIs k.rows c old, []⟩
  | .redestroy c retry =>
    match ch with
    | .failed => some ⟨k, hit, []⟩
    | .lost => some ⟨{ k with boxes := destroyBox k.boxes c }, hit, []⟩
    | .ok => some ⟨{ k with boxes := destroyBox k.boxes c }, hit, redestroyed c retry⟩
    | .spared => (spareBox k.boxes c).map fun boxes => ⟨{ k with boxes := boxes }, hit, redestroyed c retry⟩
  | .onHit s => if hit then execute k hit ch s else some ⟨k, hit, []⟩
  | .releaseStale cutoff =>
    some ⟨{ k with volumes := releaseStaleVolumeReservations k.volumes cutoff k.now }, hit, []⟩

/-! ### Runs -/

structure Thread where
  script : List Stmt
  hit : Bool

structure World where
  core : Core
  threads : List Thread

/-- All statements that are still to be executed. -/
def World.stmts (w : World) : List Stmt := w.threads.flatMap Thread.script

def maxVolumesPerSandbox : ℕ := 4

/-- `staleAfter` of the volume reaper. -/
def staleAfter : ℕ := 1800

inductive Start
  | create (h : ℕ) (refs : List ℕ)
  | op (q : Request) (c : ℕ)
  | destroy (c : ℕ)
  | checkHost (h : ℕ)
  /-- `checkHost` of a host whose heartbeats have stopped -/
  | hostDown (h : ℕ)
  | reapVolumes
  | deliver (e : Event)

def Start.script (k : Core) : Start → List Stmt
  | .create h refs => if refs.length ≤ maxVolumesPerSandbox then [.reserve k.nextID h refs []] else []
  | .op q c => [.read q c]
  | .destroy c => [.destroyRead c]
  | .checkHost h => [.listSandboxes h]
  | .hostDown h => [.markMissing h]
  | .reapVolumes => [.releaseStale (k.now - staleAfter)]
  | .deliver e => handleMessage e

/-- A delivery is of an event that has been published. -/
def Start.enabled (k : Core) : Start → Bool
  | .deliver e => decide (e ∈ k.events)
  | _ => true

def Start.core (k : Core) : Start → Core
  | .create _ _ => { k with nextID := k.nextID + 1 }
  | _ => k

inductive Act
  | start (s : Start)
  | act (t : ℕ) (ch : Reply)
  /-- the process goes away, as in a restart of the control plane -/
  | crash (t : ℕ)
  /-- the agent changes a capsule by itself, and means to tell the control plane if it has paused it -/
  | agent (b : Box) (tell : Bool)
  /-- a capsule is gone from its host, and the agent means to tell -/
  | vanish (c : ℕ) (tell : Option Notice)
  | post (n : Notice)
  | tick (d : ℕ)

def step (w : World) : Act → Option World
  | .start s =>
    if s.enabled w.core then some ⟨s.core w.core, w.threads ++ [⟨s.script w.core, false⟩]⟩ else none
  | .act t ch =>
    match w.threads[t]? with
    | some ⟨s :: rest, hit⟩ => (execute w.core hit ch s).map fun r =>
      ⟨r.core, w.threads.set t ⟨r.next ++ rest, r.hit⟩⟩
    | _ => none
  | .crash t => some { w with threads := w.threads.set t ⟨[], false⟩ }
  | .agent b tell =>
    match w.core.boxes.select b.id with
    | none => none
    | some b0 =>
      if drifts b0 b ∧ (tell → b.status = some .paused) then
        some { w with core := { w.core with
          boxes := setBox w.core.boxes b
          notices := if tell then .autoPaused b.id :: w.core.notices else w.core.notices } }
      else none
  | .vanish c tell =>
    if (w.core.boxes.select c).isSome ∧ (∀ n ∈ tell, n = .stopped c ∨ n = .error c) then
      some { w with core := { w.core with
        boxes := destroyBox w.core.boxes c, notices := tell.toList ++ w.core.notices } }
    else none
  | .post n =>
    match w.core.rows.select n.capsule with
    | none => none
    | some r =>
      if n ∈ w.core.notices then
        some { w with core := { w.core with events := translate n r.status :: w.core.events } }
      else none
  | .tick d => some { w with core := { w.core with now := w.core.now + d } }

/-- Nothing has happened yet; there are volumes. -/
structure Initial (w : World) : Prop where
  rows : w.core.rows = Table.empty
  boxes : w.core.boxes = Table.empty
  volumes : ∀ v ∈ w.core.volumes.rows, v.status = .detached ∧ v.sandbox = none
  events : w.core.events = []
  notices : w.core.notices = []
  nextID : w.core.nextID = 0
  accepted : w.core.accepted = []
  threads : w.threads = []

/-- Such a state. -/
def idle (volumes : Volumes) : World where
  core := ⟨0, Table.empty, volumes, Table.empty, [], [], 0, []⟩
  threads := []

theorem idle_initial {volumes : Volumes}
    (h : ∀ v ∈ volumes.rows, v.status = .detached ∧ v.sandbox = none) : Initial (idle volumes) :=
  ⟨rfl, rfl, h, rfl, rfl, rfl, rfl, rfl⟩

end Wrenn.ControlPlane.Model
