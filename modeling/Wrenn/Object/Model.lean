import Wrenn.Lib.Runs
import Wrenn.Sandbox.Startup

/-!
# One sandbox object

A `sandboxState` from the `Create`, snapshot-template launch or start-up restore that makes it to the
last call that still has a pointer to it, field by field.  Two locks are involved.  A section of `m.mu`
is one step.  `lifecycleMu` is held over a whole `Pause`, `Resume`, `CreateSnapshot`, `FlattenRootfs`,
`Destroy` or crash clean-up (`Section`), whose statements are steps of their own.  `Create`, a watcher
before it has removed the entry, and a punch goroutine hold neither.

Other sandboxes are the environment: they launch and destroy machines under the same ID and take the
entry of `m.boxes` away (`Act.foreignVM`, `Act.evict`).  Whether a call to a machine, to the kernel or
to the file system succeeds is the environment's choice as well.

A pointer field is recorded as set or nil.  Punch goroutines are numbered.  `launches`, `links`,
`swaps` and `joins` count what has happened, for the statements only.
-/

namespace Wrenn.Object.Model

open Sandbox.Startup (SandboxStatus)

structure Sandbox where
  status : SandboxStatus
  slot : Bool
  client : Bool
  dmDevice : Bool
  baseImagePath : String
  punchCancel : Option ℕ
  punchDone : Option ℕ
  deriving DecidableEq, Repr

/-- As `Create`, `createFromSnapshotTemplate` and the re-attach of a live machine register it. -/
def runningSandbox (base : String) : Sandbox := ⟨.running, true, true, true, base, none, none⟩

/-- As `RestorePausedSandboxes` registers it. -/
def pausedSandbox : Sandbox := ⟨.paused, false, false, false, "", none, none⟩

/-- The statements of `releaseRuntime`, `cleanup` and `cleanupAfterCrash` that matter here. -/
inductive Op
  | destroyVM
  /-- the `nil` test of `RemoveNetwork` -/
  | checkSlot
  | removeNetwork
  /-- the `nil` test of `sb.dmDevice` -/
  | checkDm
  | removeSnapshot
  | clearSlot
  | clearClient
  | clearDm
  | clearBase
  deriving DecidableEq, Repr

def teardownOps : List Op := [.destroyVM, .checkSlot, .checkDm]

def releaseOps : List Op := teardownOps ++ [.clearSlot, .clearClient, .clearDm, .clearBase]

inductive CowDisposition
  | keepCow
  | dropCow
  deriving DecidableEq, Repr

/-- The callers of `waitForPunch`. -/
inductive Joiner
  | resume
  | template
  | cleanup
  deriving DecidableEq, Repr

/-- The next statement of the body that holds `lifecycleMu`. -/
inductive Section
  /-- `Pause`: `ensureMemoryMaterialized` -/
  | materialize
  /-- `Pause`: status `Pausing`; `quiesceAndPauseCH` and `vm.Snapshot` -/
  | quiesce
  /-- `Pause`: the metadata, with `sb.dmDevice.CowPath` -/
  | writeMeta
  /-- `Pause`: `rollbackToRunning` -/
  | rollback
  | release (cow : CowDisposition) (ops : List Op)
  /-- `Pause`: the CoW is staged and `swapDir` called -/
  | swap
  | setPaused
  /-- `startAsyncPunch`: its section of `m.mu`, then the `go` statement -/
  | storeHandles
  | spawnPunch (p : ℕ)
  /-- `waitForPunch`: its section of `m.mu`, the call of `cancel`, the receive from `done` -/
  | takeHandles (j : Joiner)
  | cancelPunch (j : Joiner) (cancel done : Option ℕ)
  | awaitPunch (j : Joiner) (done : Option ℕ)
  /-- `Resume`: the metadata, then loop device, dm-snapshot and network -/
  | readMeta
  | attach (base : String)
  | launch (base : String)
  /-- `Resume`: launched, envd has not answered yet -/
  | launched (base : String)
  | watch
  | stateGet
  /-- `writeRunningState`: `sb.dmDevice.CowPath` -/
  | stateRead
  | initialise
  /-- `snapshotRunningToTemplate` and `FlattenRootfs`: up to the frozen machine -/
  | freeze
  /-- the same: `sb.dmDevice.DevicePath` -/
  | flatten
  | promote
  /-- `snapshotPausedToTemplate`: the metadata and the flattened CoW -/
  | flattenPaused
  /-- the same: `copyMemorySnapshotFiles` -/
  | link
  | promotePaused
  /-- `cleanup` behind its first statement, or `cleanupAfterCrash` -/
  | teardown (crash : Bool) (ops : List Op)
  /-- `os.RemoveAll` of the directory -/
  | removeDir (crash : Bool)
  deriving DecidableEq, Repr

/-- The calls that take `lifecycleMu`. -/
inductive Call
  | pause
  | resume
  | createSnapshot
  | flattenRootfs
  | destroy (statusAtEntry : SandboxStatus)
  | crash
  deriving DecidableEq, Repr

inductive Request
  | pause
  | resume
  | createSnapshot
  | flattenRootfs
  | destroy
  deriving DecidableEq, Repr

inductive Thread
  | called (q : Request)
  /-- a `Destroy` that waits for the `Create` in flight -/
  | awaiting
  /-- a `Destroy` that has found no entry and removes the pause directory all the same -/
  | removing
  /-- has the pointer and waits for `lifecycleMu` -/
  | waiting (c : Call)
  | inside
  /-- a crash watcher -/
  | watching
  | returned
  deriving DecidableEq, Repr

/-- How the object came to be. -/
inductive Origin
  | unmade
  /-- `Create` and `createFromSnapshotTemplate`, up to the loop device and the dm-snapshot -/
  | acquiring
  | attached (base : String)
  | launched (base : String)
  /-- in `m.boxes`; the crash watcher comes next -/
  | registered
  /-- `writeRunningState` comes next: it looks the machine up, then reads `sb.dmDevice` -/
  | watched
  | reading
  | closing
  /-- re-attached at start-up, without a crash watcher yet -/
  | reattached
  | made
  deriving DecidableEq, Repr

/-- The handle of the `Create` is in `m.creates`. -/
def Origin.inFlight : Origin → Bool
  | .unmade | .reattached | .made => false
  | _ => true

/-- In `m.boxes`, and its `Create` has not come back from `writeRunningState`. -/
def Origin.publishing : Origin → Bool
  | .registered | .watched | .reading => true
  | _ => false

structure Punches where
  /-- how many have been given handles; they are numbered from 0 -/
  started : ℕ
  running : ℕ → Bool
  closed : ℕ → Bool
  cancelled : ℕ → Bool
  joins : ℕ → ℕ

structure World where
  sb : Sandbox
  origin : Origin
  /-- the entry of `m.boxes` under its ID is this object -/
  registered : Bool
  /-- a machine is registered under its ID -/
  vm : Bool
  /-- there is a dm-snapshot over the base image -/
  attached : Bool
  /-- there is a readable pause directory -/
  snapshot : Bool
  holder : Option (ℕ × Section)
  threads : ℕ → Option Thread
  punches : Punches
  launches : ℕ
  links : ℕ
  swaps : ℕ
  /-- a nil `slot` or `dmDevice` has been dereferenced -/
  nilDeref : Bool

/-- The choices of the environment for one step: whether what is attempted succeeds, the base image
of the template or of the metadata, the number of a new goroutine. -/
structure Choice where
  ok : Bool
  base : String
  tid : ℕ

/-! ### Effects outside the object -/

inductive Effect
  | nothing
  | nilDeref
  | destroyVM
  | attach
  | detach
  /-- a machine is launched from the pause directory; after a failure the dm-snapshot is removed -/
  | launch (ok : Bool)
  /-- the launched machine is destroyed and the dm-snapshot removed -/
  | abort
  | link
  | swap (ok : Bool)
  | removeDir (ok : Bool)
  /-- `startAsyncPunch` makes the handles of a new goroutine -/
  | handles
  | spawn (p : ℕ)
  | cancel (p : Option ℕ)
  | join (p : ℕ)
  /-- a crash watcher is started -/
  | watch (t : ℕ)
  deriving DecidableEq, Repr

def Punches.apply (q : Punches) : Effect → Punches
  | .handles => { q with started := q.started + 1 }
  | .spawn p => { q with running := Function.update q.running p true }
  | .cancel (some p) => { q with cancelled := Function.update q.cancelled p true }
  | .join p => { q with joins := Function.update q.joins p (q.joins p + 1) }
  | _ => q

def World.apply (w : World) (e : Effect) : World :=
  { w with
    punches := w.punches.apply e
    vm :=
      match e with
      | .destroyVM | .abort => false
      | .launch ok => w.vm || ok
      | _ => w.vm
    attached :=
      match e with
      | .attach => true
      | .detach | .abort => false
      | .launch ok => w.attached && ok
      | _ => w.attached
    snapshot :=
      match e with
      | .swap ok => w.snapshot || ok
      | .removeDir ok => w.snapshot && !ok
      | _ => w.snapshot
    threads :=
      match e with
      | .watch t => Function.update w.threads t (some .watching)
      | _ => w.threads
    launches :=
      match e with
      | .launch _ => w.launches + 1
      | _ => w.launches
    links := if e = .link then w.links + 1 else w.links
    swaps :=
      match e with
      | .swap _ => w.swaps + 1
      | _ => w.swaps
    nilDeref := w.nilDeref || decide (e = .nilDeref) }

/-- `startCrashWatcher`, if a machine is registered. -/
def startCrashWatcher (w : World) (t : ℕ) : Option Effect :=
  if w.vm then
    if (w.threads t).isNone then some (.watch t) else none
  else some .nothing

/-! ### Bodies under `lifecycleMu` -/

def Op.onSandbox (sb : Sandbox) : Op → Sandbox
  | .clearSlot => { sb with slot := false }
  | .clearClient => { sb with client := false }
  | .clearDm => { sb with dmDevice := false }
  | .clearBase => { sb with baseImagePath := "" }
  | _ => sb

theorem onSandbox_status (sb : Sandbox) (op : Op) : (op.onSandbox sb).status = sb.status := by
  cases op <;> rfl

def Op.effect (sb : Sandbox) : Op → Effect
  | .destroyVM => .destroyVM
  | .removeNetwork => if sb.slot then .nothing else .nilDeref
  | .removeSnapshot => if sb.dmDevice then .detach else .nilDeref
  | _ => .nothing

theorem Op.effect_cases (op : Op) (sb : Sandbox) : op.effect sb = .nothing ∨ op.effect sb = .nilDeref ∨
    op.effect sb = .destroyVM ∨ op.effect sb = .detach := by
  cases op with
  | removeNetwork | removeSnapshot =>
    simp only [Op.effect]
    split_ifs <;> simp
  | _ => simp [Op.effect]

/-- What a `nil` test lets through. -/
def Op.guarded (sb : Sandbox) : Op → List Op
  | .checkSlot => if sb.slot then [.removeNetwork] else []
  | .checkDm => if sb.dmDevice then [.removeSnapshot] else []
  | _ => []

/-- What follows `waitForPunch`. -/
def Joiner.after : Joiner → Section
  | .resume => .readMeta
  | .template => .flattenPaused
  | .cleanup => .teardown false teardownOps

/-- `resumeFromMeta` re-hydrates the sandbox. -/
def rehydrate (sb : Sandbox) (base : String) : Sandbox :=
  { sb with status := .running, slot := true, client := true, dmDevice := true, baseImagePath := base }

/-- One statement: the object after it, the statement that follows (none: the mutex is given up and
the call returns) and the effect. -/
structure Outcome where
  sb : Sandbox
  next : Option Section
  effect : Effect

/-- `sb.dmDevice` is dereferenced. -/
def useDm (sb : Sandbox) (next : Section) : Outcome :=
  if sb.dmDevice then ⟨sb, some next, .nothing⟩ else ⟨sb, none, .nilDeref⟩

def body (w : World) (ch : Choice) : Section → Option Outcome
  | .materialize =>
    if ch.ok then some ⟨{ w.sb with status := .pausing }, some .quiesce, .nothing⟩
    else some ⟨w.sb, none, .nothing⟩
  | .quiesce =>
    -- every call to a machine that is not registered fails
    some ⟨w.sb, some (if ch.ok ∧ w.vm then .writeMeta else .rollback), .nothing⟩
  | .writeMeta => some (useDm w.sb (if ch.ok then .release .keepCow releaseOps else .rollback))
  | .rollback =>
    if ch.ok ∧ w.vm then some ⟨{ w.sb with status := .running }, none, .nothing⟩
    else some ⟨{ w.sb with status := .error }, some (.release .dropCow releaseOps), .nothing⟩
  | .release cow (op :: ops) =>
    some ⟨op.onSandbox w.sb, some (.release cow (op.guarded w.sb ++ ops)), op.effect w.sb⟩
  | .release .keepCow [] => some ⟨w.sb, some .swap, .nothing⟩
  | .release .dropCow [] => some ⟨w.sb, none, .removeDir ch.ok⟩
  | .swap =>
    -- an attempt that fails may have moved directories, too
    if ch.ok then some ⟨w.sb, some .setPaused, .swap true⟩
    else some ⟨{ w.sb with status := .error }, none, .swap false⟩
  | .setPaused => some ⟨{ w.sb with status := .paused }, some .storeHandles, .nothing⟩
  | .storeHandles =>
    let p := w.punches.started
    some ⟨{ w.sb with punchCancel := some p, punchDone := some p }, some (.spawnPunch p), .handles⟩
  | .spawnPunch p => some ⟨w.sb, none, .spawn p⟩
  | .takeHandles j =>
    some ⟨{ w.sb with punchCancel := none, punchDone := none },
      some (.cancelPunch j w.sb.punchCancel w.sb.punchDone), .nothing⟩
  | .cancelPunch j c d => some ⟨w.sb, some (.awaitPunch j d), .cancel c⟩
  | .awaitPunch j none => some ⟨w.sb, some j.after, .nothing⟩
  | .awaitPunch j (some p) =>
    if w.punches.closed p then some ⟨w.sb, some j.after, .join p⟩ else none
  | .readMeta =>
    if ch.ok ∧ w.snapshot then some ⟨w.sb, some (.attach ch.base), .nothing⟩
    else some ⟨w.sb, none, .nothing⟩
  | .attach base =>
    -- no loop device can be set up for an empty path
    if ch.ok ∧ base ≠ "" then some ⟨w.sb, some (.launch base), .attach⟩
    else some ⟨{ w.sb with status := .paused }, none, .nothing⟩
  | .launch base =>
    if ch.ok then some ⟨w.sb, some (.launched base), .launch true⟩
    else some ⟨{ w.sb with status := .paused }, none, .launch false⟩
  | .launched base =>
    if ch.ok then some ⟨rehydrate w.sb base, some .watch, .nothing⟩
    else some ⟨{ w.sb with status := .paused }, none, .abort⟩
  | .watch => (startCrashWatcher w ch.tid).map fun e => ⟨w.sb, some .stateGet, e⟩
  | .stateGet => some ⟨w.sb, some (if w.vm then .stateRead else .initialise), .nothing⟩
  | .stateRead => some (useDm w.sb .initialise)
  | .initialise => some ⟨w.sb, none, .nothing⟩
  | .freeze => some ⟨w.sb, if ch.ok ∧ w.vm then some .flatten else none, .nothing⟩
  | .flatten => some (useDm w.sb .promote)
  | .promote => some ⟨w.sb, none, .nothing⟩
  | .flattenPaused => some ⟨w.sb, if ch.ok ∧ w.snapshot then some .link else none, .nothing⟩
  | .link => some ⟨w.sb, some .promotePaused, .link⟩
  | .promotePaused => some ⟨w.sb, none, .nothing⟩
  | .teardown c (op :: ops) =>
    some ⟨op.onSandbox w.sb, some (.teardown c (op.guarded w.sb ++ ops)), op.effect w.sb⟩
  | .teardown c [] => some ⟨w.sb, some (.removeDir c), .nothing⟩
  | .removeDir _ => some ⟨w.sb, none, .removeDir ch.ok⟩

/-! ### Calls up to `lifecycleMu` -/

inductive Admission
  | refuse
  | go (s : Section)
  /-- the racing-pause guard of `Destroy` -/
  | reinsert
  deriving DecidableEq, Repr

def Call.admission (st : SandboxStatus) : Call → Admission
  | .pause => if st = .running then .go .materialize else .refuse
  | .resume => if st = .paused then .go (.takeHandles .resume) else .refuse
  | .createSnapshot =>
    if st = .running then .go .freeze
    else if st = .paused then .go (.takeHandles .template) else .refuse
  | .flattenRootfs => if st = .running then .go .freeze else .refuse
  | .destroy statusAtEntry =>
    if statusAtEntry ≠ .paused ∧ st = .paused then .reinsert else .go (.takeHandles .cleanup)
  | .crash => .go (.teardown true teardownOps)

def World.setThread (w : World) (t : ℕ) (c : Thread) : World :=
  { w with threads := Function.update w.threads t (some c) }

/-- The thread `t` takes the mutex if it is free.  A snapshot may be refused for its volumes or its
destination. -/
def enter (w : World) (t : ℕ) (c : Call) (ok : Bool) : Option World :=
  match w.holder with
  | some _ => none
  | none =>
    match c.admission w.sb.status with
    | .refuse => some (w.setThread t .returned)
    | .reinsert => some ({ w with registered := true }.setThread t .returned)
    | .go s =>
      if ok = false ∧ (c = .createSnapshot ∨ c = .flattenRootfs) then some (w.setThread t .returned)
      else some ({ w with holder := some (t, s) }.setThread t .inside)

/-- `m.get`. -/
def lookup (w : World) (t : ℕ) (c : Call) : World :=
  w.setThread t (if w.registered then .waiting c else .returned)

/-- `Destroy` removes the entry, whatever the status. -/
def removeBox (w : World) (t : ℕ) : World :=
  if w.registered then { w with registered := false }.setThread t (.waiting (.destroy w.sb.status))
  else w.setThread t .removing

/-- A watcher has been told that its machine exited.  It looks at whatever `m.boxes` holds under the
ID, perhaps another sandbox (`other`), and at the status of its own object. -/
def watcherCheck (w : World) (t : ℕ) (other : Bool) : World :=
  if (w.registered ∨ other) ∧ w.sb.status ≠ .pausing ∧ w.sb.status ≠ .paused then
    { w with registered := false }.setThread t (.waiting .crash)
  else w.setThread t .returned

def advance (w : World) (t : ℕ) (ok : Bool) : Thread → Option World
  | .called .pause => some (lookup w t .pause)
  | .called .resume => some (lookup w t .resume)
  | .called .createSnapshot => some (lookup w t .createSnapshot)
  | .called .flattenRootfs => some (lookup w t .flattenRootfs)
  | .called .destroy =>
    some (if w.origin.inFlight then w.setThread t .awaiting else removeBox w t)
  | .awaiting => if w.origin.inFlight then none else some (removeBox w t)
  | .removing => some ({ w with snapshot := w.snapshot && !ok }.setThread t .returned)
  | .waiting c => enter w t c ok
  | .watching => some (watcherCheck w t ok)
  | .inside => none
  | .returned => none

/-! ### Steps -/

/-- The next step of the `Create`, or of the re-attach, that makes the object. -/
def create (w : World) (ch : Choice) : Option World :=
  match w.origin with
  | .unmade => none
  | .acquiring =>
    if ch.ok ∧ ch.base ≠ "" then some { w with attached := true, origin := .attached ch.base }
    else some { w with origin := .closing }
  | .attached base =>
    if ch.ok then some { w with vm := true, origin := .launched base }
    else some { w with attached := false, origin := .closing }
  | .launched base =>
    if ch.ok then some { w with sb := runningSandbox base, registered := true, origin := .registered }
    else some { w with vm := false, attached := false, origin := .closing }
  | .registered => (startCrashWatcher w ch.tid).map fun e => { w.apply e with origin := .watched }
  | .watched => some { w with origin := if w.vm then .reading else .closing }
  | .reading =>
    if w.sb.dmDevice then some { w with origin := .closing } else some (w.apply .nilDeref)
  | .closing => some { w with origin := .made }
  | .reattached => (startCrashWatcher w ch.tid).map fun e => { w.apply e with origin := .made }
  | .made => none

inductive Make
  | create
  | reattach (base : String)
  | restorePaused
  deriving DecidableEq, Repr

def make (w : World) : Make → Option World
  | .create => some { w with origin := .acquiring }
  | .reattach base =>
    if base ≠ "" then
      some { w with
        sb := runningSandbox base
        registered := true
        vm := true
        attached := true
        origin := .reattached }
    else none
  | .restorePaused =>
    some { w with sb := pausedSandbox, registered := true, snapshot := true, origin := .made }

/-- The outcome of a statement of the body that the thread `t` executes. -/
def World.commit (w : World) (t : ℕ) (o : Outcome) : World :=
  let w' := { w.apply o.effect with sb := o.sb, holder := o.next.map fun s => (t, s) }
  match o.next with
  | none => w'.setThread t .returned
  | some _ => w'

inductive Act
  | make (m : Make)
  | create (ch : Choice)
  | call (t : ℕ) (q : Request)
  | act (t : ℕ) (ok : Bool)
  | body (ch : Choice)
  /-- a punch goroutine ends and closes `done` -/
  | punched (p : ℕ)
  /-- a machine of another sandbox appears or disappears under the ID -/
  | foreignVM (b : Bool)
  /-- the entry of `m.boxes` is removed or overwritten on behalf of another sandbox -/
  | evict

def move (w : World) : Act → Option World
  | .make m => if w.origin = .unmade then make w m else none
  | .create ch => create w ch
  | .call t q => if (w.threads t).isNone then some (w.setThread t (.called q)) else none
  | .act t ok =>
    match w.threads t with
    | none => none
    | some c => advance w t ok c
  | .body ch =>
    match w.holder with
    | none => none
    | some (t, s) => (body w ch s).map (w.commit t)
  | .punched p =>
    if w.punches.running p then
      some { w with punches := { w.punches with
        running := Function.update w.punches.running p false
        closed := Function.update w.punches.closed p true } }
    else none
  | .foreignVM b => some { w with vm := b }
  | .evict => some { w with registered := false }

/-- A nil dereference ends the agent. -/
def step (w : World) (a : Act) : Option World := if w.nilDeref then none else move w a

/-- Before the object is made. -/
def start : World where
  sb := ⟨.pending, false, false, false, "", none, none⟩
  origin := .unmade
  registered := false
  vm := false
  attached := false
  snapshot := false
  holder := none
  threads := fun _ => none
  punches := ⟨0, fun _ => false, fun _ => false, fun _ => false, fun _ => 0⟩
  launches := 0
  links := 0
  swaps := 0
  nilDeref := false

/-! ### Before the object is published -/

def Origin.hidden : Origin → Bool
  | .unmade | .acquiring | .attached _ | .launched _ => true
  | _ => false

/-- Nobody has a pointer to the object. -/
structure Hidden (w : World) : Prop where
  sb : w.sb = start.sb
  registered : w.registered = false
  holder : w.holder = none
  punches : w.punches = start.punches
  waiting : ∀ t c, w.threads t ≠ some (.waiting c)
  watching : ∀ t, w.threads t ≠ some .watching

variable {w w' : World}

theorem setThread_self (w : World) (t : ℕ) (c : Thread) : (w.setThread t c).threads t = some c :=
  Function.update_self ..

variable {t : ℕ} {c : Thread} {ok : Bool} {a : Act}

theorem setThread_of_ne {t' : ℕ} (h : t' ≠ t) (c : Thread) :
    (w.setThread t c).threads t' = w.threads t' := Function.update_of_ne h ..

/-! ### What a step can do -/

/-- The steps of `Create` and of the re-attach. -/
inductive Creates (w : World) (ch : Choice) : World → Prop
  | attach (ho : w.origin = .acquiring) (hb : ch.base ≠ "") :
    Creates w ch { w with attached := true, origin := .attached ch.base }
  | launch {b : String} (ho : w.origin = .attached b) :
    Creates w ch { w with vm := true, origin := .launched b }
  | publish {b : String} (ho : w.origin = .launched b) :
    Creates w ch { w with sb := runningSandbox b, registered := true, origin := .registered }
  /-- `Create` gives up; what it has acquired is released -/
  | fail {v a : Bool} (ho : w.origin.hidden = true)
    (hv : v = false ∨ v = w.vm ∧ (w.origin = .acquiring ∨ ∃ b, w.origin = .attached b))
    (ha : a = false ∨ a = w.attached ∧ w.origin = .acquiring) :
    Creates w ch { w with vm := v, attached := a, origin := .closing }
  | watch {e : Effect} {o : Origin} (ho : w.origin.hidden = false) (ho' : o.hidden = false)
    (hp : o.publishing = true → w.origin.publishing = true) (he : startCrashWatcher w ch.tid = some e) :
    Creates w ch { w.apply e with origin := o }
  | read {o : Origin} (ho : w.origin.hidden = false) (ho' : o.hidden = false)
    (hp : o.publishing = true → w.origin.publishing = true) : Creates w ch { w with origin := o }
  | nilDeref (ho : w.origin = .reading) (hd : w.sb.dmDevice = false) : Creates w ch (w.apply .nilDeref)

theorem creates_of_create {ch : Choice} (h : create w ch = some w') : Creates w ch w' := by
  unfold create at h
  split at h <;> rename_i ho
  · cases h
  · split_ifs at h with hb <;> cases h
    · exact .attach ho hb.2
    · exact .fail (by rw [ho]; rfl) (.inr ⟨rfl, .inl ho⟩) (.inr ⟨rfl, ho⟩)
  · split_ifs at h <;> cases h
    · exact .launch ho
    · exact .fail (by rw [ho]; rfl) (.inr ⟨rfl, .inr ⟨_, ho⟩⟩) (.inl rfl)
  · split_ifs at h <;> cases h
    · exact .publish ho
    · exact .fail (by rw [ho]; rfl) (.inl rfl) (.inl rfl)
  · obtain ⟨e, he, rfl⟩ := Option.map_eq_some_iff.mp h
    exact .watch (by rw [ho]; rfl) rfl (fun _ => by rw [ho]; rfl) he
  · cases h
    exact .read (by rw [ho]; rfl) (by split_ifs <;> rfl) (fun _ => by rw [ho]; rfl)
  · split_ifs at h with hd <;> cases h
    · exact .read (by rw [ho]; rfl) rfl nofun
    · exact .nilDeref ho (Bool.eq_false_iff.mpr hd)
  · cases h
    exact .read (by rw [ho]; rfl) rfl nofun
  · obtain ⟨e, he, rfl⟩ := Option.map_eq_some_iff.mp h
    exact .watch (by rw [ho]; rfl) rfl nofun he
  · cases h

/-- The steps of a call up to the mutex. -/
inductive Advances (w : World) (t : ℕ) (ok : Bool) : Thread → World → Prop
  | lookup {q : Request} (c : Call) : Advances w t ok (.called q) (lookup w t c)
  | await {q : Request} : Advances w t ok (.called q) (w.setThread t .awaiting)
  | removeBox {c : Thread} (hc : c = .called .destroy ∨ c = .awaiting) : Advances w t ok c (removeBox w t)
  | removing : Advances w t ok .removing ({ w with snapshot := w.snapshot && !ok }.setThread t .returned)
  | enter {c : Call} {w' : World} (h : enter w t c ok = some w') : Advances w t ok (.waiting c) w'
  | watching : Advances w t ok .watching (watcherCheck w t ok)

theorem advances_of_advance (h : advance w t ok c = some w') : Advances w t ok c w' := by
  unfold advance at h
  repeat' split at h
  case h_8 => exact .enter h
  all_goals cases h
  all_goals first
    | exact .lookup _ | exact .await | exact .removeBox (.inl rfl) | exact .removeBox (.inr rfl)
    | exact .removing | exact .watching

inductive Moves (w : World) : Act → World → Prop
  | make {m : Make} {w' : World} (ho : w.origin = .unmade) (h : make w m = some w') : Moves w (.make m) w'
  | create {ch : Choice} {w' : World} (h : Creates w ch w') : Moves w (.create ch) w'
  | call {t : ℕ} {q : Request} (h : w.threads t = none) : Moves w (.call t q) (w.setThread t (.called q))
  | act {t : ℕ} {ok : Bool} {c : Thread} {w' : World} (hc : w.threads t = some c)
    (h : Advances w t ok c w') : Moves w (.act t ok) w'
  | body {ch : Choice} {t : ℕ} {s : Section} {o : Outcome} (hh : w.holder = some (t, s))
    (h : body w ch s = some o) : Moves w (.body ch) (w.commit t o)
  | punched {p : ℕ} (h : w.punches.running p = true) :
    Moves w (.punched p) { w with punches := { w.punches with
      running := Function.update w.punches.running p false
      closed := Function.update w.punches.closed p true } }
  | foreignVM {b : Bool} : Moves w (.foreignVM b) { w with vm := b }
  | evict : Moves w .evict { w with registered := false }

theorem moves_of_step (h : step w a = some w') : Moves w a w' := by
  unfold step at h
  split_ifs at h
  unfold move at h
  split at h
  · exact .make (Option.ite_none_right_eq_some.mp h).1 (Option.ite_none_right_eq_some.mp h).2
  · exact .create (creates_of_create h)
  · split_ifs at h with hn
    cases h
    exact .call (Option.isNone_iff_eq_none.mp hn)
  · split at h
    · cases h
    · rename_i c hc
      exact .act hc (advances_of_advance h)
  · split at h
    · cases h
    · rename_i hho
      obtain ⟨o, ho, rfl⟩ := Option.map_eq_some_iff.mp h
      exact .body hho ho
  · split_ifs at h with hp
    cases h
    exact .punched hp
  · cases h
    exact .foreignVM
  · cases h
    exact .evict

/-- The calls that get past their status test, and where they start. -/
inductive Admitted (st : SandboxStatus) : Call → Section → Prop
  | pause (h : st = .running) : Admitted st .pause .materialize
  | freeze {c : Call} (hc : c = .createSnapshot ∨ c = .flattenRootfs) (h : st = .running) : Admitted st c .freeze
  | join {c : Call} {j : Joiner} (hc : c = .resume ∨ c = .createSnapshot) (hj : j ≠ .cleanup)
    (h : st = .paused) : Admitted st c (.takeHandles j)
  | destroy {st₀ : SandboxStatus} : Admitted st (.destroy st₀) (.takeHandles .cleanup)
  | crash : Admitted st .crash (.teardown true teardownOps)

theorem admitted_of_go {st : SandboxStatus} {c : Call} {s : Section} (h : c.admission st = .go s) :
    Admitted st c s := by
  cases c with
  | crash =>
    cases h
    exact .crash
  | _ =>
    simp only [Call.admission] at h
    split_ifs at h <;> cases h
    all_goals first
      | exact .pause ‹_› | exact .destroy | exact .freeze (.inl rfl) ‹_› | exact .freeze (.inr rfl) ‹_›
      | exact .join (.inl rfl) nofun ‹_› | exact .join (.inr rfl) nofun ‹_›

/-- A thread without a pointer goes on without one. -/
theorem Hidden.setThread (h : Hidden w) (hw : ∀ c', c ≠ .waiting c')
    (hv : c ≠ .watching) : Hidden (w.setThread t c) := by
  have hcases : ∀ t' c', (w.setThread t c).threads t' = some c' → c' = c ∨ w.threads t' = some c' := by
    intro t' c' h'
    by_cases ht : t' = t
    · rw [ht, setThread_self] at h'
      exact .inl (Option.some.inj h').symm
    · rw [setThread_of_ne ht] at h'
      exact .inr h'
  refine ⟨h.sb, h.registered, h.holder, h.punches, fun t' c' h' => ?_, fun t' h' => ?_⟩
  · rcases hcases t' _ h' with he | he
    · exact hw c' he.symm
    · exact h.waiting t' c' he
  · rcases hcases t' _ h' with he | he
    · exact hv he.symm
    · exact h.watching t' he

theorem Hidden.removeBox (h : Hidden w) (t : ℕ) : Hidden (removeBox w t) := by
  unfold Model.removeBox
  rw [if_neg (by rw [h.registered]; decide)]
  exact h.setThread (fun _ => nofun) nofun

theorem Hidden.advance (h : Hidden w) (hc : w.threads t = some c)
    (hs : Advances w t ok c w') : Hidden w' := by
  cases hs with
  | lookup c =>
    unfold lookup
    rw [if_neg (by rw [h.registered]; decide)]
    exact h.setThread (fun _ => nofun) nofun
  | await => exact h.setThread (fun _ => nofun) nofun
  | removeBox => exact h.removeBox t
  | removing =>
    have hw : Hidden { w with snapshot := w.snapshot && !ok } :=
      ⟨h.sb, h.registered, h.holder, h.punches, h.waiting, h.watching⟩
    exact hw.setThread (fun _ => nofun) nofun
  | enter => exact absurd hc (h.waiting t _)
  | watching => exact absurd hc (h.watching t)

/-! ### What one step does to the object -/

/-- Neither the object nor its mutex nor a goroutine has changed. -/
structure Same (w w' : World) : Prop where
  sb : w'.sb = w.sb
  origin : w'.origin = w.origin
  holder : w'.holder = w.holder
  punches : w'.punches = w.punches
  launches : w'.launches = w.launches
  links : w'.links = w.links
  swaps : w'.swaps = w.swaps
  nilDeref : w'.nilDeref = w.nilDeref

theorem same_rfl (w : World) : Same w w := ⟨rfl, rfl, rfl, rfl, rfl, rfl, rfl, rfl⟩

theorem Same.setThread (h : Same w w') (t : ℕ) (c : Thread) : Same w (w'.setThread t c) :=
  ⟨h.sb, h.origin, h.holder, h.punches, h.launches, h.links, h.swaps, h.nilDeref⟩

theorem Same.register (h : Same w w') (b : Bool) : Same w { w' with registered := b } :=
  ⟨h.sb, h.origin, h.holder, h.punches, h.launches, h.links, h.swaps, h.nilDeref⟩

theorem same_removeBox (w : World) (t : ℕ) : Same w (removeBox w t) := by
  unfold removeBox
  split_ifs
  · exact ((same_rfl w).register false).setThread t _
  · exact (same_rfl w).setThread t _

theorem same_watcherCheck (w : World) (t : ℕ) (other : Bool) : Same w (watcherCheck w t other) := by
  unfold watcherCheck
  split_ifs
  · exact ((same_rfl w).register false).setThread t _
  · exact (same_rfl w).setThread t _

/-- The thread `t` has got the mutex for the call `c` and stands at `s`. -/
structure Entered (w : World) (t : ℕ) (c : Call) (s : Section) (w' : World) : Prop where
  waiting : w.threads t = some (.waiting c)
  free : w.holder = none
  admission : c.admission w.sb.status = .go s
  eq : w' = { w with holder := some (t, s) }.setThread t .inside

/-- The steps, seen from the object. -/
inductive Change (w : World) : Act → World → Prop
  | same {a : Act} {w' : World} (h : Same w w') : Change w a w'
  | make {m : Make} {w' : World} (ho : w.origin = .unmade) (h : make w m = some w') :
    Change w (.make m) w'
  | create {ch : Choice} {w' : World} (h : Creates w ch w') : Change w (.create ch) w'
  | enter {t : ℕ} {ok : Bool} {c : Call} {s : Section} {w' : World} (h : Entered w t c s w') :
    Change w (.act t ok) w'
  | body {ch : Choice} {t : ℕ} {s : Section} {o : Outcome} (hh : w.holder = some (t, s))
    (h : body w ch s = some o) : Change w (.body ch) (w.commit t o)
  | punched {p : ℕ} (h : w.punches.running p = true) :
    Change w (.punched p) { w with punches := { w.punches with
      running := Function.update w.punches.running p false
      closed := Function.update w.punches.closed p true } }

theorem enter_change {c : Call} (hc : w.threads t = some (.waiting c))
    (h : enter w t c ok = some w') : Change w (.act t ok) w' := by
  unfold enter at h
  split at h
  · cases h
  · rename_i hho
    split at h
    · exact Option.some.inj h ▸ .same ((same_rfl w).setThread t _)
    · exact Option.some.inj h ▸ .same (((same_rfl w).register true).setThread t _)
    · rename_i s hadm
      split_ifs at h
      · exact Option.some.inj h ▸ .same ((same_rfl w).setThread t _)
      · exact .enter ⟨hc, hho, hadm, (Option.some.inj h).symm⟩

theorem advance_change (hc : w.threads t = some c)
    (h : Advances w t ok c w') : Change w (.act t ok) w' := by
  cases h with
  | lookup | await => exact .same ((same_rfl w).setThread t _)
  | removeBox => exact .same (same_removeBox w t)
  | removing => exact .same ⟨rfl, rfl, rfl, rfl, rfl, rfl, rfl, rfl⟩
  | enter h => exact enter_change hc h
  | watching => exact .same (same_watcherCheck w t ok)

theorem step_change (h : step w a = some w') : Change w a w' := by
  cases moves_of_step h with
  | make ho hm => exact .make ho hm
  | create hc => exact .create hc
  | call => exact .same ((same_rfl w).setThread _ _)
  | act hc ha => exact advance_change hc ha
  | body hho ho => exact .body hho ho
  | punched hp => exact .punched hp
  | foreignVM => exact .same ⟨rfl, rfl, rfl, rfl, rfl, rfl, rfl, rfl⟩
  | evict => exact .same ((same_rfl w).register false)

theorem commit_origin (w : World) (t : ℕ) (o : Outcome) : (w.commit t o).origin = w.origin := by
  unfold World.commit
  split <;> rfl

theorem commit_holder (w : World) (t : ℕ) (o : Outcome) :
    (w.commit t o).holder.map Prod.snd = o.next := by
  unfold World.commit
  split <;> rename_i hn <;> simp [World.setThread, hn]

theorem commit_sb (w : World) (t : ℕ) (o : Outcome) : (w.commit t o).sb = o.sb := by
  unfold World.commit
  split <;> rfl

theorem commit_punches (w : World) (t : ℕ) (o : Outcome) :
    (w.commit t o).punches = w.punches.apply o.effect := by
  unfold World.commit
  split <;> rfl

theorem create_hidden {ch : Choice} (hi : w.origin.hidden = true → Hidden w)
    (h : Creates w ch w') (hw' : w'.origin.hidden = true) : Hidden w' := by
  cases h with
  | attach ho | launch ho =>
    have hh := hi (by rw [ho]; rfl)
    exact ⟨hh.sb, hh.registered, hh.holder, hh.punches, hh.waiting, hh.watching⟩
  | publish | fail => cases hw'
  | watch _ ho' | read _ ho' => exact absurd (ho'.symm.trans hw') nofun
  | nilDeref ho =>
    change w.origin.hidden = true at hw'
    rw [ho] at hw'
    cases hw'

theorem advance_origin (hc : w.threads t = some c)
    (h : Advances w t ok c w') : w'.origin = w.origin := by
  cases advance_change hc h with
  | same hs => exact hs.origin
  | enter he =>
    rw [he.eq]
    rfl

theorem step_hidden (hi : w.origin.hidden = true → Hidden w) (h : step w a = some w')
    (hw' : w'.origin.hidden = true) : Hidden w' := by
  cases moves_of_step h with
  | @make m _ ho hm =>
    obtain ⟨h1, h2, h3, h4, h5, h6⟩ := hi (by rw [ho]; rfl)
    cases m with
    | create =>
      cases hm
      exact ⟨h1, h2, h3, h4, h5, h6⟩
    | reattach base =>
      cases (Option.ite_none_right_eq_some.mp hm).2
      cases hw'
    | restorePaused =>
      cases hm
      cases hw'
  | create hc => exact create_hidden hi hc hw'
  | call => exact (hi hw').setThread (fun _ => nofun) nofun
  | act hc ha => exact (hi (advance_origin hc ha ▸ hw')).advance hc ha
  | body hho ho =>
    rw [commit_origin] at hw'
    exact absurd (hho.symm.trans (hi hw').holder) nofun
  | punched hp =>
    rw [(hi hw').punches] at hp
    cases hp
  | foreignVM =>
    obtain ⟨h1, h2, h3, h4, h5, h6⟩ := hi hw'
    exact ⟨h1, h2, h3, h4, h5, h6⟩
  | evict =>
    obtain ⟨h1, -, h3, h4, h5, h6⟩ := hi hw'
    exact ⟨h1, rfl, h3, h4, h5, h6⟩

theorem start_hidden : Hidden start :=
  ⟨rfl, rfl, rfl, rfl, fun _ _ => nofun, fun _ => nofun⟩

end Wrenn.Object.Model
