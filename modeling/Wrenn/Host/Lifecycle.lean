import Wrenn.Sandbox.PauseDisk

/-!
# A host over its whole life

The agent, its sandboxes, the sandboxes directory and the base images, over any sequence of creates, guest
writes, pauses, resumes, VM deaths, stops and start-ups.  Every lifecycle operation holds its sandbox's
`lifecycleMu`; `ops` records which operation does, and how far it has come, so that the agent may stop between
any two of its effects.

What a guest wrote is counted twice for the sake of the statements: a CoW knows how many writes have reached
it, a memory image how many had when it was captured, and the logical disk the guest saw then.
-/

namespace Wrenn.Host.Lifecycle

open Network.Slots (ClaimFiles Slot newSlot)
open Sandbox.Disk Sandbox.Startup Sandbox.PauseDisk

variable {β : Type*}

/-- A base image: its blocks, up to its size. -/
structure Image (β : Type*) where
  size : ℕ
  block : ℕ → β

/-- A CoW file: the chunks written so far, and how many writes have reached it. -/
structure Cow (β : Type*) where
  chunks : ℕ → Option β
  writes : ℕ

/-- A memory image, with the CoW's writes and the logical disk at the time it was captured. -/
structure Mem (β : Type*) where
  writes : ℕ
  disk : ℕ → Option β

/-- A new, empty CoW. -/
def Cow.fresh : Cow β := ⟨fun _ => none, 0⟩

def Cow.write (c : Cow β) (i : ℕ) (v : β) : Cow β :=
  ⟨Function.update c.chunks i (some v), c.writes + 1⟩

/-- dm-snapshot: a chunk absent from the CoW is read from the origin; there is no disk without one. -/
def logicalDisk (origin : Option (Image β)) (c : Cow β) (i : ℕ) : Option β :=
  match origin with
  | none => none
  | some img => if i < img.size then some ((c.chunks i).getD (img.block i)) else none

/-- What `vm.snapshot` captures of a guest whose disk is `c` over `origin`. -/
def capture (origin : Option (Image β)) (c : Cow β) : Mem β := ⟨c.writes, logicalDisk origin c⟩

/-- How far a `Pause` has come. -/
inductive PausePhase
  /-- status `Pausing`, the guest still runs -/
  | quiescing
  /-- the guest is frozen, memory image and metadata are in the staging directory -/
  | staged (ts : ℕ)
  /-- `releaseRuntime` has returned -/
  | released (ts : ℕ)
  | cowMoved (ts : ℕ)
  /-- the old directory is in the trash -/
  | trashed (ts ts' : ℕ)
  /-- the staging directory carries the final name -/
  | swapped (ts' : ℕ)
  deriving DecidableEq, Repr

/-- The operation that holds a sandbox's `lifecycleMu`. -/
inductive Op
  | pausing (phase : PausePhase)
  /-- the VM has been relaunched from the pause generation, the status is still `Paused` -/
  | resuming
  deriving DecidableEq, Repr

structure World (β : Type*) where
  /-- the agent process runs -/
  up : Bool
  boxes : String → Option SandboxState
  ops : String → Option Op
  /-- the sandbox has a VM whose guest executes -/
  vm : String → Bool
  tree : Tree (Cow β) (Mem β)
  images : String → Option (Image β)

structure Config where
  /-- the rootfs paths `ShrinkSystemImages` goes through -/
  systemImages : List String
  /-- the size `EnsureImageSizes` expands to -/
  targetSize : ℕ
  uuidString : UUID → String

/-- Sandbox IDs are generated without a dot, unlike the names of staging and trash directories. -/
def validID (id : String) : Bool := decide ('.' ∉ id.toList)

/-- What one operation on a sandbox leaves: its registration, its lock, its guest, and the directory. -/
structure Part (β : Type*) where
  box : Option SandboxState
  op : Option Op
  vm : Bool
  tree : Tree (Cow β) (Mem β)

/-- What the host holds of one sandbox. -/
def World.part (w : World β) (id : String) : Part β := ⟨w.boxes id, w.ops id, w.vm id, w.tree⟩

def World.put (w : World β) (id : String) (p : Part β) : World β :=
  { w with
    boxes := Function.update w.boxes id p.box
    ops := Function.update w.ops id p.op
    vm := Function.update w.vm id p.vm
    tree := p.tree }

/-! ### Operations on one sandbox -/

inductive LocalAction (β : Type*)
  /-- `Create` registers `sb`; whether its running state could be written -/
  | create (sb : SandboxState) (pid : ℤ) (stateOk : Bool)
  /-- the guest writes a chunk of its disk -/
  | write (i : ℕ) (v : β)
  | vmDeath
  | pauseBegin
  /-- the pause fails before the VM is destroyed: `resumed`, or the sandbox is given up -/
  | pauseRollback (resumed rmOk : Bool)
  | pauseSnapshot (ts : ℕ) (now : Time)
  | pauseRelease
  | pauseMoveCow (ok : Bool)
  | pauseToTrash (ts' : ℕ) (ok : Bool)
  | pauseToFinal (ok restore : Bool)
  | pauseFinish (rmOk : Bool)
  | resumeLaunch
  | resumeFail
  | resumeDone (cowLoop : String) (pid : ℤ) (now : Time) (stateOk : Bool)
  /-- the crash watcher and `cleanupAfterCrash` -/
  | crashCleanup (rmOk : Bool)
  | destroy (rmOk : Bool)

/-- `releaseRuntime` clears the runtime references; the slot index stays. -/
def releasedBox (sb : SandboxState) : SandboxState :=
  { sb with slot := none, client := none, dmDevice := none, baseImagePath := "" }

/-- The sandbox `resumeFromMeta` re-hydrates. -/
def resumedBox (sb : SandboxState) (sm : SnapshotMeta) (cowLoop : String) (now : Time) : SandboxState :=
  let slot := (newSlot sm.slotIndex).toOption
  { sb with
    status := .running
    slot := slot
    client := slot.map Slot.hostIP
    hostIP := slot.map Slot.hostIP
    dmDevice := some ⟨"wrenn-" ++ sb.id, "/dev/mapper/wrenn-" ++ sb.id, sm.cowPath, cowLoop⟩
    sandboxDirOverride := sm.sandboxDir
    baseImagePath := sm.baseTemplate
    lazyRestore := true
    volumes := sm.volumes
    rootfsPath := "/dev/mapper/wrenn-" ++ sb.id
    lastActiveAt := now }

/-- `writeRunningState`; a failed write is only logged. -/
def tryWriteState (cfg : Config) (t : Tree (Cow β) (Mem β)) (id : String) (sb : SandboxState) (pid : ℤ)
    (ok : Bool) : Tree (Cow β) (Mem β) :=
  match ok, sb.dmDevice with
  | true, some dm => modifyDir t id fun d => { d with state := .ok (runningStateOf cfg.uuidString sb dm pid) }
  | _, _ => t

/-- The directory of a new sandbox: a fresh CoW, beside whatever an earlier one left behind. -/
def createDir (t : Tree (Cow β) (Mem β)) (id : String) : Tree (Cow β) (Mem β) :=
  let old : SandboxDir (Cow β) (Mem β) :=
    match t id with
    | some (.dir d) => d
    | _ => ⟨.absent, .absent, none, none⟩
  Function.update t id (some (.dir { old with cow := some .fresh }))

/-- `releaseRuntime(dropCow)` removes the CoW file. -/
def dropCow (t : Tree (Cow β) (Mem β)) (id : String) : Tree (Cow β) (Mem β) :=
  modifyDir t id fun d => { d with cow := none }

/-- The effect of an operation on the sandbox `id`; `none` when it cannot be taken. -/
def act (cfg : Config) (w : World β) (id : String) : LocalAction β → Option (Part β)
  | .create sb pid stateOk =>
    if w.up ∧ (w.boxes id).isNone ∧ (w.ops id).isNone ∧ sb.id = id ∧ sb.status = .running then
      some ⟨some sb, none, true, tryWriteState cfg (createDir w.tree id) id sb pid stateOk⟩
    else none
  | .write i v =>
    match w.vm id, w.tree id with
    | true, some (.dir d) =>
      match d.cow with
      | none => none
      | some c => some ⟨w.boxes id, w.ops id, true,
          Function.update w.tree id (some (.dir { d with cow := some (c.write i v) }))⟩
    | _, _ => none
  | .vmDeath => some ⟨w.boxes id, w.ops id, false, w.tree⟩
  | .pauseBegin =>
    match w.up, w.ops id, w.boxes id with
    | true, none, some sb =>
      if sb.status = .running then
        some ⟨some { sb with status := .pausing }, some (.pausing .quiescing), w.vm id, w.tree⟩
      else none
    | _, _, _ => none
  | .pauseRollback resumed rmOk =>
    match w.ops id, w.boxes id with
    | some (.pausing .quiescing), some sb =>
      if resumed then some ⟨some { sb with status := .running }, none, w.vm id, w.tree⟩
      else some ⟨some { releasedBox sb with status := .error, slotIndex := 0 }, none, false,
        if rmOk then removeAll w.tree id else dropCow w.tree id⟩
    | _, _ => none
  | .pauseSnapshot ts now =>
    match w.ops id, w.boxes id, w.vm id, w.tree id, w.tree (stagingName id ts) with
    | some (.pausing .quiescing), some sb, true, some (.dir d), none =>
      match sb.dmDevice, d.cow with
      | some dm, some c => some ⟨some sb, some (.pausing (.staged ts)), false,
          Function.update w.tree (stagingName id ts)
            (some (.dir (stagedDir (pauseMeta cfg.uuidString sb dm.cowPath now)
              (capture (w.images sb.baseImagePath) c))))⟩
      | _, _ => none
    | _, _, _, _, _ => none
  | .pauseRelease =>
    match w.ops id, w.boxes id with
    | some (.pausing (.staged ts)), some sb =>
      some ⟨some (releasedBox sb), some (.pausing (.released ts)), false, w.tree⟩
    | _, _ => none
  | .pauseMoveCow ok =>
    match w.ops id, w.boxes id with
    | some (.pausing (.released ts)), some sb =>
      if ok then some ⟨some sb, some (.pausing (.cowMoved ts)), false,
        moveCow id (stagingName id ts) w.tree⟩
      else some ⟨some { sb with status := .error }, none, false, w.tree⟩
    | _, _ => none
  | .pauseToTrash ts' ok =>
    match w.ops id, w.boxes id with
    | some (.pausing (.cowMoved ts)), some sb =>
      if ok then
        if (w.tree (trashName id ts')).isNone then
          some ⟨some sb, some (.pausing (.trashed ts ts')), false, rename w.tree id (trashName id ts')⟩
        else none
      else some ⟨some { sb with status := .error }, none, false, w.tree⟩
    | _, _ => none
  | .pauseToFinal ok restore =>
    match w.ops id, w.boxes id with
    | some (.pausing (.trashed ts ts')), some sb =>
      if ok then some ⟨some sb, some (.pausing (.swapped ts')), false, rename w.tree (stagingName id ts) id⟩
      else some ⟨some { sb with status := .error }, none, false,
        if restore then rename w.tree (trashName id ts') id else w.tree⟩
    | _, _ => none
  | .pauseFinish rmOk =>
    match w.ops id, w.boxes id with
    | some (.pausing (.swapped ts')), some sb =>
      some ⟨some { sb with status := .paused }, none, false,
        if rmOk then removeAll w.tree (trashName id ts') else w.tree⟩
    | _, _ => none
  | .resumeLaunch =>
    match w.up, w.ops id, w.boxes id, readSnapshotMeta w.tree id with
    | true, none, some sb, .ok _ =>
      if sb.status = .paused then some ⟨some sb, some .resuming, true, w.tree⟩ else none
    | _, _, _, _ => none
  | .resumeFail =>
    match w.ops id, w.boxes id with
    | some .resuming, some sb => some ⟨some sb, none, false, w.tree⟩
    | _, _ => none
  | .resumeDone cowLoop pid now stateOk =>
    match w.ops id, w.boxes id, readSnapshotMeta w.tree id with
    | some .resuming, some sb, .ok sm =>
      some ⟨some (resumedBox sb sm cowLoop now), none, w.vm id,
        tryWriteState cfg w.tree id (resumedBox sb sm cowLoop now) pid stateOk⟩
    | _, _, _ => none
  | .crashCleanup rmOk =>
    match w.up, w.ops id, w.boxes id with
    | true, none, some sb =>
      if sb.status = .pausing ∨ sb.status = .paused then none
      else some ⟨none, none, false, if rmOk then removeAll w.tree id else w.tree⟩
    | _, _, _ => none
  | .destroy rmOk =>
    match w.up, w.ops id, w.boxes id with
    | true, none, some _ => some ⟨none, none, false, if rmOk then removeAll w.tree id else w.tree⟩
    | true, none, none => some ⟨none, none, w.vm id, if rmOk then removeAll w.tree id else w.tree⟩
    | _, _, _ => none

/-! ### Steps of the host -/

inductive Action (β : Type*)
  | on (id : String) (a : LocalAction β)
  /-- the agent process ends; at a graceful shutdown `ShrinkSystemImages` has rewritten the system images,
  leaving `shrunk` -/
  | stop (graceful : Bool) (shrunk : String → Image β)
  /-- start-up: `EnsureImageSizes` rewrites every image that is too small, leaving `expanded`, then orphans
  are cleaned up and the sandboxes restored -/
  | startUp (env : Env) (entries₀ entries₁ entries₂ : List String) (claims : ClaimFiles)
      (expanded : String → Image β)

def shrinkSystemImages (cfg : Config) (shrunk : String → Image β)
    (images : String → Option (Image β)) (path : String) : Option (Image β) :=
  if path ∈ cfg.systemImages then (images path).map fun _ => shrunk path else images path

def ensureImageSizes (cfg : Config) (expanded : String → Image β)
    (images : String → Option (Image β)) (path : String) : Option (Image β) :=
  (images path).map fun img => if cfg.targetSize ≤ img.size then img else expanded path

/-- A step of the host.  A start-up that panics never serves; it is not a step. -/
def step (cfg : Config) (w : World β) : Action β → Option (World β)
  | .on id a =>
    if validID id then
      match act cfg w id a with
      | none => none
      | some p => some (w.put id p)
    else none
  | .stop graceful shrunk =>
    if w.up then
      some { w with
        up := false
        boxes := fun _ => none
        ops := fun _ => none
        images := if graceful then shrinkSystemImages cfg shrunk w.images else w.images }
    else none
  | .startUp env entries₀ entries₁ entries₂ claims expanded =>
    if w.up then none
    else
      match startUp env entries₀ entries₁ entries₂ claims w.tree with
      | .error _ => none
      | .ok m => some { w with
          up := true
          boxes := m.boxes
          ops := fun _ => none
          tree := m.tree
          images := ensureImageSizes cfg expanded w.images }

/-- A host before its first start: no sandbox, no VM, any set of base images. -/
structure Init (w : World β) : Prop where
  down : w.up = false
  boxes : ∀ id, w.boxes id = none
  ops : ∀ id, w.ops id = none
  vm : ∀ id, w.vm id = false
  tree : ∀ name, w.tree name = none

end Wrenn.Host.Lifecycle
