import Wrenn.Sandbox.Restore

/-!
# What `Pause` writes

The metadata a pause generation records, and the file operations `Pause` performs once the VM is gone:
`rootfs.cow` is moved into the staging directory, the old directory is renamed aside, the staging directory
is renamed to the sandbox's own name, and the old one is removed.  Each operation may be the last before
the agent stops (`pauseTail` lists them in order), and each rename may fail.
-/

namespace Wrenn.Sandbox.PauseDisk

open Network.Slots Disk Startup Restore

variable {κ μ : Type*}

/-- The tmpfs path baked into the VM's configuration. -/
def effectiveSandboxDir (sb : SandboxState) : String :=
  if sb.sandboxDirOverride ≠ "" then sb.sandboxDirOverride else "/tmp/ch-vm-" ++ sb.id

/-- The metadata `Pause` writes for `sb`, whose CoW file is at `cowPath`. -/
def pauseMeta (uuidString : UUID → String) (sb : SandboxState) (cowPath : String) (now : Time) :
    SnapshotMeta where
  templateName := ""
  teamID := uuidString sb.templateTeamID
  templateID := uuidString sb.templateID
  vcpus := sb.vcpus
  memoryMB := sb.memoryMB
  timeoutSec := sb.timeoutSec
  slotIndex := sb.slotIndex
  baseTemplate := sb.baseImagePath
  cowPath := cowPath
  sandboxDir := effectiveSandboxDir sb
  createdAt := now
  volumes := sb.volumes

/-- The running state `writeRunningState` records for `sb`, whose VM has process ID `pid`. -/
def runningStateOf (uuidString : UUID → String) (sb : SandboxState) (dm : SnapshotDevice) (pid : ℤ) :
    RunningState where
  version := runningStateVersion
  id := sb.id
  teamID := uuidString sb.templateTeamID
  templateID := uuidString sb.templateID
  vcpus := sb.vcpus
  memoryMB := sb.memoryMB
  timeoutSec := sb.timeoutSec
  slotIndex := sb.slotIndex
  baseImagePath := sb.baseImagePath
  cowPath := dm.cowPath
  dmName := dm.name
  sandboxDir := effectiveSandboxDir sb
  chPID := pid
  chSocket := "/tmp/ch-" ++ sb.id ++ ".sock"
  sandboxDirOverride := sb.sandboxDirOverride
  lazyRestore := sb.lazyRestore
  createdAt := sb.createdAt
  metadata := sb.metadata
  volumes := sb.volumes

/-- A staging directory, before the CoW is moved into it. -/
def stagedDir (sm : SnapshotMeta) (g : μ) : SandboxDir κ μ := ⟨.absent, .ok sm, none, some g⟩

/-- `os.Rename(cowFinal, cowStage)`; a missing CoW is tolerated. -/
def moveCow (id stage : String) (t : Tree κ μ) : Tree κ μ :=
  match t id, t stage with
  | some (.dir d), some (.dir g) =>
    match d.cow with
    | none => t
    | some c =>
      Function.update (Function.update t id (some (.dir { d with cow := none }))) stage
        (some (.dir { g with cow := some c }))
  | _, _ => t

/-- Which of the file calls of the tail succeed. -/
structure TailCalls where
  /-- `os.Rename` of `rootfs.cow` into the staging directory -/
  moveCow : Bool
  /-- `os.Stat` of the old directory -/
  stat : Bool
  /-- `os.Rename` of the old directory to `*.trash-*` -/
  toTrash : Bool
  /-- `os.Rename` of the staging directory to the final name -/
  toFinal : Bool
  /-- `os.Rename` of the old directory back, after the previous call failed -/
  restore : Bool
  /-- `os.RemoveAll` of the trash -/
  rmTrash : Bool
  deriving DecidableEq, Repr

/-- The file operations of `swapDir(stage, final)` over an existing final directory. -/
def swapDir (calls : TailCalls) (stage id trash : String) : List (Tree κ μ → Tree κ μ) :=
  if !calls.stat then []
  else if !calls.toTrash then []
  else (rename · id trash) ::
    if !calls.toFinal then
      if calls.restore then [(rename · trash id)] else []
    else (rename · stage id) :: if calls.rmTrash then [(removeAll · trash)] else []

/-- The file operations of `Pause` after `releaseRuntime`. -/
def pauseTail (calls : TailCalls) (stage id trash : String) : List (Tree κ μ → Tree κ μ) :=
  if !calls.moveCow then [] else moveCow id stage :: swapDir calls stage id trash

/-- The directory as the agent leaves it when it stops after `n` operations. -/
def stopAfter (n : ℕ) (ops : List (Tree κ μ → Tree κ μ)) (t : Tree κ μ) : Tree κ μ :=
  (ops.take n).foldl (fun t op => op t) t

/-- The next start-up: orphans are cleaned up, a manager is created, and both passes run. -/
def startUp (env : Env) (entries₀ entries₁ entries₂ : List String) (claims : ClaimFiles)
    (t : Tree κ μ) : Except Panic (Manager κ μ) :=
  restoreSandboxes env entries₁ entries₂
    (newManager (cleanupOrphanPauseDirs env entries₀ t) claims)

end Wrenn.Sandbox.PauseDisk
