import Wrenn.Sandbox.Disk
import Wrenn.Network.Slots
import Wrenn.Devicemapper.Loops

/-!
# The sandbox manager at start-up

The in-memory state that `New` creates and that the start-up passes fill in, together with the
environment those passes run in.  `Env` gathers the answers of everything outside the agent: the process
table, the API sockets, `losetup` and `dmsetup`, UUID parsing, and the success of each file operation.
The passes consult each answer for one sandbox at a time, so the answers are indexed by its name.
-/

namespace Wrenn.Sandbox.Startup

open Disk Network.Slots Devicemapper.Loops

/-- `models.SandboxStatus`. -/
inductive SandboxStatus
  | pending
  | running
  | pausing
  | paused
  | snapshotting
  | stopped
  | error
  deriving DecidableEq, Repr

abbrev UUID := BitVec 128

/-- `devicemapper.SnapshotDevice`. -/
structure SnapshotDevice where
  name : String
  devicePath : String
  cowPath : String
  cowLoopDev : String
  deriving DecidableEq, Repr

/-- `sandboxState`, with the fields of the `models.Sandbox` it embeds. -/
structure SandboxState where
  id : String
  status : SandboxStatus
  templateTeamID : UUID
  templateID : UUID
  vcpus : ℤ
  memoryMB : ℤ
  timeoutSec : ℤ
  slotIndex : ℤ
  hostIP : Option IPv4
  rootfsPath : String
  createdAt : Time
  lastActiveAt : Time
  metadata : List (String × String)
  slot : Option Slot
  /-- address of the envd client, if one is published -/
  client : Option IPv4
  dmDevice : Option SnapshotDevice
  baseImagePath : String
  volumes : List AttachedVolume
  sandboxDirOverride : String
  lazyRestore : Bool
  deriving DecidableEq, Repr

structure Manager (κ μ : Type*) where
  boxes : String → Option SandboxState
  slots : SlotAllocator
  claims : ClaimFiles
  loops : LoopRegistry
  /-- PIDs registered with the VM manager -/
  vms : String → Option ℤ
  tree : Tree κ μ

/-- A paused sandbox found on disk, with its parsed identifiers. -/
structure Candidate where
  sandboxID : String
  snapMeta : SnapshotMeta
  teamID : UUID
  templID : UUID
  deriving DecidableEq, Repr

/-- Newest first: `sort.Slice` by `CreatedAt.After`. -/
def newestFirst (c d : Candidate) : Prop := d.snapMeta.createdAt ≤ c.snapMeta.createdAt

instance : DecidableRel newestFirst := fun _ _ => inferInstanceAs (Decidable (_ ≤ _))

instance : IsTrans Candidate newestFirst := ⟨fun _ _ _ h1 h2 => le_trans h2 h1⟩

instance : Std.Total newestFirst := ⟨fun c d => le_total d.snapMeta.createdAt c.snapMeta.createdAt⟩

/-- The answers of the environment.  `sortCands` is the library sort, which is not stable, and
`mapOrder` the order in which a Go map is ranged over. -/
structure Env where
  killOk : ℤ → Bool
  cmdline : ℤ → Option String
  statOk : String → Bool
  /-- `uuid.Parse` and the rendering it inverts -/
  uuidParse : String → Option UUID
  uuidString : UUID → String
  uuidParse_uuidString : ∀ u, uuidParse (uuidString u) = some u
  uuidString_ne : ∀ u, uuidString u ≠ ""
  /-- `ReattachSnapshot`: the CoW loop device, if the dm device and the loop are found -/
  reattachLoop : String → String → Option String
  losetup : String → Option String
  /-- the `vm.info` probe of `vm.Reattach` -/
  probeOk : String → Bool
  claimErr : ℤ → Bool
  removeOk : String → Bool
  removeAllOk : String → Bool
  renameOk : String → Bool
  trashTime : String → ℕ
  now : Time
  sortCands : List Candidate → List Candidate
  sortCands_perm : ∀ l, (sortCands l).Perm l
  sortCands_sorted : ∀ l, (sortCands l).Pairwise newestFirst
  mapOrder : List ℤ → List ℤ
  mapOrder_perm : ∀ l, (mapOrder l).Perm l

variable {κ μ : Type*}

def parsePlainUUID (env : Env) (s : String) : Option UUID :=
  if s = "" then none else env.uuidParse s

/-- `deleteRunningState`, whose error is ignored. -/
def tryDeleteRunningState (env : Env) (t : Tree κ μ) (sandboxID : String) : Tree κ μ :=
  if env.removeOk sandboxID then deleteRunningState t sandboxID else t

/-- `os.RemoveAll`, whose error is only logged. -/
def tryRemoveAll (env : Env) (t : Tree κ μ) (name : String) : Tree κ μ :=
  if env.removeAllOk name then removeAll t name else t

/-- `trashCorruptDir`: the directory is moved aside; a failed rename leaves it in place. -/
def trashCorruptDir (env : Env) (t : Tree κ μ) (name : String) : Tree κ μ :=
  let trash := trashName name (env.trashTime name)
  if env.renameOk name && (t trash).isNone then rename t name trash else t

/-- `CleanupOrphanPauseDirs` on one entry. -/
def cleanupOrphan (env : Env) (t : Tree κ μ) (name : String) : Tree κ μ :=
  if isDir t name && isOrphanName name then tryRemoveAll env t name else t

def cleanupOrphanPauseDirs (env : Env) (entries : List String) (t : Tree κ μ) : Tree κ μ :=
  entries.foldl (cleanupOrphan env) t

/-- `chProcessAlive`: the PID exists, its command line still names the sandbox, the socket is there. -/
def chProcessAlive (env : Env) (st : RunningState) : Bool :=
  if st.chPID ≤ 0 then false
  else if !env.killOk st.chPID then false
  else
    match env.cmdline st.chPID with
    | none => false
    | some cmdline => contains cmdline st.id && env.statOk st.chSocket

theorem parsePlainUUID_uuidString (env : Env) (u : UUID) :
    parsePlainUUID env (env.uuidString u) = some u := by
  unfold parsePlainUUID
  rw [if_neg (env.uuidString_ne u)]
  exact env.uuidParse_uuidString u

theorem tryDeleteRunningState_of_ne {env : Env} {t : Tree κ μ} {name k : String} (h : k ≠ name) :
    tryDeleteRunningState env t name k = t k := by
  unfold tryDeleteRunningState
  split_ifs
  · exact deleteRunningState_of_ne h
  · rfl

theorem tryRemoveAll_of_ne {env : Env} {t : Tree κ μ} {name k : String} (h : k ≠ name) :
    tryRemoveAll env t name k = t k := by
  unfold tryRemoveAll
  split_ifs
  · exact removeAll_of_ne h
  · rfl

/-- A rendering of `u` in unary, all that the round trip of identifiers asks for. -/
def unaryString (u : UUID) : String := String.ofList ('u' :: List.replicate u.toNat '0')

/-- The environment of a fresh boot: every call succeeds, and no process of an earlier agent is left. -/
def freshBoot : Env where
  killOk _ := false
  cmdline _ := none
  statOk _ := false
  uuidParse s := some (BitVec.ofNat 128 (s.toList.length - 1))
  uuidString := unaryString
  uuidParse_uuidString u := by simp [unaryString]
  uuidString_ne u := by simp [unaryString]
  reattachLoop _ _ := none
  losetup path := some path
  probeOk _ := false
  claimErr _ := false
  removeOk _ := true
  removeAllOk _ := true
  renameOk _ := true
  trashTime _ := 0
  now := 0
  sortCands := List.insertionSort newestFirst
  sortCands_perm := List.perm_insertionSort newestFirst
  sortCands_sorted := List.pairwise_insertionSort newestFirst
  mapOrder l := l
  mapOrder_perm _ := List.Perm.refl _

/-- The manager `New` builds over a sandboxes directory: nothing registered, nothing held, and the claim
files found on disk seeded. -/
def newManager (t : Tree κ μ) (claims : ClaimFiles) : Manager κ μ where
  boxes _ := none
  slots := seedFromDir (newSlotAllocator true) claims
  claims := claims
  loops := newLoopRegistry
  vms _ := none
  tree := t

end Wrenn.Sandbox.Startup
