import Wrenn.Sandbox.Startup

/-!
# The start-up passes

`restoreRunningSandboxes` re-attaches the sandboxes whose VM outlived its agent and sweeps the others;
`restorePausedSandboxes` then registers the pause generations found on disk.  Both range over the entries
`os.ReadDir` lists, given here as an argument.  A Go panic is an error of the `Except Panic` monad; every
other failure is handled where it occurs, as in the source.
-/

namespace Wrenn.Sandbox.Restore

open Disk Startup Network.Slots
open Devicemapper.Loops (acquire)

variable {κ μ : Type*}

/-! ### Running sandboxes -/

inductive ReattachError
  | badTeamID
  | badTemplateID
  | noSlotIndex
  | reserveSlot (e : SlotError)
  | reattachSnapshot
  | acquireLoop
  | reattachVM
  deriving DecidableEq, Repr

/-- The in-memory state `reattachRunning` rebuilds from the running-state file. -/
def reattachedState (env : Env) (st : RunningState) (team templ : UUID) (slot : Slot)
    (cowLoop : String) : SandboxState where
  id := st.id
  status := .running
  templateTeamID := team
  templateID := templ
  vcpus := st.vcpus
  memoryMB := st.memoryMB
  timeoutSec := st.timeoutSec
  slotIndex := st.slotIndex
  hostIP := some slot.hostIP
  rootfsPath := "/dev/mapper/" ++ st.dmName
  createdAt := st.createdAt
  lastActiveAt := env.now
  metadata := st.metadata
  slot := some slot
  client := some slot.hostIP
  dmDevice := some ⟨st.dmName, "/dev/mapper/" ++ st.dmName, st.cowPath, cowLoop⟩
  baseImagePath := st.baseImagePath
  volumes := st.volumes
  sandboxDirOverride := st.sandboxDirOverride
  lazyRestore := st.lazyRestore

/-- `reattachRunning`.  There is no rollback past the reservation: a failed adoption leaves the slot and
the loop reference held for the live VM. -/
def reattachRunning (env : Env) (m : Manager κ μ) (st : RunningState) :
    Except Panic (Manager κ μ × Option ReattachError) :=
  match parsePlainUUID env st.teamID with
  | none => .ok (m, some .badTeamID)
  | some team =>
  match parsePlainUUID env st.templateID with
  | none => .ok (m, some .badTemplateID)
  | some templ =>
  if st.slotIndex = 0 then .ok (m, some .noSlotIndex)
  else
  match reserve m.slots m.claims (env.claimErr st.slotIndex) st.slotIndex with
  | .error e => .ok (m, some (.reserveSlot e))
  | .ok (slots, claims) =>
  match newSlot st.slotIndex with
  | .error p => .error p
  | .ok slot =>
  match env.reattachLoop st.dmName st.cowPath with
  | none => .ok ({ m with slots := slots, claims := claims }, some .reattachSnapshot)
  | some cowLoop =>
  match acquire m.loops env.losetup st.baseImagePath with
  | none => .ok ({ m with slots := slots, claims := claims }, some .acquireLoop)
  | some (loops, _) =>
  if !env.probeOk st.chSocket then
    .ok ({ m with slots := slots, claims := claims, loops := loops }, some .reattachVM)
  else
    .ok ({ m with
      slots := slots
      claims := claims
      loops := loops
      vms := Function.update m.vms st.id (some st.chPID)
      boxes := Function.update m.boxes st.id (some (reattachedState env st team templ slot cowLoop)) },
      none)

/-- `sweepDeadRunning`.  The network of the recorded slot is removed through `NewSlot`; a readable pause
snapshot keeps the directory and the slot claim. -/
def sweepDeadRunning (env : Env) (m : Manager κ μ) (st : RunningState) : Except Panic (Manager κ μ) :=
  match newSlot st.slotIndex with
  | .error p => .error p
  | .ok _ =>
  let t := tryDeleteRunningState env m.tree st.id
  match readSnapshotMeta t st.id with
  | .ok _ => .ok { m with tree := t }
  | .error _ =>
    let t := tryRemoveAll env t st.id
    if st.slotIndex > 0 then
      let (slots, claims) := release m.slots m.claims st.slotIndex
      .ok { m with tree := t, slots := slots, claims := claims }
    else .ok { m with tree := t }

/-- One turn of the loop of `RestoreRunningSandboxes`. -/
def restoreRunning (env : Env) (m : Manager κ μ) (name : String) : Except Panic (Manager κ μ) :=
  if !isDir m.tree name || isSwapName name then .ok m
  else
  match readRunningState m.tree name with
  | .error .notExist => .ok m
  | .error .other =>
    .ok { m with tree := tryDeleteRunningState env m.tree name }
  | .ok st =>
    if (m.boxes name).isSome then .ok m
    else if !chProcessAlive env st then sweepDeadRunning env m st
    else
      match reattachRunning env m st with
      | .error p => .error p
      | .ok (m', _) => .ok m'

def restoreRunningSandboxes (env : Env) (entries : List String) (m : Manager κ μ) :
    Except Panic (Manager κ μ) :=
  entries.foldlM (restoreRunning env) m

/-! ### Paused sandboxes -/

/-- The first pass of `RestorePausedSandboxes` on one entry: a candidate, a directory to trash, or
nothing. -/
inductive Scan
  | skip
  | trash
  | candidate (c : Candidate)
  deriving DecidableEq, Repr

def scanPaused (env : Env) (boxes : String → Option SandboxState) (t : Tree κ μ) (name : String) :
    Scan :=
  if !isDir t name || isSwapName name then .skip
  else if (boxes name).isSome then .skip
  else
  match readRunningState t name with
  | .ok _ => .skip
  | .error _ =>
  match readSnapshotMeta t name with
  | .error _ => .trash
  | .ok sm =>
  if sm.slotIndex = 0 then .trash
  else
  match parsePlainUUID env sm.teamID with
  | none => .trash
  | some team =>
  match parsePlainUUID env sm.templateID with
  | none => .trash
  | some templ => .candidate ⟨name, sm, team, templ⟩

/-- The first pass: the tree with the corrupt directories moved aside, and the candidates in order. -/
def scanPausedAll (env : Env) (boxes : String → Option SandboxState) :
    List String → Tree κ μ → Tree κ μ × List Candidate
  | [], t => (t, [])
  | name :: entries, t =>
    match scanPaused env boxes t name with
    | .skip => scanPausedAll env boxes entries t
    | .trash => scanPausedAll env boxes entries (trashCorruptDir env t name)
    | .candidate c =>
      let (t', cs) := scanPausedAll env boxes entries t
      (t', c :: cs)

/-- The in-memory state of a restored paused sandbox: it holds its slot and nothing else. -/
def pausedState (c : Candidate) : SandboxState where
  id := c.sandboxID
  status := .paused
  templateTeamID := c.teamID
  templateID := c.templID
  vcpus := c.snapMeta.vcpus
  memoryMB := c.snapMeta.memoryMB
  timeoutSec := c.snapMeta.timeoutSec
  slotIndex := c.snapMeta.slotIndex
  hostIP := none
  rootfsPath := ""
  createdAt := c.snapMeta.createdAt
  lastActiveAt := c.snapMeta.createdAt
  metadata := []
  slot := none
  client := none
  dmDevice := none
  baseImagePath := ""
  volumes := []
  sandboxDirOverride := ""
  lazyRestore := false

/-- The winner of a slot reserves it and is registered; a failed reservation trashes its directory. -/
def registerPaused (env : Env) (m : Manager κ μ) (c : Candidate) : Manager κ μ :=
  match reserve m.slots m.claims (env.claimErr c.snapMeta.slotIndex) c.snapMeta.slotIndex with
  | .error _ => { m with tree := trashCorruptDir env m.tree c.sandboxID }
  | .ok (slots, claims) =>
    { m with
      slots := slots
      claims := claims
      boxes := Function.update m.boxes c.sandboxID (some (pausedState c)) }

/-- The second pass on one bucket: the newest candidate wins, the others are trashed.  Slicing and
indexing an empty bucket would panic. -/
def restoreBucket (env : Env) (cands : List Candidate) (m : Manager κ μ) (slot : ℤ) :
    Except Panic (Manager κ μ) :=
  match env.sortCands (cands.filter fun c => c.snapMeta.slotIndex = slot) with
  | [] => .error ⟨"runtime error: slice bounds out of range [1:0]"⟩
  | winner :: stale =>
    let t := stale.foldl (fun t c => trashCorruptDir env t c.sandboxID) m.tree
    .ok (registerPaused env { m with tree := t } winner)

def restorePausedSandboxes (env : Env) (entries : List String) (m : Manager κ μ) :
    Except Panic (Manager κ μ) :=
  let (t, cands) := scanPausedAll env m.boxes entries m.tree
  let slots := env.mapOrder (cands.map fun c => c.snapMeta.slotIndex).dedup
  slots.foldlM (restoreBucket env cands) { m with tree := t }

/-- `RestoreRunningSandboxes` followed by `RestorePausedSandboxes`; each pass lists the directory anew. -/
def restoreSandboxes (env : Env) (entries₁ entries₂ : List String) (m : Manager κ μ) :
    Except Panic (Manager κ μ) :=
  match restoreRunningSandboxes env entries₁ m with
  | .error p => .error p
  | .ok m' => restorePausedSandboxes env entries₂ m'

end Wrenn.Sandbox.Restore
