import Mathlib

/-!
# The sandboxes directory

What the agent keeps under `WRENN_DIR/sandboxes/`: one directory per sandbox, holding the running-state
file `sandbox.json` while a VM runs, the pause generation (metadata and memory files) once it has been
paused, and the copy-on-write file of its disk.  `Pause` adds `*.staging-*` and `*.trash-*` siblings.

The contents of a CoW file and of a memory image are parameters `κ` and `μ`: the code moves and deletes
those files but never looks inside.
-/

namespace Wrenn.Sandbox.Disk

/-- A JSON file as the agent finds it: not there, not readable or not parseable, or decoded. -/
inductive JsonFile (α : Type*)
  | absent
  | unreadable
  | ok (a : α)
  deriving DecidableEq, Repr

/-- What becomes of a step on files; `killed`: the agent, before the step. -/
inductive Outcome
  | ok
  | failed
  | killed
  deriving DecidableEq, Repr

/-- Time stamps, in nanoseconds. -/
abbrev Time := ℤ

structure AttachedVolume where
  volumeID : String
  hostPath : String
  serial : String
  mountPath : String
  deriving DecidableEq, Repr

/-- `runningState`, the schema of `sandbox.json`. -/
structure RunningState where
  version : ℤ
  id : String
  teamID : String
  templateID : String
  vcpus : ℤ
  memoryMB : ℤ
  timeoutSec : ℤ
  slotIndex : ℤ
  baseImagePath : String
  cowPath : String
  dmName : String
  sandboxDir : String
  chPID : ℤ
  chSocket : String
  sandboxDirOverride : String
  lazyRestore : Bool
  createdAt : Time
  metadata : List (String × String)
  volumes : List AttachedVolume
  deriving DecidableEq, Repr

def runningStateVersion : ℤ := 1

/-- `snapshotMeta`, the metadata file of a pause generation. -/
structure SnapshotMeta where
  templateName : String
  teamID : String
  templateID : String
  vcpus : ℤ
  memoryMB : ℤ
  timeoutSec : ℤ
  slotIndex : ℤ
  baseTemplate : String
  cowPath : String
  sandboxDir : String
  createdAt : Time
  volumes : List AttachedVolume
  deriving DecidableEq, Repr

structure SandboxDir (κ μ : Type*) where
  state : JsonFile RunningState
  snapMeta : JsonFile SnapshotMeta
  cow : Option κ
  mem : Option μ
  deriving DecidableEq, Repr

inductive Entry (κ μ : Type*)
  | file
  | dir (d : SandboxDir κ μ)
  deriving DecidableEq, Repr

/-- The sandboxes directory, by entry name. -/
abbrev Tree (κ μ : Type*) := String → Option (Entry κ μ)

variable {κ μ : Type*}

def isDir (t : Tree κ μ) (name : String) : Bool :=
  match t name with
  | some (.dir _) => true
  | _ => false

/-! ### File operations -/

inductive ReadError
  | notExist
  | other
  deriving DecidableEq, Repr

def readRunningState (t : Tree κ μ) (sandboxID : String) : Except ReadError RunningState :=
  match t sandboxID with
  | none => .error .notExist
  | some .file => .error .other
  | some (.dir d) =>
    match d.state with
    | .absent => .error .notExist
    | .unreadable => .error .other
    | .ok st =>
      if st.version ≠ runningStateVersion then .error .other
      else if st.id ≠ sandboxID then .error .other
      else .ok st

def readSnapshotMeta (t : Tree κ μ) (sandboxID : String) : Except ReadError SnapshotMeta :=
  match t sandboxID with
  | none => .error .notExist
  | some .file => .error .other
  | some (.dir d) =>
    match d.snapMeta with
    | .absent => .error .notExist
    | .unreadable => .error .other
    | .ok sm => .ok sm

/-- `e` without its `sandbox.json`. -/
def Entry.dropState : Entry κ μ → Entry κ μ
  | .file => .file
  | .dir d => .dir { d with state := .absent }

def deleteRunningState (t : Tree κ μ) (sandboxID : String) : Tree κ μ :=
  Function.update t sandboxID ((t sandboxID).map Entry.dropState)

/-- A change to the files of one directory; nothing happens if there is none. -/
def modifyDir (t : Tree κ μ) (name : String) (f : SandboxDir κ μ → SandboxDir κ μ) : Tree κ μ :=
  Function.update t name ((t name).map fun
    | .file => .file
    | .dir d => .dir (f d))

def removeAll (t : Tree κ μ) (name : String) : Tree κ μ := Function.update t name none

/-- `rename(2)` of one entry of the directory to a name that is free. -/
def rename (t : Tree κ μ) (src dst : String) : Tree κ μ :=
  Function.update (Function.update t src none) dst (t src)

/-- `strings.Contains`. -/
def contains (s sub : String) : Bool := decide (sub.toList <:+: s.toList)

/-- The names `RestoreRunningSandboxes` and `RestorePausedSandboxes` leave alone. -/
def isSwapName (name : String) : Bool := contains name ".staging-" || contains name ".trash-"

/-- The names `CleanupOrphanPauseDirs` removes. -/
def isOrphanName (name : String) : Bool := contains name ".stage-" || isSwapName name

def trashName (base : String) (ts : ℕ) : String := base ++ ".trash-" ++ toString ts

def stagingName (base : String) (ts : ℕ) : String := base ++ ".staging-" ++ toString ts

variable {t t' : Tree κ μ} {name k : String}

theorem readRunningState_ok {st : RunningState} (h : readRunningState t name = .ok st) :
    st.id = name ∧ ∃ d, t name = some (.dir d) ∧ d.state = .ok st := by
  unfold readRunningState at h
  rcases ht : t name with _ | (_ | d) <;> simp only [ht] at h
  · cases h
  · cases h
  · rcases hd : d.state with _ | _ | st' <;> simp only [hd] at h
    · cases h
    · cases h
    · split_ifs at h with h1 h2
      cases h
      exact ⟨by simpa using h2, d, rfl, hd⟩

theorem readRunningState_congr (h : t' name = t name) : readRunningState t' name = readRunningState t name := by
  unfold readRunningState; rw [h]

theorem readSnapshotMeta_congr (h : t' name = t name) : readSnapshotMeta t' name = readSnapshotMeta t name := by
  unfold readSnapshotMeta; rw [h]

theorem isDir_congr (h : t' name = t name) : isDir t' name = isDir t name := by
  unfold isDir; rw [h]

theorem deleteRunningState_of_ne (h : k ≠ name) : deleteRunningState t name k = t k := Function.update_of_ne h ..

theorem modifyDir_of_ne {f : SandboxDir κ μ → SandboxDir κ μ} (h : k ≠ name) :
    modifyDir t name f k = t k := Function.update_of_ne h ..

theorem removeAll_of_ne (h : k ≠ name) : removeAll t name k = t k := Function.update_of_ne h ..

theorem contains_append (a b sub : String) : contains (a ++ sub ++ b) sub = true := by
  unfold contains
  rw [decide_eq_true_iff, String.toList_append, String.toList_append]
  exact ⟨a.toList, b.toList, rfl⟩

theorem isSwapName_trashName (base : String) (ts : ℕ) : isSwapName (trashName base ts) = true := by
  simp [isSwapName, trashName, contains_append]

theorem isSwapName_stagingName (base : String) (ts : ℕ) :
    isSwapName (stagingName base ts) = true := by
  simp [isSwapName, stagingName, contains_append]

end Wrenn.Sandbox.Disk
