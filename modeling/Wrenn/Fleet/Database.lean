import Mathlib.Data.List.Infix
import Wrenn.ControlPlane.Database

/-!
# Teams, hosts and what they own

The rows of `hosts`, `sandboxes` and `volumes` with the columns that the deletion of a team or a host and the
scheduler read, and the queries of these three.  `ListActiveSandboxesByTeam` also names the status
`hibernated`, which nothing writes.
-/

namespace Wrenn.Fleet.Database

open Lib.Tables
open ControlPlane.Database (Status VolumeStatus)

structure Capsule where
  id : ℕ
  team : ℕ
  host : ℕ
  status : Status
  vcpus : ℤ
  memoryMb : ℤ
  diskSizeMb : ℤ
  deriving DecidableEq, Repr

structure Volume where
  id : ℕ
  team : ℕ
  host : Option ℕ
  sandbox : Option ℕ
  status : VolumeStatus
  deriving DecidableEq, Repr

inductive HostType
  | regular
  | byoc
  deriving DecidableEq, Repr

inductive HostStatus
  | pending
  | online
  | draining
  | unreachable
  | offline
  deriving DecidableEq, Repr

structure Host where
  id : ℕ
  type : HostType
  team : Option ℕ
  cpuCores : ℤ
  memoryMb : ℤ
  diskGb : ℤ
  address : String
  status : HostStatus
  deriving DecidableEq, Repr

abbrev Hosts := Table Host.id

abbrev Capsules := Table Capsule.id

abbrev Volumes := Table Volume.id

/-- A capsule that has come to its end. -/
def terminal : Status → Bool
  | .stopped | .error => true
  | _ => false

/-! ### `sandboxes.sql` -/

/-- The statuses of `ListActiveSandboxesByTeam`. -/
def active : Status → Bool
  | .running | .paused | .starting => true
  | _ => false

def listActiveSandboxesByTeam (t : Capsules) (team : ℕ) : List Capsule :=
  t.list fun c => decide (c.team = team) && active c.status

def listSandboxesByHostAndStatus (t : Capsules) (host : ℕ) (sts : List Status) : List Capsule :=
  t.list fun c => decide (c.host = host ∧ c.status ∈ sts)

def bulkUpdateStatusByIDs (t : Capsules) (ids : List ℕ) (st : Status) : Capsules :=
  t.update (fun c => decide (c.id ∈ ids)) (fun c => { c with status := st }) fun _ => rfl

/-! ### `volumes.sql` -/

def listVolumesByTeam (t : Volumes) (team : ℕ) : List Volume := t.list fun v => decide (v.team = team)

def countVolumesByHost (t : Volumes) (host : ℕ) : ℕ := (t.list fun v => decide (v.host = some host)).length

def detachVolumesBySandboxIDs (t : Volumes) (ids : List ℕ) : Volumes :=
  t.update (fun v => decide ((∃ c ∈ ids, v.sandbox = some c) ∧ v.status ∈ [.attached, .attaching]))
    (fun v => { v with status := .detached, sandbox := none }) fun _ => rfl

def detachVolumesByHost (t : Volumes) (host : ℕ) : Volumes :=
  t.update (fun v => decide (v.host = some host))
    (fun v => { v with status := .detached, sandbox := none, host := none }) fun _ => rfl

def deleteVolumesByTeam (t : Volumes) (team : ℕ) : Volumes := t.delete fun v => decide (v.team = team)

/-! ### Rows after a statement -/

variable {t : Capsules} {c : Capsule}

theorem mem_bulkUpdate {ids : List ℕ} {st : Status} :
    c ∈ (bulkUpdateStatusByIDs t ids st).rows ↔
      ∃ c0 ∈ t.rows, c = if c0.id ∈ ids then { c0 with status := st } else c0 := by
  simp only [bulkUpdateStatusByIDs, Table.update, List.mem_map, decide_eq_true_eq]
  exact exists_congr fun c0 => and_congr_right fun _ => eq_comm

theorem mem_listByHostAndStatus {host : ℕ} {sts : List Status} :
    c ∈ listSandboxesByHostAndStatus t host sts ↔ c ∈ t.rows ∧ c.host = host ∧ c.status ∈ sts := by
  simp only [listSandboxesByHostAndStatus, Table.mem_list, decide_eq_true_eq]

theorem mem_listActive {team : ℕ} :
    c ∈ listActiveSandboxesByTeam t team ↔ c ∈ t.rows ∧ c.team = team ∧ active c.status = true := by
  simp only [listActiveSandboxesByTeam, Table.mem_list, Bool.and_eq_true, decide_eq_true_eq]

end Wrenn.Fleet.Database
