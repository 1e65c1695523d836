import Wrenn.Lib.Tables

/-!
# The tables of the control plane

The `sandboxes` and `volumes` tables and the queries on them that the lifecycle code uses, under the names
of the query files.  Capsules, volumes and hosts are numbered; times are in seconds.  Of a row only the
columns that a modelled statement reads or decides on are kept.
-/

namespace Wrenn.ControlPlane.Database

open Lib.Tables

/-- `sandboxes.status`. -/
inductive Status
  | pending
  | starting
  | running
  | pausing
  | paused
  | resuming
  | snapshotting
  | stopping
  | stopped
  | error
  | missing
  deriving DecidableEq, Repr

structure Row where
  id : ℕ
  host : ℕ
  status : Status
  lastUpdated : ℕ
  deriving DecidableEq, Repr

/-- `volumes.status`. -/
inductive VolumeStatus
  | detached
  | attaching
  | attached
  | deleting
  deriving DecidableEq, Repr

structure Volume where
  id : ℕ
  status : VolumeStatus
  /-- `host_id`, the pin -/
  host : Option ℕ
  sandbox : Option ℕ
  lastUpdated : ℕ
  deriving DecidableEq, Repr

abbrev Sandboxes := Table Row.id

abbrev Volumes := Table Volume.id

/-! ### `sandboxes.sql` -/

/-- The rows that satisfy `p` get the status `st`. -/
def setStatus (t : Sandboxes) (p : Row → Bool) (st : Status) (now : ℕ) : Sandboxes :=
  t.update p (fun r => { r with status := st, lastUpdated := now }) fun _ => rfl

def insertSandbox (t : Sandboxes) (id host now : ℕ) : Option Sandboxes := t.insert ⟨id, host, .starting, now⟩

def listSandboxesByHostAndStatus (t : Sandboxes) (host : ℕ) (sts : List Status) : List Row :=
  t.list fun r => decide (r.host = host ∧ r.status ∈ sts)

def updateSandboxStatus (t : Sandboxes) (id : ℕ) (st : Status) (now : ℕ) : Sandboxes :=
  setStatus t (fun r => decide (r.id = id)) st now

def bulkUpdateStatusByIDs (t : Sandboxes) (ids : List ℕ) (st : Status) (now : ℕ) : Sandboxes :=
  setStatus t (fun r => decide (r.id ∈ ids)) st now

def markSandboxesMissingByHost (t : Sandboxes) (host now : ℕ) : Sandboxes :=
  setStatus t (fun r => decide (r.host = host ∧
    r.status ∈ [.running, .starting, .pending, .pausing, .resuming, .stopping])) .missing now

/-- `UpdateSandboxStatusIf`, and `UpdateSandboxRunningIf` with `new = running`. -/
def updateSandboxStatusIf (t : Sandboxes) (id : ℕ) (old new : Status) (now : ℕ) : Sandboxes :=
  setStatus t (fun r => decide (r.id = id ∧ r.status = old)) new now

/-- The statement above has returned a row. -/
def statusIs (t : Sandboxes) (id : ℕ) (st : Status) : Bool :=
  ((t.select id).map Row.status) = some st

def bulkRestoreMissingToStatus (t : Sandboxes) (ids : List ℕ) (st : Status) (now : ℕ) : Sandboxes :=
  setStatus t (fun r => decide (r.id ∈ ids ∧ r.status = .missing)) st now

/-! ### `volumes.sql` -/

def volumeIs (t : Volumes) (id : ℕ) (st : VolumeStatus) : Bool :=
  ((t.select id).map Volume.status) = some st

def reserveVolumeForAttach (t : Volumes) (id now : ℕ) : Volumes :=
  t.update (fun v => decide (v.id = id ∧ v.status = .detached))
    (fun v => { v with status := .attaching, lastUpdated := now }) fun _ => rfl

/-- `COALESCE(host_id, $2)` keeps an existing pin. -/
def markVolumeAttached (t : Volumes) (id host sandbox now : ℕ) : Volumes :=
  t.update (fun v => decide (v.id = id ∧ v.status = .attaching))
    (fun v => { v with
      status := .attached, host := v.host <|> some host, sandbox := some sandbox, lastUpdated := now }) fun _ => rfl

def linkVolumeReservation (t : Volumes) (id sandbox now : ℕ) : Volumes :=
  t.update (fun v => decide (v.id = id ∧ v.status = .attaching))
    (fun v => { v with sandbox := some sandbox, lastUpdated := now }) fun _ => rfl

def releaseVolumeReservation (t : Volumes) (id now : ℕ) : Volumes :=
  t.update (fun v => decide (v.id = id ∧ v.status = .attaching))
    (fun v => { v with status := .detached, sandbox := none, lastUpdated := now }) fun _ => rfl

/-- The rows that `DetachVolumesBySandboxIDs` frees. -/
def detachable (ids : List ℕ) (v : Volume) : Bool :=
  decide ((∃ c ∈ ids, v.sandbox = some c) ∧ v.status ∈ [.attached, .attaching])

def detachVolumesBySandboxIDs (t : Volumes) (ids : List ℕ) (now : ℕ) : Volumes :=
  t.update (detachable ids) (fun v => { v with status := .detached, sandbox := none, lastUpdated := now })
    fun _ => rfl

def detachVolumesBySandbox (t : Volumes) (sandbox now : ℕ) : Volumes :=
  detachVolumesBySandboxIDs t [sandbox] now

def beginVolumeDelete (t : Volumes) (id now : ℕ) : Volumes :=
  t.update (fun v => decide (v.id = id ∧ v.status ∈ [.detached, .deleting]))
    (fun v => { v with status := .deleting, lastUpdated := now }) fun _ => rfl

def abortVolumeDelete (t : Volumes) (id now : ℕ) : Volumes :=
  t.update (fun v => decide (v.id = id ∧ v.status = .deleting))
    (fun v => { v with status := .detached, lastUpdated := now }) fun _ => rfl

/-- The rows that `ReleaseStaleVolumeReservations` frees. -/
def stale (cutoff : ℕ) (v : Volume) : Bool :=
  decide (v.status ∈ [.attaching, .deleting] ∧ v.sandbox = none ∧ v.lastUpdated < cutoff)

def releaseStaleVolumeReservations (t : Volumes) (cutoff now : ℕ) : Volumes :=
  t.update (stale cutoff) (fun v => { v with status := .detached, lastUpdated := now }) fun _ => rfl

def deleteVolumeRow (t : Volumes) (id : ℕ) : Volumes :=
  t.delete fun v => decide (v.id = id ∧ v.status = .deleting)

/-! ### One row after a statement -/

variable {t : Sandboxes} {p : Row → Bool} {st : Status} {now c : ℕ}

theorem select_setStatus : (setStatus t p st now).select c =
    (t.select c).map fun r => if p r then { r with status := st, lastUpdated := now } else r :=
  Table.select_update _

/-- The status of one row after a statement. -/
theorem setStatus_status : ((setStatus t p st now).select c).map Row.status =
    (t.select c).map fun r => if p r then st else r.status := by
  rw [select_setStatus, Option.map_map]
  congr 1
  funext r
  dsimp only [Function.comp]
  split_ifs <;> rfl

theorem statusIs_iff : statusIs t c st = true ↔ ∃ r, t.select c = some r ∧ r.status = st := by
  simp only [statusIs, decide_eq_true_eq, Option.map_eq_some_iff]

end Wrenn.ControlPlane.Database
