import Wrenn.Lib.Runs
import Wrenn.Lib.Threads
import Wrenn.ControlPlane.Database

/-!
# Volumes, their files and their hosts

`ControlPlane.Model` follows capsules through all of the control plane and knows of a volume only whether it
is taken.  Here the volume is the subject: its row has the host that it is pinned to, every host has the
backing files, and next to the creates there are `VolumeService.Delete` and the reaper.

A create resolves and claims one volume after the other, which gives the host that pins it, or lets the
scheduler choose; the agent provisions the files and boots.  What the pause and resume of a capsule and the
host monitor do to the row of a capsule is no part of this model: of all that only the
`DetachVolumesBySandboxIDs` is left, which may come at any time.

Volumes are there from the beginning, and a deleted one does not come back: `id.NewVolumeID` is never the
same twice.  The team is that of the volumes; a request of another team finds no row.
-/

namespace Wrenn.Volumes.Model

open Lib.Tables Lib.Threads
open ControlPlane.Database hiding Row Status

/-! ### State -/

/-- A capsule that boots or runs on its host. -/
structure Box where
  id : ℕ
  host : ℕ
  mounts : List ℕ
  deriving DecidableEq, Repr

abbrev Boxes := Table Box.id

structure Core where
  now : ℕ
  volumes : Volumes
  boxes : Boxes
  /-- the backing files, each by its host and volume -/
  files : List (ℕ × ℕ)
  /-- where a machine has come up with a volume -/
  homes : List (ℕ × ℕ)
  /-- `id.NewSandboxID` -/
  nextID : ℕ

def Core.status (k : Core) (v : ℕ) : Option VolumeStatus := (k.volumes.select v).map Volume.status

def Core.pin (k : Core) (v : ℕ) : Option ℕ := (k.volumes.select v).bind Volume.host

/-- `prepareVolumeDisks`: a file that is there is left as it is. -/
def ensureVolumeFile (files : List (ℕ × ℕ)) (host v : ℕ) : List (ℕ × ℕ) :=
  if (host, v) ∈ files then files else (host, v) :: files

def prepareVolumeDisks (files : List (ℕ × ℕ)) (host : ℕ) (specs : List ℕ) : List (ℕ × ℕ) :=
  specs.foldl (fun files v => ensureVolumeFile files host v) files

def deleteVolumeFile (files : List (ℕ × ℕ)) (host v : ℕ) : List (ℕ × ℕ) :=
  files.filter fun f => decide (f ≠ (host, v))

def destroyBox (t : Boxes) (c : ℕ) : Boxes := t.delete fun b => decide (b.id = c)

/-! ### One row after a statement -/

section

variable {k k' : Core} {P : Volume → Bool} {f : Volume → Volume} {v : ℕ} {r : Volume}

theorem status_of_select (hr : k.volumes.select v = some r) : k.status v = some r.status := by
  rw [Core.status, hr, Option.map_some]

/-- The table is that of an `UPDATE`. -/
def Updated (k k' : Core) (P : Volume → Bool) (f : Volume → Volume) : Prop :=
  ∀ v, k'.volumes.select v = (k.volumes.select v).map fun r => if P r then f r else r

theorem Updated.hit (hk : Updated k k' P f) (hr : k.volumes.select v = some r) (hp : P r = true) :
    k'.status v = some (f r).status := by
  rw [Core.status, hk v, hr, Option.map_some, if_pos hp, Option.map_some]

theorem Updated.miss (hk : Updated k k' P f) (hr : k.volumes.select v = some r) (hp : ¬ P r = true) :
    k'.volumes.select v = some r := by
  rw [hk v, hr, Option.map_some, if_neg hp]

end

theorem select_deleteVolumeRow {t : Volumes} {id v : ℕ} {r : Volume} (hr : t.select v = some r) :
    (deleteVolumeRow t id).select v = if r.id = id ∧ r.status = .deleting then none else some r := by
  rw [deleteVolumeRow, Table.select_delete, hr]
  split_ifs with hp
  · exact Option.filter_some_neg (by simp [hp])
  · exact Option.filter_some_pos (by rw [decide_eq_false hp]; rfl)

theorem updated_reserve (k : Core) (id : ℕ) :
    Updated k { k with volumes := reserveVolumeForAttach k.volumes id k.now }
      (fun v => decide (v.id = id ∧ v.status = .detached))
      fun v => { v with status := .attaching, lastUpdated := k.now } := by
  refine fun v => Table.select_update ?_
  exact fun _ => rfl

theorem updated_mark (k : Core) (id host sandbox : ℕ) :
    Updated k { k with volumes := markVolumeAttached k.volumes id host sandbox k.now }
      (fun v => decide (v.id = id ∧ v.status = .attaching))
      fun v => { v with
        status := .attached, host := v.host <|> some host, sandbox := some sandbox, lastUpdated := k.now } := by
  refine fun v => Table.select_update ?_
  exact fun _ => rfl

theorem updated_link (k : Core) (id sandbox : ℕ) :
    Updated k { k with volumes := linkVolumeReservation k.volumes id sandbox k.now }
      (fun v => decide (v.id = id ∧ v.status = .attaching))
      fun v => { v with sandbox := some sandbox, lastUpdated := k.now } := by
  refine fun v => Table.select_update ?_
  exact fun _ => rfl

theorem updated_release (k : Core) (id : ℕ) :
    Updated k { k with volumes := releaseVolumeReservation k.volumes id k.now }
      (fun v => decide (v.id = id ∧ v.status = .attaching))
      fun v => { v with status := .detached, sandbox := none, lastUpdated := k.now } := by
  refine fun v => Table.select_update ?_
  exact fun _ => rfl

theorem updated_detach (k : Core) (ids : List ℕ) :
    Updated k { k with volumes := detachVolumesBySandboxIDs k.volumes ids k.now } (detachable ids)
      fun v => { v with status := .detached, sandbox := none, lastUpdated := k.now } := by
  refine fun v => Table.select_update ?_
  exact fun _ => rfl

theorem updated_beginDelete (k : Core) (id : ℕ) :
    Updated k { k with volumes := beginVolumeDelete k.volumes id k.now }
      (fun v => decide (v.id = id ∧ v.status ∈ [.detached, .deleting]))
      fun v => { v with status := .deleting, lastUpdated := k.now } := by
  refine fun v => Table.select_update ?_
  exact fun _ => rfl

theorem updated_abort (k : Core) (id : ℕ) :
    Updated k { k with volumes := abortVolumeDelete k.volumes id k.now }
      (fun v => decide (v.id = id ∧ v.status = .deleting))
      fun v => { v with status := .detached, lastUpdated := k.now } := by
  refine fun v => Table.select_update ?_
  exact fun _ => rfl

theorem updated_releaseStale (k : Core) (cutoff : ℕ) :
    Updated k { k with volumes := releaseStaleVolumeReservations k.volumes cutoff k.now } (stale cutoff)
      fun v => { v with status := .detached, lastUpdated := k.now } := by
  refine fun v => Table.select_update ?_
  exact fun _ => rfl

/-! ### Processes -/

/-- What becomes of a statement or a call. -/
inductive Reply
  | ok
  /-- a call that is executed, but the caller gets an error -/
  | lost
  | failed
  /-- the row of the host is gone -/
  | notFound
  /-- the choice of the scheduler -/
  | pick (h : ℕ)
  deriving DecidableEq, Repr

inductive Proc
  /-- the loop of `reserveVolumesForCreate`, with the host that the volumes pin the capsule to -/
  | resolve (c : ℕ) (refs reserved : List ℕ) (pinnedHost : Option ℕ)
  | reserve (c v : ℕ) (refs reserved : List ℕ) (pinnedHost : Option ℕ)
  /-- `resolvePinnedHost` or the scheduler -/
  | selectHost (c : ℕ) (reserved : List ℕ) (pinnedHost : Option ℕ)
  | insert (c h : ℕ) (reserved : List ℕ)
  | link (c h : ℕ) (todo reserved : List ℕ)
  | createCall (c h : ℕ) (reserved : List ℕ)
  | createReply (c h : ℕ) (reserved : List ℕ)
  | mark (c h : ℕ) (todo : List ℕ)
  | confirmGone (c : ℕ) (reserved : List ℕ)
  | release (todo : List ℕ)
  | beginDelete (v : ℕ)
  | getHost (v h : ℕ)
  | deleteFile (v h : ℕ)
  | abort (v : ℕ)
  | deleteRow (v : ℕ)
  | releaseStale (cutoff : ℕ)
  | destroyCall (c attempts : ℕ)
  | detach (ids : List ℕ)
  | done
  deriving DecidableEq, Repr

/-- `VolumeHostMismatch`: two pins. -/
def mismatch (pinnedHost host : Option ℕ) : Bool := pinnedHost.isSome && host.isSome && decide (pinnedHost ≠ host)

def run (k : Core) (ch : Reply) : Proc → Option (Core × Proc)
  | .resolve c [] reserved pinnedHost => some (k, .selectHost c reserved pinnedHost)
  | .resolve c (v :: refs) reserved pinnedHost =>
    match ch, k.volumes.select v with
    | .ok, some vol =>
      -- a volume attaches at most once per capsule
      if v ∈ reserved then some (k, .resolve c refs reserved pinnedHost)
      else if mismatch pinnedHost vol.host then some (k, .release reserved)
      else some (k, .reserve c v refs reserved (vol.host <|> pinnedHost))
    | _, _ => some (k, .release reserved)
  | .reserve c v refs reserved pinnedHost =>
    if ch = .ok ∧ k.status v = some .detached then
      some ({ k with volumes := reserveVolumeForAttach k.volumes v k.now },
        .resolve c refs (reserved ++ [v]) pinnedHost)
    else some (k, .release reserved)
  | .selectHost c reserved pinnedHost =>
    match pinnedHost, ch with
    | some h, .ok => some (k, .insert c h reserved)
    | none, .pick h => some (k, .insert c h reserved)
    | _, _ => some (k, .release reserved)
  | .insert c h reserved => some (k, if ch = .ok then .link c h reserved reserved else .release reserved)
  | .link c h [] reserved => some (k, .createCall c h reserved)
  | .link c h (v :: todo) reserved =>
    some (if ch = .ok then { k with volumes := linkVolumeReservation k.volumes v c k.now } else k,
      .link c h todo reserved)
  | .createCall c h reserved =>
    if ch = .ok then
      (k.boxes.insert ⟨c, h, reserved⟩).map fun boxes =>
        ({ k with boxes := boxes, files := prepareVolumeDisks k.files h reserved }, .createReply c h reserved)
    else some (k, .confirmGone c reserved)
  | .createReply c h reserved =>
    if ch = .ok ∨ ch = .lost then
      -- the machine has come up with the volumes mounted
      if (k.boxes.select c).isSome then
        some ({ k with homes := reserved.map (Prod.mk h) ++ k.homes },
          if ch = .ok then .mark c h reserved else .confirmGone c reserved)
      else none
    else some (k, .confirmGone c reserved)
  | .mark _ _ [] => some (k, .done)
  | .mark c h (v :: todo) =>
    some (if ch = .ok then { k with volumes := markVolumeAttached k.volumes v h c k.now } else k, .mark c h todo)
  | .confirmGone c reserved =>
    match ch with
    | .ok => some ({ k with boxes := destroyBox k.boxes c }, .release reserved)
    | .lost => some ({ k with boxes := destroyBox k.boxes c }, .done)
    | _ => some (k, .done)
  | .release [] => some (k, .done)
  | .release (v :: todo) =>
    some (if ch = .ok then { k with volumes := releaseVolumeReservation k.volumes v k.now } else k, .release todo)
  | .beginDelete v =>
    match k.volumes.select v with
    | none => some (k, .done)
    | some vol =>
      if ch = .ok ∧ vol.status ∈ [.detached, .deleting] then
        some ({ k with volumes := beginVolumeDelete k.volumes v k.now },
          match vol.host with
          | none => .deleteRow v
          | some h => .getHost v h)
      else some (k, .done)
  | .getHost v h =>
    match ch with
    | .ok => some (k, .deleteFile v h)
    | .notFound => some (k, .deleteRow v)
    | _ => some (k, .abort v)
  | .deleteFile v h =>
    match ch with
    | .ok => some ({ k with files := deleteVolumeFile k.files h v }, .deleteRow v)
    | .lost => some ({ k with files := deleteVolumeFile k.files h v }, .abort v)
    | _ => some (k, .abort v)
  | .abort v => some (if ch = .ok then { k with volumes := abortVolumeDelete k.volumes v k.now } else k, .done)
  | .deleteRow v => some (if ch = .ok then { k with volumes := deleteVolumeRow k.volumes v } else k, .done)
  | .releaseStale cutoff =>
    some (if ch = .ok then { k with volumes := releaseStaleVolumeReservations k.volumes cutoff k.now } else k, .done)
  | .destroyCall _ 0 => some (k, .done)
  | .destroyCall c (n + 1) =>
    match ch with
    | .ok => some ({ k with boxes := destroyBox k.boxes c }, .detach [c])
    | .lost => some ({ k with boxes := destroyBox k.boxes c }, .destroyCall c n)
    | _ => some (k, .destroyCall c n)
  | .detach ids =>
    some (if ch = .ok then { k with volumes := detachVolumesBySandboxIDs k.volumes ids k.now } else k, .done)
  | .done => none

def maxVolumesPerSandbox : ℕ := 4

/-- `staleAfter` of the reaper. -/
def staleAfter : ℕ := 1800

def destroySandboxRetries : ℕ := 3

inductive Request
  | create (refs : List ℕ)
  | delete (v : ℕ)
  | reap
  | destroy (c : ℕ)
  | detach (ids : List ℕ)

def spawn (k : Core) : Request → Option (Core × Proc)
  | .create refs =>
    if refs.length ≤ maxVolumesPerSandbox then
      some ({ k with nextID := k.nextID + 1 }, .resolve k.nextID refs [] none)
    else none
  | .delete v => some (k, .beginDelete v)
  | .reap => some (k, .releaseStale (k.now - staleAfter))
  | .destroy c => some (k, .destroyCall c destroySandboxRetries)
  | .detach ids => some (k, .detach ids)

inductive Env
  /-- a capsule is gone from its host -/
  | vanish (c : ℕ)
  | tick (d : ℕ)

def env (k : Core) : Env → Option Core
  | .vanish c => some { k with boxes := destroyBox k.boxes c }
  | .tick d => some { k with now := k.now + d }

abbrev State := Sys Core Proc

abbrev Act := Label Request Reply Env

def prog : Prog Core Proc Request Reply Env := ⟨spawn, run, .done, env⟩

def step (s : State) (a : Act) : Option State := prog.step s a

/-- Nothing has happened yet; there are volumes. -/
structure Initial (s : State) : Prop where
  volumes : ∀ v ∈ s.core.volumes.rows, v.status = .detached ∧ v.host = none ∧ v.sandbox = none
  boxes : s.core.boxes = Table.empty
  files : s.core.files = []
  homes : s.core.homes = []
  threads : s.threads = []

/-- Such a state. -/
def idle (volumes : Volumes) : State := ⟨⟨0, volumes, Table.empty, [], [], 0⟩, []⟩

theorem idle_initial {volumes : Volumes}
    (h : ∀ v ∈ volumes.rows, v.status = .detached ∧ v.host = none ∧ v.sandbox = none) : Initial (idle volumes) :=
  ⟨h, rfl, rfl, rfl, rfl⟩

/-! ### What a process does -/

/-- The volumes of a create that can still give up without asking the host. -/
def Proc.gives : Proc → Option (List ℕ)
  | .resolve _ _ reserved _ | .reserve _ _ _ reserved _ | .selectHost _ reserved _ | .insert _ _ reserved =>
    some reserved
  | _ => none

/-- The process ends, or goes on with something that has no volume. -/
inductive Stops : Proc → Proc → Prop
  | mark (c h : ℕ) : Stops (.mark c h []) .done
  | confirmGone (c : ℕ) (reserved : List ℕ) : Stops (.confirmGone c reserved) .done
  | release : Stops (.release []) .done
  | beginDelete (v : ℕ) : Stops (.beginDelete v) .done
  | abort (v : ℕ) : Stops (.abort v) .done
  | deleteRow (v : ℕ) : Stops (.deleteRow v) .done
  | releaseStale (cutoff : ℕ) : Stops (.releaseStale cutoff) .done
  | destroyCall (c n : ℕ) : Stops (.destroyCall c n) .done
  | again (c n : ℕ) : Stops (.destroyCall c (n + 1)) (.destroyCall c n)
  | detach (ids : List ℕ) : Stops (.detach ids) .done

inductive Does (k : Core) : Proc → Core → Proc → Prop
  | giveUp {p : Proc} {reserved : List ℕ} (h : p.gives = some reserved) : Does k p k (.release reserved)
  | stop {p p' : Proc} (h : Stops p p') : Does k p k p'
  | resolved {c : ℕ} {reserved : List ℕ} {pin : Option ℕ} :
    Does k (.resolve c [] reserved pin) k (.selectHost c reserved pin)
  | again {c v : ℕ} {refs reserved : List ℕ} {pin : Option ℕ} :
    Does k (.resolve c (v :: refs) reserved pin) k (.resolve c refs reserved pin)
  | read {c v : ℕ} {refs reserved : List ℕ} {pin : Option ℕ} {vol : Volume}
    (hvol : k.volumes.select v = some vol) (hv : v ∉ reserved) (hm : mismatch pin vol.host = false) :
    Does k (.resolve c (v :: refs) reserved pin) k (.reserve c v refs reserved (vol.host <|> pin))
  | reserve {c v : ℕ} {refs reserved : List ℕ} {pin : Option ℕ} (h : k.status v = some .detached) :
    Does k (.reserve c v refs reserved pin) { k with volumes := reserveVolumeForAttach k.volumes v k.now }
      (.resolve c refs (reserved ++ [v]) pin)
  | selectHost {c h : ℕ} {reserved : List ℕ} {pin : Option ℕ} (hp : ∀ h', pin = some h' → h = h') :
    Does k (.selectHost c reserved pin) k (.insert c h reserved)
  | insert {c h : ℕ} {reserved : List ℕ} : Does k (.insert c h reserved) k (.link c h reserved reserved)
  | linked {c h : ℕ} {reserved : List ℕ} : Does k (.link c h [] reserved) k (.createCall c h reserved)
  | link {c h v : ℕ} {todo reserved : List ℕ} :
    Does k (.link c h (v :: todo) reserved) { k with volumes := linkVolumeReservation k.volumes v c k.now }
      (.link c h todo reserved)
  | notLinked {c h v : ℕ} {todo reserved : List ℕ} :
    Does k (.link c h (v :: todo) reserved) k (.link c h todo reserved)
  | createCall {c h : ℕ} {reserved : List ℕ} {boxes : Boxes} (hi : k.boxes.insert ⟨c, h, reserved⟩ = some boxes) :
    Does k (.createCall c h reserved)
      { k with boxes := boxes, files := prepareVolumeDisks k.files h reserved } (.createReply c h reserved)
  | notCalled {c h : ℕ} {reserved : List ℕ} : Does k (.createCall c h reserved) k (.confirmGone c reserved)
  | booted {c h : ℕ} {reserved : List ℕ} :
    Does k (.createReply c h reserved) { k with homes := reserved.map (Prod.mk h) ++ k.homes } (.mark c h reserved)
  | lost {c h : ℕ} {reserved : List ℕ} :
    Does k (.createReply c h reserved) { k with homes := reserved.map (Prod.mk h) ++ k.homes }
      (.confirmGone c reserved)
  | noReply {c h : ℕ} {reserved : List ℕ} : Does k (.createReply c h reserved) k (.confirmGone c reserved)
  | mark {c h v : ℕ} {todo : List ℕ} :
    Does k (.mark c h (v :: todo)) { k with volumes := markVolumeAttached k.volumes v h c k.now } (.mark c h todo)
  | notMarked {c h v : ℕ} {todo : List ℕ} : Does k (.mark c h (v :: todo)) k (.mark c h todo)
  | gone {c : ℕ} {reserved : List ℕ} :
    Does k (.confirmGone c reserved) { k with boxes := destroyBox k.boxes c } (.release reserved)
  | notTold {c : ℕ} {reserved : List ℕ} :
    Does k (.confirmGone c reserved) { k with boxes := destroyBox k.boxes c } .done
  | release {v : ℕ} {todo : List ℕ} :
    Does k (.release (v :: todo)) { k with volumes := releaseVolumeReservation k.volumes v k.now } (.release todo)
  | notReleased {v : ℕ} {todo : List ℕ} : Does k (.release (v :: todo)) k (.release todo)
  | beginDelete {v : ℕ} {vol : Volume} {p' : Proc} (hvol : k.volumes.select v = some vol)
    (hst : vol.status ∈ [.detached, .deleting])
    (hp' : p' = .deleteRow v ∨ ∃ h, p' = .getHost v h) :
    Does k (.beginDelete v) { k with volumes := beginVolumeDelete k.volumes v k.now } p'
  | getHost {v h : ℕ} {p' : Proc} (hp' : p' = .deleteFile v h ∨ p' = .deleteRow v ∨ p' = .abort v) :
    Does k (.getHost v h) k p'
  | deleteFile {v h : ℕ} {p' : Proc} (hp' : p' = .deleteRow v ∨ p' = .abort v) :
    Does k (.deleteFile v h) { k with files := deleteVolumeFile k.files h v } p'
  | notDeleted {v h : ℕ} : Does k (.deleteFile v h) k (.abort v)
  | abort {v : ℕ} : Does k (.abort v) { k with volumes := abortVolumeDelete k.volumes v k.now } .done
  | deleteRow {v : ℕ} : Does k (.deleteRow v) { k with volumes := deleteVolumeRow k.volumes v } .done
  | releaseStale {cutoff : ℕ} :
    Does k (.releaseStale cutoff) { k with volumes := releaseStaleVolumeReservations k.volumes cutoff k.now } .done
  | destroy {c n : ℕ} {p' : Proc} (hp' : p' = .detach [c] ∨ p' = .destroyCall c n) :
    Does k (.destroyCall c (n + 1)) { k with boxes := destroyBox k.boxes c } p'
  | detach {ids : List ℕ} :
    Does k (.detach ids) { k with volumes := detachVolumesBySandboxIDs k.volumes ids k.now } .done

theorem does_of_run {k k' : Core} {ch : Reply} {p p' : Proc} (h : run k ch p = some (k', p')) : Does k p k' p' := by
  unfold run at h
  repeat' split at h
  all_goals first
    | cases h
    | (obtain ⟨boxes, hi, ⟨⟩⟩ := Option.map_eq_some_iff.mp h; exact .createCall hi)
  -- each branch has its constructor
  all_goals first
    | exact .giveUp rfl | exact .stop (by constructor) | exact .resolved | exact .again
    | exact .read ‹_› ‹_› (Bool.eq_false_iff.mpr ‹_›) | exact .reserve (‹_ ∧ _›).2
    | exact .selectHost fun _ hh => Option.some.inj hh
    | exact .selectHost fun _ hh => (by cases hh)
    | exact .insert | exact .linked
    | exact .link | exact .notLinked | exact .notCalled | exact .booted | exact .lost | exact .noReply
    | exact .mark | exact .notMarked | exact .gone | exact .notTold | exact .release | exact .notReleased
    | exact .beginDelete ‹_› (‹_ ∧ _›).2 (.inl rfl) | exact .beginDelete ‹_› (‹_ ∧ _›).2 (.inr ⟨_, rfl⟩)
    | exact .getHost (.inl rfl) | exact .getHost (.inr (.inl rfl)) | exact .getHost (.inr (.inr rfl))
    | exact .deleteFile (.inl rfl) | exact .deleteFile (.inr rfl) | exact .notDeleted | exact .abort
    | exact .deleteRow | exact .releaseStale | exact .destroy (.inl rfl) | exact .destroy (.inr rfl)
    | exact .detach

/-- What a request starts with. -/
inductive Starts : Proc → Prop
  | resolve (c : ℕ) (refs : List ℕ) : Starts (.resolve c refs [] none)
  | beginDelete (v : ℕ) : Starts (.beginDelete v)
  | releaseStale (cutoff : ℕ) : Starts (.releaseStale cutoff)
  | destroyCall (c n : ℕ) : Starts (.destroyCall c n)
  | detach (ids : List ℕ) : Starts (.detach ids)

theorem starts_of_spawn {k k' : Core} {q : Request} {p : Proc} (h : spawn k q = some (k', p)) :
    Starts p ∧ k' = { k with nextID := k'.nextID } := by
  cases q with
  | create refs =>
    simp only [spawn] at h
    split_ifs at h
    cases h
    exact ⟨.resolve _ _, rfl⟩
  | delete v =>
    cases h
    exact ⟨.beginDelete v, rfl⟩
  | reap =>
    cases h
    exact ⟨.releaseStale _, rfl⟩
  | destroy c =>
    cases h
    exact ⟨.destroyCall _ _, rfl⟩
  | detach ids =>
    cases h
    exact ⟨.detach ids, rfl⟩

end Wrenn.Volumes.Model
