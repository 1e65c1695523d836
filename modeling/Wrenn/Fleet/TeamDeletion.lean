import Wrenn.Fleet.Database

/-!
# The deletion of a team

`deleteTeamCore` has the agents destroy the capsules of the team that are `running`, `paused` or `starting`,
sets the rows of these to `stopped` and frees their volumes, whatever the agents have said; capsules in any
other status are not looked at.  `cleanupTeamVolumes` then removes the files and records of all volumes of the
team, without regard to the status.

`complete_iff` says exactly when that leaves nothing behind and takes nothing away from a capsule that may
still run.  The metrics, keys, channels and templates of the team are no part of the model.
-/

namespace Wrenn.Fleet.TeamDeletion

open Lib.Tables Database
open ControlPlane.Database (Status)

/-! ### Calls -/

inductive Reply
  | ok
  | notFound
  /-- executed, but the caller gets an error -/
  | lost
  | failed
  deriving DecidableEq, Repr

/-- An attempt to call the agent of a host. -/
inductive Contact
  | noHost
  | noAgent
  | replied (r : Reply)
  deriving DecidableEq, Repr

/-- The host has said that the capsule is gone. -/
def Contact.confirms : Contact → Bool
  | .replied .ok | .replied .notFound => true
  | _ => false

/-- The call has been executed. -/
def Contact.executed : Contact → Bool
  | .replied .ok | .replied .lost => true
  | _ => false

/-! ### `deleteTeamCore` -/

structure Db where
  capsules : Capsules
  volumes : Volumes
  /-- the backing files, each by its host and volume -/
  files : List (ℕ × ℕ)
  deletedTeams : List ℕ

/-- The statements that fail. -/
structure Faults where
  list : Bool
  update : Bool
  detach : Bool
  softDelete : Bool
  cleanupList : Bool
  cleanupDelete : Bool

inductive Error
  | listActive
  | updateStatuses
  | softDelete
  deriving DecidableEq, Repr

structure Outcome where
  db : Db
  /-- the capsules that their hosts have confirmed gone -/
  confirmed : List ℕ
  err : Option Error
  /-- `cleanupTeamVolumes` has been started -/
  cleanup : Bool

/-- The loop over the capsules: the ones to stop and the ones that are confirmed gone. -/
def destroyAll (contact : ℕ → Contact) (sandboxes : List Capsule) : List ℕ × List ℕ :=
  sandboxes.foldl (fun acc sb =>
    (acc.1 ++ [sb.id], if (contact sb.id).confirms then acc.2 ++ [sb.id] else acc.2)) ([], [])

def deleteTeamCore (f : Faults) (contact : ℕ → Contact) (d : Db) (team : ℕ) : Outcome :=
  if f.list then ⟨d, [], some .listActive, false⟩
  else
    let (stopIDs, confirmed) := destroyAll contact (listActiveSandboxesByTeam d.capsules team)
    if stopIDs ≠ [] ∧ f.update then ⟨d, confirmed, some .updateStatuses, false⟩
    else
      let d1 := if stopIDs ≠ [] then { d with
        capsules := bulkUpdateStatusByIDs d.capsules stopIDs .stopped
        volumes := if f.detach then d.volumes else detachVolumesBySandboxIDs d.volumes stopIDs } else d
      if f.softDelete then ⟨d1, confirmed, some .softDelete, true⟩
      else ⟨{ d1 with deletedTeams := team :: d1.deletedTeams }, confirmed, none, true⟩

/-- One volume of `cleanupTeamVolumes`. -/
def cleanupVolume (contact : ℕ → Contact) (files : List (ℕ × ℕ)) (v : Volume) : List (ℕ × ℕ) :=
  match v.host with
  | none => files
  | some h => if (contact v.id).executed then files.filter fun e => decide (e ≠ (h, v.id)) else files

def cleanupTeamVolumes (f : Faults) (contact : ℕ → Contact) (d : Db) (team : ℕ) : Db :=
  if f.cleanupList then d
  else
    let volumes := listVolumesByTeam d.volumes team
    if volumes = [] then d
    else { d with
      files := volumes.foldl (cleanupVolume contact) d.files
      volumes := if f.cleanupDelete then d.volumes else deleteVolumesByTeam d.volumes team }

/-! ### The purpose -/

/-- When the deletion has returned nil: every capsule of the team has come to its end; and what was set to
`stopped`, or lost a volume by the deletion or the clean-up after it, is confirmed gone. -/
def Complete (f : Faults) (calls volumeCalls : ℕ → Contact) (d : Db) (team : ℕ) : Prop :=
  let o := deleteTeamCore f calls d team
  let d' := if o.cleanup then cleanupTeamVolumes f volumeCalls o.db team else o.db
  o.err = none →
    (∀ c ∈ o.db.capsules.rows, c.team = team → terminal c.status = true) ∧
    (∀ c ∈ d.capsules.rows, o.db.capsules.select c.id ≠ some c → c.id ∈ o.confirmed) ∧
    (∀ v ∈ d.volumes.rows, ∀ c, v.sandbox = some c → o.db.volumes.select v.id ≠ some v → c ∈ o.confirmed) ∧
    ∀ v ∈ d.volumes.rows, v.team = team → ∀ c, v.sandbox = some c →
      (d'.volumes.select v.id = none ∨ ∃ h, v.host = some h ∧ (h, v.id) ∈ o.db.files ∧ (h, v.id) ∉ d'.files) →
        c ∈ o.confirmed

/-! ### When it fails -/

/-- A statement on which the deletion depends fails. -/
def Fails (f : Faults) (d : Db) (team : ℕ) : Prop :=
  f.list = true ∨ (f.update = true ∧ listActiveSandboxesByTeam d.capsules team ≠ []) ∨ f.softDelete = true

/-- The capsules of the loop. -/
def stopIDs (d : Db) (team : ℕ) : List ℕ := (listActiveSandboxesByTeam d.capsules team).map Capsule.id

theorem destroyAll_eq (contact : ℕ → Contact) (l : List Capsule) :
    destroyAll contact l =
      (l.map Capsule.id, (l.filter fun c => (contact c.id).confirms).map Capsule.id) := by
  have hacc : ∀ (l : List Capsule) (a b : List ℕ), l.foldl (fun acc sb =>
      (acc.1 ++ [sb.id], if (contact sb.id).confirms then acc.2 ++ [sb.id] else acc.2)) (a, b) =
      (a ++ l.map Capsule.id, b ++ (l.filter fun c => (contact c.id).confirms).map Capsule.id) := by
    intro l
    induction l with
    | nil => simp
    | cons c l ih =>
      intro a b
      rw [List.foldl_cons, ih]
      by_cases hc : (contact c.id).confirms = true <;> simp [hc]
  simpa [destroyAll] using hacc l [] []

theorem stopIDs_eq_nil {d : Db} {team : ℕ} :
    stopIDs d team = [] ↔ listActiveSandboxesByTeam d.capsules team = [] := List.map_eq_nil_iff

theorem mem_stopIDs {d : Db} {team : ℕ} {c : Capsule} (hc : c ∈ d.capsules.rows) :
    c.id ∈ stopIDs d team ↔ c.team = team ∧ active c.status = true := by
  unfold stopIDs
  rw [List.mem_map]
  constructor
  · rintro ⟨c', hc', hid⟩
    obtain ⟨hrow, hteam, hact⟩ := mem_listActive.mp hc'
    obtain rfl : c' = c := Table.eq_of_key hrow hc hid
    exact ⟨hteam, hact⟩
  · rintro ⟨hteam, hact⟩
    exact ⟨c, mem_listActive.mpr ⟨hc, hteam, hact⟩, rfl⟩

/-- The host of the capsule has confirmed that it is gone. -/
def Gone (calls : ℕ → Contact) (d : Db) (team c : ℕ) : Prop :=
  ∃ r ∈ d.capsules.rows, r.id = c ∧ r.team = team ∧ active r.status = true ∧ (calls c).confirms = true

/-- What a deletion has done that returns nil. -/
structure Returned (f : Faults) (calls : ℕ → Contact) (d : Db) (team : ℕ) (o : Outcome) : Prop where
  err : o.err = none
  cleanup : o.cleanup = true
  confirmed : ∀ c, c ∈ o.confirmed ↔ Gone calls d team c
  files : o.db.files = d.files
  capsules : ∀ c, o.db.capsules.select c =
    (d.capsules.select c).map fun r => if r.id ∈ stopIDs d team then { r with status := .stopped } else r
  volumes : ∀ v, o.db.volumes.select v = (d.volumes.select v).map fun r =>
    if f.detach = false ∧ (∃ c ∈ stopIDs d team, r.sandbox = some c) ∧ r.status ∈ [.attached, .attaching] then
      { r with status := .detached, sandbox := none } else r

theorem mem_confirmed {calls : ℕ → Contact} {d : Db} {team c : ℕ} :
    c ∈ ((listActiveSandboxesByTeam d.capsules team).filter fun r => (calls r.id).confirms).map Capsule.id ↔
      Gone calls d team c := by
  simp only [List.mem_map, List.mem_filter, mem_listActive, Gone]
  constructor
  · rintro ⟨r, ⟨⟨hrow, hteam, hact⟩, hcalls⟩, rfl⟩
    exact ⟨r, hrow, rfl, hteam, hact, hcalls⟩
  · rintro ⟨r, hrow, rfl, hteam, hact, hcalls⟩
    exact ⟨r, ⟨⟨hrow, hteam, hact⟩, hcalls⟩, rfl⟩

theorem returned_or_fails (f : Faults) (calls : ℕ → Contact) (d : Db) (team : ℕ) :
    (Fails f d team ∧ (deleteTeamCore f calls d team).err ≠ none) ∨
      (¬ Fails f d team ∧ Returned f calls d team (deleteTeamCore f calls d team)) := by
  unfold deleteTeamCore
  rw [destroyAll_eq]
  by_cases hlist : f.list = true
  · exact .inl ⟨.inl hlist, by simp [hlist]⟩
  simp only [hlist, Bool.false_eq_true, if_false]
  by_cases hupd : stopIDs d team ≠ [] ∧ f.update = true
  · have hupd' := hupd
    unfold stopIDs at hupd'
    rw [if_pos hupd']
    exact .inl ⟨.inr (.inl ⟨hupd.2, fun hnil => hupd.1 (stopIDs_eq_nil.mpr hnil)⟩), by simp⟩
  · have hupd' := hupd
    unfold stopIDs at hupd'
    rw [if_neg hupd']
    by_cases hsoft : f.softDelete = true
    · exact .inl ⟨.inr (.inr hsoft), by simp [hsoft]⟩
    · rw [if_neg hsoft]
      have hnot : ¬ Fails f d team := by
        rintro (h | ⟨h, hne⟩ | h)
        · exact hlist h
        · exact hupd ⟨fun hnil => hne (stopIDs_eq_nil.mp hnil), h⟩
        · exact hsoft h
      refine .inr ⟨hnot, rfl, rfl, fun c => mem_confirmed, ?_, fun c => ?_, fun v => ?_⟩
      · split_ifs <;> rfl
      · change Table.select (if stopIDs d team ≠ [] then _ else d).capsules c = _
        by_cases hnil : stopIDs d team = []
        · rw [if_neg (not_not.mpr hnil), hnil]
          simp
        · rw [if_pos hnil]
          change (bulkUpdateStatusByIDs d.capsules (stopIDs d team) .stopped).select c = _
          rw [bulkUpdateStatusByIDs, Table.select_update]
          simp only [decide_eq_true_eq]
      · change Table.select (if stopIDs d team ≠ [] then _ else d).volumes v = _
        by_cases hnil : stopIDs d team = []
        · rw [if_neg (not_not.mpr hnil), hnil]
          simp
        · rw [if_pos hnil]
          change (if f.detach then d.volumes else detachVolumesBySandboxIDs d.volumes (stopIDs d team)).select v = _
          cases hdet : f.detach with
          | true => simp
          | false =>
            simp only [Bool.false_eq_true, if_false, true_and]
            rw [detachVolumesBySandboxIDs, Table.select_update]
            simp only [decide_eq_true_eq]

/-! ### The clean-up -/

theorem mem_cleanup_files {contact : ℕ → Contact} {e : ℕ × ℕ} (l : List Volume) (files : List (ℕ × ℕ)) :
    e ∈ l.foldl (cleanupVolume contact) files ↔
      e ∈ files ∧ ∀ v ∈ l, ¬ (v.host = some e.1 ∧ v.id = e.2 ∧ (contact v.id).executed = true) := by
  induction l generalizing files with
  | nil => simp
  | cons v l ih =>
    have hone : e ∈ cleanupVolume contact files v ↔
        e ∈ files ∧ ¬ (v.host = some e.1 ∧ v.id = e.2 ∧ (contact v.id).executed = true) := by
      unfold cleanupVolume
      cases hh : v.host with
      | none => simp
      | some h =>
        by_cases hx : (contact v.id).executed = true
        · have hne : e ≠ (h, v.id) ↔ ¬ (h = e.1 ∧ v.id = e.2) := by
            rw [ne_eq, Prod.ext_iff, eq_comm, @eq_comm _ e.2]
          simp [hx, hne]
        · simp [hx]
    rw [List.foldl_cons, ih, hone]
    simp only [List.forall_mem_cons, and_assoc]

/-- The clean-up takes the record of the volume or its file. -/
def Cleaned (f : Faults) (volumeCalls : ℕ → Contact) (d : Db) (v : Volume) : Prop :=
  f.cleanupList = false ∧
    (f.cleanupDelete = false ∨
      ∃ h, v.host = some h ∧ (h, v.id) ∈ d.files ∧ (volumeCalls v.id).executed = true)

section Cleanup

variable {f : Faults} {calls volumeCalls : ℕ → Contact} {d : Db} {team : ℕ} {o : Outcome}

/-- Detaching changes neither the team nor the host of a volume. -/
theorem Returned.kept (ho : Returned f calls d team o) {v : Volume} (hv : v ∈ d.volumes.rows) :
    ∃ v' ∈ o.db.volumes.rows, v'.id = v.id ∧ v'.team = v.team ∧ v'.host = v.host := by
  have hsel := ho.volumes v.id
  rw [Table.select_mem hv, Option.map_some] at hsel
  obtain ⟨hmem, hid⟩ := Table.select_eq_some.mp hsel
  refine ⟨_, hmem, hid, ?_, ?_⟩ <;> split_ifs <;> rfl

theorem Returned.cleaned_iff (ho : Returned f calls d team o) {v : Volume} (hv : v ∈ d.volumes.rows)
    (hteam : v.team = team) :
    ((cleanupTeamVolumes f volumeCalls o.db team).volumes.select v.id = none ∨
      ∃ h, v.host = some h ∧ (h, v.id) ∈ o.db.files ∧
        (h, v.id) ∉ (cleanupTeamVolumes f volumeCalls o.db team).files) ↔ Cleaned f volumeCalls d v := by
  obtain ⟨v', hv', hid, hteam', hhost⟩ := ho.kept hv
  have hsel : o.db.volumes.select v.id = some v' := Table.select_eq_some.mpr ⟨hv', hid⟩
  have hlisted : v' ∈ listVolumesByTeam o.db.volumes team :=
    Table.mem_list.mpr ⟨hv', decide_eq_true (hteam'.trans hteam)⟩
  unfold cleanupTeamVolumes Cleaned
  cases hlist : f.cleanupList with
  | true => simp [hsel]
  | false =>
    have hne : listVolumesByTeam o.db.volumes team ≠ [] := List.ne_nil_of_mem hlisted
    simp only [Bool.false_eq_true, if_false, hne, true_and]
    have hrow : (if f.cleanupDelete = true then o.db.volumes
        else deleteVolumesByTeam o.db.volumes team).select v.id = none ↔ f.cleanupDelete = false := by
      cases hdel : f.cleanupDelete with
      | true => simp [hsel]
      | false =>
        have hteam'' : v'.team = team := hteam'.trans hteam
        simp [deleteVolumesByTeam, Table.select_delete, hsel, hteam'']
    rw [hrow]
    refine or_congr_right (exists_congr fun h => and_congr_right fun hh => ?_)
    rw [mem_cleanup_files, ho.files]
    refine and_congr_right fun hfile => ?_
    constructor
    · intro hgone
      by_contra hexec
      refine hgone ⟨hfile, fun w _ hw => hexec ?_⟩
      have hw' : w.id = v.id := hw.2.1
      rw [← hw']
      exact hw.2.2
    · rintro hexec ⟨-, hall⟩
      refine hall v' hlisted ⟨hhost.trans hh, hid, ?_⟩
      rw [hid]
      exact hexec

end Cleanup

/-! ### When it is complete -/

/-- No capsule of the team is in a status that the deletion passes over, every other is confirmed gone, and so
is the capsule of each volume that the clean-up takes. -/
structure Orderly (f : Faults) (calls volumeCalls : ℕ → Contact) (d : Db) (team : ℕ) : Prop where
  seen : ∀ c ∈ d.capsules.rows, c.team = team → active c.status = true ∨ terminal c.status = true
  reached : ∀ c ∈ d.capsules.rows, c.team = team → active c.status = true → (calls c.id).confirms = true
  released : ∀ v ∈ d.volumes.rows, v.team = team → ∀ c, v.sandbox = some c → Cleaned f volumeCalls d v →
    Gone calls d team c

section Complete

variable {f : Faults} {calls volumeCalls : ℕ → Contact} {d : Db} {team : ℕ} {o : Outcome}

theorem Returned.ended_iff (ho : Returned f calls d team o) :
    (∀ c ∈ o.db.capsules.rows, c.team = team → terminal c.status = true) ↔
      ∀ c ∈ d.capsules.rows, c.team = team → active c.status = true ∨ terminal c.status = true := by
  constructor
  · intro hall c hc hteam
    by_contra hneither
    rw [not_or] at hneither
    have hsel := ho.capsules c.id
    have hnot : c.id ∉ stopIDs d team := fun hmem => hneither.1 ((mem_stopIDs hc).mp hmem).2
    rw [Table.select_mem hc, Option.map_some, if_neg hnot] at hsel
    exact hneither.2 (hall c (Table.select_eq_some.mp hsel).1 hteam)
  · intro hall c hc hteam
    have hsel := (ho.capsules c.id).symm
    rw [Table.select_mem hc] at hsel
    obtain ⟨c0, hc0, heq⟩ := Option.map_eq_some_iff.mp hsel
    have hrow := (Table.select_eq_some.mp hc0).1
    by_cases hmem : c0.id ∈ stopIDs d team
    · rw [if_pos hmem] at heq
      rw [← heq]
      rfl
    · rw [if_neg hmem] at heq
      subst heq
      refine (hall c0 hrow hteam).resolve_left fun hact => hmem ?_
      exact (mem_stopIDs hrow).mpr ⟨hteam, hact⟩

theorem Returned.stopped_iff (ho : Returned f calls d team o) {c : Capsule} (hc : c ∈ d.capsules.rows) :
    o.db.capsules.select c.id ≠ some c ↔ c.team = team ∧ active c.status = true := by
  rw [ho.capsules, Table.select_mem hc, Option.map_some, ne_eq, Option.some.injEq, ← mem_stopIDs hc]
  by_cases hmem : c.id ∈ stopIDs d team
  · have hact := ((mem_stopIDs hc).mp hmem).2
    refine iff_of_true (fun heq => ?_) hmem
    rw [if_pos hmem] at heq
    have hst : Status.stopped = c.status := congrArg Capsule.status heq
    rw [← hst] at hact
    cases hact
  · exact iff_of_false (fun hne => hne (if_neg hmem)) hmem

/-- A volume changes only with a capsule of the loop. -/
theorem Returned.detached (ho : Returned f calls d team o) {v : Volume} (hv : v ∈ d.volumes.rows) {c : ℕ}
    (hc : v.sandbox = some c) (hne : o.db.volumes.select v.id ≠ some v) : c ∈ stopIDs d team := by
  rw [ho.volumes, Table.select_mem hv, Option.map_some, ne_eq, Option.some.injEq] at hne
  by_contra hnot
  refine hne (if_neg fun hcond => hnot ?_)
  obtain ⟨-, ⟨c', hc', hsb⟩, -⟩ := hcond
  rw [hc, Option.some.injEq] at hsb
  rwa [hsb]

/-- What the deletion may have touched is gone as soon as every capsule of the loop is. -/
theorem gone_of_stopIDs {c : ℕ}
    (hreached : ∀ r ∈ d.capsules.rows, r.team = team → active r.status = true → (calls r.id).confirms = true)
    (hc : c ∈ stopIDs d team) : Gone calls d team c := by
  obtain ⟨r, hr, rfl⟩ := List.mem_map.mp hc
  obtain ⟨hrow, hteam, hact⟩ := mem_listActive.mp hr
  exact ⟨r, hrow, rfl, hteam, hact, hreached r hrow hteam hact⟩

/-- A team is deleted completely and safely exactly when the deletion fails, or every one of its capsules is
in a status that the deletion looks at, their hosts confirm that they are gone, and no volume that the
clean-up takes belongs to any other capsule. -/
theorem complete_iff (f : Faults) (calls volumeCalls : ℕ → Contact) (d : Db) (team : ℕ) :
    Complete f calls volumeCalls d team ↔ Fails f d team ∨ Orderly f calls volumeCalls d team := by
  unfold Complete
  rcases returned_or_fails f calls d team with ⟨hfails, herr⟩ | ⟨hnot, ho⟩
  · exact iff_of_true (fun hnone => absurd hnone herr) (.inl hfails)
  simp only [ho.cleanup, if_true, ho.err, true_implies, hnot, false_or, ho.ended_iff]
  constructor
  · rintro ⟨hseen, hstopped, -, hcleaned⟩
    refine ⟨hseen, fun c hc hteam hact => ?_, fun v hv hteam c hsb hclean => ?_⟩
    · obtain ⟨r, -, -, -, -, hcalls⟩ :=
        (ho.confirmed c.id).mp (hstopped c hc ((ho.stopped_iff hc).mpr ⟨hteam, hact⟩))
      exact hcalls
    · exact (ho.confirmed c).mp (hcleaned v hv hteam c hsb ((ho.cleaned_iff hv hteam).mpr hclean))
  · rintro ⟨hseen, hreached, hreleased⟩
    refine ⟨hseen, fun c hc hne => ?_, fun v hv c hsb hne => ?_, fun v hv hteam c hsb hclean => ?_⟩
    · obtain ⟨hteam, hact⟩ := (ho.stopped_iff hc).mp hne
      exact (ho.confirmed c.id).mpr ⟨c, hc, rfl, hteam, hact, hreached c hc hteam hact⟩
    · exact (ho.confirmed c).mpr (gone_of_stopIDs hreached (ho.detached hv hsb hne))
    · exact (ho.confirmed c).mpr (hreleased v hv hteam c hsb ((ho.cleaned_iff hv hteam).mp hclean))

end Complete

/-! ### A team with two capsules -/

/-- No statement fails. -/
def noFaults : Faults := ⟨false, false, false, false, false, false⟩

/-- The first capsule runs with a volume, the second is being paused. -/
def twoCapsules : Db where
  capsules := ⟨[⟨1, 7, 3, .running, 2, 512, 5120⟩, ⟨2, 7, 3, .pausing, 2, 512, 5120⟩], by decide⟩
  volumes := ⟨[⟨9, 7, some 3, some 1, .attached⟩], by decide⟩
  files := [(3, 9)]
  deletedTeams := []

/-- The destroy of the running capsule fails: the team is deleted all the same, with one capsule that is
`stopped` in the database and runs on its host, where the file of its volume is removed, and another that
stays `pausing`. -/
theorem unreachable_capsule_left_behind :
    ¬ Complete noFaults (fun _ => .replied .failed) (fun _ => .replied .ok) twoCapsules 7 ∧
      (let o := deleteTeamCore noFaults (fun _ => .replied .failed) twoCapsules 7
       o.err = none ∧ o.confirmed = [] ∧ o.db.capsules.rows.map Capsule.status = [.stopped, .pausing] ∧
        (cleanupTeamVolumes noFaults (fun _ => .replied .ok) o.db 7).files = []) := by
  constructor
  · intro h
    have hend := (h (by decide +kernel)).1 ⟨2, 7, 3, .pausing, 2, 512, 5120⟩ (by decide +kernel) rfl
    cases hend
  · decide +kernel

end Wrenn.Fleet.TeamDeletion
