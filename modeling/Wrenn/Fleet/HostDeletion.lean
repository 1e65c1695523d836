import Wrenn.Fleet.Database
import Wrenn.Lib.Runs
import Wrenn.Lib.Threads

/-!
# The deletion of a host

`HostService.Delete` refuses a host with capsules unless it is forced, and with force sets these capsules to
`stopped` before it removes the record of the host.  The capsules it has in mind are the ones in the four
statuses `pending`, `starting`, `running` and `missing`; that the update of their rows fails is logged only.
There is no transaction: every statement is a step, and in between others insert capsules and change their
statuses.

`reach_none_left` says when no capsule of the host is left in a status that is not final: the listing passes
over none, the update succeeds, and meanwhile nobody brings a capsule of the host to life.
-/

namespace Wrenn.Fleet.HostDeletion

open Lib.Tables Lib.Threads Lib.Runs Database
open ControlPlane.Database (Status)

/-! ### The service -/

inductive Role
  | owner
  | admin
  | member
  deriving DecidableEq, Repr

structure Request where
  host : ℕ
  user : Option ℕ
  team : ℕ
  isAdmin : Bool
  force : Bool
  deriving DecidableEq, Repr

inductive Error
  | hostNotFound
  | onlyAdmins
  | otherTeam
  | notMember
  | checkMembership
  | onlyOwnersAndAdmins
  | listSandboxes
  | hasSandboxes (ids : List ℕ)
  | countVolumes
  | hasVolumes (n : ℕ)
  | releaseVolumes
  | deleteHost
  deriving DecidableEq, Repr

/-- Calls to the agent of the host. -/
inductive Call
  | destroySandbox (c : ℕ)
  | terminate
  deriving DecidableEq, Repr

/-- A deletion that has succeeded, with the capsules at its listing and at its end. -/
structure Deletion where
  request : Request
  listed : Capsules
  left : Capsules

structure Core where
  hosts : Hosts
  capsules : Capsules
  volumes : Volumes
  /-- the role of a user in a team -/
  membership : ℕ → ℕ → Option Role
  calls : List Call
  deletions : List Deletion

inductive Reply
  | ok
  | failed
  deriving DecidableEq, Repr

/-- What `Delete` does next; from the listing on with the capsules at that time. -/
inductive Proc
  | getHost (r : Request)
  | getMembership (r : Request) (host : Host) (user : ℕ)
  | list (r : Request) (host : Host)
  | count (r : Request) (host : Host) (sandboxes : List Capsule) (before : Capsules)
  /-- `GetForHost` and the calls of the agent -/
  | agent (r : Request) (host : Host) (sandboxes : List Capsule) (before : Capsules)
  | update (r : Request) (sandboxes : List Capsule) (before : Capsules)
  | detach (r : Request) (before : Capsules)
  | deleteHost (r : Request) (before : Capsules)
  | ended (err : Option Error)
  /-- the process went away -/
  | crashed

def requireAdminOrOwner : Role → Except Error Unit
  | .owner | .admin => .ok ()
  | .member => .error .onlyOwnersAndAdmins

/-- The statuses of the capsules that `Delete` looks at. -/
def listed : List Status := [.pending, .starting, .running, .missing]

def agentCalls (sandboxes : List Capsule) : List Call :=
  ((sandboxes.filter fun sb => decide (sb.status = .running ∨ sb.status = .starting)).map fun sb =>
    .destroySandbox sb.id) ++ [.terminate]

def run (k : Core) (reply : Reply) : Proc → Option (Core × Proc)
  | .getHost r =>
    match reply, k.hosts.select r.host with
    | .ok, some host =>
      if r.isAdmin then some (k, .list r host)
      else if host.type ≠ .byoc then some (k, .ended (some .onlyAdmins))
      else if host.team ≠ some r.team then some (k, .ended (some .otherTeam))
      else match r.user with
        | none => some (k, .list r host)
        | some u => some (k, .getMembership r host u)
    | _, _ => some (k, .ended (some .hostNotFound))
  | .getMembership r host u =>
    match reply, k.membership u r.team with
    | .failed, _ => some (k, .ended (some .checkMembership))
    | .ok, none => some (k, .ended (some .notMember))
    | .ok, some role =>
      match requireAdminOrOwner role with
      | .error e => some (k, .ended (some e))
      | .ok () => some (k, .list r host)
  | .list r host =>
    let sandboxes := listSandboxesByHostAndStatus k.capsules r.host listed
    match reply with
    | .failed => some (k, .ended (some .listSandboxes))
    | .ok =>
      if sandboxes ≠ [] ∧ ¬r.force then some (k, .ended (some (.hasSandboxes (sandboxes.map Capsule.id))))
      else if r.force then some (k, .agent r host sandboxes k.capsules)
      else some (k, .count r host sandboxes k.capsules)
  | .count r host sandboxes before =>
    match reply with
    | .failed => some (k, .ended (some .countVolumes))
    | .ok =>
      if countVolumesByHost k.volumes r.host > 0 then
        some (k, .ended (some (.hasVolumes (countVolumesByHost k.volumes r.host))))
      else some (k, .agent r host sandboxes before)
  | .agent r host sandboxes before =>
    -- what comes of the calls is logged
    some (if host.address ≠ "" ∧ reply = .ok then { k with calls := k.calls ++ agentCalls sandboxes } else k,
      if sandboxes ≠ [] then .update r sandboxes before else .detach r before)
  | .update r sandboxes before =>
    some (if reply = .ok then
        { k with capsules := bulkUpdateStatusByIDs k.capsules (sandboxes.map Capsule.id) .stopped } else k,
      .detach r before)
  | .detach r before =>
    match reply with
    | .failed => some (k, .ended (some .releaseVolumes))
    | .ok => some ({ k with volumes := detachVolumesByHost k.volumes r.host }, .deleteHost r before)
  | .deleteHost r before =>
    match reply with
    | .failed => some (k, .ended (some .deleteHost))
    | .ok =>
      some ({ k with
        hosts := k.hosts.delete fun h => decide (h.id = r.host)
        deletions := ⟨r, before, k.capsules⟩ :: k.deletions }, .ended none)
  | .ended _ | .crashed => none

/-- What others do to the tables. -/
inductive Env
  | insertSandbox (c : Capsule)
  /-- the status of a capsule changes -/
  | setStatus (c : ℕ) (st : Status)
  | setHosts (t : Hosts)
  | setVolumes (t : Volumes)
  | setMembership (m : ℕ → ℕ → Option Role)

def env (k : Core) : Env → Option Core
  | .insertSandbox c => (k.capsules.insert c).map fun t => { k with capsules := t }
  | .setStatus c st => some { k with capsules := bulkUpdateStatusByIDs k.capsules [c] st }
  | .setHosts t => some { k with hosts := t }
  | .setVolumes t => some { k with volumes := t }
  | .setMembership m => some { k with membership := m }

def prog : Prog Core Proc Request Reply Env where
  spawn := fun k r => some (k, .getHost r)
  run := run
  halt := .crashed
  env := env

abbrev State := Sys Core Proc

abbrev Act := Label Request Reply Env

def step : State → Act → Option State := prog.step

/-- No deletion is on, and none has been. -/
def Initial (s : State) : Prop := s.threads = [] ∧ s.core.deletions = []

/-! ### The condition -/

/-- The statuses that are neither final nor looked at. -/
def passedOver (st : Status) : Bool := !terminal st && decide (st ∉ listed)

/-- The host of a deletion that has listed its capsules, and those that will be set to `stopped`. -/
def deleting : Proc → Option (ℕ × List ℕ)
  | .count r _ sandboxes _ | .agent r _ sandboxes _ | .update r sandboxes _ =>
    some (r.host, sandboxes.map Capsule.id)
  | .detach r _ | .deleteHost r _ => some (r.host, [])
  | _ => none

/-- The condition on the steps of `Delete`: no capsule of the host is in a status that the listing passes over,
unless the listing is refused, and the update succeeds. -/
def orderly (k : Core) (reply : Reply) : Proc → Prop
  | .list r _ =>
    (r.force = true ∨ listSandboxesByHostAndStatus k.capsules r.host listed = []) →
      ∀ c ∈ k.capsules.rows, c.host = r.host → passedOver c.status = false
  | .update _ _ _ => reply = .ok
  | _ => True

/-- The condition on what others write, while the process is at a deletion: no capsule comes to its host, and
none of its capsules leaves a final status, unless the deletion is going to stop it. -/
def spares (k : Core) (p : Proc) : Env → Prop
  | .insertSandbox c => ∀ d ∈ deleting p, c.host ≠ d.1
  | .setStatus c st => terminal st = true ∨
    ∀ d ∈ deleting p, ∀ row ∈ k.capsules.rows, row.id = c → row.host = d.1 → c ∈ d.2
  | _ => True

def Orderly (s : State) : Act → Prop
  | .act t reply => ∀ p ∈ s.threads[t]?, orderly s.core reply p
  | .env e => ∀ p ∈ s.threads, spares s.core p e
  | _ => True

/-! ### The purpose -/

/-- All capsules of the host have come to their end. -/
def Ended (capsules : Capsules) (host : ℕ) : Prop :=
  ∀ c ∈ capsules.rows, c.host = host → terminal c.status = true

/-- The deletion has left no capsule behind, and without force it has found none. -/
def LeavesNone (d : Deletion) : Prop :=
  (d.request.force = false → Ended d.listed d.request.host) ∧ Ended d.left d.request.host

/-- The capsules of the host have come to their end, or will be stopped. -/
def EndedBut (capsules : Capsules) (host : ℕ) (ids : List ℕ) : Prop :=
  ∀ c ∈ capsules.rows, c.host = host → terminal c.status = true ∨ c.id ∈ ids

theorem passedOver_eq_false {st : Status} : passedOver st = false ↔ terminal st = true ∨ st ∈ listed := by
  cases st <;> simp [passedOver, terminal, listed]

variable {t : Capsules} {h : ℕ} {ids : List ℕ}

theorem EndedBut.ended (he : EndedBut t h []) : Ended t h := fun c hc hh =>
  (he c hc hh).resolve_right List.not_mem_nil

/-- Rows that are stopped stay out of the way. -/
theorem EndedBut.bulkUpdate (he : EndedBut t h ids) (ids' : List ℕ) {st : Status} (hst : terminal st = true) :
    EndedBut (bulkUpdateStatusByIDs t ids' st) h ids := by
  intro c hc hh
  obtain ⟨c0, hc0, rfl⟩ := mem_bulkUpdate.mp hc
  split_ifs at hh ⊢
  · exact .inl hst
  · exact he c0 hc0 hh

/-- The update of the listed rows. -/
theorem EndedBut.stopped (he : EndedBut t h ids) : EndedBut (bulkUpdateStatusByIDs t ids .stopped) h [] := by
  intro c hc hh
  obtain ⟨c0, hc0, rfl⟩ := mem_bulkUpdate.mp hc
  split_ifs at hh ⊢ with hin
  · exact .inl rfl
  · exact .inl ((he c0 hc0 hh).resolve_right hin)

theorem EndedBut.insert {t' : Capsules} {c : Capsule} (he : EndedBut t h ids) (hi : t.insert c = some t')
    (hc : c.host ≠ h) : EndedBut t' h ids := by
  intro c' hc' hh
  rcases (Table.mem_insert hi).mp hc' with rfl | hold
  · exact absurd hh hc
  · exact he c' hold hh

theorem EndedBut.setStatus {c : ℕ} {st : Status} (he : EndedBut t h ids)
    (hc : ∀ row ∈ t.rows, row.id = c → row.host = h → c ∈ ids) :
    EndedBut (bulkUpdateStatusByIDs t [c] st) h ids := by
  intro c' hc' hh
  obtain ⟨c0, hc0, rfl⟩ := mem_bulkUpdate.mp hc'
  split_ifs at hh ⊢ with hin
  · have hid : c0.id = c := List.mem_singleton.mp hin
    refine .inr ?_
    change c0.id ∈ ids
    rw [hid]
    exact hc c0 hc0 hid hh
  · exact he c0 hc0 hh

/-- What the listing has not passed over is at its end or is in the list. -/
theorem endedBut_of_listing (hnone : ∀ c ∈ t.rows, c.host = h → passedOver c.status = false) :
    EndedBut t h ((listSandboxesByHostAndStatus t h listed).map Capsule.id) := by
  intro c hc hh
  refine (passedOver_eq_false.mp (hnone c hc hh)).imp_right fun hst => ?_
  exact List.mem_map_of_mem (mem_listByHostAndStatus.mpr ⟨hc, hh, hst⟩)

/-! ### Steps -/

/-- The process has what it needs to leave no capsule behind. -/
def Fit (k : Core) (p : Proc) : Prop :=
  (∀ d ∈ deleting p, EndedBut k.capsules d.1 d.2) ∧
    match p with
    | .count r _ _ before | .agent r _ _ before | .update r _ before | .detach r before | .deleteHost r before =>
      r.force = false → Ended before r.host
    | _ => True

variable {k k' : Core} {p p' q : Proc} {reply : Reply}

theorem Fit.keep (hq : Fit k q) (hk : ∀ d ∈ deleting q, EndedBut k.capsules d.1 d.2 → EndedBut k'.capsules d.1 d.2) :
    Fit k' q := ⟨fun d hd => hk d hd (hq.1 d hd), hq.2⟩

/-- A step of a deletion changes no row but to `stopped`. -/
theorem fit_other (hrun : run k reply p = some (k', p')) (hq : Fit k q) : Fit k' q := by
  refine hq.keep fun d _ he => ?_
  cases p with
  | update r sandboxes before =>
    cases hrun
    split_ifs
    · exact he.bulkUpdate _ rfl
    · exact he
  | agent r host sandboxes before =>
    cases hrun
    split_ifs <;> exact he
  | _ =>
    simp only [run] at hrun
    repeat' split at hrun
    all_goals cases hrun
    all_goals exact he

theorem fit_ended (k : Core) (err : Option Error) : Fit k (.ended err) := ⟨nofun, trivial⟩

theorem fit_crashed (k : Core) : Fit k .crashed := ⟨nofun, trivial⟩

theorem fit_list {r : Request} {host : Host} (hok : orderly k reply (.list r host))
    (hrun : run k reply (.list r host) = some (k', p')) : Fit k' p' := by
  simp only [run] at hrun
  split at hrun
  · cases hrun
    exact fit_ended _ _
  split_ifs at hrun with hbusy hforce <;> cases hrun
  · exact fit_ended _ _
  · refine ⟨fun d hd => ?_, fun hf => absurd (hf.symm.trans hforce) nofun⟩
    cases hd
    exact endedBut_of_listing (hok (.inl hforce))
  · -- without force nothing is listed
    have hnil : listSandboxesByHostAndStatus k.capsules r.host listed = [] := by
      by_contra hne
      exact hbusy ⟨hne, hforce⟩
    have hall := endedBut_of_listing (hok (.inr hnil))
    refine ⟨fun d hd => ?_, fun _ => ?_⟩
    · cases hd
      exact hall
    · rw [hnil] at hall
      exact hall.ended

/-- The process itself. -/
theorem fit_run (hp : Fit k p) (hok : orderly k reply p) (hrun : run k reply p = some (k', p')) : Fit k' p' := by
  have hothers := fit_other hrun hp
  cases p with
  | getHost r | getMembership r host user =>
    simp only [run] at hrun
    repeat' split at hrun
    all_goals cases hrun
    all_goals exact ⟨nofun, trivial⟩
  | list r host => exact fit_list hok hrun
  | count r host sandboxes before =>
    simp only [run] at hrun
    repeat' split at hrun
    all_goals cases hrun
    · exact fit_ended _ _
    · exact fit_ended _ _
    · exact ⟨hp.1, hp.2⟩
  | agent r host sandboxes before =>
    cases hrun
    by_cases hnil : sandboxes = []
    · subst hnil
      exact ⟨hothers.1, hp.2⟩
    · rw [if_pos hnil]
      exact ⟨hothers.1, hp.2⟩
  | update r sandboxes before =>
    cases hok
    cases hrun
    refine ⟨fun d hd => ?_, hp.2⟩
    cases hd
    exact (hp.1 _ rfl).stopped
  | detach r before =>
    cases reply <;> cases hrun
    · exact ⟨hp.1, hp.2⟩
    · exact fit_ended _ _
  | deleteHost r before => cases reply <;> (cases hrun; exact fit_ended _ _)
  | ended | crashed => cases hrun

/-- A deletion is recorded when it succeeds. -/
theorem deletions_run (hp : Fit k p) (hk : ∀ d ∈ k.deletions, LeavesNone d) (hrun : run k reply p = some (k', p')) :
    ∀ d ∈ k'.deletions, LeavesNone d := by
  cases p with
  | deleteHost r before =>
    cases reply <;> cases hrun
    · intro d hd
      rcases List.mem_cons.mp hd with rfl | hd
      · exact ⟨hp.2, (hp.1 _ rfl).ended⟩
      · exact hk d hd
    · exact hk
  | update r sandboxes before | agent r host sandboxes before =>
    cases hrun
    split_ifs <;> exact hk
  | _ =>
    simp only [run] at hrun
    repeat' split at hrun
    all_goals cases hrun
    all_goals exact hk

theorem fit_env {e : Env} (hspares : spares k q e) (henv : env k e = some k') (hq : Fit k q) : Fit k' q := by
  refine hq.keep fun d hd he => ?_
  cases e with
  | insertSandbox c =>
    obtain ⟨t, ht, rfl⟩ := Option.map_eq_some_iff.mp henv
    exact he.insert ht (hspares d hd)
  | setStatus c st =>
    cases henv
    rcases hspares with hst | hin
    · exact he.bulkUpdate _ hst
    · exact he.setStatus (hin d hd)
  | setHosts | setVolumes | setMembership =>
    cases henv
    exact he

theorem deletions_env {e : Env} (henv : env k e = some k') : k'.deletions = k.deletions := by
  cases e with
  | insertSandbox c =>
    obtain ⟨t, -, rfl⟩ := Option.map_eq_some_iff.mp henv
    rfl
  | _ =>
    cases henv
    rfl

/-- **No capsule is left behind**: in every run in which the listings pass over none, the updates succeed and nobody
brings a capsule of a host that is being deleted to life, a deletion that has succeeded has left the host with
capsules at their end only, and without force has found only such. -/
theorem reach_none_left {s : State} (hs : Reach step Orderly Initial s) : ∀ d ∈ s.core.deletions, LeavesNone d := by
  have hfits : Fits (fun k => ∀ d ∈ k.deletions, LeavesNone d) Fit s := by
    refine hs.invariant (I := Fits (fun k => ∀ d ∈ k.deletions, LeavesNone d) Fit) ?_ fun s a s' hi hok h => ?_
    · rintro s ⟨hthreads, hdeletions⟩
      refine ⟨fun d hd => ?_, fun p hp => ?_⟩
      · rw [hdeletions] at hd
        cases hd
      · rw [hthreads] at hp
        cases hp
    · refine fits_step ?_ ?_ fit_crashed ?_ hi h
      · rintro r k p rfl hsp
        cases hsp
        exact ⟨hi.1, ⟨nofun, trivial⟩, hi.2⟩
      · rintro t reply p k p' rest rfl hp hrun hperm
        have hfit := hi.2 p (List.mem_of_getElem? hp)
        refine ⟨deletions_run hfit hi.1 hrun, fit_run hfit (hok p hp) hrun, fun q hq => ?_⟩
        exact fit_other hrun (hi.2 q (hperm.mem_iff.mpr (List.mem_cons_of_mem _ hq)))
      · rintro e k rfl henv
        refine ⟨?_, fun q hq => fit_env (hok q hq) henv (hi.2 q hq)⟩
        rw [deletions_env henv]
        exact hi.1
  exact hfits.1

/-! ### Runs -/

/-- A host with one capsule. -/
def oneCapsule (st : Status) : State where
  core :=
    { hosts := ⟨[⟨3, .regular, none, 64, 131072, 2000, "10.0.0.3:9090", .online⟩], List.nodup_singleton _⟩
      capsules := ⟨[⟨1, 7, 3, st, 2, 512, 5120⟩], List.nodup_singleton _⟩
      volumes := Table.empty
      membership := fun _ _ => none
      calls := []
      deletions := [] }
  threads := []

/-- An administrator deletes the host, with all statements. -/
def deleteRun (force : Bool) (n : ℕ) : List Act :=
  .start ⟨3, none, 0, true, force⟩ :: List.replicate n (.act 0 .ok)

/-- The statuses of the capsules that the deletions have left. -/
def leftStatuses (s : State) : List (List Status) := s.core.deletions.map fun d => d.left.rows.map Capsule.status

/-- A running capsule is stopped by a deletion with force; meanwhile it is paused. -/
def forcedRun : List Act :=
  [.start ⟨3, none, 0, true, true⟩, .act 0 .ok, .act 0 .ok, .act 0 .ok, .env (.setStatus 1 .paused), .act 0 .ok,
    .act 0 .ok, .act 0 .ok]

instance decidableOrderly (k : Core) (reply : Reply) : ∀ p, Decidable (orderly k reply p)
  | .list r _ => inferInstanceAs (Decidable
    ((r.force = true ∨ listSandboxesByHostAndStatus k.capsules r.host listed = []) →
      ∀ c ∈ k.capsules.rows, c.host = r.host → passedOver c.status = false))
  | .update _ _ _ => inferInstanceAs (Decidable (reply = .ok))
  | .getHost _ | .getMembership .. | .count .. | .agent .. | .detach .. | .deleteHost .. | .ended _
  | .crashed => isTrue trivial

instance decidableSpares (k : Core) (p : Proc) : ∀ e, Decidable (spares k p e)
  | .insertSandbox c => inferInstanceAs (Decidable (∀ d ∈ deleting p, c.host ≠ d.1))
  | .setStatus c st => inferInstanceAs (Decidable (terminal st = true ∨
    ∀ d ∈ deleting p, ∀ row ∈ k.capsules.rows, row.id = c → row.host = d.1 → c ∈ d.2))
  | .setHosts _ | .setVolumes _ | .setMembership _ => isTrue trivial

instance decidableOrderlyAct (s : State) : ∀ a, Decidable (Orderly s a)
  | .act t reply => inferInstanceAs (Decidable (∀ p ∈ s.threads[t]?, orderly s.core reply p))
  | .env e => inferInstanceAs (Decidable (∀ p ∈ s.threads, spares s.core p e))
  | .start _ | .crash _ => isTrue trivial

theorem forced_leaves_none :
    leftStatuses (last step (oneCapsule .running) forcedRun) = [[.stopped]] ∧
      ∀ d ∈ (last step (oneCapsule .running) forcedRun).core.deletions, LeavesNone d := by
  have hadm : Admits step Orderly (oneCapsule .running) forcedRun := by decide +kernel
  exact ⟨by decide +kernel, reach_none_left (.last ⟨rfl, rfl⟩ hadm)⟩

/-- An administrator deletes the host of a paused capsule without force: the deletion succeeds, and the capsule stays
`paused`. -/
theorem paused_capsule_left_behind :
    (exec step (oneCapsule .paused) (deleteRun false 6)).map leftStatuses = some [[.paused]] := by
  decide +kernel

end Wrenn.Fleet.HostDeletion
