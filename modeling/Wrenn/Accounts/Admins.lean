import Wrenn.Accounts.Database
import Wrenn.Lib.Runs

/-!
# Platform admins

`SetUserActive`, `SetUserAdmin` and `DeleteAccount` can each take an admin away, and each has another guard:
`RevokeUserAdmin` counts the admins in its own statement, an admin cannot disable their own account, and
`DeleteAccount` does not ask whether the account is an admin's.  Any number of calls run concurrently, every statement
is a step, and whatever else changes the teams is a move of the environment.

* `admin_remains`: there is always an active admin if an account is disabled only while the caller is one, is deleted
  only while it is not an admin's, and admins are revoked only while all of them are active;
* `last_admin_deleted`: the only admin may delete their account.
-/

namespace Wrenn.Accounts.Admins

open Lib.Tables Lib.Threads Lib.Runs Database
open Sessions.Members (Member)

/-! ### The handlers -/

/-- `SetUserActive` and `SetUserAdmin` -/
inductive Request
  | enable (target : ℕ)
  | disable (target : ℕ)
  | setAdmin (target : ℕ) (admin : Bool)
  deriving DecidableEq, Repr

def Request.target : Request → ℕ
  | .enable u | .disable u | .setAdmin u _ => u

/-- Nobody disables their own account. -/
structure Command where
  caller : ℕ
  request : Request
  other : request ≠ .disable caller
  deriving DecidableEq, Repr

inductive Proc
  /-- the middleware -/
  | requireAdmin (c : Command)
  /-- `GetUserByID` of the target -/
  | getTarget (c : Command)
  | write (c : Command)
  | deletion (d : Deletion)
  deriving DecidableEq, Repr

def Request.write (db : Db) : Request → Db
  | .enable u => db.setUserStatus u .active
  | .disable u => db.setUserStatus u .disabled
  | .setAdmin u true => db.setUserAdmin u
  | .setAdmin u false => db.revokeUserAdmin u

/-- `SetUserAdmin` does nothing if the flag is as it is asked for. -/
def Request.noop (r : Request) (user : User) : Bool :=
  match r with
  | .setAdmin _ admin => user.isAdmin == admin
  | _ => false

def run (db : Db) : Proc → Db × Proc
  | .requireAdmin c => (db, if (db.getUserByID c.caller).any User.isAdmin then .getTarget c else .deletion .ended)
  | .getTarget c =>
    (db, if (db.getUserByID c.request.target).any fun user => !c.request.noop user then .write c else .deletion .ended)
  | .write c => (c.request.write db, .deletion .ended)
  | .deletion d => ((d.run db).1, .deletion (d.run db).2)

inductive Call
  | admin (c : Command)
  | deleteAccount (u : ℕ)
  deriving DecidableEq, Repr

def prog : Prog Db Proc Call Unit (Table Team.id × Table Member.key) where
  spawn db
    | .admin c => some (db, .requireAdmin c)
    | .deleteAccount u => some (db, .deletion (.getUser u))
  run db _ p := some (run db p)
  halt := .deletion .ended
  env db e := some { db with teams := e.1, members := e.2 }

abbrev Step := Label Call Unit (Table Team.id × Table Member.key)

/-! ### An active admin -/

def activeAdmin (r : User) : Bool := r.isAdmin && r.status == .active

def HasAdmin (db : Db) : Prop := ∃ u r, db.users.select u = some r ∧ activeAdmin r = true

/-- When a statement may run. -/
def careful (db : Db) : Proc → Bool
  | .write ⟨caller, .disable _, _⟩ => (db.users.select caller).any activeAdmin
  | .write ⟨_, .setAdmin _ false, _⟩ => db.admins.all fun r => r.status == .active
  | .deletion (.softDelete u) => (db.users.select u).all fun r => !r.isAdmin
  | _ => true

/-- The guard of a run. -/
def Careful (s : Sys Db Proc) : Step → Prop
  | .act t _ => (s.threads[t]?).all (careful s.core) = true
  | _ => True

variable {db : Db} {u v : ℕ} {r : User} {s : Sys Db Proc}

/-- An admin that a statement leaves one. -/
theorem hasAdmin_update {q : User → Bool} {f : User → User} {hf : ∀ r, (f r).id = r.id}
    (h : db.users.select v = some r) (hr : activeAdmin (if q r then f r else r) = true) :
    HasAdmin { db with users := db.users.update q f hf } :=
  ⟨v, _, (Table.select_update hf).trans (congrArg _ h), hr⟩

/-- The status of another user, or the status of an active one. -/
theorem hasAdmin_setUserStatus {status : UserStatus} (h : db.users.select v = some r) (hr : activeAdmin r = true)
    (hs : v ≠ u ∨ status = .active) : HasAdmin (db.setUserStatus u status) := by
  refine hasAdmin_update h ?_
  split_ifs with hu
  · have hv : v = u := (Table.select_key h).symm.trans (by simpa using hu)
    rw [hs.resolve_left (not_not_intro hv)]
    simp only [activeAdmin, Bool.and_eq_true] at hr
    simp [activeAdmin, setStatus, hr.1]
  · exact hr

theorem hasAdmin_setUserAdmin (h : HasAdmin db) : HasAdmin (db.setUserAdmin u) := by
  obtain ⟨v, r, hv, hr⟩ := h
  refine hasAdmin_update hv ?_
  simp only [activeAdmin, Bool.and_eq_true] at hr
  split_ifs <;> simp [activeAdmin, setAdmin, hr]

/-- With more than one admin there is another one. -/
theorem exists_other_admin (h : 1 < db.admins.length) : ∃ r ∈ db.admins, r.id ≠ u := by
  have hnodup : (db.admins.map User.id).Nodup := (List.Sublist.map _ List.filter_sublist).nodup db.users.nodup
  cases hl : db.admins with
  | nil =>
    rw [hl] at h
    cases h
  | cons a l =>
    cases l with
    | nil =>
      rw [hl] at h
      exact absurd h (Nat.lt_irrefl 1)
    | cons b l =>
      rw [hl, List.map_cons, List.map_cons] at hnodup
      have hne : a.id ≠ b.id := fun he => (List.nodup_cons.mp hnodup).1 (he ▸ List.mem_cons_self)
      by_cases ha : a.id = u
      · exact ⟨b, List.mem_cons_of_mem _ List.mem_cons_self, fun hb => hne (ha.trans hb.symm)⟩
      · exact ⟨a, List.mem_cons_self, ha⟩

theorem hasAdmin_revokeUserAdmin (h : HasAdmin db) (hall : ∀ r ∈ db.admins, r.status = .active) :
    HasAdmin (db.revokeUserAdmin u) := by
  by_cases hcount : 1 < db.admins.length
  · obtain ⟨r, hr, hne⟩ : ∃ r ∈ db.admins, r.id ≠ u := exists_other_admin hcount
    obtain ⟨hmem, hadm⟩ := Table.mem_list.mp hr
    simp only [Bool.and_eq_true] at hadm
    refine hasAdmin_update (Table.select_mem hmem) ?_
    rw [if_neg (by simp [hne]), activeAdmin, hadm.1, hall r hr]
    rfl
  · obtain ⟨v, r, hv, hr⟩ := h
    refine hasAdmin_update hv ?_
    simp [hcount, hr]

/-- **One statement.** -/
theorem hasAdmin_run {p : Proc} (hok : careful db p = true) (h : HasAdmin db) : HasAdmin (run db p).1 := by
  obtain ⟨v, r, hv, hr⟩ := id h
  cases p with
  | requireAdmin c => exact h
  | getTarget c => exact h
  | write c =>
    obtain ⟨caller, request, hother⟩ := c
    cases request with
    | enable u => exact hasAdmin_setUserStatus hv hr (.inr rfl)
    | disable u =>
      cases hc : db.users.select caller with
      | none =>
        rw [careful, hc] at hok
        cases hok
      | some a =>
        rw [careful, hc] at hok
        exact hasAdmin_setUserStatus hc hok (.inl fun he => hother (he ▸ rfl))
    | setAdmin u admin =>
      cases admin with
      | true => exact hasAdmin_setUserAdmin h
      | false =>
        refine hasAdmin_revokeUserAdmin h fun r hr => ?_
        simpa using List.all_eq_true.mp hok r hr
  | deletion d =>
    cases d with
    | softDelete u =>
      refine hasAdmin_setUserStatus hv hr (.inl ?_)
      rintro rfl
      rw [careful, hv] at hok
      simp only [activeAdmin, Bool.and_eq_true] at hr
      simp [hr.1] at hok
    | deleteTeams u todo => cases todo <;> exact h
    | _ => exact h

/-- **An active admin remains** in every run of careful statements, whatever the calls and their interleaving. -/
theorem admin_remains (h : Reach prog.step Careful (fun s => HasAdmin s.core ∧ s.threads = []) s) :
    HasAdmin s.core := by
  refine Reach.invariant (I := fun s => HasAdmin s.core) (fun s hs => hs.1) ?_ h
  intro s a s' hI hok hs
  cases moves_of_step hs with
  | @start i k p _ hp _ =>
    cases i <;> cases hp <;> exact hI
  | @act t c k p p' rest threads hp hr _ _ =>
    have hk : (run s.core p).1 = k := congrArg Prod.fst (Option.some.inj hr)
    have hp : careful s.core p = true := by simpa [Careful, hp] using hok
    exact hk ▸ hasAdmin_run hp hI
  | crash => exact hI
  | noCrash => exact hI
  | env he =>
    cases he
    exact hI

/-! ### Runs -/

def admin (u : ℕ) : User := ⟨u, .active, true⟩

/-- Two admins, no team. -/
def two : Sys Db Proc := ⟨⟨⟨[admin 1, admin 2], by decide⟩, .empty, .empty⟩, []⟩

/-- Admin 1 revokes admin 2 and disables the account. -/
def revoked : List Step :=
  [.start (.admin ⟨1, .setAdmin 2 false, by decide⟩), .act 0 (), .act 0 (), .act 0 (),
    .start (.admin ⟨1, .disable 2, by decide⟩), .act 1 (), .act 1 (), .act 1 ()]

instance decidableCareful (s : Sys Db Proc) (a : Step) : Decidable (Careful s a) := by
  unfold Careful
  split <;> infer_instance

theorem revoked_keeps_admin : HasAdmin (last prog.step two revoked).core := by
  have hadm : Admits prog.step Careful two revoked := by decide +kernel
  exact admin_remains (.last ⟨⟨1, admin 1, rfl, rfl⟩, rfl⟩ hadm)

/-- The only admin. -/
def one : Sys Db Proc := ⟨⟨⟨[admin 1], by decide⟩, .empty, .empty⟩, []⟩

/-- The only admin, who owns no team, deletes their account. -/
theorem last_admin_deleted :
    (exec prog.step one
      [.start (.deleteAccount 1), .act 0 (), .act 0 (), .act 0 (), .act 0 (), .act 0 ()]).map
        (fun s => s.core.users.rows) =
      some [⟨1, .deleted, true⟩] := by
  decide +kernel

end Wrenn.Accounts.Admins
