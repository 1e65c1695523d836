import Wrenn.Sessions.Members

/-!
# Accounts and teams

The tables of the users, of the teams and of their members, with the statements on them that decide about accounts,
and `DeleteAccount`, which takes several of them.  What else goes with a team (its sandboxes, keys, channels,
templates and volumes) is left out; a step that fails ends the call, like a crash.
-/

namespace Wrenn.Accounts.Database

open Lib.Tables
open Sessions.Members (Member)

inductive UserStatus
  | inactive
  | active
  | disabled
  | deleted
  deriving DecidableEq, Repr

structure User where
  id : ℕ
  status : UserStatus
  isAdmin : Bool
  deriving DecidableEq, Repr

structure Team where
  id : ℕ
  deleted : Bool
  deriving DecidableEq, Repr

structure Db where
  users : Table User.id
  teams : Table Team.id
  members : Table Member.key

/-! ### Statements -/

/-- Accounts that are deleted are not found. -/
def Db.getUserByID (db : Db) (u : ℕ) : Option User := (db.users.select u).filter fun r => r.status != .deleted

def setStatus (status : UserStatus) (r : User) : User := { r with status := status }

theorem setStatus_id (status : UserStatus) (r : User) : (setStatus status r).id = r.id := rfl

def Db.setUserStatus (db : Db) (u : ℕ) (status : UserStatus) : Db :=
  { db with users := db.users.update (fun r => r.id == u) (setStatus status) (setStatus_id status) }

def setAdmin (b : Bool) (r : User) : User := { r with isAdmin := b }

theorem setAdmin_id (b : Bool) (r : User) : (setAdmin b r).id = r.id := rfl

def Db.setUserAdmin (db : Db) (u : ℕ) : Db :=
  { db with users := db.users.update (fun r => r.id == u) (setAdmin true) (setAdmin_id true) }

/-- The admins that count for `RevokeUserAdmin`. -/
def Db.admins (db : Db) : List User := db.users.list fun r => r.isAdmin && r.status != .deleted

/-- The count and the update are one statement. -/
def Db.revokeUserAdmin (db : Db) (u : ℕ) : Db :=
  { db with
    users := db.users.update (fun r => r.id == u && r.isAdmin && decide (1 < db.admins.length)) (setAdmin false)
      (setAdmin_id false) }

def Db.softDeleteUser (db : Db) (u : ℕ) : Db := db.setUserStatus u .deleted

/-- A member of the team other than the user. -/
def Db.shared (db : Db) (team u : ℕ) : Bool := db.members.rows.any fun m => m.team == team && m.user != u

/-- `CountUserOwnedTeamsWithOtherMembers` is positive; teams that are deleted count. -/
def Db.ownsShared (db : Db) (u : ℕ) : Bool :=
  db.members.rows.any fun m => m.user == u && m.role == .owner && db.shared m.team u

def Db.live (db : Db) (team : ℕ) : Bool := (db.teams.select team).any fun t => !t.deleted

def Db.listSoleOwnedTeams (db : Db) (u : ℕ) : List ℕ :=
  (db.members.list fun m => m.user == u && m.role == .owner && db.live m.team && !db.shared m.team u).map Member.team

def markDeleted (t : Team) : Team := { t with deleted := true }

theorem markDeleted_id (t : Team) : (markDeleted t).id = t.id := rfl

def Db.softDeleteTeam (db : Db) (team : ℕ) : Db :=
  { db with teams := db.teams.update (fun t => t.id == team) markDeleted markDeleted_id }

/-! ### `DeleteAccount` -/

inductive Deletion
  | getUser (u : ℕ)
  | countTeams (u : ℕ)
  | listTeams (u : ℕ)
  | deleteTeams (u : ℕ) (todo : List ℕ)
  | softDelete (u : ℕ)
  | ended
  deriving DecidableEq, Repr

def Deletion.run (db : Db) : Deletion → Db × Deletion
  | .getUser u => (db, if (db.getUserByID u).isSome then .countTeams u else .ended)
  | .countTeams u => (db, if db.ownsShared u then .ended else .listTeams u)
  | .listTeams u => (db, .deleteTeams u (db.listSoleOwnedTeams u))
  | .deleteTeams u [] => (db, .softDelete u)
  | .deleteTeams u (t :: ts) => (db.softDeleteTeam t, .deleteTeams u ts)
  | .softDelete u => (db.softDeleteUser u, .ended)
  | .ended => (db, .ended)

end Wrenn.Accounts.Database
