import Wrenn.Sessions.Model

/-!
# The members of a team and their credentials

A session is bound to the team that its user works in, and an API key belongs to the team that its creator
worked in.  Neither is bound to the membership: `RemoveMember` and `LeaveTeam` delete the membership, then
the keys that the user has created for the team, and then the cached copies of the user's sessions, so that
the next `Get` reads the row and the membership again (`hydrateFromDB`).  A request is authenticated by `Get`,
or by the lookup of its key; `POST /v1/api-keys` goes on to insert a key for the team of the session.  The
functions run concurrently, and each call to Redis or Postgres is a step.

Sessions are created and revoked in `Sessions.Model`; here there are those of the start.  The role in a
session, which no function here reads, is left out.
-/

namespace Wrenn.Sessions.Members

open Lib.Tables Lib.Threads Cache
open Model (Reply)

/-! ### The tables and the cache -/

/-- A session with its team. -/
structure Session extends Model.Session where
  team : Option ℕ
  deriving DecidableEq, Repr

/-- The primary key. -/
abbrev Session.key (sess : Session) : ℕ := sess.id

inductive Role
  | owner
  | admin
  | member
  deriving DecidableEq, Repr

/-- A row of `users_teams`. -/
structure Member where
  user : ℕ
  team : ℕ
  role : Role
  deriving DecidableEq, Repr

/-- The primary key. -/
def Member.key (m : Member) : ℕ × ℕ := (m.user, m.team)

/-- A row of `team_api_keys`; the id is in place of the hash. -/
structure Key where
  id : ℕ
  team : ℕ
  createdBy : ℕ
  deriving DecidableEq, Repr

structure Core where
  now : ℕ
  rows : Table Session.key
  cache : Copies Session
  members : Table Member.key
  keys : List Key
  nextKey : ℕ
  /-- the accounts that are active -/
  active : ℕ → Bool
  /-- user and team of the removals that have returned -/
  removed : List (ℕ × ℕ)
  /-- user and team of the requests that were let in although the removal had returned when they began -/
  granted : List (ℕ × ℕ)

def Core.cached (k : Core) (sid : ℕ) : Option Session := readCache k.cache k.now sid

def Core.writeCache (k : Core) (sess : Session) : Core :=
  { k with cache := Cache.writeCache k.cache k.now sess.id sess.expiresAt sess }

def Core.slideIdle (k : Core) (sess : Session) : Core :=
  { k with cache := Cache.slideIdle k.cache k.now sess.id sess.expiresAt }

def Core.del (k : Core) (sid : ℕ) : Core := { k with cache := Function.update k.cache sid none }

def Core.deleteSession (k : Core) (sid : ℕ) : Core :=
  { k with rows := k.rows.delete fun r => decide (r.id = sid) }

def Core.getTeamMembership (k : Core) (user : ℕ) (team : Option ℕ) : Option Member :=
  team.bind fun g => k.members.select (user, g)

def Core.deleteTeamMember (k : Core) (user team : ℕ) : Core :=
  { k with members := k.members.delete fun m => decide (m.user = user ∧ m.team = team) }

def Core.deleteAPIKeysByTeamAndCreator (k : Core) (user team : ℕ) : Core :=
  { k with keys := k.keys.filter fun key => decide (¬ (key.createdBy = user ∧ key.team = team)) }

def Core.insertAPIKey (k : Core) (user team : ℕ) : Core :=
  { k with keys := ⟨k.nextKey, team, user⟩ :: k.keys, nextKey := k.nextKey + 1 }

/-- A request that began when the removals `barred` had returned is let in as the user, to the team. -/
def Core.letIn (k : Core) (user : ℕ) (team : Option ℕ) (barred : List (ℕ × ℕ)) : Core :=
  { k with granted := (team.toList.map fun g => (user, g)).filter (fun x => barred.contains x) ++ k.granted }

/-! ### The functions -/

/-- A request that carries a session. -/
structure Request where
  /-- when it began -/
  t : ℕ
  /-- it is a `POST /v1/api-keys` -/
  newKey : Bool
  barred : List (ℕ × ℕ)
  deriving DecidableEq, Repr

inductive Proc
  | readCache (sid : ℕ) (req : Request)
  | slide (sess : Session) (req : Request)
  | getRow (sid : ℕ) (req : Request)
  /-- `revokeByHash`, of a copy past its cap -/
  | delExpired (sid : ℕ)
  | dropRow (sid : ℕ)
  | getUser (sess : Session) (req : Request)
  | getMembership (sess : Session) (req : Request)
  | writeBack (sess : Session) (req : Request)
  | insertKey (user : ℕ) (team : Option ℕ)
  | getKey (kid : ℕ) (barred : List (ℕ × ℕ))
  /-- `UpdateAPIKeyLastUsed` -/
  | touchKey (key : Key) (barred : List (ℕ × ℕ))
  | callerRole (caller user team : ℕ)
  | targetRole (user team : ℕ)
  /-- `callerRole` in `LeaveTeam` -/
  | ownRole (user team : ℕ)
  | deleteMember (user team : ℕ)
  | deleteKeys (user team : ℕ)
  | listSessions (user team : ℕ)
  | delCopies (user team : ℕ) (todo : List ℕ)
  | ended
  deriving DecidableEq, Repr

/-- The request is let in with the session. -/
def Core.serve (k : Core) (sess : Session) (req : Request) : Core × Proc :=
  (k.letIn sess.user sess.team req.barred, if req.newKey then .insertKey sess.user sess.team else .ended)

def Core.markRemoved (k : Core) (user team : ℕ) : Core := { k with removed := (user, team) :: k.removed }

/-- The removals go on when the purge of the keys or of the copies fails. -/
def run (k : Core) (r : Reply) : Proc → Option (Core × Proc)
  | .readCache sid req =>
    match r, k.cached sid with
    | .ok, some sess => some (k, if sess.expiresAt < req.t then .delExpired sid else .slide sess req)
    | _, _ => some (k, .getRow sid req)
  | .slide sess req => some ((if r = .ok then k.slideIdle sess else k).serve sess req)
  | .getRow sid req =>
    match r, k.rows.select sid with
    | .ok, some row => some (k, if row.expiresAt < req.t then .dropRow sid else .getUser row req)
    | _, _ => some (k, .ended)
  | .delExpired sid => some (if r = .ok then k.del sid else k, .dropRow sid)
  | .dropRow sid => some (if r = .ok then k.deleteSession sid else k, .ended)
  | .getUser sess req => some (k, if r = .ok ∧ k.active sess.user then .getMembership sess req else .ended)
  | .getMembership sess req =>
    match r, k.getTeamMembership sess.user sess.team with
    | .ok, some _ => some (k, .writeBack sess req)
    | .ok, none => some (k, .writeBack { sess with team := none } req)
    | .failed, _ => some (k, .ended)
  | .writeBack sess req => some ((if r = .ok then k.writeCache sess else k).serve sess req)
  | .insertKey user team =>
    match r, team with
    | .ok, some g => some (k.insertAPIKey user g, .ended)
    | _, _ => some (k, .ended)
  | .getKey kid barred =>
    match r, k.keys.find? fun key => decide (key.id = kid) with
    | .ok, some key => some (k, .touchKey key barred)
    | _, _ => some (k, .ended)
  | .touchKey key barred => some (k.letIn key.createdBy (some key.team) barred, .ended)
  | .callerRole caller user team =>
    match r, k.members.select (caller, team) with
    | .ok, some m => some (k, if m.role = .owner ∨ m.role = .admin then .targetRole user team else .ended)
    | _, _ => some (k, .ended)
  | .targetRole user team | .ownRole user team =>
    match r, k.members.select (user, team) with
    | .ok, some m => some (k, if m.role = .owner then .ended else .deleteMember user team)
    | _, _ => some (k, .ended)
  | .deleteMember user team =>
    if r = .ok then some (k.deleteTeamMember user team, .deleteKeys user team) else some (k, .ended)
  | .deleteKeys user team =>
    some (if r = .ok then k.deleteAPIKeysByTeamAndCreator user team else k, .listSessions user team)
  | .listSessions user team =>
    some (k, .delCopies user team
      (if r = .ok then (k.rows.list fun row => decide (row.user = user)).map Session.key else []))
  | .delCopies user team [] => some (k.markRemoved user team, .ended)
  | .delCopies user team (sid :: todo) => some (if r = .ok then k.del sid else k, .delCopies user team todo)
  | .ended => none

inductive Call
  /-- any request with a session -/
  | request (sid : ℕ) (newKey : Bool)
  /-- any request with a key -/
  | withKey (kid : ℕ)
  | removeMember (caller user team : ℕ)
  | leaveTeam (user team : ℕ)
  deriving DecidableEq, Repr

def spawn (k : Core) : Call → Option (Core × Proc)
  | .request sid newKey => some (k, .readCache sid ⟨k.now, newKey, k.removed⟩)
  | .withKey kid => some (k, .getKey kid k.removed)
  | .removeMember caller user team => some (k, .callerRole caller user team)
  | .leaveTeam user team => some (k, .ownRole user team)

inductive Env
  | tick (d : ℕ)
  /-- a copy is evicted, or dropped by the invalidation of another change -/
  | evict (sid : ℕ)
  /-- `DeleteExpiredSessions` -/
  | clean
  | setActive (user : ℕ) (b : Bool)
  deriving DecidableEq, Repr

def env (k : Core) : Env → Option Core
  | .tick d => some { k with now := k.now + d }
  | .evict sid => some (k.del sid)
  | .clean => some { k with rows := k.rows.delete fun r => decide (r.expiresAt < k.now) }
  | .setActive user b => some { k with active := Function.update k.active user b }

def prog : Prog Core Proc Call Reply Env where
  spawn := spawn
  run := run
  halt := .ended
  env := env

abbrev State := Sys Core Proc

abbrev Act := Label Call Reply Env

def step : State → Act → Option State := prog.step

/-- As far as it is not past its cap, the session has its row. -/
structure Backed (k : Core) (sess : Session) : Prop where
  row : k.now < sess.expiresAt → k.rows.select sess.id ≠ none
  same : ∀ r, k.rows.select sess.id = some r → r.user = sess.user ∧ r.expiresAt = sess.expiresAt

/-- A copy stands under its own id, lives no longer than its session, and has its row. -/
structure Kept (k : Core) (sid : ℕ) (e : Entry Session) : Prop where
  id : e.session.id = sid
  deadline : e.deadline ≤ e.session.expiresAt
  backed : Backed k e.session

/-- Any members, keys and sessions, and no request or removal yet. -/
structure Initial (s : State) : Prop where
  threads : s.threads = []
  copies : ∀ sid e, s.core.cache sid = some e → Kept s.core sid e
  removed : s.core.removed = []
  granted : s.core.granted = []

end Wrenn.Sessions.Members
