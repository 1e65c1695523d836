import Wrenn.Lib.Tables
import Wrenn.Lib.Threads
import Wrenn.Sessions.Cache

/-!
# Sessions

A session is a row in Postgres, and a copy of it in Redis that lives for a while.  `Get` reads the copy and
slides its time to live; where there is none it reads the row, refreshes the identity by the hydrate callback
and writes the copy.  `Revoke`, `DeleteForUser` and `Rotate` delete the copy and then the row,
`RevokeAllForUser` the rows and then the copies.  The functions run concurrently, and each call to Redis or
Postgres is a step.

Sessions are numbered in the order of their creation, in place of the hashes of random ids.  Times are in
nanoseconds.  The team, the token, the identity and the client of a session, of which the functions make
nothing, are left out; so is the update of `last_seen_at`, which nothing reads.
-/

namespace Wrenn.Sessions.Model

open Lib.Tables Lib.Threads Cache

/-! ### Rows and copies -/

/-- `AbsoluteCap` -/
@[irreducible]
def absoluteCap : ℕ := 24 * hour

structure Session where
  id : ℕ
  user : ℕ
  expiresAt : ℕ
  deriving DecidableEq, Repr

abbrev Rows := Table Session.id

structure Core where
  now : ℕ
  rows : Rows
  cache : Copies Session
  /-- the users of all sessions so far -/
  owners : List ℕ
  /-- the sessions whose rows a `RevokeAllForUser` has deleted -/
  swept : List ℕ
  /-- the sessions whose revocation is complete -/
  revoked : List ℕ
  /-- the sessions returned by a `Get` that began when their revocation was complete -/
  leaked : List ℕ

def Core.cached (k : Core) (sid : ℕ) : Option Session := readCache k.cache k.now sid

def Core.writeCache (k : Core) (sess : Session) : Core :=
  { k with cache := Cache.writeCache k.cache k.now sess.id sess.expiresAt sess }

def Core.slideIdle (k : Core) (sess : Session) : Core :=
  { k with cache := Cache.slideIdle k.cache k.now sess.id sess.expiresAt }

def Core.del (k : Core) (sid : ℕ) : Core := { k with cache := Function.update k.cache sid none }

def Core.deleteSession (k : Core) (sid : ℕ) : Core :=
  { k with rows := k.rows.delete fun r => decide (r.id = sid) }

def Core.deleteSessionForUser (k : Core) (sid user : ℕ) : Core :=
  { k with rows := k.rows.delete fun r => decide (r.id = sid ∧ r.user = user) }

/-- The sessions of the user that have a row. -/
def Core.sessionsOf (k : Core) (user : ℕ) : List ℕ :=
  (k.rows.list fun row => decide (row.user = user)).map Session.id

/-- The sessions of the user whose rows were deleted before. -/
def Core.sweptOf (k : Core) (user : ℕ) : List ℕ := k.swept.filter fun sid => decide (k.owners[sid]? = some user)

def Core.deleteSessionsByUserID (k : Core) (user : ℕ) : Core :=
  { k with rows := k.rows.delete fun r => decide (r.user = user), swept := k.sessionsOf user ++ k.swept }

/-! ### The functions -/

/-- What becomes of a call. -/
inductive Reply
  | ok
  | failed
  deriving DecidableEq, Repr

/-- Who deletes the copy and the row. -/
inductive Purpose
  | revoke
  | forUser (user : ℕ)
  /-- with the user of the session that replaces it -/
  | rotate (user : ℕ)
  /-- `Get`, for a session past its cap -/
  | expired
  deriving DecidableEq, Repr

/-- `late` says that the `Get` began when the revocation of the session was complete; `t` is the time at
which a function began.  `delKeys` has the copies still to be deleted, and the other sessions of the user, which
are revoked with them when `RevokeAllForUser` returns. -/
inductive Proc
  | readCache (sid t : ℕ) (late : Bool)
  | slide (sess : Session) (late : Bool)
  | getRow (sid t : ℕ) (late : Bool)
  | dropRow (sid : ℕ)
  | hydrate (sess : Session) (late : Bool)
  | writeBack (sess : Session) (late : Bool)
  | del (sid : ℕ) (why : Purpose)
  | deleteRow (sid : ℕ) (why : Purpose)
  | insert (user t : ℕ)
  | writeNew (sess : Session)
  | deleteRows (user : ℕ)
  | delKeys (todo gone : List ℕ)
  | ended (result : Option Session)
  deriving DecidableEq, Repr

/-- The function revokes the session. -/
def Core.revokes (k : Core) (sid : ℕ) : Purpose → Bool
  | .revoke | .rotate _ => true
  | .forUser user => decide (k.owners[sid]? = some user)
  | .expired => false

/-- `Get` returns the session. -/
def Core.return (k : Core) (sess : Session) (late : Bool) : Core :=
  { k with leaked := if late then sess.id :: k.leaked else k.leaked }

def Core.markRevoked (k : Core) (ids : List ℕ) : Core := { k with revoked := ids ++ k.revoked }

/-- The row is deleted, and the revocation, if it is one, is complete. -/
def Core.completeDelete (k : Core) (sid : ℕ) (why : Purpose) : Core :=
  let k1 := match why with
    | .forUser user => k.deleteSessionForUser sid user
    | _ => k.deleteSession sid
  k1.markRevoked (if k.revokes sid why then [sid] else [])

def run (k : Core) (r : Reply) : Proc → Option (Core × Proc)
  | .readCache sid t late =>
    match r, k.cached sid with
    | .ok, some sess =>
      if sess.expiresAt < t then some (k, .del sid .expired) else some (k, .slide sess late)
    | _, _ => some (k, .getRow sid t late)
  | .slide sess late =>
    some ((if r = .ok then k.slideIdle sess else k).return sess late, .ended (some sess))
  | .getRow sid t late =>
    match r, k.rows.select sid with
    | .ok, some row => if row.expiresAt < t then some (k, .dropRow sid) else some (k, .hydrate row late)
    | _, _ => some (k, .ended none)
  | .dropRow sid => some (if r = .ok then k.deleteSession sid else k, .ended none)
  | .hydrate sess late => some (k, if r = .ok then .writeBack sess late else .ended none)
  | .writeBack sess late =>
    some ((if r = .ok then k.writeCache sess else k).return sess late, .ended (some sess))
  | .del sid why => some (if r = .ok then k.del sid else k, .deleteRow sid why)
  | .deleteRow sid why =>
    if r = .ok then
      some (k.completeDelete sid why, match why with
        | .rotate user => .insert user k.now
        | _ => .ended none)
    else some (k, .ended none)
  | .insert user t =>
    if r = .ok then
      (k.rows.insert ⟨k.owners.length, user, t + absoluteCap⟩).map fun rows =>
        ({ k with rows := rows, owners := k.owners ++ [user] }, .writeNew ⟨k.owners.length, user, t + absoluteCap⟩)
    else some (k, .ended none)
  | .writeNew sess => some (if r = .ok then k.writeCache sess else k, .ended (some sess))
  | .deleteRows user =>
    -- the call is for all sessions of the user, and the copies are those of the rows that its own statement
    -- returned
    if r = .ok then some (k.deleteSessionsByUserID user, .delKeys (k.sessionsOf user) (k.sweptOf user))
    else some (k, .ended none)
  | .delKeys [] gone => some (k.markRevoked gone, .ended none)
  | .delKeys (sid :: todo) gone => some (if r = .ok then k.del sid else k, .delKeys todo (gone ++ [sid]))
  | .ended _ => none

inductive Call
  | get (sid : ℕ)
  | create (user : ℕ)
  | revoke (sid : ℕ)
  | deleteForUser (sid user : ℕ)
  | rotate (sid user : ℕ)
  | revokeAllForUser (user : ℕ)
  deriving DecidableEq, Repr

/-- Only a session that exists or existed has a name by which it can be revoked. -/
def spawn (k : Core) : Call → Option (Core × Proc)
  | .get sid => some (k, .readCache sid k.now (decide (sid ∈ k.revoked)))
  | .create user => some (k, .insert user k.now)
  | .revoke sid => if sid < k.owners.length then some (k, .del sid .revoke) else none
  | .deleteForUser sid user => if sid < k.owners.length then some (k, .del sid (.forUser user)) else none
  | .rotate sid user => if sid < k.owners.length then some (k, .del sid (.rotate user)) else none
  | .revokeAllForUser user => some (k, .deleteRows user)

inductive Env
  | tick (d : ℕ)
  /-- a copy is evicted, or dropped by `InvalidateCacheForUser` or `UpdateTeam` -/
  | evict (sid : ℕ)
  /-- `DeleteExpiredSessions` -/
  | clean
  deriving DecidableEq, Repr

def env (k : Core) : Env → Option Core
  | .tick d => some { k with now := k.now + d }
  | .evict sid => some (k.del sid)
  | .clean => some { k with rows := k.rows.delete fun r => decide (r.expiresAt < k.now) }

def prog : Prog Core Proc Call Reply Env where
  spawn := spawn
  run := run
  halt := .ended none
  env := env

abbrev State := Sys Core Proc

abbrev Act := Label Call Reply Env

def step : State → Act → Option State := prog.step

def noSessions : Core := ⟨0, Table.empty, fun _ => none, [], [], [], []⟩

def Initial (s : State) : Prop := ∃ now, s = ⟨{ noSessions with now := now }, []⟩

end Wrenn.Sessions.Model
