import Wrenn.Lib.Runs
import Wrenn.Sessions.Model

/-!
# The end of a session

A session should end when it was not used for the idle window, and at its absolute cap.  The idle window is the
time to live of the copy in the cache; the row knows nothing of it, so a `Get` that finds no copy takes the row
and starts the window anew.

`respects_iff` says of every sequence of calls of `Get`, at any times and with any evictions and errors,
exactly when a `Get` respects both limits.  The cap is always respected; the idle window is not as soon as the
row is there and can be read.
-/

namespace Wrenn.Sessions.Expiry

open Lib.Runs Lib.Tables Cache Model Function

/-! ### Calls one after the other -/

/-- What becomes of the calls to Redis and Postgres. -/
structure Answers where
  readCache : Reply
  slide : Reply
  writeCache : Reply
  del : Reply
  getRow : Reply
  hydrate : Reply
  deleteRow : Reply
  insert : Reply
  deriving DecidableEq, Repr

def Answers.on (a : Answers) : Proc → Reply
  | .readCache .. => a.readCache
  | .slide .. => a.slide
  | .writeBack .. | .writeNew _ => a.writeCache
  | .del .. | .delKeys .. => a.del
  | .getRow .. => a.getRow
  | .hydrate .. => a.hydrate
  | .dropRow _ | .deleteRow .. | .deleteRows _ => a.deleteRow
  | .insert .. => a.insert
  | .ended _ => .ok

/-- The process runs by itself, for at most `n` steps. -/
def finish (a : Answers) : ℕ → Core → Proc → Option (Core × Option Session)
  | _, k, .ended result => some (k, result)
  | 0, _, _ => none
  | n + 1, k, p => (run k (a.on p) p).bind fun next => finish a n next.1 next.2

/-- `Create`, at one time -/
def create (a : Answers) (k : Core) (user : ℕ) : Option (Core × Option Session) :=
  finish a 2 k (.insert user k.now)

/-- `Get`, at one time -/
def get (a : Answers) (k : Core) (sid : ℕ) : Option (Core × Option Session) :=
  finish a 4 k (.readCache sid k.now false)

/-- A session and its uses. -/
structure State where
  core : Core
  sid : ℕ
  created : ℕ
  /-- the creation or the latest `Get` that returned the session -/
  lastUse : ℕ

inductive Act
  | get (a : Answers)
  | env (e : Env)

def step (s : State) : Act → Option State
  | .get a => (get a s.core s.sid).map fun res =>
      { s with core := res.1, lastUse := if res.2.isSome then s.core.now else s.lastUse }
  | .env e => (env s.core e).map fun k => { s with core := k }

/-- The session has just been created, and nobody has used its id before. -/
def Initial (s : State) : Prop :=
  ∃ a k user sess, k.cache k.owners.length = none ∧ create a k user = some (s.core, some sess) ∧
    s.sid = sess.id ∧ s.created = k.now ∧ s.lastUse = k.now

/-! ### The purpose -/

/-- A `Get` that returns the session comes no later than the idle window after the last use, and not past the
cap. -/
def Respects (s : State) (a : Answers) : Prop :=
  ∀ k' sess, get a s.core s.sid = some (k', some sess) →
    s.core.now ≤ s.lastUse + idleWindow ∧ s.core.now ≤ s.created + absoluteCap

/-! ### What `Get` does -/

section Get

variable {a : Answers} {k : Core} {sid : ℕ}

theorem finish_step {n : ℕ} {p p' : Proc} {k' : Core} (h : run k (a.on p) p = some (k', p')) :
    finish a (n + 1) k p = finish a n k' p' := by
  cases p with
  | ended result => cases h
  | _ => simp only [finish, h, Option.bind_some]

theorem finish_ended {n : ℕ} {result : Option Session} : finish a n k (.ended result) = some (k, result) := by
  cases n <;> rfl

/-- The session is in the cache. -/
theorem get_hit {sess : Session} (hread : a.readCache = .ok) (hcached : k.cached sid = some sess)
    (hcap : ¬ sess.expiresAt < k.now) :
    get a k sid = some (if a.slide = .ok then k.slideIdle sess else k, some sess) := by
  have hrun : run k (a.on (.readCache sid k.now false)) (.readCache sid k.now false) =
      some (k, .slide sess false) := by
    simp only [Answers.on, run, hread, hcached, if_neg hcap]
  rw [get, finish_step hrun, finish_step rfl, finish_ended]
  rfl

theorem get_hit_expired {sess : Session} (hread : a.readCache = .ok) (hcached : k.cached sid = some sess)
    (hcap : sess.expiresAt < k.now) :
    ∃ k', get a k sid = some (k', none) ∧ (k' = k.del sid ∨ k' = k ∨
      k' = (k.del sid).completeDelete sid .expired ∨ k' = k.completeDelete sid .expired) := by
  have hrun : run k (a.on (.readCache sid k.now false)) (.readCache sid k.now false) =
      some (k, .del sid .expired) := by
    simp only [Answers.on, run, hread, hcached, if_pos hcap]
  have hlast : ∀ k1 : Core, ∃ k', finish a 2 k1 (.deleteRow sid .expired) = some (k', none) ∧
      (k' = k1 ∨ k' = k1.completeDelete sid .expired) := by
    intro k1
    cases hdel : a.deleteRow with
    | ok =>
      have hstep : run k1 (a.on (.deleteRow sid .expired)) (.deleteRow sid .expired) =
          some (k1.completeDelete sid .expired, .ended none) := by
        simp only [Answers.on, run, hdel, if_true]
      exact ⟨_, by rw [finish_step hstep, finish_ended], .inr rfl⟩
    | failed =>
      have hstep : run k1 (a.on (.deleteRow sid .expired)) (.deleteRow sid .expired) =
          some (k1, .ended none) := by
        simp [Answers.on, run, hdel]
      exact ⟨_, by rw [finish_step hstep, finish_ended], .inl rfl⟩
  rw [get, finish_step hrun, finish_step rfl]
  obtain ⟨k', hk', hcases⟩ := hlast (if a.on (.del sid .expired) = .ok then k.del sid else k)
  refine ⟨k', hk', ?_⟩
  split_ifs at hcases <;> tauto

theorem run_miss (hmiss : a.readCache = .failed ∨ k.cached sid = none) :
    run k (a.on (.readCache sid k.now false)) (.readCache sid k.now false) =
      some (k, .getRow sid k.now false) := by
  simp only [Answers.on, run]
  rcases hmiss with hread | hnone
  · rw [hread]
  · rw [hnone]
    cases a.readCache <;> rfl

/-- The session is not in the cache, but its row is there. -/
theorem get_miss {row : Session} (hmiss : a.readCache = .failed ∨ k.cached sid = none)
    (hget : a.getRow = .ok) (hrow : k.rows.select sid = some row) (hcap : ¬ row.expiresAt < k.now)
    (hhydrate : a.hydrate = .ok) :
    get a k sid = some (if a.writeCache = .ok then k.writeCache row else k, some row) := by
  have hrun : run k (a.on (.getRow sid k.now false)) (.getRow sid k.now false) = some (k, .hydrate row false) := by
    simp only [Answers.on, run, hget, hrow, if_neg hcap]
  have hrun' : run k (a.on (.hydrate row false)) (.hydrate row false) = some (k, .writeBack row false) := by
    simp only [Answers.on, run, hhydrate, if_true]
  rw [get, finish_step (run_miss hmiss), finish_step hrun, finish_step hrun', finish_step rfl, finish_ended]
  rfl

/-- Neither the cache nor the row gives the session. -/
theorem get_none (hmiss : a.readCache = .failed ∨ k.cached sid = none)
    (hfail : a.getRow = .failed ∨ k.rows.select sid = none ∨ a.hydrate = .failed ∨
      ∃ row, k.rows.select sid = some row ∧ row.expiresAt < k.now) :
    ∃ k', get a k sid = some (k', none) ∧ (k' = k ∨ k' = k.deleteSession sid) := by
  rw [get, finish_step (run_miss hmiss)]
  have hend (hrun : run k (a.on (.getRow sid k.now false)) (.getRow sid k.now false) = some (k, .ended none)) :
      ∃ k', finish a 3 k (.getRow sid k.now false) = some (k', none) ∧ (k' = k ∨ k' = k.deleteSession sid) :=
    ⟨k, by rw [finish_step hrun, finish_ended], .inl rfl⟩
  cases hget : a.getRow with
  | failed => exact hend (by simp [Answers.on, run, hget])
  | ok =>
    cases hrow : k.rows.select sid with
    | none => exact hend (by simp [Answers.on, run, hrow])
    | some row =>
      by_cases hcap : row.expiresAt < k.now
      · have hrun : run k (a.on (.getRow sid k.now false)) (.getRow sid k.now false) = some (k, .dropRow sid) := by
          simp only [Answers.on, run, hget, hrow, if_pos hcap]
        rw [finish_step hrun, finish_step rfl, finish_ended]
        refine ⟨_, rfl, ?_⟩
        split_ifs
        · exact .inr rfl
        · exact .inl rfl
      · have hhydrate : a.hydrate = .failed := by
          rcases hfail with h | h | h | ⟨row', h, hlt⟩
          · rw [hget] at h
            cases h
          · rw [hrow] at h
            cases h
          · exact h
          · rw [hrow, Option.some.injEq] at h
            exact absurd (h ▸ hlt) hcap
        have hrun : run k (a.on (.getRow sid k.now false)) (.getRow sid k.now false) =
            some (k, .hydrate row false) := by
          simp only [Answers.on, run, hget, hrow, if_neg hcap]
        have hrun' : run k (a.on (.hydrate row false)) (.hydrate row false) = some (k, .ended none) := by
          simp [Answers.on, run, hhydrate]
        rw [finish_step hrun, finish_step hrun', finish_ended]
        exact ⟨k, rfl, .inl rfl⟩

/-- `Get` comes to an end in one of four ways. -/
inductive Gets (a : Answers) (k : Core) (sid : ℕ) : Core → Option Session → Prop
  | hit {sess : Session} (hread : a.readCache = .ok) (hcached : k.cached sid = some sess)
    (hcap : k.now ≤ sess.expiresAt) :
    Gets a k sid (if a.slide = .ok then k.slideIdle sess else k) (some sess)
  | row {row : Session} (hmiss : a.readCache = .failed ∨ k.cached sid = none) (hget : a.getRow = .ok)
    (hrow : k.rows.select sid = some row) (hcap : k.now ≤ row.expiresAt) (hhydrate : a.hydrate = .ok) :
    Gets a k sid (if a.writeCache = .ok then k.writeCache row else k) (some row)
  | none {k' : Core} (hrows : ∀ r, k'.rows.select sid = some r → k.rows.select sid = some r)
    (hcache : k'.cache sid = k.cache sid ∨ k'.cache sid = none) (hnow : k'.now = k.now)
    (hwhy : k.cached sid ≠ none ∨ a.getRow = .failed ∨ k.rows.select sid = none ∨ a.hydrate = .failed ∨
      ∃ row, k.rows.select sid = some row ∧ row.expiresAt < k.now) : Gets a k sid k' none

theorem select_of_delete {t : Rows} {f : Session → Bool} {r : Session} (h : (t.delete f).select sid = some r) :
    t.select sid = some r := by
  rw [Table.select_delete] at h
  exact (Option.filter_eq_some_iff.mp h).1

theorem gets (a : Answers) (k : Core) (sid : ℕ) : ∃ k' result, get a k sid = some (k', result) ∧
    Gets a k sid k' result := by
  by_cases hmiss : a.readCache = .failed ∨ k.cached sid = none
  · by_cases hfail : a.getRow = .failed ∨ k.rows.select sid = none ∨ a.hydrate = .failed ∨
        ∃ row, k.rows.select sid = some row ∧ row.expiresAt < k.now
    · obtain ⟨k', hk', hcases⟩ := get_none hmiss hfail
      refine ⟨k', none, hk', .none ?_ ?_ ?_ (.inr hfail)⟩ <;> rcases hcases with rfl | rfl
      · exact fun _ => id
      · exact fun _ => select_of_delete
      · exact .inl rfl
      · exact .inl rfl
      all_goals rfl
    · simp only [not_or, not_exists, not_and] at hfail
      obtain ⟨hget, hrow, hhydrate, hcap⟩ := hfail
      obtain ⟨row, hrow⟩ := Option.ne_none_iff_exists'.mp hrow
      have hget' : a.getRow = .ok := by cases h : a.getRow <;> simp_all
      have hhydrate' : a.hydrate = .ok := by cases h : a.hydrate <;> simp_all
      exact ⟨_, _, get_miss hmiss hget' hrow (hcap row hrow) hhydrate',
        .row hmiss hget' hrow (Nat.le_of_not_lt (hcap row hrow)) hhydrate'⟩
  · rw [not_or] at hmiss
    have hread : a.readCache = .ok := by cases h : a.readCache <;> simp_all
    obtain ⟨sess, hcached⟩ := Option.ne_none_iff_exists'.mp hmiss.2
    by_cases hcap : sess.expiresAt < k.now
    · obtain ⟨k', hk', hcases⟩ := get_hit_expired hread hcached hcap
      refine ⟨k', none, hk', .none ?_ ?_ ?_ (.inl hmiss.2)⟩ <;> rcases hcases with rfl | rfl | rfl | rfl
      · exact fun _ => id
      · exact fun _ => id
      · exact fun _ => select_of_delete
      · exact fun _ => select_of_delete
      · exact .inr (update_self ..)
      · exact .inl rfl
      · exact .inr (update_self ..)
      · exact .inl rfl
      all_goals rfl
    · exact ⟨_, _, get_hit hread hcached hcap, .hit hread hcached (Nat.le_of_not_lt hcap)⟩

end Get

/-! ### The invariant -/

/-- Row and copy know the cap of the session, and the copy ends with the idle window. -/
structure Timed (s : State) : Prop where
  past : s.lastUse ≤ s.core.now
  row : ∀ r, s.core.rows.select s.sid = some r → r.expiresAt = s.created + absoluteCap
  copy : ∀ e, s.core.cache s.sid = some e → e.session.id = s.sid ∧
    e.session.expiresAt = s.created + absoluteCap ∧ e.deadline ≤ s.lastUse + idleWindow

variable {k k' : Core} {sess : Session} {s : State}

section Invariant

variable {k : Core} {sess : Session} {sid cap lastUse : ℕ} {e : Entry Session}

/-- The bounds of a copy, after a use at the present time. -/
theorem copy_writeCache (hid : sess.id = sid) (hcap : sess.expiresAt = cap) (hpast : lastUse ≤ k.now)
    (hold : ∀ e, k.cache sid = some e →
      e.session.id = sid ∧ e.session.expiresAt = cap ∧ e.deadline ≤ lastUse + idleWindow)
    (h : (k.writeCache sess).cache sid = some e) :
    e.session.id = sid ∧ e.session.expiresAt = cap ∧ e.deadline ≤ k.now + idleWindow := by
  rcases writeCache_eq_some h with hthere | ⟨-, rfl, -, -, hidle⟩
  · obtain ⟨h1, h2, h3⟩ := hold e hthere
    exact ⟨h1, h2, by omega⟩
  · exact ⟨hid, hcap, hidle⟩

theorem copy_slideIdle (hid : sess.id = sid) (hpast : lastUse ≤ k.now)
    (hold : ∀ e, k.cache sid = some e →
      e.session.id = sid ∧ e.session.expiresAt = cap ∧ e.deadline ≤ lastUse + idleWindow)
    (h : (k.slideIdle sess).cache sid = some e) :
    e.session.id = sid ∧ e.session.expiresAt = cap ∧ e.deadline ≤ k.now + idleWindow := by
  rcases slideIdle_eq_some h with hthere | ⟨rfl, hread, -, -, hidle⟩
  · obtain ⟨h1, h2, h3⟩ := hold e hthere
    exact ⟨h1, h2, by omega⟩
  · obtain ⟨e0, he0, hsess, -⟩ := readCache_eq_some hread
    obtain ⟨h1, h2, -⟩ := hold e0 he0
    exact ⟨hsess ▸ h1, hsess ▸ h2, hidle⟩

end Invariant

theorem timed_get {a : Answers} {result : Option Session} (h : Timed s) (hg : Gets a s.core s.sid k' result) :
    Timed { s with core := k', lastUse := if result.isSome then s.core.now else s.lastUse } := by
  obtain ⟨hpast, hrow, hcopy⟩ := h
  -- a copy that is left as it is keeps its bound, for the last use can only have become later
  have hlater : ∀ e, s.core.cache s.sid = some e → e.session.id = s.sid ∧
      e.session.expiresAt = s.created + absoluteCap ∧ e.deadline ≤ s.core.now + idleWindow := fun e he => by
    obtain ⟨h1, h2, h3⟩ := hcopy e he
    exact ⟨h1, h2, by omega⟩
  cases hg with
  | @hit sess hread hcached hcap =>
    obtain ⟨e0, he0, rfl, -⟩ := readCache_eq_some hcached
    rw [Option.isSome_some, if_pos rfl]
    split_ifs with hslide
    · exact ⟨Nat.le_refl _, hrow, fun e he => copy_slideIdle (hcopy e0 he0).1 hpast hcopy he⟩
    · exact ⟨by simp, hrow, hlater⟩
  | @row row hmiss hget hsel hcap hhydrate =>
    rw [Option.isSome_some, if_pos rfl]
    split_ifs with hwrite
    · refine ⟨Nat.le_refl _, hrow, fun e he => ?_⟩
      exact copy_writeCache (Table.select_key hsel) (hrow row hsel) hpast hcopy he
    · exact ⟨by simp, hrow, hlater⟩
  | none hrows hcache hnow =>
    refine ⟨by simpa [hnow] using hpast, fun r hr => hrow r (hrows r hr), fun e he => ?_⟩
    rcases hcache with hsame | hnone
    · exact hcopy e (hsame ▸ he)
    · rw [show k'.cache s.sid = _ from hnone] at he
      cases he

theorem timed_env {e : Env} (h : Timed s) (henv : env s.core e = some k') : Timed { s with core := k' } := by
  obtain ⟨hpast, hrow, hcopy⟩ := h
  cases e with
  | tick d =>
    cases henv
    exact ⟨Nat.le_add_right_of_le hpast, hrow, hcopy⟩
  | evict sid =>
    cases henv
    refine ⟨hpast, hrow, fun e he => ?_⟩
    by_cases heq : s.sid = sid
    · rw [heq] at he
      change update s.core.cache sid none sid = some e at he
      rw [update_self] at he
      cases he
    · change update s.core.cache sid none s.sid = some e at he
      rw [update_of_ne heq] at he
      exact hcopy e he
  | clean =>
    cases henv
    exact ⟨hpast, fun r hr => hrow r (select_of_delete hr), hcopy⟩

/-- The row of the session has been inserted, and its copy may follow. -/
theorem timed_new {created : ℕ} (hnow : k.now = created) (hrow : k.rows.select sess.id = some sess)
    (hcap : sess.expiresAt = created + absoluteCap) (hfresh : k.cache sess.id = none) (r : Reply) :
    Timed ⟨if r = .ok then k.writeCache sess else k, sess.id, created, created⟩ := by
  subst hnow
  have hrow' : ∀ r, k.rows.select sess.id = some r → r.expiresAt = k.now + absoluteCap := fun r hr => by
    rw [hrow, Option.some.injEq] at hr
    rw [← hr, hcap]
  have hcopy : ∀ e, k.cache sess.id = some e → e.session.id = sess.id ∧
      e.session.expiresAt = k.now + absoluteCap ∧ e.deadline ≤ k.now + idleWindow := fun e he => by
    rw [hfresh] at he
    cases he
  split_ifs
  · exact ⟨Nat.le_refl _, hrow', fun e he => copy_writeCache rfl hcap (Nat.le_refl _) hcopy he⟩
  · exact ⟨Nat.le_refl _, hrow', hcopy⟩

theorem timed_create {a : Answers} {user : ℕ} (hfresh : k.cache k.owners.length = none)
    (h : create a k user = some (k', some sess)) : Timed ⟨k', sess.id, k.now, k.now⟩ := by
  have hok : a.insert = .ok := by
    by_contra hfail
    have hrun : run k (a.on (.insert user k.now)) (.insert user k.now) = some (k, .ended none) := by
      simp [Answers.on, run, hfail]
    rw [create, finish_step hrun, finish_ended] at h
    cases h
  cases hins : k.rows.insert ⟨k.owners.length, user, k.now + absoluteCap⟩ with
  | none => simp [create, finish, Answers.on, run, hok, hins] at h
  | some rows =>
    have hrun : run k (a.on (.insert user k.now)) (.insert user k.now) =
        some ({ k with rows := rows, owners := k.owners ++ [user] },
          .writeNew ⟨k.owners.length, user, k.now + absoluteCap⟩) := by
      simp [Answers.on, run, hok, hins]
    have hrow : rows.select k.owners.length = some ⟨k.owners.length, user, k.now + absoluteCap⟩ := by
      rw [(Table.select_insert (k := k.owners.length) hins).2, if_pos rfl]
    rw [create, finish_step hrun, finish_step rfl, finish_ended] at h
    cases h
    exact timed_new rfl hrow rfl hfresh _

theorem reach_timed (h : Reach step (fun _ _ => True) Initial s) : Timed s := by
  refine h.invariant (I := Timed) ?_ fun s act s' hi _ hs => ?_
  · rintro ⟨core, sid, created, lastUse⟩ ⟨a, k, user, sess, hfresh, hcreate, hsid, hcreated, huse⟩
    cases hsid
    cases hcreated
    cases huse
    exact timed_create hfresh hcreate
  · cases act with
    | get a =>
      obtain ⟨⟨k', result⟩, hget, rfl⟩ := Option.map_eq_some_iff.mp hs
      obtain ⟨k'', result', hget', hg⟩ := gets a s.core s.sid
      rw [hget'] at hget
      cases hget
      exact timed_get hi hg
    | env e =>
      obtain ⟨k', henv, rfl⟩ := Option.map_eq_some_iff.mp hs
      exact timed_env hi henv

/-! ### The result -/

/-- In every sequence of calls, a `Get` respects the two limits of the session exactly when it comes within the
idle window, or past the cap, or cannot take the session from its row. -/
theorem respects_iff {s : State} (h : Reach step (fun _ _ => True) Initial s) (a : Answers) :
    Respects s a ↔ s.core.now ≤ s.lastUse + idleWindow ∨ s.created + absoluteCap < s.core.now ∨
      s.core.rows.select s.sid = none ∨ a.getRow = .failed ∨ a.hydrate = .failed := by
  obtain ⟨-, hrow, hcopy⟩ := reach_timed h
  constructor
  · intro hresp
    by_contra hcond
    simp only [not_or, Nat.not_le, Nat.not_lt] at hcond
    obtain ⟨hidle, hcap, hsome, hget, hhydrate⟩ := hcond
    obtain ⟨row, hsel⟩ := Option.ne_none_iff_exists'.mp hsome
    have hcached : s.core.cached s.sid = none := by
      by_contra hne
      obtain ⟨sess, hsess⟩ := Option.ne_none_iff_exists'.mp hne
      obtain ⟨e, he, -, hlive⟩ := readCache_eq_some hsess
      have := (hcopy e he).2.2
      omega
    have hget' : a.getRow = .ok := by cases h : a.getRow <;> simp_all
    have hhydrate' : a.hydrate = .ok := by cases h : a.hydrate <;> simp_all
    have hnot : ¬ row.expiresAt < s.core.now := by
      rw [hrow row hsel]
      omega
    have hbound := (hresp _ _ (get_miss (.inr hcached) hget' hsel hnot hhydrate')).1
    omega
  · intro hcond k' sess hget
    obtain ⟨k'', result, hget', hg⟩ := gets a s.core s.sid
    rw [hget'] at hget
    cases hget
    cases hg with
    | hit hread hcached hcap =>
      obtain ⟨e, he, rfl, hlive⟩ := readCache_eq_some hcached
      obtain ⟨-, hexp, hdeadline⟩ := hcopy e he
      exact ⟨by omega, by omega⟩
    | row hmiss hrowOk hsel hcap hhydrate =>
      rw [hrow sess hsel] at hcap
      rcases hcond with h | h | h | h | h
      · exact ⟨h, hcap⟩
      · omega
      · rw [hsel] at h
        cases h
      · rw [hrowOk] at h
        cases h
      · rw [hhydrate] at h
        cases h

/-! ### Runs -/

/-- Every call succeeds. -/
def allOk : Answers := ⟨.ok, .ok, .ok, .ok, .ok, .ok, .ok, .ok⟩

/-- The first session, just created. -/
def born : State := ⟨((create allOk noSessions 5).getD (noSessions, none)).1, 0, 0, 0⟩

theorem initial_born : Initial born := ⟨allOk, noSessions, 5, ⟨0, 5, 0 + absoluteCap⟩, rfl, rfl, rfl, rfl, rfl⟩

/-- After a `Get` in the fifth hour, one in the tenth respects the limits. -/
def usedRun : List Act := [.env (.tick (5 * hour)), .get allOk, .env (.tick (5 * hour))]

theorem used_session_respected :
    Respects (last step born usedRun) allOk ∧
      ((get allOk (last step born usedRun).core 0).map Prod.snd) = some (some ⟨0, 5, absoluteCap⟩) := by
  have hadm : Admits step (fun _ _ => True) born usedRun := by decide +kernel
  exact ⟨(respects_iff (.last initial_born hadm) allOk).mpr (.inl (by decide +kernel)), by decide +kernel⟩

/-- A session that was not used for seven hours is returned: its copy is gone, its row is not. -/
theorem idle_session_returned :
    ∃ s, exec step born [.env (.tick (7 * hour))] = some s ∧ s.lastUse + idleWindow < s.core.now ∧
      ¬ Respects s allOk := by
  have hidle : (last step born [.env (.tick (7 * hour))]).lastUse + idleWindow <
      (last step born [.env (.tick (7 * hour))]).core.now := by decide +kernel
  have hget : ((get allOk (last step born [.env (.tick (7 * hour))]).core 0).map Prod.snd) =
      some (some ⟨0, 5, absoluteCap⟩) := by decide +kernel
  refine ⟨_, rfl, hidle, fun hresp => ?_⟩
  obtain ⟨⟨k', result⟩, hk', hresult⟩ := Option.map_eq_some_iff.mp hget
  cases hresult
  exact absurd (hresp k' _ hk').1 (Nat.not_le.mpr hidle)

end Wrenn.Sessions.Expiry
