import Mathlib.Data.Nat.Notation
import Mathlib.Logic.Function.Basic
import Mathlib.Tactic.ByContra
import Mathlib.Tactic.SplitIfs

/-!
# The copies of sessions in Redis

A copy stands under the id of its session and lives until its session has been idle for `idleWindow` or is past
its cap, whichever is first.  Reading and writing are the same whatever a copy says of its session.
-/

namespace Wrenn.Sessions.Cache

open Function

def hour : ℕ := 3600 * 1000000000

/-- `IdleWindow` -/
@[irreducible]
def idleWindow : ℕ := 6 * hour

/-- A copy in the cache, and when it will be gone. -/
structure Entry (σ : Type*) where
  session : σ
  deadline : ℕ
  deriving DecidableEq, Repr

abbrev Copies (σ : Type*) := ℕ → Option (Entry σ)

/-- The time to live of a copy, `none` if the session is past its cap. -/
def ttl (now expiresAt : ℕ) : Option ℕ :=
  if now < expiresAt then some (min (expiresAt - now) idleWindow) else none

variable {σ : Type*}

/-- `readCache`, if Redis answers -/
def readCache (c : Copies σ) (now sid : ℕ) : Option σ :=
  ((c sid).filter fun e => decide (now < e.deadline)).map Entry.session

def writeCache (c : Copies σ) (now sid expiresAt : ℕ) (sess : σ) : Copies σ :=
  match ttl now expiresAt with
  | none => c
  | some ttl => update c sid (some ⟨sess, now + ttl⟩)

/-- A copy that is gone is not brought back. -/
def slideIdle (c : Copies σ) (now sid expiresAt : ℕ) : Copies σ :=
  match ttl now expiresAt, readCache c now sid with
  | some ttl, some copy => update c sid (some ⟨copy, now + ttl⟩)
  | _, _ => c

variable {c : Copies σ} {now sid sid' expiresAt n : ℕ} {sess : σ} {e : Entry σ}

theorem ttl_eq_some (h : ttl now expiresAt = some n) :
    now < expiresAt ∧ now + n ≤ expiresAt ∧ n ≤ idleWindow := by
  unfold ttl at h
  split_ifs at h with hlt
  cases h
  exact ⟨hlt, by omega, Nat.min_le_right ..⟩

theorem readCache_eq_some (h : readCache c now sid = some sess) :
    ∃ e, c sid = some e ∧ e.session = sess ∧ now < e.deadline := by
  obtain ⟨e, he, hsess⟩ := Option.map_eq_some_iff.mp h
  obtain ⟨hcopy, hlive⟩ := Option.filter_eq_some_iff.mp he
  exact ⟨e, hcopy, hsess, of_decide_eq_true hlive⟩

theorem readCache_of_none (h : c sid = none) : readCache c now sid = none := by
  rw [readCache, h]
  rfl

theorem writeCache_of_ne (h : sid ≠ sid') : writeCache c now sid expiresAt sess sid' = c sid' := by
  unfold writeCache
  cases ttl now expiresAt with
  | none => rfl
  | some ttl => exact update_of_ne h.symm _ _

/-- A copy that is there after a write was there before, or is the one that was written. -/
theorem writeCache_eq_some (h : writeCache c now sid expiresAt sess sid' = some e) :
    c sid' = some e ∨ sid' = sid ∧ e.session = sess ∧ now < expiresAt ∧ e.deadline ≤ expiresAt ∧
      e.deadline ≤ now + idleWindow := by
  unfold writeCache at h
  cases httl : ttl now expiresAt with
  | none =>
    rw [httl] at h
    exact .inl h
  | some ttl =>
    rw [httl] at h
    dsimp only at h
    obtain ⟨hlt, hcap, hidle⟩ := ttl_eq_some httl
    by_cases hid : sid' = sid
    · rw [hid, update_self] at h
      cases h
      exact .inr ⟨hid, rfl, hlt, hcap, Nat.add_le_add_left hidle now⟩
    · rw [update_of_ne hid] at h
      exact .inl h

theorem slideIdle_eq_some (h : slideIdle c now sid expiresAt sid' = some e) :
    c sid' = some e ∨ sid' = sid ∧ readCache c now sid = some e.session ∧ now < expiresAt ∧
      e.deadline ≤ expiresAt ∧ e.deadline ≤ now + idleWindow := by
  unfold slideIdle at h
  rcases httl : ttl now expiresAt with _ | ttl <;> rcases hcopy : readCache c now sid with _ | copy <;>
    rw [httl, hcopy] at h <;> dsimp only at h
  case some.some =>
    obtain ⟨hlt, hcap, hidle⟩ := ttl_eq_some httl
    by_cases hid : sid' = sid
    · rw [hid, update_self] at h
      cases h
      exact .inr ⟨hid, rfl, hlt, hcap, Nat.add_le_add_left hidle now⟩
    · rw [update_of_ne hid] at h
      exact .inl h
  all_goals exact .inl h

theorem slideIdle_of_none (h : c sid' = none) : slideIdle c now sid expiresAt sid' = none := by
  by_contra hne
  obtain ⟨e, he⟩ := Option.ne_none_iff_exists'.mp hne
  rcases slideIdle_eq_some he with hold | ⟨rfl, hread, -⟩
  · rw [h] at hold
    cases hold
  · rw [readCache_of_none h] at hread
    cases hread

end Wrenn.Sessions.Cache
