import Mathlib.Data.List.Infix
import Mathlib.Data.Nat.Notation

/-!
# Broadcast channels and bounded logs

A broadcast channel keeps the last `capacity` of the messages it was sent.  A receiver is the position of its next
message; one that has fallen behind what the channel keeps is told so, and goes on with the oldest message kept.
`recv_cases` lists what a receiver can get, and `window` is what it has received if it has never fallen behind.

A bounded log keeps the end of what was pushed: it evicts from the front as long as it is too large.
`Longest` says what is left, and `longest_push` that it is.
-/

namespace Wrenn.Lib.Broadcast

variable {α : Type*}

/-! ### Receivers -/

inductive Received (α : Type*)
  | message (a : α)
  | lagged
  | empty
  | closed
  deriving DecidableEq, Repr

def recv (capacity : ℕ) (sent : List α) (closed : Bool) (next : ℕ) : Received α × ℕ :=
  if next + capacity < sent.length then (.lagged, sent.length - capacity)
  else match sent[next]? with
    | some a => (.message a, next + 1)
    | none => (if closed then .closed else .empty, next)

/-- What a receiver can get, with its next position. -/
inductive Recv (capacity : ℕ) (sent : List α) (closed : Bool) (next : ℕ) : Received α × ℕ → Prop
  | message {a : α} (hkept : sent.length ≤ next + capacity) (h : sent[next]? = some a) :
    Recv capacity sent closed next (.message a, next + 1)
  | lagged (h : next + capacity < sent.length) : Recv capacity sent closed next (.lagged, sent.length - capacity)
  | empty (h : sent.length ≤ next) (hc : closed = false) : Recv capacity sent closed next (.empty, next)
  | closed (h : sent.length ≤ next) (hc : closed = true) : Recv capacity sent closed next (.closed, next)

theorem recv_cases (capacity : ℕ) (sent : List α) (closed : Bool) (next : ℕ) :
    Recv capacity sent closed next (recv capacity sent closed next) := by
  unfold recv
  by_cases hlag : next + capacity < sent.length
  · rw [if_pos hlag]
    exact .lagged hlag
  · rw [if_neg hlag]
    cases h : sent[next]? with
    | some a => exact .message (by omega) h
    | none =>
      have hlen : sent.length ≤ next := List.getElem?_eq_none_iff.mp h
      cases closed with
      | true => exact .closed hlen rfl
      | false => exact .empty hlen rfl

/-- The messages from position `i` on and before `j`. -/
def window (l : List α) (i j : ℕ) : List α := (l.take j).drop i

theorem window_self (l : List α) (i : ℕ) : window l i i = [] := by simp [window]

theorem window_length (l : List α) (i : ℕ) : window l i l.length = l.drop i := by simp [window]

theorem window_succ {l : List α} {i j : ℕ} {a : α} (hij : i ≤ j) (h : l[j]? = some a) :
    window l i (j + 1) = window l i j ++ [a] := by
  obtain ⟨hj, rfl⟩ := List.getElem?_eq_some_iff.mp h
  have hlen : i ≤ (l.take j).length := by
    rw [List.length_take]
    omega
  rw [window, window, List.take_succ_eq_append_getElem hj, List.drop_append_of_le_length hlen]

/-- What was received does not depend on what is sent later. -/
theorem window_append {l : List α} (m : List α) (i : ℕ) {j : ℕ} (hj : j ≤ l.length) :
    window (l ++ m) i j = window l i j := by
  rw [window, window, List.take_append_of_le_length hj]

theorem window_infix (l : List α) (i j : ℕ) : window l i j <:+: l :=
  (List.drop_suffix i _).isInfix.trans (List.take_prefix j l).isInfix

/-! ### Logs -/

variable (size : α → ℕ) (capacity : ℕ)

def total : List α → ℕ
  | [] => 0
  | a :: l => size a + total l

/-- The longest end of `l` that fits into the capacity. -/
structure Longest (l r : List α) : Prop where
  suffix : r <:+ l
  fits : total size r ≤ capacity
  longest : ∀ t, t <:+ l → total size t ≤ capacity → t <:+ r

structure Log (α : Type*) where
  events : List α
  bytes : ℕ
  deriving DecidableEq, Repr

def evict : List α → ℕ → Log α
  | [], bytes => ⟨[], bytes⟩
  | a :: rest, bytes => if bytes > capacity then evict rest (bytes - size a) else ⟨a :: rest, bytes⟩

def Log.push (log : Log α) (a : α) : Log α := evict size capacity (log.events ++ [a]) (log.bytes + size a)

variable {size capacity}

theorem total_cons (a : α) (l : List α) : total size (a :: l) = size a + total size l := rfl

theorem total_append (m : List α) : ∀ l : List α, total size (l ++ m) = total size l + total size m
  | [] => (Nat.zero_add _).symm
  | a :: l => by
    show size a + total size (l ++ m) = size a + total size l + total size m
    rw [total_append m l, Nat.add_assoc]

/-- The log knows its size. -/
def Log.Exact (size : α → ℕ) (log : Log α) : Prop := log.bytes = total size log.events

theorem evict_exact : ∀ (l : List α) {bytes : ℕ}, bytes = total size l → (evict size capacity l bytes).Exact size
  | [], _, h => h
  | a :: rest, bytes, h => by
    unfold evict
    split_ifs
    · refine evict_exact rest ?_
      rw [total_cons] at h
      omega
    · exact h

theorem longest_evict : ∀ (l : List α) {bytes : ℕ}, bytes = total size l →
    Longest size capacity l (evict size capacity l bytes).events
  | [], _, _ => ⟨List.suffix_refl _, Nat.zero_le _, fun _ ht _ => ht⟩
  | a :: rest, bytes, h => by
    unfold evict
    split_ifs with hlarge
    · have hrest : Longest size capacity rest (evict size capacity rest (bytes - size a)).events := by
        refine longest_evict rest ?_
        rw [total_cons] at h
        omega
      refine ⟨hrest.suffix.trans (List.suffix_cons a rest), hrest.fits, fun t ht hfit => ?_⟩
      -- The whole list does not fit, so an end of it that does is an end of the rest.
      rcases List.suffix_cons_iff.mp ht with rfl | ht
      · omega
      · exact hrest.longest t ht hfit
    · have hfits : total size (a :: rest) ≤ capacity := by omega
      exact ⟨List.suffix_refl _, hfits, fun _ ht _ => ht⟩

theorem Log.Exact.push {log : Log α} (h : log.Exact size) (a : α) : (log.push size capacity a).Exact size := by
  refine evict_exact _ ?_
  rw [total_append, total_cons, h]
  rfl

theorem longest_push {l : List α} {log : Log α} (h : Longest size capacity l log.events) (he : log.Exact size) (a : α) :
    Longest size capacity (l ++ [a]) (log.push size capacity a).events := by
  have hev : Longest size capacity (log.events ++ [a]) (log.push size capacity a).events := by
    refine longest_evict _ ?_
    rw [total_append, total_cons, he]
    rfl
  refine ⟨hev.suffix.trans ((List.suffix_append_inj_of_length_eq rfl).mpr ⟨h.suffix, rfl⟩), hev.fits,
    fun t ht hfit => ?_⟩
  refine hev.longest t ?_ hfit
  -- Without its last event `t` fits too.
  rcases List.eq_nil_or_concat t with rfl | ⟨t', b, rfl⟩
  · exact List.nil_suffix
  · obtain ⟨ht', rfl⟩ : t' <:+ l ∧ b = a := by
      obtain ⟨front, hfront⟩ := ht
      rw [List.concat_eq_append, ← List.append_assoc] at hfront
      obtain ⟨h1, h2⟩ := List.append_inj' hfront rfl
      exact ⟨⟨front, h1⟩, List.cons.inj h2 |>.1⟩
    rw [List.concat_eq_append, total_append] at hfit
    obtain ⟨front, hfront⟩ := h.longest t' ht' (by omega)
    exact ⟨front, by rw [List.concat_eq_append, ← List.append_assoc, hfront]⟩

end Wrenn.Lib.Broadcast
