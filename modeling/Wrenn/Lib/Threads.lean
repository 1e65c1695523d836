import Mathlib.Data.List.Perm.Basic
import Mathlib.Logic.Basic

/-!
# Threads over a shared state

Any number of processes share a state.  A process is a value of `π` that says what it will do next; `run`
executes that and gives the process that is left.  Processes start, may stop for good at any point, and the
environment moves by itself.

The order of the threads carries no meaning.  `moves_of_step` therefore takes the thread that moves out of
the list up to permutation, so that an invariant which does not look at the order is proved for
`p :: rest`, with `rest` the others.
-/

namespace Wrenn.Lib.Threads

variable {κ π ι χ ε : Type*}

structure Sys (κ π : Type*) where
  core : κ
  threads : List π

inductive Label (ι χ ε : Type*)
  | start (i : ι)
  | act (t : ℕ) (c : χ)
  | crash (t : ℕ)
  | env (e : ε)

structure Prog (κ π ι χ ε : Type*) where
  spawn : κ → ι → Option (κ × π)
  run : κ → χ → π → Option (κ × π)
  halt : π
  env : κ → ε → Option κ

def Prog.step (P : Prog κ π ι χ ε) (s : Sys κ π) : Label ι χ ε → Option (Sys κ π)
  | .start i => (P.spawn s.core i).map fun r => ⟨r.1, s.threads ++ [r.2]⟩
  | .act t c => (s.threads[t]?).bind fun p => (P.run s.core c p).map fun r => ⟨r.1, s.threads.set t r.2⟩
  | .crash t => some { s with threads := s.threads.set t P.halt }
  | .env e => (P.env s.core e).map fun k => { s with core := k }

/-- The steps. -/
inductive Moves (P : Prog κ π ι χ ε) (s : Sys κ π) : Label ι χ ε → Sys κ π → Prop
  | start {i : ι} {k : κ} {p : π} {threads : List π} (h : P.spawn s.core i = some (k, p))
    (hs' : threads.Perm (p :: s.threads)) : Moves P s (.start i) ⟨k, threads⟩
  | act {t : ℕ} {c : χ} {k : κ} {p p' : π} {rest threads : List π} (hp : s.threads[t]? = some p)
    (h : P.run s.core c p = some (k, p')) (hs : s.threads.Perm (p :: rest))
    (hs' : threads.Perm (p' :: rest)) : Moves P s (.act t c) ⟨k, threads⟩
  | crash {t : ℕ} {p : π} {rest threads : List π} (hp : s.threads[t]? = some p) (hs : s.threads.Perm (p :: rest))
    (hs' : threads.Perm (P.halt :: rest)) : Moves P s (.crash t) ⟨s.core, threads⟩
  | noCrash {t : ℕ} : Moves P s (.crash t) s
  | env {e : ε} {k : κ} (h : P.env s.core e = some k) : Moves P s (.env e) ⟨k, s.threads⟩

theorem perm_of_getElem? {l : List π} {t : ℕ} {p : π} (h : l[t]? = some p) :
    ∃ rest, l.Perm (p :: rest) ∧ ∀ q, (l.set t q).Perm (q :: rest) := by
  obtain ⟨ht, rfl⟩ := List.getElem?_eq_some_iff.mp h
  exact ⟨l.eraseIdx t, (List.getElem_cons_eraseIdx_perm ht).symm, fun q => List.set_perm_cons_eraseIdx ht q⟩

theorem moves_of_step {P : Prog κ π ι χ ε} {s s' : Sys κ π} {a : Label ι χ ε} (h : P.step s a = some s') :
    Moves P s a s' := by
  cases a with
  | start i =>
    obtain ⟨⟨k, p⟩, hp, rfl⟩ := Option.map_eq_some_iff.mp h
    exact .start hp (List.perm_append_singleton p s.threads)
  | act t c =>
    obtain ⟨p, hp, h⟩ := Option.bind_eq_some_iff.mp h
    obtain ⟨⟨k, p'⟩, hr, rfl⟩ := Option.map_eq_some_iff.mp h
    obtain ⟨rest, hs, hset⟩ := perm_of_getElem? hp
    exact .act hp hr hs (hset p')
  | crash t =>
    cases h
    cases hp : s.threads[t]? with
    | none =>
      rw [List.set_eq_of_length_le (List.getElem?_eq_none_iff.mp hp)]
      exact .noCrash
    | some p =>
      obtain ⟨rest, hs, hset⟩ := perm_of_getElem? hp
      exact .crash hp hs (hset P.halt)
  | env e =>
    obtain ⟨k, hk, rfl⟩ := Option.map_eq_some_iff.mp h
    exact .env hk

/-- The state meets `I`, and every thread fits it. -/
def Fits (I : κ → Prop) (Fit : κ → π → Prop) (s : Sys κ π) : Prop := I s.core ∧ ∀ p ∈ s.threads, Fit s.core p

/-- **Invariant rule** for a state and the threads one by one: whoever moves keeps `I`, fits what it leaves, and
leaves a state that the others fit. -/
theorem fits_step {P : Prog κ π ι χ ε} {I : κ → Prop} {Fit : κ → π → Prop} {s s' : Sys κ π} {a : Label ι χ ε}
    (hstart : ∀ i k p, a = .start i → P.spawn s.core i = some (k, p) → I k ∧ Fit k p ∧ ∀ q ∈ s.threads, Fit k q)
    (hact : ∀ t c p k p' rest, a = .act t c → s.threads[t]? = some p → P.run s.core c p = some (k, p') →
      s.threads.Perm (p :: rest) → I k ∧ Fit k p' ∧ ∀ q ∈ rest, Fit k q)
    (hhalt : ∀ k, Fit k P.halt)
    (henv : ∀ e k, a = .env e → P.env s.core e = some k → I k ∧ ∀ q ∈ s.threads, Fit k q)
    (h : Fits I Fit s) (hs : P.step s a = some s') : Fits I Fit s' := by
  have hcons : ∀ {k : κ} {p : π} {rest threads : List π}, threads.Perm (p :: rest) → Fit k p →
      (∀ q ∈ rest, Fit k q) → ∀ q ∈ threads, Fit k q := by
    intro k p rest threads hperm hp hrest q hq
    rcases List.mem_cons.mp (hperm.mem_iff.mp hq) with rfl | hq
    · exact hp
    · exact hrest q hq
  cases moves_of_step hs with
  | start hsp hs' =>
    obtain ⟨hI, hp, hrest⟩ := hstart _ _ _ rfl hsp
    exact ⟨hI, hcons hs' hp hrest⟩
  | act hp hr hperm hs' =>
    obtain ⟨hI, hp', hrest⟩ := hact _ _ _ _ _ _ rfl hp hr hperm
    exact ⟨hI, hcons hs' hp' hrest⟩
  | crash _ hperm hs' =>
    exact ⟨h.1, hcons hs' (hhalt _) fun q hq => h.2 q (hperm.mem_iff.mpr (List.mem_cons_of_mem _ hq))⟩
  | noCrash => exact h
  | env he => exact henv _ _ rfl he

end Wrenn.Lib.Threads
