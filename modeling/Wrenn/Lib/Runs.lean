import Mathlib.Logic.Basic
import Mathlib.Data.List.Basic

/-!
# Guarded runs of a labelled transition function

A system is a partial step function `step : σ → α → Option σ` on a state type `σ`; the label `a : α`
names the party that moves and carries every choice its environment makes for that move.  A *guard*
`ok : σ → α → Prop` restricts the moves a run may take, evaluated in the state before the move.

* `exec` runs a fixed list of labels, so a concrete schedule is evaluated by `rfl`/`decide`;
* `Reach step ok init` is reachability along runs all of whose moves meet the guard;
* `Reach.invariant` is the induction rule;
* `exists_exec_replicate` is termination of one party that moves alone;
* `Reach.of_admits` turns an evaluated schedule that meets the guard into a reachable state, and
  `Reach.last` one that is only known to meet it, which is decidable if the guard is.
-/

namespace Wrenn.Lib.Runs

variable {σ α : Type*}

/-- Execution of a list of labels, left to right; `none` as soon as one of them is not enabled. -/
def exec (step : σ → α → Option σ) : σ → List α → Option σ
  | s, [] => some s
  | s, a :: as =>
    match step s a with
    | none => none
    | some s' => exec step s' as

theorem exec_append (step : σ → α → Option σ) : ∀ (s : σ) (as bs : List α),
    exec step s (as ++ bs) = (exec step s as).bind fun s' => exec step s' bs
  | _, [], _ => rfl
  | s, a :: as, bs => by
    rw [List.cons_append, exec, exec]
    cases step s a with
    | none => rfl
    | some s' => exact exec_append step s' as bs

/-- The states reached from `init` by moves that meet the guard `ok`. -/
inductive Reach (step : σ → α → Option σ) (ok : σ → α → Prop) (init : σ → Prop) : σ → Prop
  | init {s : σ} (h : init s) : Reach step ok init s
  | tail {s : σ} {a : α} {s' : σ} (hr : Reach step ok init s) (hok : ok s a)
      (hs : step s a = some s') : Reach step ok init s'

variable {step : σ → α → Option σ} {ok : σ → α → Prop} {init : σ → Prop} {s : σ}

/-- **Invariant rule.** -/
theorem Reach.invariant {I : σ → Prop} (h0 : ∀ s, init s → I s)
    (hstep : ∀ s a s', I s → ok s a → step s a = some s' → I s')
    (h : Reach step ok init s) : I s := by
  induction h with
  | init h => exact h0 _ h
  | tail _ hok hs ih => exact hstep _ _ _ ih hok hs

/-- Every move of the schedule is enabled and meets the guard. -/
def Admits (step : σ → α → Option σ) (ok : σ → α → Prop) : σ → List α → Prop
  | _, [] => True
  | s, a :: as => ok s a ∧
    match step s a with
    | none => False
    | some s' => Admits step ok s' as

instance decidableAdmits (step : σ → α → Option σ) (ok : σ → α → Prop) [∀ s a, Decidable (ok s a)] :
    ∀ (s : σ) (as : List α), Decidable (Admits step ok s as)
  | _, [] => isTrue trivial
  | s, a :: as =>
    match hs : step s a with
    | none => isFalse (by simp [Admits, hs])
    | some s' =>
      have := decidableAdmits step ok s' as
      decidable_of_iff (ok s a ∧ Admits step ok s' as) (by simp [Admits, hs])

/-- A schedule of moves that meet the guard in every state is admitted as soon as it can be executed. -/
theorem admits_of_exec : ∀ {as : List α} {s s' : σ}, (∀ a ∈ as, ∀ s, ok s a) →
    exec step s as = some s' → Admits step ok s as := by
  intro as
  induction as with
  | nil => exact fun _ _ => trivial
  | cons a as ih =>
    intro s s' hok h
    refine ⟨hok a List.mem_cons_self s, ?_⟩
    unfold exec at h
    cases hs : step s a with
    | none => rw [hs] at h; cases h
    | some s1 =>
      rw [hs] at h
      exact ih (fun b hb => hok b (List.mem_cons_of_mem _ hb)) h

theorem Reach.of_admits_from {s s' : σ} (h0 : Reach step ok init s) :
    ∀ {as : List α}, Admits step ok s as → exec step s as = some s' → Reach step ok init s' := by
  intro as
  induction as generalizing s with
  | nil => intro _ h; cases h; exact h0
  | cons a as ih =>
    rintro ⟨hok, hadm⟩ h
    unfold exec at h
    cases hs : step s a with
    | none => rw [hs] at h; cases h
    | some s1 =>
      rw [hs] at h hadm
      exact ih (.tail h0 hok hs) hadm h

/-- A schedule whose moves meet the guard ends in a state reached under the guard. -/
theorem Reach.of_admits {s s' : σ} {as : List α} (h0 : init s) (ha : Admits step ok s as)
    (h : exec step s as = some s') : Reach step ok init s' :=
  Reach.of_admits_from (.init h0) ha h

/-- The state after a schedule that can be executed. -/
def last (step : σ → α → Option σ) (s : σ) (as : List α) : σ := (exec step s as).getD s

theorem exec_last {as : List α} (ha : Admits step ok s as) : exec step s as = some (last step s as) := by
  have hsome : ∀ (as : List α) (s : σ), Admits step ok s as → (exec step s as).isSome = true := by
    intro as
    induction as with
    | nil => exact fun _ _ => rfl
    | cons a as ih =>
      rintro s ⟨-, ha⟩
      unfold exec
      cases hs : step s a with
      | none =>
        rw [hs] at ha
        exact ha.elim
      | some s' =>
        rw [hs] at ha
        exact ih s' ha
  obtain ⟨s', hs'⟩ := Option.isSome_iff_exists.mp (hsome as s ha)
  rw [last, hs', Option.getD_some]

/-- A move that lowers a rank, in every state of `I` that is not final, leads to a final one if it is repeated. -/
theorem exists_exec_replicate {I final : σ → Prop} (rank : σ → ℕ) (a : α)
    (hstep : ∀ s, I s → ¬ final s → ∃ s', step s a = some s' ∧ I s' ∧ rank s' < rank s) :
    ∀ s, I s → ∃ n s', exec step s (List.replicate n a) = some s' ∧ I s' ∧ final s' := by
  intro s
  induction hr : rank s using Nat.strongRecOn generalizing s with
  | ind r ih =>
    intro hi
    by_cases hf : final s
    · exact ⟨0, s, rfl, hi, hf⟩
    · obtain ⟨s1, hs1, hi1, hlt⟩ := hstep s hi hf
      obtain ⟨n, s', hexec, hi', hf'⟩ := ih (rank s1) (hr ▸ hlt) s1 rfl hi1
      refine ⟨n + 1, s', ?_, hi', hf'⟩
      rw [List.replicate_succ, exec, hs1]
      exact hexec

theorem Reach.last {as : List α} (h0 : init s) (ha : Admits step ok s as) :
    Reach step ok init (last step s as) :=
  Reach.of_admits h0 ha (exec_last ha)

end Wrenn.Lib.Runs
