import Mathlib.Data.List.Basic
import Mathlib.Logic.Relation

/-!
# Scripts

A script is a list of statements of which the first is executed; what it returns is a new state and the
statements that come in front of the rest.  `Runs` says that a script comes to its end, with moves of an
environment `env` between the statements.

* `Runs.append`, `Runs.of_append` and `Runs.of_cons` take a run apart;
* `Runs.invariant` is the rule for what all statements of a kind preserve, those they lead to included;
* `exists_runs` is termination, by a height that falls from a statement to those it leads to.
-/

namespace Wrenn.Lib.Scripts

variable {σ α : Type*}

inductive Runs (exec : σ → α → Option (σ × List α)) (env : σ → σ → Prop) : σ → List α → σ → Prop
  | done (s : σ) : Runs exec env s [] s
  | env {s s1 s' : σ} {as : List α} (he : env s s1) (h : Runs exec env s1 as s') : Runs exec env s as s'
  | stmt {s s1 s' : σ} {a : α} {next as : List α} (hx : exec s a = some (s1, next))
    (h : Runs exec env s1 (next ++ as) s') : Runs exec env s (a :: as) s'

variable {exec : σ → α → Option (σ × List α)} {env : σ → σ → Prop} {s s' : σ} {a : α} {as bs : List α}

theorem Runs.append {s1 : σ} (h : Runs exec env s as s1) (h' : Runs exec env s1 bs s') :
    Runs exec env s (as ++ bs) s' := by
  induction h with
  | done => exact h'
  | env he _ ih => exact .env he (ih h')
  | @stmt _ _ _ _ next as hx _ ih => exact .stmt hx (List.append_assoc next as bs ▸ ih h')

theorem Runs.of_append (h : Runs exec env s (as ++ bs) s') :
    ∃ s1, Runs exec env s as s1 ∧ Runs exec env s1 bs s' := by
  generalize hl : as ++ bs = l at h
  induction h generalizing as with
  | done s =>
    obtain ⟨rfl, rfl⟩ := List.append_eq_nil_iff.mp hl
    exact ⟨s, .done s, .done s⟩
  | env he _ ih =>
    obtain ⟨s1, h1, h2⟩ := ih hl
    exact ⟨s1, .env he h1, h2⟩
  | @stmt s _ _ a next rest hx h ih =>
    cases as with
    | nil =>
      rw [List.nil_append] at hl
      rw [hl]
      exact ⟨s, .done s, .stmt hx h⟩
    | cons a' as =>
      obtain ⟨rfl, rfl⟩ := List.cons.inj hl
      obtain ⟨s1, h1, h2⟩ := ih (List.append_assoc next as bs)
      exact ⟨s1, .stmt hx h1, h2⟩

/-- The first statement is executed after some moves of the environment. -/
theorem Runs.of_cons (h : Runs exec env s (a :: as) s') :
    ∃ s0 s1 next, Relation.ReflTransGen env s s0 ∧ exec s0 a = some (s1, next) ∧
      Runs exec env s1 (next ++ as) s' := by
  generalize hl : a :: as = l at h
  induction h with
  | done => cases hl
  | env he _ ih =>
    obtain ⟨s0, s1, next, hs0, hx, h⟩ := ih hl
    exact ⟨s0, s1, next, .head he hs0, hx, h⟩
  | @stmt s s1 _ _ next _ hx h =>
    cases hl
    exact ⟨s, s1, next, .refl, hx, h⟩

/-- **Invariant rule.**  The statements of the kind `P` lead to such statements only, and preserve `I`. -/
theorem Runs.invariant {P : α → Prop} {I : σ → Prop} (henv : ∀ s s1, env s s1 → I s → I s1)
    (hstmt : ∀ s a s1 next, P a → I s → exec s a = some (s1, next) → I s1 ∧ ∀ b ∈ next, P b)
    (h : Runs exec env s as s') (has : ∀ b ∈ as, P b) (hs : I s) : I s' := by
  induction h with
  | done => exact hs
  | env he _ ih => exact ih has (henv _ _ he hs)
  | stmt hx _ ih =>
    obtain ⟨hs1, hnext⟩ := hstmt _ _ _ _ (has _ List.mem_cons_self) hs hx
    refine ih (fun b hb => ?_) hs1
    rcases List.mem_append.mp hb with hb | hb
    · exact hnext b hb
    · exact has b (List.mem_cons_of_mem _ hb)

/-- **Termination.** -/
theorem exists_runs {height : α → ℕ} {n : ℕ}
    (hstmt : ∀ s a, height a < n → ∃ s1 next, exec s a = some (s1, next) ∧ ∀ b ∈ next, height b < height a)
    (has : ∀ b ∈ as, height b < n) : ∃ s', Runs exec env s as s' := by
  -- the bound falls for the statements that come in front, the script gets shorter for the rest
  have hbound : ∀ m ≤ n, ∀ (as : List α) (s : σ), (∀ b ∈ as, height b < m) → ∃ s', Runs exec env s as s' := by
    intro m
    induction m with
    | zero =>
      intro _ as s has
      have hnil : as = [] := List.eq_nil_iff_forall_not_mem.mpr fun b hb => absurd (has b hb) (Nat.not_lt_zero _)
      exact ⟨s, hnil ▸ .done s⟩
    | succ m ih =>
      intro hm as
      induction as with
      | nil => exact fun s _ => ⟨s, .done s⟩
      | cons a as ihas =>
        intro s has
        have ha : height a < m + 1 := has a List.mem_cons_self
        obtain ⟨s1, next, hx, hnext⟩ := hstmt s a (by omega)
        obtain ⟨s2, h1⟩ := ih (by omega) next s1 fun b hb => by
          have := hnext b hb
          omega
        obtain ⟨s', h2⟩ := ihas s2 fun b hb => has b (List.mem_cons_of_mem _ hb)
        exact ⟨s', .stmt hx (h1.append h2)⟩
  exact hbound n (Nat.le_refl n) as s has

end Wrenn.Lib.Scripts
