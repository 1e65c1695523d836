import Wrenn.Lib.Words

/-!
# Leftmost-first regular expressions

Expressions over literals, character classes and greedy repetitions of a class.  `results e s` are the texts that a
match of `e` at the beginning of `s` can leave, the preferred one first: the first branch of an alternative before
the second, a longer repetition before a shorter one.  `replaceAll` replaces the preferred matches from left to right,
and never looks at what it has inserted.  It is meant for expressions that do not match the empty text.
-/

namespace Wrenn.Lib.Regex

open Words (Text)

inductive Expr where
  | lit (c : Char)
  | set (p : Char → Bool)
  | many (p : Char → Bool)
  | seq (a b : Expr)
  | alt (a b : Expr)

/-- What a greedy repetition can leave, the longest one first. -/
def repetitions (p : Char → Bool) : Text → List Text
  | [] => [[]]
  | c :: s => if p c then repetitions p s ++ [c :: s] else [c :: s]

def Expr.results : Expr → Text → List Text
  | .lit c, s => if s.head? = some c then [s.tail] else []
  | .set p, s => if s.head?.any p then [s.tail] else []
  | .many p, s => repetitions p s
  | .seq a b, s => (a.results s).flatMap b.results
  | .alt a b, s => a.results s ++ b.results s

/-- `regexp.ReplaceAllStringFunc` -/
def replaceAll (e : Expr) (f : Text → Text) (s : Text) : Text :=
  match s with
  | [] => []
  | c :: t =>
    match (e.results (c :: t)).head? with
    | none => c :: replaceAll e f t
    | some r =>
      if r.length < (c :: t).length then f ((c :: t).take ((c :: t).length - r.length)) ++ replaceAll e f r
      else c :: replaceAll e f t
termination_by s.length
decreasing_by
  · exact Nat.lt_succ_self _
  · assumption
  · exact Nat.lt_succ_self _

variable {p : Char → Bool} {s : Text} {c : Char} {e : Expr} {f : Text → Text}

theorem head_repetitions (s : Text) : (repetitions p s).head? = some (s.dropWhile p) := by
  induction s with
  | nil => rfl
  | cons c s ih =>
    rw [repetitions]
    by_cases hc : p c = true
    · rw [if_pos hc, List.head?_append, ih, List.dropWhile_cons_of_pos hc]
      rfl
    · rw [if_neg hc, List.dropWhile_cons_of_neg hc]
      rfl

/-- A literal outside the class can only follow the longest repetition. -/
theorem repetitions_lit (hc : p c = false) (s : Text) :
    (repetitions p s).flatMap (Expr.lit c).results = (Expr.lit c).results (s.dropWhile p) := by
  induction s with
  | nil => simp [Expr.results, repetitions]
  | cons d s ih =>
    rw [repetitions]
    by_cases hd : p d = true
    · have hdc : ¬ (d :: s).head? = some c := by
        rintro hh
        cases hh
        rw [hc] at hd
        cases hd
      rw [if_pos hd, List.flatMap_append, ih, List.flatMap_singleton, List.dropWhile_cons_of_pos hd]
      nth_rewrite 2 [Expr.results]
      rw [if_neg hdc, List.append_nil]
    · rw [if_neg hd, List.flatMap_singleton, List.dropWhile_cons_of_neg hd]

theorem replaceAll_nil : replaceAll e f [] = [] := by rw [replaceAll]

theorem replaceAll_of_none (h : e.results (c :: s) = []) : replaceAll e f (c :: s) = c :: replaceAll e f s := by
  rw [replaceAll, h]
  rfl

theorem replaceAll_of_some {m r : Text} (hm : m ≠ []) (h : (e.results (m ++ r)).head? = some r) :
    replaceAll e f (m ++ r) = f m ++ replaceAll e f r := by
  obtain ⟨c, m, rfl⟩ := List.exists_cons_of_ne_nil hm
  rw [List.cons_append] at h ⊢
  have hlen : (c :: (m ++ r)).length - r.length = (c :: m).length := by
    rw [List.length_cons, List.length_append, List.length_cons]
    omega
  have hlt : r.length < (c :: (m ++ r)).length := by
    rw [List.length_cons, List.length_append]
    omega
  rw [replaceAll, h]
  dsimp only
  rw [if_pos hlt, hlen, ← List.cons_append, List.take_left]

end Wrenn.Lib.Regex
