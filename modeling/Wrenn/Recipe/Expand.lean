import Wrenn.Lib.Regex

/-!
# Variables in an `ENV` value

`expandEnv` replaces the matches of a regular expression: `$$`, `${name}` and `$name`.  The scanner `scan` says what
that means: it reads the text once, piece by piece.

* `expandEnv_eq_scan`: the two are the same function;
* `expandEnv_append`: a text can be expanded in parts that no piece spans.
-/

namespace Wrenn.Recipe.Expand

open Lib.Words (Text)
open Lib.Regex

abbrev Vars := Text → Option Text

/-- `[a-zA-Z0-9_]` -/
def nameChar (c : Char) : Bool := c.isAlphanum || c == '_'

/-- `\$\$|\$\{([a-zA-Z0-9_]*)\}|\$([a-zA-Z0-9_]+)` -/
def envRegex : Expr :=
  .alt (.seq (.lit '$') (.lit '$'))
    (.alt (.seq (.lit '$') (.seq (.lit '{') (.seq (.many nameChar) (.lit '}'))))
      (.seq (.lit '$') (.seq (.set nameChar) (.many nameChar))))

def value (vars : Vars) (name : Text) : Text := (vars name).getD []

/-- What a match is replaced by. -/
def replacement (vars : Vars) (m : Text) : Text :=
  if m = ['$', '$'] then ['$']
  else value vars (if m.tail.head? = some '{' then (m.drop 2).dropLast else m.drop 1)

def expandEnv (s : Text) (vars : Vars) : Text := replaceAll envRegex (replacement vars) s

/-! ### The scanner -/

inductive Piece where
  | copy (c : Char)
  | dollar
  | var (name : Text)

def Piece.text (vars : Vars) : Piece → Text
  | .copy c => [c]
  | .dollar => ['$']
  | .var name => value vars name

/-- Behind a `$` stands nothing that belongs to it. -/
structure Bare (s : Text) : Prop where
  dollar : s.head? ≠ some '$'
  braced : ∀ n r, s = '{' :: (n ++ '}' :: r) → ¬ ∀ c ∈ n, nameChar c = true
  named : ∀ c ∈ s.head?, nameChar c = false

/-- The first piece of a text, and the rest. -/
inductive Next : Text → Piece → Text → Prop
  | copy {c : Char} {s : Text} (h : c ≠ '$') : Next (c :: s) (.copy c) s
  | dollar {s : Text} : Next ('$' :: '$' :: s) .dollar s
  | braced {n r : Text} (h : ∀ c ∈ n, nameChar c = true) : Next ('$' :: '{' :: (n ++ '}' :: r)) (.var n) r
  | named {n r : Text} (hne : n ≠ []) (h : ∀ c ∈ n, nameChar c = true) (hr : ∀ c ∈ r.head?, nameChar c = false) :
    Next ('$' :: (n ++ r)) (.var n) r
  | bare {s : Text} (h : Bare s) : Next ('$' :: s) (.copy '$') s

/-- The piece behind a `$`. -/
def afterDollar (s : Text) : Piece × Text :=
  if s.head? = some '$' then (.dollar, s.tail)
  else if s.head? = some '{' ∧ (s.tail.dropWhile nameChar).head? = some '}' then
    (.var (s.tail.takeWhile nameChar), (s.tail.dropWhile nameChar).tail)
  else if s.takeWhile nameChar ≠ [] then (.var (s.takeWhile nameChar), s.dropWhile nameChar)
  else (.copy '$', s)

theorem length_afterDollar (s : Text) : (afterDollar s).2.length ≤ s.length := by
  have hdrop (t : Text) : (t.dropWhile nameChar).length ≤ t.length := (List.dropWhile_suffix _).length_le
  unfold afterDollar
  split_ifs
  · simp
  · have := hdrop s.tail
    simp only [List.length_tail] at this ⊢
    omega
  · exact hdrop s
  · exact Nat.le_refl _

def scan (vars : Vars) (s : Text) : Text :=
  match s with
  | [] => []
  | c :: s => if c = '$' then (afterDollar s).1.text vars ++ scan vars (afterDollar s).2 else c :: scan vars s
termination_by s.length
decreasing_by
  · exact Nat.lt_succ_of_le (length_afterDollar s)
  · exact Nat.lt_succ_self _

variable {vars : Vars} {s t r a b n : Text} {x : Piece} {c : Char}

theorem cons_of_head? (h : s.head? = some c) : s = c :: s.tail := by
  cases s with
  | nil => cases h
  | cons d s => cases h; rfl

theorem head?_dropWhile (s : Text) : ∀ c ∈ (s.dropWhile nameChar).head?, nameChar c = false := by
  intro c hc
  have hne : s.dropWhile nameChar ≠ [] := by
    intro hnil
    rw [hnil] at hc
    cases hc
  rw [List.head?_eq_some_head hne] at hc
  cases hc
  exact List.head_dropWhile_not nameChar hne

theorem eq_of_braced (h1 : s.head? = some '{') (h2 : (s.tail.dropWhile nameChar).head? = some '}') :
    s = '{' :: (s.tail.takeWhile nameChar ++ '}' :: (s.tail.dropWhile nameChar).tail) := by
  rw [← cons_of_head? h2, List.takeWhile_append_dropWhile]
  exact cons_of_head? h1

theorem next_afterDollar (s : Text) : Next ('$' :: s) (afterDollar s).1 (afterDollar s).2 := by
  have hall (t : Text) : ∀ c ∈ t.takeWhile nameChar, nameChar c = true := fun c hc => List.mem_takeWhile_imp hc
  unfold afterDollar
  split_ifs with h1 h2 h3
  · have hn : Next ('$' :: '$' :: s.tail) .dollar s.tail := .dollar
    rwa [← cons_of_head? h1] at hn
  · have hn := Next.braced (r := (s.tail.dropWhile nameChar).tail) (hall s.tail)
    rwa [← eq_of_braced h2.1 h2.2] at hn
  · have hn := Next.named h3 (hall s) (head?_dropWhile s)
    rwa [List.takeWhile_append_dropWhile] at hn
  · refine .bare ⟨h1, fun n r hs hn => h2 ?_, fun c hc => ?_⟩
    · subst hs
      refine ⟨rfl, ?_⟩
      rw [List.tail_cons, List.dropWhile_append_of_pos hn]
      rfl
    · by_contra hname
      refine h3 ?_
      rw [cons_of_head? hc, List.takeWhile_cons_of_pos (by simpa using hname)]
      exact List.cons_ne_nil _ _

/-! ### Matches -/

theorem results_dollar (s : Text) : envRegex.results ('$' :: s) = (Expr.lit '$').results s ++
    (((Expr.lit '{').results s).flatMap (fun u => (Expr.lit '}').results (u.dropWhile nameChar)) ++
      ((Expr.set nameChar).results s).flatMap (repetitions nameChar)) := by
  have hbrace : nameChar '}' = false := by decide
  have hlit : (Expr.lit '$').results ('$' :: s) = [s] := rfl
  have hmany : (Expr.seq (.many nameChar) (.lit '}')).results =
      fun u => (Expr.lit '}').results (u.dropWhile nameChar) :=
    funext fun u => repetitions_lit hbrace u
  have hnames : (Expr.many nameChar).results = repetitions nameChar := rfl
  simp only [envRegex, Expr.results.eq_4, Expr.results.eq_5, hlit, List.flatMap_singleton, hnames]
  rw [← hmany]

theorem results_copy (h : c ≠ '$') : envRegex.results (c :: s) = [] := by
  have hlit : (Expr.lit '$').results (c :: s) = [] := if_neg fun hc => h (Option.some.inj hc)
  simp only [envRegex, Expr.results.eq_4, Expr.results.eq_5, hlit, List.flatMap_nil, List.append_nil]

/-- **One piece at a time.** -/
theorem expandEnv_next (h : Next s x r) : expandEnv s vars = x.text vars ++ expandEnv r vars := by
  unfold expandEnv
  cases h with
  | copy hc => exact replaceAll_of_none (results_copy hc)
  | dollar => exact replaceAll_of_some (m := ['$', '$']) (by decide) (by rw [List.cons_append, results_dollar]; rfl)
  | @braced n r hn =>
    have hm : '$' :: '{' :: (n ++ '}' :: r) = ('$' :: '{' :: (n ++ ['}'])) ++ r := by simp
    have hrepl : replacement vars ('$' :: '{' :: (n ++ ['}'])) = value vars n := by simp [replacement]
    rw [hm, replaceAll_of_some (List.cons_ne_nil _ _), hrepl]
    · rfl
    · rw [← hm, results_dollar]
      simp [Expr.results, List.dropWhile_append_of_pos hn, nameChar]
  | @named n r hne hn hr =>
    obtain ⟨d, n, rfl⟩ := List.exists_cons_of_ne_nil hne
    have hd := hn d List.mem_cons_self
    have hdollar : d ≠ '$' := by rintro rfl; exact absurd hd (by decide)
    have hopen : d ≠ '{' := by rintro rfl; exact absurd hd (by decide)
    have hrepl : replacement vars ('$' :: d :: n) = value vars (d :: n) := by simp [replacement, hdollar, hopen]
    have hrest : (n ++ r).dropWhile nameChar = r := by
      rw [List.dropWhile_append_of_pos fun c hc => hn c (List.mem_cons_of_mem _ hc)]
      cases r with
      | nil => rfl
      | cons e r => exact List.dropWhile_cons_of_neg (by simp [hr e rfl])
    rw [← List.cons_append, replaceAll_of_some (List.cons_ne_nil _ _), hrepl]
    · rfl
    · rw [List.cons_append, results_dollar]
      simp [Expr.results, hdollar, hopen, hd, head_repetitions, hrest]
  | bare hb =>
    refine replaceAll_of_none ?_
    rw [results_dollar]
    have h1 : (Expr.lit '$').results r = [] := if_neg hb.dollar
    have h3 : (Expr.set nameChar).results r = [] := by
      refine if_neg fun hany => ?_
      rcases hc : r.head? with _ | c
      · rw [hc] at hany
        cases hany
      · rw [hc, Option.any_some, hb.named c hc] at hany
        cases hany
    rw [h1, h3, List.nil_append, List.flatMap_nil, List.append_nil]
    refine List.flatMap_eq_nil_iff.mpr fun u hu => ?_
    simp only [Expr.results] at hu
    split_ifs at hu with hopen
    · cases List.mem_singleton.mp hu
      refine if_neg fun hclose => ?_
      exact hb.braced _ _ (eq_of_braced hopen hclose) fun c hc => List.mem_takeWhile_imp hc
    · cases hu

theorem expandEnv_nil : expandEnv [] vars = [] := replaceAll_nil

theorem expandEnv_eq_scan (s : Text) : expandEnv s vars = scan vars s := by
  induction hn : s.length using Nat.strong_induction_on generalizing s with
  | _ n ih =>
    cases s with
    | nil => rw [expandEnv_nil, scan]
    | cons c s =>
      rw [List.length_cons] at hn
      rw [scan]
      split_ifs with hc
      · subst hc
        have := length_afterDollar s
        rw [expandEnv_next (next_afterDollar s), ih _ (by omega) _ rfl]
      · rw [expandEnv_next (.copy hc), ih s.length (by omega) s rfl]
        rfl

/-! ### Consequences -/

def double (s : Text) : Text := s.flatMap fun c => if c = '$' then ['$', '$'] else [c]

theorem expandEnv_double (s : Text) : expandEnv (double s) vars = s := by
  induction s with
  | nil => exact expandEnv_nil
  | cons c s ih =>
    rw [double, List.flatMap_cons, ← double]
    split_ifs with hc
    · rw [List.cons_append, List.singleton_append, expandEnv_next .dollar, ih, hc]
      rfl
    · rw [List.singleton_append, expandEnv_next (.copy hc), ih]
      rfl

/-- Read piece by piece, `a ++ b` arrives at `b`: no piece spans the join. -/
inductive Splits : Text → Text → Prop
  | nil (b : Text) : Splits [] b
  | cons {a b r : Text} {x : Piece} (h : Next (a ++ b) x (r ++ b)) (hr : Splits r b) : Splits a b

/-- A piece that ends before the join does not depend on what follows. -/
theorem next_of_append (h : Next (a ++ b) x (r ++ b)) : Next a x r := by
  have hhead {c : Char} (hc : c ∈ r.head?) : c ∈ (r ++ b).head? := by rw [List.head?_append, hc]; rfl
  generalize hs : a ++ b = s at h
  generalize ht : r ++ b = t at h
  cases h with
  | @copy c _ hc =>
    obtain rfl : a = c :: r := List.append_cancel_right (hs.trans (congrArg (c :: ·) ht.symm))
    exact .copy hc
  | dollar =>
    obtain rfl : a = '$' :: '$' :: r := List.append_cancel_right (hs.trans (congrArg ('$' :: '$' :: ·) ht.symm))
    exact .dollar
  | @braced n _ hn =>
    obtain rfl : a = '$' :: '{' :: (n ++ '}' :: r) := by
      refine List.append_cancel_right (hs.trans ?_ : a ++ b = _ ++ b)
      rw [← ht]
      simp
    exact .braced hn
  | @named n _ hne hn hr =>
    obtain rfl : a = '$' :: (n ++ r) := by
      refine List.append_cancel_right (hs.trans ?_ : a ++ b = _ ++ b)
      rw [← ht]
      simp
    exact .named hne hn fun c hc => hr c (ht ▸ hhead hc)
  | bare hb =>
    obtain rfl : a = '$' :: r := List.append_cancel_right (hs.trans (congrArg ('$' :: ·) ht.symm))
    subst ht
    refine .bare ⟨fun hc => hb.dollar (hhead hc), fun n q hr hn => hb.braced n (q ++ b) ?_ hn,
      fun c hc => hb.named c (hhead hc)⟩
    rw [hr]
    simp

theorem expandEnv_append (h : Splits a b) : expandEnv (a ++ b) vars = expandEnv a vars ++ expandEnv b vars := by
  induction h with
  | nil b => rw [List.nil_append, expandEnv_nil, List.nil_append]
  | cons hn _ ih => rw [expandEnv_next hn, ih, expandEnv_next (next_of_append hn), List.append_assoc]

/-- **Expansion is a single pass** from the left: it is the scanner, it undoes the doubling of every `$`, and it
distributes over a join that no piece spans. -/
theorem expandEnv_single_pass (s : Text) (vars : Vars) :
    expandEnv s vars = scan vars s ∧ expandEnv (double s) vars = s ∧
      ∀ a b, Splits a b → expandEnv (a ++ b) vars = expandEnv a vars ++ expandEnv b vars :=
  ⟨expandEnv_eq_scan s, expandEnv_double s, fun _ _ => expandEnv_append⟩

end Wrenn.Recipe.Expand
