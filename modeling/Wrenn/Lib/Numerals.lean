import Mathlib.Data.List.Lex
import Mathlib.Data.Nat.Digits.Lemmas

/-!
# Numerals of a fixed length

`digits b k n` are the last `k` digits of `n` in base `b`, the most significant one first, and `value b` reads such a
list by Horner's rule.

* `value_digits`, `digits_value`: the two are inverse to each other up to `b ^ k`;
* `digits_lt_iff`: the lexicographic order of the digits is the order of the numbers.
-/

namespace Wrenn.Lib.Numerals

def value (b : ℕ) (ds : List ℕ) : ℕ := ds.foldl (fun n d => n * b + d) 0

def digits (b : ℕ) : ℕ → ℕ → List ℕ
  | 0, _ => []
  | k + 1, n => digits b k (n / b) ++ [n % b]

variable {b k m n : ℕ} {ds es : List ℕ}

/-- Mathlib's numerals begin with the least significant digit. -/
theorem value_eq_ofDigits : value b ds = Nat.ofDigits b ds.reverse := by
  rw [Nat.ofDigits_eq_foldr, List.foldr_reverse, value]
  congr 1
  funext n d
  rw [Nat.cast_id, add_comm, mul_comm]

theorem value_append : value b (ds ++ es) = value b ds * b ^ es.length + value b es := by
  rw [value_eq_ofDigits, value_eq_ofDigits, value_eq_ofDigits, List.reverse_append, Nat.ofDigits_append,
    List.length_reverse, add_comm, mul_comm]

theorem value_singleton (d : ℕ) : value b [d] = d := by simp [value]

theorem value_lt (hb : 1 < b) (h : ∀ d ∈ ds, d < b) : value b ds < b ^ ds.length := by
  rw [value_eq_ofDigits, ← List.length_reverse]
  exact Nat.ofDigits_lt_base_pow_length hb fun d hd => h d (List.mem_reverse.mp hd)

theorem value_inj (hb : 1 < b) (hlen : ds.length = es.length) (hd : ∀ d ∈ ds, d < b) (he : ∀ d ∈ es, d < b)
    (h : value b ds = value b es) : ds = es := by
  rw [value_eq_ofDigits, value_eq_ofDigits] at h
  refine List.reverse_injective (Nat.ofDigits_inj_of_len_eq hb ?_ ?_ ?_ h)
  · rw [List.length_reverse, List.length_reverse, hlen]
  · exact fun d hd' => hd d (List.mem_reverse.mp hd')
  · exact fun d hd' => he d (List.mem_reverse.mp hd')

theorem length_digits (b k n : ℕ) : (digits b k n).length = k := by
  induction k generalizing n with
  | zero => rfl
  | succ k ih => rw [digits, List.length_append, ih, List.length_singleton]

theorem lt_of_mem_digits (hb : 0 < b) : ∀ d ∈ digits b k n, d < b := by
  induction k generalizing n with
  | zero => exact List.forall_mem_nil _
  | succ k ih =>
    intro d hd
    rcases List.mem_append.mp hd with hd | hd
    · exact ih d hd
    · rw [List.mem_singleton.mp hd]
      exact Nat.mod_lt n hb

theorem value_digits (h : n < b ^ k) : value b (digits b k n) = n := by
  induction k generalizing n with
  | zero => rw [Nat.lt_one_iff.mp h]; rfl
  | succ k ih =>
    have hdiv : n / b < b ^ k := Nat.div_lt_of_lt_mul (by rwa [pow_succ'] at h)
    rw [digits, value_append, ih hdiv, value_singleton, List.length_singleton, pow_one, Nat.div_add_mod']

theorem digits_value (hb : 1 < b) (h : ∀ d ∈ ds, d < b) (hlen : ds.length = k) : digits b k (value b ds) = ds := by
  subst hlen
  refine value_inj hb (length_digits ..) (lt_of_mem_digits (by omega)) h ?_
  exact value_digits (value_lt hb h)

/-! ### Order -/

theorem value_lt_value_iff (hb : 1 < b) : ∀ {ds es : List ℕ}, ds.length = es.length → (∀ d ∈ ds, d < b) →
    (∀ e ∈ es, e < b) → (value b ds < value b es ↔ ds < es)
  | [], [], _, _, _ => by simp [value]
  | d :: ds, e :: es, hlen, hd, he => by
    have hlen' : ds.length = es.length := Nat.succ.inj hlen
    have hds : ∀ x ∈ ds, x < b := fun x hx => hd x (List.mem_cons_of_mem _ hx)
    have hes : ∀ x ∈ es, x < b := fun x hx => he x (List.mem_cons_of_mem _ hx)
    have hcons (x : ℕ) (xs : List ℕ) : value b (x :: xs) = x * b ^ xs.length + value b xs := by
      rw [← List.singleton_append, value_append, value_singleton]
    -- the lower digits never make up for a difference in the first one
    have hlow {x y u v : ℕ} (hxy : x < y) (hu : u < b ^ es.length) : x * b ^ es.length + u < y * b ^ es.length + v := by
      have : (x + 1) * b ^ es.length ≤ y * b ^ es.length := Nat.mul_le_mul_right _ hxy
      rw [add_mul, one_mul] at this
      omega
    have hvd : value b ds < b ^ es.length := hlen' ▸ value_lt hb hds
    have hve : value b es < b ^ es.length := value_lt hb hes
    rw [hcons, hcons, hlen', List.cons_lt_cons_iff]
    rcases lt_trichotomy d e with h | rfl | h
    · exact iff_of_true (hlow h hvd) (.inl h)
    · rw [Nat.add_lt_add_iff_left, value_lt_value_iff hb hlen' hds hes]
      simp
    · refine iff_of_false (Nat.lt_asymm (hlow h hve)) ?_
      rintro (h' | ⟨rfl, -⟩)
      · exact Nat.lt_asymm h h'
      · exact Nat.lt_irrefl _ h

theorem digits_lt_iff (hb : 1 < b) (hm : m < b ^ k) (hn : n < b ^ k) : digits b k m < digits b k n ↔ m < n := by
  rw [← value_lt_value_iff hb (by rw [length_digits, length_digits]) (lt_of_mem_digits (by omega))
    (lt_of_mem_digits (by omega)),
    value_digits hm, value_digits hn]

/-- A map that is strictly increasing on the entries keeps the lexicographic order. -/
theorem lex_map_iff {α β : Type*} [LT α] [LT β] {f : α → β} : ∀ {xs ys : List α},
    (∀ x ∈ xs, ∀ y ∈ ys, f x < f y ↔ x < y) → (∀ x ∈ xs, ∀ y ∈ ys, f x = f y → x = y) → (xs.map f < ys.map f ↔ xs < ys)
  | [], [], _, _ => by simp
  | [], _ :: _, _, _ => by simp
  | _ :: _, [], _, _ => by simp
  | x :: xs, y :: ys, hlt, heq => by
    have ih : xs.map f < ys.map f ↔ xs < ys := lex_map_iff
      (fun x hx y hy => hlt x (List.mem_cons_of_mem _ hx) y (List.mem_cons_of_mem _ hy))
      (fun x hx y hy => heq x (List.mem_cons_of_mem _ hx) y (List.mem_cons_of_mem _ hy))
    have hxy : f x = f y ↔ x = y := ⟨heq x List.mem_cons_self y List.mem_cons_self, congrArg f⟩
    rw [List.map_cons, List.map_cons, List.cons_lt_cons_iff, List.cons_lt_cons_iff, ih, hxy,
      hlt x List.mem_cons_self y List.mem_cons_self]

end Wrenn.Lib.Numerals
