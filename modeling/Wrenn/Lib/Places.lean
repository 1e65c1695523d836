import Mathlib.Data.List.Basic
import Mathlib.Logic.Function.Basic

/-!
# Places

A list or a function whose entries are known by their places: what stands where after an append, a `set` or an
`update`.
-/

namespace Wrenn.Lib.Places

variable {α : Type*} {l : List α} {i j : ℕ} {a a' b : α}

theorem get_append_new (h : (l ++ [a])[j]? = some b) : l[j]? = some b ∨ j = l.length ∧ b = a := by
  by_cases hj : j < l.length
  · rw [List.getElem?_append_left hj] at h
    exact .inl h
  · rw [List.getElem?_append_right (by omega)] at h
    have hlast : j - l.length = 0 := by
      by_contra hne
      rw [List.getElem?_eq_none (by simp; omega)] at h
      cases h
    rw [hlast] at h
    exact .inr ⟨by omega, (Option.some.inj h).symm⟩

theorem get_append_old (h : l[i]? = some a) : (l ++ [b])[i]? = some a := by
  rw [List.getElem?_append_left (List.getElem?_eq_some_iff.mp h).1]
  exact h

theorem get_set (h : l[i]? = some a) (hb : (l.set i a')[j]? = some b) : j = i ∧ b = a' ∨ j ≠ i ∧ l[j]? = some b := by
  by_cases hj : j = i
  · subst hj
    rw [List.getElem?_set_self (List.getElem?_eq_some_iff.mp h).1] at hb
    exact .inl ⟨rfl, (Option.some.inj hb).symm⟩
  · rw [List.getElem?_set_ne (Ne.symm hj)] at hb
    exact .inr ⟨hj, hb⟩

theorem get_set_self (h : l[i]? = some a) : (l.set i a')[i]? = some a' :=
  List.getElem?_set_self (List.getElem?_eq_some_iff.mp h).1

theorem get_modify {f : α → α} (h : (l.modify i f)[j]? = some b) :
    j = i ∧ (∃ a, l[i]? = some a ∧ b = f a) ∨ j ≠ i ∧ l[j]? = some b := by
  rw [List.getElem?_modify] at h
  by_cases hj : j = i
  · subst hj
    obtain ⟨a, ha, hb⟩ := Option.map_eq_some_iff.mp h
    rw [if_pos rfl] at hb
    exact .inl ⟨rfl, a, ha, hb.symm⟩
  · obtain ⟨a, ha, hb⟩ := Option.map_eq_some_iff.mp h
    rw [if_neg (Ne.symm hj)] at hb
    subst hb
    exact .inr ⟨hj, ha⟩

theorem get_modify_of_ne {f : α → α} (hj : j ≠ i) : (l.modify i f)[j]? = l[j]? := by
  rw [List.getElem?_modify]
  simp [Ne.symm hj]

/-- An update that keeps some value of the entries keeps it at every place. -/
theorem get_set_map {β : Type*} {f : α → β} (h : l[i]? = some a) (hf : f a' = f a) (j : ℕ) :
    ((l.set i a')[j]?).map f = (l[j]?).map f := by
  by_cases hj : j = i
  · subst hj
    rw [get_set_self h, h, Option.map_some, Option.map_some, hf]
  · rw [List.getElem?_set_ne (Ne.symm hj)]

/-- A list in which no two places have entries of a kind has at most one of them. -/
theorem length_filter_le_one {p : α → Bool} : ∀ {l : List α},
    (∀ (j k : ℕ) (a b : α), l[j]? = some a → l[k]? = some b → p a = true → p b = true → j = k) → (l.filter p).length ≤ 1
  | [], _ => Nat.zero_le _
  | a :: l, h => by
    have htail : (l.filter p).length ≤ 1 := length_filter_le_one fun j k x y hx hy hpx hpy => by
      have := h (j + 1) (k + 1) x y hx hy hpx hpy
      omega
    by_cases hp : p a = true
    · rw [List.filter_cons_of_pos hp]
      have hnil : l.filter p = [] := by
        refine List.filter_eq_nil_iff.mpr fun b hb hpb => ?_
        obtain ⟨k, hk⟩ := List.mem_iff_getElem?.mp hb
        have := h 0 (k + 1) a b rfl hk hp hpb
        omega
      rw [hnil]
      exact Nat.le_refl 1
    · rw [List.filter_cons_of_neg hp]
      exact htail

theorem of_update {ι : Type*} [DecidableEq ι] {f : ι → α} {i j : ι} (h : Function.update f i a j = b) :
    j = i ∧ a = b ∨ j ≠ i ∧ f j = b := by
  by_cases hj : j = i
  · rw [hj, Function.update_self] at h
    exact .inl ⟨hj, h⟩
  · rw [Function.update_of_ne hj] at h
    exact .inr ⟨hj, h⟩

end Wrenn.Lib.Places
