import Mathlib.Data.List.Nodup

/-!
# Tables with a primary key

A table is a list of rows no two of which have the same key.  The statements are those of SQL that do not
join: `select` by key, `list` by a condition, `update … where`, `insert` and `delete … where`.  An `update`
must leave the key alone, and an `insert` of a key that is there fails.

Every statement is described by what `select` gives afterwards (`select_update`, `select_insert`,
`select_delete`), so that a proof about one row never looks at the list.
-/

namespace Wrenn.Lib.Tables

variable {α κ : Type*} {key : α → κ}

structure Table (key : α → κ) where
  rows : List α
  nodup : (rows.map key).Nodup

namespace Table

def empty : Table key := ⟨[], List.nodup_nil⟩

def list (t : Table key) (p : α → Bool) : List α := t.rows.filter p

def update (t : Table key) (p : α → Bool) (f : α → α) (hf : ∀ r, key (f r) = key r) : Table key where
  rows := t.rows.map fun r => if p r then f r else r
  nodup := by
    have hkeys : (t.rows.map fun r => if p r then f r else r).map key = t.rows.map key := by
      rw [List.map_map]
      refine List.map_congr_left fun r _ => ?_
      by_cases hp : p r = true
      · simp [hp, hf]
      · simp [hp]
    rw [hkeys]
    exact t.nodup

def delete (t : Table key) (p : α → Bool) : Table key where
  rows := t.rows.filter fun r => !p r
  nodup := (List.Sublist.map key List.filter_sublist).nodup t.nodup

variable {t t' : Table key} {k : κ} {r r' : α} {p : α → Bool}

theorem mem_list : r ∈ t.list p ↔ r ∈ t.rows ∧ p r = true := List.mem_filter

theorem eq_of_key (hr : r ∈ t.rows) (hr' : r' ∈ t.rows) (h : key r = key r') : r = r' :=
  List.inj_on_of_nodup_map t.nodup hr hr' h

variable [DecidableEq κ]

def select (t : Table key) (k : κ) : Option α := t.rows.find? fun r => decide (key r = k)

def insert (t : Table key) (r : α) : Option (Table key) :=
  if h : key r ∈ t.rows.map key then none
  else some ⟨r :: t.rows, List.nodup_cons.mpr ⟨h, t.nodup⟩⟩

theorem select_eq_some : t.select k = some r ↔ r ∈ t.rows ∧ key r = k := by
  constructor
  · intro h
    exact ⟨List.mem_of_find?_eq_some h, by simpa using List.find?_some h⟩
  · rintro ⟨hr, rfl⟩
    cases hs : t.select (key r) with
    | none => exact absurd (decide_eq_true rfl) (List.find?_eq_none.mp hs r hr)
    | some r' =>
      have hkey : key r' = key r := by simpa using List.find?_some hs
      rw [eq_of_key (List.mem_of_find?_eq_some hs) hr hkey]

theorem select_eq_none : t.select k = none ↔ ∀ r ∈ t.rows, key r ≠ k := by
  constructor
  · intro h r hr hk
    rw [select_eq_some.mpr ⟨hr, hk⟩] at h
    cases h
  · intro h
    cases hs : t.select k with
    | none => rfl
    | some r => exact absurd (select_eq_some.mp hs).2 (h r (select_eq_some.mp hs).1)

theorem select_key (h : t.select k = some r) : key r = k := (select_eq_some.mp h).2

theorem select_mem (h : r ∈ t.rows) : t.select (key r) = some r := select_eq_some.mpr ⟨h, rfl⟩

/-- **UPDATE.** -/
theorem select_update {f : α → α} (hf : ∀ r, key (f r) = key r) :
    (t.update p f hf).select k = (t.select k).map fun r => if p r then f r else r := by
  have hkey : ∀ r, key (if p r then f r else r) = key r := by
    intro r
    by_cases hp : p r = true
    · rw [if_pos hp, hf]
    · rw [if_neg hp]
  cases hs : t.select k with
  | none =>
    refine select_eq_none.mpr fun r' hr' => ?_
    obtain ⟨r, hr, rfl⟩ := List.mem_map.mp hr'
    rw [hkey]
    exact select_eq_none.mp hs r hr
  | some r =>
    obtain ⟨hr, hk⟩ := select_eq_some.mp hs
    exact select_eq_some.mpr ⟨List.mem_map_of_mem hr, (hkey r).trans hk⟩

/-- **DELETE.** -/
theorem select_delete : (t.delete p).select k = (t.select k).filter fun r => !p r := by
  cases hs : t.select k with
  | none =>
    refine select_eq_none.mpr fun r hr => ?_
    exact select_eq_none.mp hs r (List.mem_filter.mp hr).1
  | some r =>
    obtain ⟨hr, hk⟩ := select_eq_some.mp hs
    by_cases hp : p r = true
    · rw [Option.filter_some_neg (by simp [hp])]
      refine select_eq_none.mpr fun r' hr' hk' => ?_
      obtain ⟨hmem, hnp⟩ := List.mem_filter.mp hr'
      rw [eq_of_key hmem hr (hk'.trans hk.symm)] at hnp
      simp [hp] at hnp
    · rw [Option.filter_some_pos (by simp [hp])]
      exact select_eq_some.mpr ⟨List.mem_filter.mpr ⟨hr, by simp [hp]⟩, hk⟩

/-- A delete by key takes one row out. -/
theorem rows_delete_key (hr : r ∈ t.rows) :
    ∃ a b, t.rows = a ++ r :: b ∧ (t.delete fun r' => decide (key r' = key r)).rows = a ++ b := by
  obtain ⟨a, b, hrows⟩ := List.append_of_mem hr
  refine ⟨a, b, hrows, ?_⟩
  have hne : ∀ r' ∈ a ++ b, key r' ≠ key r := by
    intro r' hr' hkey
    have hnodup := t.nodup
    rw [hrows, List.map_append, List.map_cons, List.nodup_middle, ← List.map_append] at hnodup
    exact (List.nodup_cons.mp hnodup).1 (hkey ▸ List.mem_map_of_mem hr')
  have hkeep : ∀ l : List α, (∀ r' ∈ l, key r' ≠ key r) → l.filter (fun r' => !decide (key r' = key r)) = l := by
    intro l hl
    refine List.filter_eq_self.mpr fun r' hr' => ?_
    simpa using hl r' hr'
  show t.rows.filter (fun r' => !decide (key r' = key r)) = a ++ b
  rw [hrows, List.filter_append, List.filter_cons_of_neg (by simp),
    hkeep a fun r' hr' => hne r' (List.mem_append_left _ hr'),
    hkeep b fun r' hr' => hne r' (List.mem_append_right _ hr')]

theorem mem_insert (h : t.insert r = some t') : r' ∈ t'.rows ↔ r' = r ∨ r' ∈ t.rows := by
  unfold insert at h
  split_ifs at h
  cases h
  exact List.mem_cons

/-- **INSERT.** -/
theorem select_insert (h : t.insert r = some t') :
    t.select (key r) = none ∧ t'.select k = if k = key r then some r else t.select k := by
  unfold insert at h
  split_ifs at h with hmem
  cases h
  refine ⟨select_eq_none.mpr fun r' hr' hk => hmem (hk ▸ List.mem_map_of_mem hr'), ?_⟩
  by_cases hk : k = key r
  · rw [if_pos hk, hk]
    exact select_mem List.mem_cons_self
  · rw [if_neg hk]
    exact List.find?_cons_of_neg (by simpa using fun he => hk he.symm)

end Table

end Wrenn.Lib.Tables
