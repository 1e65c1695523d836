import Mathlib.Data.List.DropRight
import Mathlib.Data.List.TakeWhile

/-!
# Words of a text

`trim` takes the white space off both ends of a text, `fields` are its words, `cut` splits it at the first occurrence
of a separator.

* `word_induction`: a trimmed text is a word, or a word, white space and a trimmed text;
* `unwords_fields_iff`: the words joined by single blanks are the text again exactly if it has single blanks only.
-/

namespace Wrenn.Lib.Words

abbrev Text := List Char

/-- The characters with the property `White_Space` of Unicode. -/
def isSpace (c : Char) : Bool :=
  c.toNat ∈ [9, 10, 11, 12, 13, 32, 0x85, 0xa0, 0x1680, 0x2028, 0x2029, 0x202f, 0x205f, 0x3000] ||
    (0x2000 ≤ c.toNat && c.toNat ≤ 0x200a)

def trim (s : Text) : Text := (s.dropWhile isSpace).rdropWhile isSpace

def cut (sep : Char) (s : Text) : Option (Text × Text) :=
  if sep ∈ s then some (s.takeWhile (· ≠ sep), (s.dropWhile (· ≠ sep)).tail) else none

/-- The words of a text of which `cur` has been read. -/
def fieldsFrom : Text → Text → List Text
  | cur, [] => if cur = [] then [] else [cur]
  | cur, c :: s =>
    if isSpace c then (if cur = [] then fieldsFrom [] s else cur :: fieldsFrom [] s) else fieldsFrom (cur ++ [c]) s

def fields (s : Text) : List Text := fieldsFrom [] s

def unwords (ws : List Text) : Text := [' '].intercalate ws

variable {s w g r : Text} {sep : Char}

theorem cut_append (h : sep ∉ w) : cut sep (w ++ sep :: r) = some (w, r) := by
  have hw : ∀ c ∈ w, decide (c ≠ sep) = true := fun c hc => decide_eq_true fun hcs => h (hcs ▸ hc)
  rw [cut, if_pos (by simp), List.takeWhile_append_of_pos hw, List.dropWhile_append_of_pos hw]
  simp

theorem eq_of_cut (h : cut sep s = some (w, r)) : s = w ++ sep :: r ∧ sep ∉ w := by
  have hmem : sep ∈ s := by
    by_contra hno
    rw [cut, if_neg hno] at h
    cases h
  obtain ⟨a, b, rfl, ha⟩ := List.eq_append_cons_of_mem hmem
  rw [cut_append ha] at h
  cases h
  exact ⟨rfl, ha⟩

/-! ### Trimmed texts -/

/-- Neither end of the text is white space. -/
def Trimmed (s : Text) : Prop := (∀ c ∈ s.head?, isSpace c = false) ∧ ∀ c ∈ s.getLast?, isSpace c = false

def IsWord (w : Text) : Prop := w ≠ [] ∧ ∀ c ∈ w, isSpace c = false

def IsGap (g : Text) : Prop := g ≠ [] ∧ ∀ c ∈ g, isSpace c = true

theorem trim_eq_self (h : Trimmed s) : trim s = s := by
  have hleft : s.dropWhile isSpace = s := by
    cases s with
    | nil => rfl
    | cons c s => exact List.dropWhile_cons_of_neg (by simp [h.1 c rfl])
  rw [trim, hleft]
  refine List.rdropWhile_eq_self_iff.mpr fun hne => ?_
  simp [h.2 _ (List.getLast?_eq_some_getLast hne)]

theorem trimmed_trim (s : Text) : Trimmed (trim s) := by
  constructor
  · intro c hc
    obtain ⟨t, ht⟩ : trim s <+: s.dropWhile isSpace := List.rdropWhile_prefix ..
    have hne : s.dropWhile isSpace ≠ [] := by
      rintro hnil
      rw [hnil, List.append_eq_nil_iff] at ht
      rw [ht.1] at hc
      cases hc
    have hhead : (s.dropWhile isSpace).head hne = c := by
      refine List.head_eq_iff_head?_eq_some hne |>.mpr ?_
      rw [← ht, List.head?_append, hc]
      rfl
    exact hhead ▸ List.head_dropWhile_not isSpace hne
  · intro c hc
    have hne : trim s ≠ [] := by rintro hnil; rw [hnil] at hc; cases hc
    have := List.rdropWhile_last_not isSpace _ hne
    rw [List.getLast?_eq_some_getLast hne] at hc
    cases hc
    exact Bool.eq_false_iff.mpr this

theorem word_cases (h : Trimmed s) (hne : s ≠ []) :
    IsWord s ∨ ∃ w g r, s = w ++ (g ++ r) ∧ IsWord w ∧ IsGap g ∧ Trimmed r ∧ r ≠ [] := by
  have hsplit : s.takeWhile (!isSpace ·) ++ s.dropWhile (!isSpace ·) = s := List.takeWhile_append_dropWhile
  have hword : IsWord (s.takeWhile (!isSpace ·)) := by
    refine ⟨?_, fun c hc => by simpa using List.mem_takeWhile_imp hc⟩
    cases s with
    | nil => exact absurd rfl hne
    | cons c s => simp [h.1 c rfl]
  rcases ht : s.dropWhile (!isSpace ·) with _ | ⟨c, t⟩
  · rw [ht, List.append_nil] at hsplit
    exact .inl (hsplit ▸ hword)
  · have hc : isSpace c = true := by
      have hnil : s.dropWhile (!isSpace ·) ≠ [] := by rw [ht]; exact List.cons_ne_nil _ _
      simpa [ht] using List.head_dropWhile_not (!isSpace ·) hnil
    rw [ht] at hsplit
    have hrest : (c :: t).takeWhile isSpace ++ (c :: t).dropWhile isSpace = c :: t := List.takeWhile_append_dropWhile
    have hr : (c :: t).dropWhile isSpace ≠ [] := by
      intro hnil
      have hall := List.dropWhile_eq_nil_iff.mp hnil
      have hlast : s.getLast? = some ((c :: t).getLast (List.cons_ne_nil _ _)) := by
        rw [← hsplit, List.getLast?_append_of_ne_nil _ (List.cons_ne_nil _ _)]
        exact List.getLast?_eq_some_getLast _
      have := h.2 _ hlast
      rw [hall _ (List.getLast_mem _)] at this
      cases this
    refine .inr ⟨_, (c :: t).takeWhile isSpace, (c :: t).dropWhile isSpace,
      by rw [hrest, hsplit], hword, ⟨?_, ?_⟩, ⟨?_, ?_⟩, hr⟩
    · simp [hc]
    · exact fun d hd => List.mem_takeWhile_imp hd
    · intro d hd
      rw [List.head?_eq_some_head hr] at hd
      cases hd
      exact List.head_dropWhile_not isSpace hr
    · intro d hd
      refine h.2 d ?_
      rw [← hsplit, ← hrest, ← List.append_assoc, List.getLast?_append_of_ne_nil _ hr]
      exact hd

/-- Induction over the words of a trimmed text. -/
theorem word_induction {P : Text → Prop} (hword : ∀ w, IsWord w → P w)
    (hcons : ∀ w g r, IsWord w → IsGap g → Trimmed r → r ≠ [] → P r → P (w ++ (g ++ r))) (h : Trimmed s)
    (hne : s ≠ []) :
    P s := by
  induction hn : s.length using Nat.strong_induction_on generalizing s with
  | _ n ih =>
    rcases word_cases h hne with hw | ⟨w, g, r, rfl, hw, hg, hr, hrne⟩
    · exact hword s hw
    · refine hcons w g r hw hg hr hrne (ih r.length ?_ hr hrne rfl)
      have := List.length_pos_of_ne_nil hg.1
      simp only [List.length_append] at hn
      omega

/-! ### Fields -/

theorem fieldsFrom_append (hw : ∀ c ∈ w, isSpace c = false) (cur : Text) :
    fieldsFrom cur (w ++ r) = fieldsFrom (cur ++ w) r := by
  induction w generalizing cur with
  | nil => rw [List.append_nil, List.nil_append]
  | cons c w ih =>
    rw [List.cons_append, fieldsFrom, if_neg (by simp [hw c List.mem_cons_self]),
      ih fun d hd => hw d (List.mem_cons_of_mem _ hd),
      List.append_assoc, List.singleton_append]

theorem fieldsFrom_gap (hg : ∀ c ∈ g, isSpace c = true) : fieldsFrom [] (g ++ r) = fieldsFrom [] r := by
  induction g with
  | nil => rfl
  | cons c g ih =>
    rw [List.cons_append, fieldsFrom, if_pos (hg c List.mem_cons_self), if_pos rfl,
      ih fun d hd => hg d (List.mem_cons_of_mem _ hd)]

theorem fields_word (hw : IsWord w) : fields w = [w] := by
  have h := fieldsFrom_append (r := []) hw.2 []
  rw [List.append_nil, List.nil_append] at h
  rw [fields, h, fieldsFrom, if_neg hw.1]

theorem fields_cons (hw : IsWord w) (hg : IsGap g) : fields (w ++ (g ++ r)) = w :: fields r := by
  obtain ⟨c, g, rfl⟩ := List.exists_cons_of_ne_nil hg.1
  rw [fields, fieldsFrom_append hw.2, List.nil_append, List.cons_append, fieldsFrom, if_pos (hg.2 c List.mem_cons_self),
    if_neg hw.1, fieldsFrom_gap fun d hd => hg.2 d (List.mem_cons_of_mem _ hd), fields]

theorem fields_ne_nil (h : Trimmed s) (hne : s ≠ []) : fields s ≠ [] := by
  rcases word_cases h hne with hw | ⟨w, g, r, rfl, hw, hg, -⟩
  · rw [fields_word hw]
    exact List.cons_ne_nil _ _
  · rw [fields_cons hw hg]
    exact List.cons_ne_nil _ _

/-- All white space is single blanks. -/
def SingleSpaced (s : Text) : Prop :=
  ∀ l c r, s = l ++ c :: r → isSpace c = true → c = ' ' ∧ ∀ d ∈ r.head?, isSpace d = false

theorem unwords_fields (h : Trimmed s) (hne : s ≠ []) (hs : SingleSpaced s) : unwords (fields s) = s := by
  refine word_induction (P := fun s => SingleSpaced s → unwords (fields s) = s) ?_ ?_ h hne hs
  · intro w hw _
    rw [fields_word hw, unwords, List.intercalate_singleton]
  · intro w g r hw hg hr hrne ih hs
    obtain ⟨c, g, rfl⟩ := List.exists_cons_of_ne_nil hg.1
    obtain ⟨rfl, hnext⟩ := hs w c (g ++ r) rfl (hg.2 c List.mem_cons_self)
    have hg' : g = [] := by
      cases g with
      | nil => rfl
      | cons d g => exact absurd (hnext d rfl) (by simp [hg.2 d (by simp)])
    subst hg'
    have ih := ih fun l c t hlt hc => hs (w ++ ' ' :: l) c t (by rw [hlt]; simp) hc
    obtain ⟨x, xs, hx⟩ := List.exists_cons_of_ne_nil (fields_ne_nil hr hrne)
    rw [hx] at ih
    rw [fields_cons hw hg, hx, unwords, List.intercalate_cons_cons, ← unwords, ih, List.append_assoc,
      List.singleton_append]

theorem singleSpaced_word (hw : ∀ c ∈ w, isSpace c = false) : SingleSpaced w := by
  rintro l c r rfl hc
  rw [hw c (by simp)] at hc
  cases hc

theorem SingleSpaced.cons (hr : SingleSpaced r) (hw : ∀ c ∈ w, isSpace c = false)
    (hhead : ∀ d ∈ r.head?, isSpace d = false) :
    SingleSpaced (w ++ ' ' :: r) := by
  intro l c t h hc
  rcases List.append_eq_append_iff.mp h with ⟨a, rfl, ha⟩ | ⟨a, rfl, ha⟩
  · cases a with
    | nil => cases ha; exact ⟨rfl, hhead⟩
    | cons x a => cases ha; exact hr a c t rfl hc
  · cases a with
    | nil => cases ha; exact ⟨rfl, hhead⟩
    | cons x a =>
      cases ha
      rw [hw c (by simp)] at hc
      cases hc

theorem head_word (hw : IsWord w) : ∀ d ∈ (w ++ r).head?, isSpace d = false := by
  obtain ⟨c, w, rfl⟩ := List.exists_cons_of_ne_nil hw.1
  rintro d ⟨⟩
  exact hw.2 c List.mem_cons_self

theorem singleSpaced_unwords (h : Trimmed s) (hne : s ≠ []) : SingleSpaced (unwords (fields s)) := by
  refine (word_induction (P := fun s => SingleSpaced (unwords (fields s)) ∧
    ∀ d ∈ (unwords (fields s)).head?, isSpace d = false) ?_ ?_ h hne).1
  · intro w hw
    rw [fields_word hw, unwords, List.intercalate_singleton]
    have hhead := head_word (r := []) hw
    rw [List.append_nil] at hhead
    exact ⟨singleSpaced_word hw.2, hhead⟩
  · intro w g r hw hg hr hrne ih
    obtain ⟨x, xs, hx⟩ := List.exists_cons_of_ne_nil (fields_ne_nil hr hrne)
    rw [hx] at ih
    rw [fields_cons hw hg, hx, unwords, List.intercalate_cons_cons, ← unwords, List.append_assoc, List.singleton_append]
    exact ⟨ih.1.cons hw.2 ih.2, head_word hw⟩

theorem unwords_fields_iff (h : Trimmed s) (hne : s ≠ []) : unwords (fields s) = s ↔ SingleSpaced s :=
  ⟨fun heq => heq ▸ singleSpaced_unwords h hne, unwords_fields h hne⟩

end Wrenn.Lib.Words
