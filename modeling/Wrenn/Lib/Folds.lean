import Mathlib.Data.List.Nodup

/-!
# Folds that may fail

`List.foldlM` in `Except`, for a body that reads and writes only its own element's part of the state:
when failing on `a` is a property `bad s a` that the other elements do not touch, the whole fold fails
exactly when some element is bad in the state the fold starts from (`foldlM_error_iff`).
-/

namespace Wrenn.Lib.Folds

variable {σ α ε : Type*} {f : σ → α → Except ε σ}

theorem foldlM_cons_ok {a : α} {l : List α} {s t : σ} (h : (a :: l).foldlM f s = .ok t) :
    ∃ s1, f s a = .ok s1 ∧ l.foldlM f s1 = .ok t := by
  rw [List.foldlM_cons] at h
  cases h1 : f s a with
  | error e => rw [h1] at h; cases h
  | ok s1 => exact ⟨s1, rfl, by rwa [h1] at h⟩

/-- A relation between states that every step of the fold keeps holds between its two ends. -/
theorem foldlM_rel {R : σ → σ → Prop} (hrefl : ∀ s, R s s)
    (htrans : ∀ {s t u}, R s t → R t u → R s u) :
    ∀ {l : List α} {s t : σ}, (∀ a ∈ l, ∀ s t, f s a = .ok t → R s t) →
      l.foldlM f s = .ok t → R s t
  | [], s, t, _, h => by cases h; exact hrefl _
  | a :: l, s, t, hf, h => by
    obtain ⟨s1, h1, h⟩ := foldlM_cons_ok h
    exact htrans (hf a (by simp) _ _ h1)
      (foldlM_rel hrefl htrans (fun b hb => hf b (List.mem_cons_of_mem _ hb)) h)

/-- A fold that keeps `P` until it visits `a`, where `P` becomes `Q`, and keeps `Q` from there on. -/
theorem foldlM_visit {P Q : σ → Prop} {a : α} (ha : ∀ s t, P s → f s a = .ok t → Q t) :
    ∀ {l : List α} {s t : σ}, l.Nodup → a ∈ l →
      (∀ b ∈ l, b ≠ a → ∀ s t, P s → f s b = .ok t → P t) →
      (∀ b ∈ l, b ≠ a → ∀ s t, Q s → f s b = .ok t → Q t) →
      P s → l.foldlM f s = .ok t → Q t
  | [], _, _, _, hmem, _, _, _, _ => by cases hmem
  | b :: l, s, t, hnd, hmem, hP, hQ, hs, h => by
    obtain ⟨hbl, hl⟩ := List.nodup_cons.mp hnd
    obtain ⟨s1, h1, h⟩ := foldlM_cons_ok h
    have hP' : ∀ c ∈ l, c ≠ a → ∀ s t, P s → f s c = .ok t → P t :=
      fun c hc => hP c (List.mem_cons_of_mem _ hc)
    have hQ' : ∀ c ∈ l, c ≠ a → ∀ s t, Q s → f s c = .ok t → Q t :=
      fun c hc => hQ c (List.mem_cons_of_mem _ hc)
    by_cases hba : b = a
    · subst hba
      have hrel : Q s1 → Q t := foldlM_rel (R := fun s t => Q s → Q t) (fun _ h => h)
        (fun h h' hq => h' (h hq))
        (fun c hc s t hct hq => hQ' c hc (fun e => hbl (e ▸ hc)) s t hq hct) h
      exact hrel (ha s s1 hs h1)
    · have hal : a ∈ l := (List.mem_cons.mp hmem).resolve_left fun e => hba e.symm
      exact foldlM_visit ha hl hal hP' hQ' (hP b (by simp) hba s s1 hs h1) h

theorem foldlM_ok : ∀ {l : List α} {s : σ}, (∀ a ∈ l, ∀ s, ∃ t, f s a = .ok t) →
    ∃ t, l.foldlM f s = .ok t
  | [], s, _ => ⟨s, rfl⟩
  | a :: l, s, hf => by
    obtain ⟨s1, h1⟩ := hf a (by simp) s
    rw [List.foldlM_cons, h1]
    exact foldlM_ok fun b hb => hf b (List.mem_cons_of_mem _ hb)

/-- **Failure of a fold.** -/
theorem foldlM_error_iff {bad : σ → α → Prop} (hbad : ∀ s a, (∃ e, f s a = .error e) ↔ bad s a)
    (hframe : ∀ {s a s' b}, f s a = .ok s' → b ≠ a → (bad s' b ↔ bad s b)) :
    ∀ {l : List α} {s : σ}, l.Nodup → ((∃ e, l.foldlM f s = .error e) ↔ ∃ a ∈ l, bad s a)
  | [], s, _ => by
    constructor
    · rintro ⟨e, h⟩; cases h
    · rintro ⟨a, ha, -⟩; cases ha
  | a :: l, s, hnd => by
    obtain ⟨hal, hl⟩ := List.nodup_cons.mp hnd
    rw [List.foldlM_cons]
    cases h1 : f s a with
    | error e =>
      exact ⟨fun _ => ⟨a, by simp, (hbad s a).mp ⟨e, h1⟩⟩, fun _ => ⟨e, rfl⟩⟩
    | ok s1 =>
      have hna : ¬ bad s a := fun h => by
        obtain ⟨e, he⟩ := (hbad s a).mpr h
        rw [h1] at he; cases he
      refine (foldlM_error_iff hbad hframe (s := s1) hl).trans ⟨?_, ?_⟩
      · rintro ⟨b, hb, h⟩
        exact ⟨b, List.mem_cons_of_mem _ hb, (hframe h1 (fun e => hal (e ▸ hb))).mp h⟩
      · rintro ⟨b, hb, h⟩
        rcases List.mem_cons.mp hb with rfl | hb
        · exact absurd h hna
        · exact ⟨b, hb, (hframe h1 (fun e => hal (e ▸ hb))).mpr h⟩

end Wrenn.Lib.Folds
