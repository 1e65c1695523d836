import Mathlib.Data.List.Basic
import Mathlib.Logic.Function.Basic
import Mathlib.Data.Int.Notation
import Wrenn.Sandbox.Disk

/-!
# The expansion of the template images

`EnsureImageSizes` visits the image of every template and expands those that are smaller than the target: it makes
the file larger, checks the filesystem and lets it grow to the size of the file.  Every step may fail, and the agent
may be killed before any of them; the next start runs the whole again.  Whether an image is still to be expanded is
read from the size of its file.

An image is a file with a filesystem in it, of which only the two sizes count.
-/

namespace Wrenn.Sandbox.ImageSizes

open Function
open Disk (Outcome)

structure Image where
  /-- bytes of the file -/
  file : ℕ
  /-- bytes that the filesystem in it takes up -/
  fs : ℕ
  deriving DecidableEq, Repr

abbrev Images := ℕ → Option Image

inductive Step
  | stat
  | truncate
  /-- `e2fsck`; it fails with an exit code above 1 only -/
  | e2fsck
  | resize2fs
  deriving DecidableEq, Repr

/-- `expandImage`, with what has become of the image; `ok` is a nil error. -/
def expandImage (o : Step → Outcome) (targetBytes : ℕ) (image : Option Image) : Option Image × Outcome :=
  match o .stat, image with
  | .killed, i => (i, .killed)
  | .failed, i => (i, .ok)
  | .ok, none => (none, .ok)
  | .ok, some i =>
    if targetBytes ≤ i.file then (some i, .ok)
    else match o .truncate with
      | .ok =>
        match o .e2fsck with
        | .ok =>
          match o .resize2fs with
          | .ok => (some ⟨targetBytes, targetBytes⟩, .ok)
          | r => (some ⟨targetBytes, i.fs⟩, r)
        | r => (some ⟨targetBytes, i.fs⟩, r)
      | r => (some i, r)

/-- The loop over the images, up to the first that is not expanded. -/
def expandAll (o : ℕ → Step → Outcome) (targetBytes : ℕ) : List ℕ → Images → Images × Outcome
  | [], m => (m, .ok)
  | p :: ps, m =>
    match expandImage (o p) targetBytes (m p) with
    | (i, .ok) => expandAll o targetBytes ps (Function.update m p i)
    | (i, r) => (Function.update m p i, r)

def defaultDiskSizeMB : ℤ := 5120

def targetBytesOf (targetMB : ℤ) : ℕ := (if targetMB ≤ 0 then defaultDiskSizeMB else targetMB).toNat * 1024 * 1024

/-- What happens to one run. -/
structure Run where
  /-- `ReadDir` of the teams directory; `none` if it does not exist -/
  teamsDir : Option Outcome
  /-- `ReadDir` of the directory of a team -/
  readable : ℕ → Bool
  step : ℕ → Step → Outcome

/-- `EnsureImageSizes`; `teams` has the images of the templates of each team. -/
def ensureImageSizes (r : Run) (teams : List (List ℕ)) (targetMB : ℤ) (m : Images) : Images × Outcome :=
  match r.teamsDir with
  | none => (m, .ok)
  | some .ok =>
    expandAll r.step (targetBytesOf targetMB)
      ((teams.zipIdx.filter fun t => r.readable t.2).flatMap Prod.fst) m
  | some o => (m, o)

/-- The runs of several starts. -/
def starts (rs : List Run) (teams : List (List ℕ)) (targetMB : ℤ) (m : Images) : Images :=
  rs.foldl (fun m r => (ensureImageSizes r teams targetMB m).1) m

/-! ### Expanded images -/

/-- A run that has made a file larger also lets its filesystem grow. -/
def Finishes (r : Run) : Prop :=
  ∀ p, r.step p .truncate = .ok → r.step p .e2fsck = .ok ∧ r.step p .resize2fs = .ok

/-- A run that can list the directories and see the images. -/
def Sees (r : Run) : Prop := r.teamsDir = some .ok ∧ (∀ t, r.readable t = true) ∧ ∀ p, r.step p .stat = .ok

/-- The image is large enough, and its filesystem fills it. -/
def Expanded (target : ℕ) (i : Image) : Prop := target ≤ i.file ∧ i.fs = i.file

/-- The image `i` of the beginning is as it was, or expanded. -/
def Kept (target : ℕ) (i : Image) (o : Option Image) : Prop := o = some i ∨ ∃ j, o = some j ∧ Expanded target j

variable {target : ℕ} {i : Image} {m m' : Images} {p : ℕ} {r : Run}

/-- **One image**, in a run that finishes what it truncates or is at its end with the image. -/
theorem kept_expandImage {o : Step → Outcome} {image image' : Option Image} {c : Outcome}
    (hfin : (o .truncate = .ok → o .e2fsck = .ok ∧ o .resize2fs = .ok) ∨ c = .ok) (h : Kept target i image)
    (he : expandImage o target image = (image', c)) : Kept target i image' := by
  unfold expandImage at he
  split at he
  · cases he; exact h
  · cases he; exact h
  · cases he; exact h
  · split_ifs at he with hlarge
    · cases he; exact h
    · cases ht : o .truncate with
      | ok =>
        have hdone : image' = some ⟨target, target⟩ := by
          rcases hfin with hfin | rfl
          · simp only [ht, hfin ht] at he
            exact (Prod.mk.inj he).1.symm
          · cases hc : o .e2fsck <;> cases hr : o .resize2fs <;> simp only [ht, hc, hr] at he <;> cases he
            rfl
        exact .inr ⟨_, hdone, Nat.le_refl _, rfl⟩
      | failed | killed =>
        simp only [ht] at he
        cases he
        exact h

/-- An image that was found, and was not refused, is expanded. -/
theorem expanded_expandImage {o : Step → Outcome} {image image' : Option Image} (hstat : o .stat = .ok)
    (h : Kept target i image) (hi : i.file < target) (he : expandImage o target image = (image', .ok)) :
    ∃ j, image' = some j ∧ Expanded target j := by
  unfold expandImage at he
  rw [hstat] at he
  rcases h with rfl | ⟨j, rfl, hj⟩
  · simp only [if_neg (Nat.not_le.mpr hi)] at he
    cases ht : o .truncate <;> cases hc : o .e2fsck <;> cases hr : o .resize2fs <;>
      simp only [ht, hc, hr] at he <;> cases he
    exact ⟨_, rfl, Nat.le_refl _, rfl⟩
  · simp only [if_pos hj.1] at he
    cases he
    exact ⟨j, rfl, hj⟩

theorem kept_update {image' : Option Image} {q : ℕ} (h : Kept target i (m p))
    (hq : q = p → Kept target i image') : Kept target i (update m q image' p) := by
  by_cases he : q = p
  · subst he
    rw [update_self]
    exact hq rfl
  · rwa [update_of_ne (Ne.symm he)]

/-- **The loop.** -/
theorem kept_expandAll : ∀ {ps : List ℕ} {m : Images}, Finishes r ∨ (expandAll r.step target ps m).2 = .ok →
    Kept target i (m p) → Kept target i ((expandAll r.step target ps m).1 p) := by
  intro ps
  induction ps with
  | nil => exact fun _ h => h
  | cons q ps ih =>
    intro m hfin h
    unfold expandAll at hfin ⊢
    have hq : ∀ image' c, expandImage (r.step q) target (m q) = (image', c) → Finishes r ∨ c = .ok →
        Kept target i (update m q image' p) := fun image' c he hfin =>
      kept_update h fun hqp => kept_expandImage (hfin.imp_left fun hf => hf q) (hqp ▸ h) he
    cases he : expandImage (r.step q) target (m q) with
    | mk image' c =>
      rw [he] at hfin
      cases c with
      | ok => exact ih hfin (hq _ _ he (.inr rfl))
      | failed | killed => exact hq _ _ he hfin

theorem expanded_expandAll (hstat : ∀ p, r.step p .stat = .ok) (hi : i.file < target) :
    ∀ {ps : List ℕ} {m : Images}, Kept target i (m p) → p ∈ ps → (expandAll r.step target ps m).2 = .ok →
      ∃ j, (expandAll r.step target ps m).1 p = some j ∧ Expanded target j := by
  intro ps
  induction ps with
  | nil => exact fun _ hp => absurd hp List.not_mem_nil
  | cons q ps ih =>
    intro m h hp hok
    rw [expandAll] at hok ⊢
    cases he : expandImage (r.step q) target (m q) with
    | mk image' c =>
      rw [he] at hok
      cases c with
      | failed | killed => cases hok
      | ok =>
        rcases List.mem_cons.mp hp with rfl | hp
        · -- its own turn expands the image, and no later one touches it
          obtain ⟨j, rfl, hj⟩ := expanded_expandImage (hstat p) h hi he
          have hkept : Kept target j ((expandAll r.step target ps (update m p (some j))).1 p) :=
            kept_expandAll (.inr hok) (.inl (update_self ..))
          exact hkept.elim (fun hlast => ⟨j, hlast, hj⟩) fun hlast => hlast
        · exact ih (kept_update h fun hqp => kept_expandImage (.inr rfl) (hqp ▸ h) he) hp hok

variable {teams : List (List ℕ)} {targetMB : ℤ}

theorem kept_ensure (hfin : Finishes r) (h : Kept (targetBytesOf targetMB) i (m p)) :
    Kept (targetBytesOf targetMB) i ((ensureImageSizes r teams targetMB m).1 p) := by
  unfold ensureImageSizes
  split
  · exact h
  · exact kept_expandAll (.inl hfin) h
  · exact h

theorem kept_starts : ∀ {rs : List Run} {m : Images}, (∀ r ∈ rs, Finishes r) →
    Kept (targetBytesOf targetMB) i (m p) → Kept (targetBytesOf targetMB) i (starts rs teams targetMB m p) := by
  intro rs
  induction rs with
  | nil => exact fun _ h => h
  | cons r rs ih =>
    intro m hfin h
    exact ih (fun r' hr' => hfin r' (List.mem_cons_of_mem _ hr')) (kept_ensure (hfin r List.mem_cons_self) h)

/-- However many runs have failed or were killed before, provided that none of them stopped between the two changes
of size of an image: after a run that sees the images and returns nil, every image that was too small at the
beginning is expanded. -/
theorem ensure_recovers {rs : List Run} (hfin : ∀ r ∈ rs, Finishes r) (hsees : Sees r)
    (hok : (ensureImageSizes r teams targetMB (starts rs teams targetMB m)).2 = .ok) :
    ∀ p ∈ teams.flatten, ∀ i, m p = some i → i.file < targetBytesOf targetMB →
      ∃ j, (ensureImageSizes r teams targetMB (starts rs teams targetMB m)).1 p = some j ∧
        Expanded (targetBytesOf targetMB) j := by
  intro p hp i hi hsmall
  have hall : (teams.zipIdx.filter fun t => r.readable t.2).flatMap Prod.fst = teams.flatten := by
    rw [List.filter_eq_self.mpr fun t _ => hsees.2.1 t.2, List.flatMap_def, List.zipIdx_map_fst]
  have hkept : Kept (targetBytesOf targetMB) i (starts rs teams targetMB m p) := kept_starts hfin (.inl hi)
  unfold ensureImageSizes at hok ⊢
  simp only [hsees.1, hall] at hok ⊢
  exact expanded_expandAll hsees.2.2 hsmall hkept hp hok

/-! ### Runs -/

/-- Nothing goes wrong. -/
def undisturbed : Run := ⟨some .ok, fun _ => true, fun _ _ => .ok⟩

/-- The agent is killed before it checks the first image. -/
def killed : Run := ⟨some .ok, fun _ => true, fun _ s => if s = .e2fsck then .killed else .ok⟩

/-- `truncate` fails for the second of two images; a later run expands both. -/
def refused : Run := ⟨some .ok, fun _ => true, fun p s => if p = 1 ∧ s = .truncate then .failed else .ok⟩

/-- Two images of one megabyte. -/
def small : Images := fun _ => some ⟨1048576, 1048576⟩

theorem refused_recovers :
    ∃ j, (ensureImageSizes undisturbed [[0, 1]] 2 (starts [refused] [[0, 1]] 2 small)).1 1 = some j ∧
      Expanded (targetBytesOf 2) j := by
  refine ensure_recovers ?_ ⟨rfl, fun _ => rfl, fun _ => rfl⟩ rfl 1 (by decide) _ rfl (by decide)
  intro r hr p _
  cases List.mem_singleton.mp hr
  exact ⟨by simp [refused], by simp [refused]⟩

/-- **A filesystem that stays small.**  The next run finds a file of the target size and leaves it alone. -/
theorem killed_keeps_filesystem :
    (ensureImageSizes killed [[0]] 2 small).2 = .killed ∧
      (ensureImageSizes undisturbed [[0]] 2 (starts [killed] [[0]] 2 small)).2 = .ok ∧
      (ensureImageSizes undisturbed [[0]] 2 (starts [killed] [[0]] 2 small)).1 0 = some ⟨2097152, 1048576⟩ :=
  ⟨rfl, rfl, rfl⟩

end Wrenn.Sandbox.ImageSizes
