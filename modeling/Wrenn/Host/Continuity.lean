import Wrenn.Host.Coherence

/-!
# The disk a resumed sandbox sees

A CoW is read over the current content of its base image.  `SameDisk`: the logical disk is still, block for
block, the one the guest saw when its memory image was captured.  Graceful shutdown rewrites the system images
in place, and start-up rewrites every image below the target size; neither looks at the sandboxes paused on
them (`resumed_disk_differs`).

`SameDisk` holds of every paused and every resumed sandbox along the runs in which no pause generation is based
on an image that a shutdown shrinks or a start-up expands, and whose moves are undisturbed otherwise
(`reach_sameDisk`).
-/

namespace Wrenn.Host.Continuity

open Lib.Runs Sandbox.Disk Sandbox.Startup Sandbox.PauseDisk Lifecycle Generation Coherence

variable {β : Type*} {cfg : Config} {w w' : World β}

/-- The CoW over its base image is the disk that was captured with the memory image. -/
def SameDisk (imgs : Images β) (d : Dir β) : Prop :=
  ∀ sm m c, d.snapMeta = .ok sm → d.mem = some m → d.cow = some c →
    logicalDisk (imgs sm.baseTemplate) c = m.disk

theorem goodLaws_sameDisk : GoodLaws (@SameDisk β) where
  congr h1 h2 h3 h sm m c hsm hm hc := h sm m c (h1 ▸ hsm) (h3 ▸ hm) (h2 ▸ hc)
  noCow h sm m c _ _ hc := by rw [h] at hc; cases hc
  capture sm m c hsm hm hc := by cases hsm; cases hm; cases hc; rfl

/-- Some pause generation on disk has `path` as its base image. -/
def BaseOfPaused (w : World β) (path : String) : Prop :=
  ∃ k d sm, isSwapName k = false ∧ w.tree k = some (.dir d) ∧ d.snapMeta = .ok sm ∧
    sm.baseTemplate = path

/-- The condition on the moves: undisturbed, no graceful shutdown with a sandbox paused on a system image, and
no start-up with a sandbox paused on an image below the target size. -/
def ImagesAtRest (cfg : Config) (w : World β) : Action β → Prop
  | .on id a => WriteOk w id a
  | .stop graceful _ => Settled w ∧
      (graceful = true → ∀ path ∈ cfg.systemImages, ¬ BaseOfPaused w path)
  | .startUp .. => ∀ path img, BaseOfPaused w path → w.images path = some img → cfg.targetSize ≤ img.size

/-- A graceful shutdown leaves the base image of a pause generation on disk alone. -/
theorem stop_images {graceful : Bool} {shrunk : String → Image β}
    (h : ImagesAtRest cfg w (.stop graceful shrunk)) {path : String} (hp : BaseOfPaused w path) :
    (if graceful then shrinkSystemImages cfg shrunk w.images else w.images) path = w.images path := by
  rcases graceful with _ | _
  · rfl
  · exact if_neg fun hin => h.2 rfl path hin hp

/-- Start-up leaves the base image of a pause generation on disk alone. -/
theorem ensureImageSizes_of_baseOfPaused {expanded : String → Image β} {path : String}
    (h : ∀ path img, BaseOfPaused w path → w.images path = some img → cfg.targetSize ≤ img.size)
    (hp : BaseOfPaused w path) : ensureImageSizes cfg expanded w.images path = w.images path := by
  unfold ensureImageSizes
  rcases hi : w.images path with _ | img
  · rfl
  · simp only [Option.map_some, if_pos (h path img hp hi)]

/-- No step changes the base image of a pause generation on disk. -/
theorem images_of_baseOfPaused {a : Action β} (h : ImagesAtRest cfg w a) (hs : step cfg w a = some w')
    {path : String} (hp : BaseOfPaused w path) : w'.images path = w.images path := by
  rcases a with ⟨id, a⟩ | ⟨graceful, shrunk⟩ | ⟨env, entries₀, entries₁, entries₂, claims, expanded⟩ <;>
    simp only [step] at hs
  · split_ifs at hs
    rcases ha : act cfg w id a with _ | p <;> simp only [ha] at hs <;> cases hs
    rfl
  · split at hs <;> cases hs
    exact stop_images h hp
  · split at hs
    · cases hs
    · split at hs <;> cases hs
      exact ensureImageSizes_of_baseOfPaused h hp

theorem keeps_of_images {imgs : Images β} (h : ∀ path, BaseOfPaused w path → imgs path = w.images path) :
    Keeps SameDisk w imgs := by
  intro k d sm hk hd hsm hgood sm' m c hsm' hm hc
  rw [h sm'.baseTemplate ⟨k, d, sm', hk, hd, hsm', rfl⟩]
  exact hgood sm' m c hsm' hm hc

theorem guard_of_imagesAtRest {a : Action β} (h : ImagesAtRest cfg w a) : Guard SameDisk cfg w a := by
  rcases a with ⟨id, a⟩ | ⟨graceful, shrunk⟩ | ⟨env, entries₀, entries₁, entries₂, claims, expanded⟩
  · exact h
  · exact ⟨h.1, keeps_of_images fun path hp => stop_images h hp⟩
  · exact keeps_of_images fun path hp => ensureImageSizes_of_baseOfPaused h hp

/-- **Disk continuity**: in every run whose moves leave the images at rest, the disk of every paused sandbox, and
the disk a resumed one sees, is block for block the disk it saw when it was paused; and no move changes the base
image of a pause generation on disk. -/
theorem reach_sameDisk (h : Reach (step cfg) (ImagesAtRest cfg) Init w) :
    (∀ id sb d, w.boxes id = some sb → sb.status = .paused → w.tree id = some (.dir d) →
      SameDisk w.images d) ∧
    (∀ id w' d, step cfg w (.on id .resumeLaunch) = some w' → w'.tree id = some (.dir d) →
      SameDisk w'.images d) ∧
    ∀ a w' path, ImagesAtRest cfg w a → step cfg w a = some w' → BaseOfPaused w path →
      w'.images path = w.images path := by
  have hinv := reach_inv goodLaws_sameDisk (fun _ _ => guard_of_imagesAtRest) h
  exact ⟨fun id sb d hb hs hd => hinv.paused_good hb hs hd, fun id w' d hs hd => hinv.launch_good hs hd,
    fun a w' path ha hs hp => images_of_baseOfPaused ha hs hp⟩

/-! ### A sandbox paused on a system image -/

/-- The base image of `cl-1` is a system image, and images are expanded to four blocks. -/
def systemConfig : Config := ⟨["/images/rootfs.ext4"], 4, freshBoot.uuidString⟩

/-- The paused sandbox of `restartedRun` still has its disk, also on a system image. -/
theorem restartedRun_sameDisk : ∃ w sb d, exec (step systemConfig) freshHost restartedRun = some w ∧
    w.boxes "cl-1" = some sb ∧ sb.status = .paused ∧ w.tree "cl-1" = some (.dir d) ∧
    SameDisk w.images d := by
  have hadm : Admits (step systemConfig) (ImagesAtRest systemConfig) freshHost restartedRun := by
    refine And.intro ?_ (And.intro trivial (And.intro ?_ ?_))
    · rintro path img ⟨k, d, sm, -, hd, -⟩
      cases hd
    · rintro sb ⟨⟩ ⟨⟩
    · refine ⟨trivial, trivial, trivial, trivial, trivial, trivial, trivial, ⟨?_, nofun⟩, ?_, trivial⟩
      · exact settled_pausedRun systemConfig rfl ⟨_, rfl, rfl, rfl⟩
      · rintro path img - ⟨⟩
        exact Nat.le_refl 4
  refine ⟨_, _, _, rfl, rfl, rfl, rfl, ?_⟩
  exact (reach_sameDisk (Reach.of_admits init_freshHost hadm rfl)).1 "cl-1" _ _ rfl rfl rfl

/-- The agent then shuts down gracefully, and `e2fsck` and `resize2fs` rewrite the image while shrinking it to two
blocks; the next start-up expands it again, and `cl-1` is resumed. -/
def shrinkRun : List (Action ℕ) :=
  pausedRun ++ ([.stop true (fun _ => ⟨2, fun _ => 8⟩),
    .startUp freshBoot ["cl-1"] ["cl-1"] ["cl-1"] (fun _ => false) (fun _ => ⟨4, fun _ => 9⟩),
    .on "cl-1" .resumeLaunch] : List (Action ℕ))

/-- The resumed guest reads 9 from block 1, where it read 0 before the pause. -/
theorem resumed_disk_differs : ∃ w d sm m c, exec (step systemConfig) freshHost shrinkRun = some w ∧
    w.vm "cl-1" = true ∧ w.tree "cl-1" = some (.dir d) ∧ d.snapMeta = .ok sm ∧ d.mem = some m ∧
    d.cow = some c ∧ m.disk 1 = some 0 ∧ logicalDisk (w.images sm.baseTemplate) c 1 = some 9 :=
  ⟨_, _, _, _, _, rfl, rfl, rfl, rfl, rfl, rfl, rfl, rfl⟩

end Wrenn.Host.Continuity
