import Wrenn.Sandbox.RestoreSpec

/-!
# Can start-up panic?

`newSlot` is called on a recorded slot index from two places of the running pass.  In `reattachRunning`
the index has just been reserved, so it is in range (`reattachRunning_spec`).  In `sweepDeadRunning` it comes
straight from `sandbox.json`, so the sweep panics exactly when it is out of range
(`sweepDeadRunning_error_iff`).  The paused pass never panics (`restorePausedSandboxes_ok`).

Each entry is handled on its own (`restoreRunning_touches`), so start-up survives exactly when every dead
sandbox it sweeps records a slot of the range (`restoreSandboxes_returns_iff`).
-/

namespace Wrenn.Sandbox.RestorePanic

open Lib.Folds Network.Slots Disk Startup Restore RestoreSpec

variable {κ μ : Type*} {env : Env} {m m' : Manager κ μ} {st : RunningState} {name : String}

/-! ### The running pass -/

theorem sweepDeadRunning_error_iff :
    (∃ p, sweepDeadRunning env m st = .error p) ↔ ¬ InRange st.slotIndex := by
  rw [← newSlot_panics_iff]
  unfold sweepDeadRunning
  rcases newSlot st.slotIndex with p | slot
  · simp
  · simp only
    split
    · simp
    · split_ifs <;> simp

/-- What makes the running pass panic on an entry: a directory of an unregistered sandbox whose recorded
process is gone and whose recorded slot is out of range. -/
def PanicsOn (env : Env) (m : Manager κ μ) (name : String) : Prop :=
  isDir m.tree name = true ∧ isSwapName name = false ∧ m.boxes name = none ∧
    ∃ st, readRunningState m.tree name = .ok st ∧ chProcessAlive env st = false ∧
      ¬ InRange st.slotIndex

theorem restoreRunning_error_iff (env : Env) (m : Manager κ μ) (name : String) :
    (∃ p, restoreRunning env m name = .error p) ↔ PanicsOn env m name := by
  unfold restoreRunning PanicsOn
  rcases hd : isDir m.tree name with _ | _
  · simp
  rcases hs : isSwapName name with _ | _
  swap
  · simp
  rcases hr : readRunningState m.tree name with (_ | _) | st
  · simp
  · simp
  rcases hb : m.boxes name with _ | sb
  swap
  · simp
  rcases ha : chProcessAlive env st with _ | _
  · simp [sweepDeadRunning_error_iff, ha]
  · obtain ⟨m', e, h, -⟩ := reattachRunning_spec env m st
    simp [h, ha]

theorem panicsOn_congr {b : String} (hb : m'.boxes b = m.boxes b) (ht : m'.tree b = m.tree b) :
    PanicsOn env m' b ↔ PanicsOn env m b := by
  unfold PanicsOn
  rw [isDir_congr ht, readRunningState_congr ht, hb]

/-- The running pass panics on the directory exactly when it panics on one of its entries as found. -/
theorem restoreRunningSandboxes_error_iff {entries : List String} (hnd : entries.Nodup) :
    (∃ p, restoreRunningSandboxes env entries m = .error p) ↔ ∃ name ∈ entries, PanicsOn env m name :=
  foldlM_error_iff (restoreRunning_error_iff env)
    (fun h hne => panicsOn_congr ((restoreRunning_touches h).boxes_of_ne _ hne)
      ((restoreRunning_touches h).tree_of_ne _ hne)) hnd

/-! ### The paused pass -/

theorem restoreBucket_ok {cands : List Candidate} {slot : ℤ}
    (h : slot ∈ cands.map fun c => c.snapMeta.slotIndex) (m : Manager κ μ) :
    ∃ m', restoreBucket env cands m slot = .ok m' := by
  obtain ⟨c, hc, hslot⟩ := List.mem_map.mp h
  have hmem : c ∈ env.sortCands (cands.filter fun c => c.snapMeta.slotIndex = slot) :=
    (env.sortCands_perm _).mem_iff.mpr (List.mem_filter.mpr ⟨hc, by simpa using hslot⟩)
  unfold restoreBucket
  rcases hs : env.sortCands (cands.filter fun c => c.snapMeta.slotIndex = slot) with _ | ⟨w, stale⟩
  · rw [hs] at hmem; cases hmem
  · exact ⟨_, rfl⟩

/-- **The paused pass returns**: every bucket it opens holds the candidate it was opened for. -/
theorem restorePausedSandboxes_ok (env : Env) (entries : List String) (m : Manager κ μ) :
    ∃ m', restorePausedSandboxes env entries m = .ok m' := by
  unfold restorePausedSandboxes
  rcases hs : scanPausedAll env m.boxes entries m.tree with ⟨t, cands⟩
  refine foldlM_ok fun slot hslot m => restoreBucket_ok ?_ m
  rw [(env.mapOrder_perm _).mem_iff, List.mem_dedup] at hslot
  exact hslot

/-! ### Start-up -/

theorem restoreSandboxes_ok_iff {entries₁ entries₂ : List String} (hnd : entries₁.Nodup) :
    (∃ m', restoreSandboxes env entries₁ entries₂ m = .ok m') ↔
      ∀ name ∈ entries₁, ¬ PanicsOn env m name := by
  have herr : (∃ p, restoreRunningSandboxes env entries₁ m = .error p) ↔
      ∃ name ∈ entries₁, PanicsOn env m name := restoreRunningSandboxes_error_iff hnd
  unfold restoreSandboxes
  rcases hr : restoreRunningSandboxes env entries₁ m with p | m1
  · obtain ⟨name, hname, hp⟩ := herr.mp ⟨p, hr⟩
    exact ⟨fun ⟨m', h⟩ => (nomatch h), fun h => absurd hp (h name hname)⟩
  · obtain ⟨m2, h2⟩ := restorePausedSandboxes_ok env entries₂ m1
    refine ⟨fun _ name hname hp => ?_, fun _ => ⟨m2, h2⟩⟩
    obtain ⟨p, hp⟩ := herr.mpr ⟨name, hname, hp⟩
    rw [hr] at hp; cases hp

/-- **Start-up restore returns** exactly when every unregistered sandbox directory with a valid
`sandbox.json` of a dead process records a slot index in range. -/
theorem restoreSandboxes_returns_iff (env : Env) (m : Manager κ μ) (entries₁ entries₂ : List String)
    (hnd : entries₁.Nodup) :
    (∃ m', restoreSandboxes env entries₁ entries₂ m = .ok m') ↔
      ∀ name ∈ entries₁, ∀ st, isDir m.tree name = true → isSwapName name = false →
        m.boxes name = none → readRunningState m.tree name = .ok st →
        chProcessAlive env st = false → InRange st.slotIndex := by
  rw [restoreSandboxes_ok_iff hnd]
  constructor
  · intro h name hname st hd hs hb hst ha
    by_contra hout
    exact h name hname ⟨hd, hs, hb, st, hst, ha, hout⟩
  · rintro h name hname ⟨hd, hs, hb, st, hst, ha, hout⟩
    exact hout (h name hname st hd hs hb hst ha)

/-- A `sandbox.json` of the current schema, of a sandbox without a live process. -/
def deadState (id : String) (slotIndex : ℤ) : RunningState where
  version := 1
  id := id
  teamID := "00000000-0000-0000-0000-000000000000"
  templateID := "00000000-0000-0000-0000-000000000001"
  vcpus := 1
  memoryMB := 512
  timeoutSec := 300
  slotIndex := slotIndex
  baseImagePath := "/var/lib/wrenn/images/rootfs.ext4"
  cowPath := "/var/lib/wrenn/sandboxes/" ++ id ++ "/rootfs.cow"
  dmName := "wrenn-" ++ id
  sandboxDir := "/tmp/ch-vm-" ++ id
  chPID := 4242
  chSocket := "/tmp/ch-" ++ id ++ ".sock"
  sandboxDirOverride := ""
  lazyRestore := false
  createdAt := 0
  metadata := []
  volumes := []

/-- A sandboxes directory with one sandbox that died while running. -/
def deadTree (id : String) (slotIndex : ℤ) : Tree Unit Unit :=
  Function.update (fun _ => none) id
    (some (.dir ⟨.ok (deadState id slotIndex), .absent, some (), none⟩))

/-- A dead sandbox on slot 7 does not stop the agent. -/
theorem restoreSandboxes_returns_slot_seven :
    ["cl-cafe0123"].Nodup ∧
      ∃ m', restoreSandboxes freshBoot ["cl-cafe0123"] []
        (newManager (deadTree "cl-cafe0123" 7) fun _ => false) = .ok m' := by
  refine ⟨by decide, (restoreSandboxes_returns_iff _ _ _ _ (by decide)).mpr ?_⟩
  intro name hname st _ _ _ hst _
  obtain rfl := List.mem_singleton.mp hname
  cases hst
  decide

/-- A `sandbox.json` without a slot index, whose process is gone, panics the agent. -/
theorem restoreSandboxes_panics_slot_zero :
    restoreSandboxes freshBoot ["cl-cafe0123"] ["cl-cafe0123"]
      (newManager (deadTree "cl-cafe0123" 0) fun _ => false) =
        .error ⟨"slot index 0 out of range [1, 32767]"⟩ := by
  rfl

end Wrenn.Sandbox.RestorePanic
