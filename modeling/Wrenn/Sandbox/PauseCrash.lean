import Wrenn.Sandbox.PauseDisk
import Wrenn.Sandbox.RestorePanic

/-!
# Is `Pause` crash-atomic?

The agent has written the memory image and the metadata of a new pause generation into the staging
directory and has destroyed the VM (`Staged`).  It then performs the operations of `pauseTail`, and may stop
after any of them.  Start-up removes staging and trash directories by name, so until the staging directory
carries the sandbox's own name the new generation, and from the first operation on the only copy of the
CoW, is lost: start-up registers the complete generation (`Complete`) exactly when no rename failed and the
agent stopped after the third operation, the rename to the final name (`startUp_complete_iff`).
-/

namespace Wrenn.Sandbox.PauseCrash

open Network.Slots Function Disk Startup Restore RestoreSpec RestorePanic PauseDisk

variable {κ μ : Type*} {env : Env} {t : Tree κ μ} {id stage trash k : String} {d : SandboxDir κ μ}
variable {sm : SnapshotMeta} {c : κ} {g : μ} {calls : TailCalls} {n : ℕ}

/-- The directory when `releaseRuntime` has returned: the sandbox's own directory `d` with its CoW `c`, the
new memory image `g` and its metadata in the staging directory, and the other sandboxes on other slots. -/
structure Staged (t : Tree κ μ) (id stage trash : String) (d : SandboxDir κ μ) (sm : SnapshotMeta)
    (c : κ) (g : μ) : Prop where
  id_name : isOrphanName id = false
  stage_name : isSwapName stage = true
  trash_name : isSwapName trash = true
  final : t id = some (.dir d)
  cow : d.cow = some c
  new : d.mem ≠ some g
  staged : t stage = some (.dir (stagedDir sm g))
  trash_free : t trash = none
  alone : AloneOn t id sm.slotIndex
  slots : ∀ k, k ≠ id → isSwapName k = false →
    ∀ st, readRunningState t k = .ok st → InRange st.slotIndex

/-- The sandbox is registered as paused, and its directory holds the metadata, the CoW and the memory image
of one and the same pause. -/
def Complete (id : String) (sm : SnapshotMeta) (c : κ) (g : μ) (m : Manager κ μ) : Prop :=
  (∃ sb, m.boxes id = some sb ∧ sb.status = .paused) ∧
    ∃ d, m.tree id = some (.dir d) ∧ d.snapMeta = .ok sm ∧ d.cow = some c ∧ d.mem = some g

theorem isSwapName_of_orphan (h : isOrphanName id = false) : isSwapName id = false := by
  unfold isOrphanName at h
  cases hs : isSwapName id
  · rfl
  · simp [hs] at h

theorem Staged.id_ne_stage (h : Staged t id stage trash d sm c g) : id ≠ stage := by
  rintro rfl
  have := h.stage_name
  rw [isSwapName_of_orphan h.id_name] at this; cases this

theorem Staged.id_ne_trash (h : Staged t id stage trash d sm c g) : id ≠ trash := by
  rintro rfl
  have := h.trash_name
  rw [isSwapName_of_orphan h.id_name] at this; cases this

theorem Staged.stage_ne_trash (h : Staged t id stage trash d sm c g) : stage ≠ trash := by
  rintro rfl
  have := h.staged
  rw [h.trash_free] at this; cases this

/-! ### The operations -/

theorem rename_of_ne {src dst : String} (h1 : k ≠ src) (h2 : k ≠ dst) : rename t src dst k = t k := by
  unfold rename
  rw [update_of_ne h2, update_of_ne h1]

theorem rename_dst {src dst : String} : rename t src dst dst = t src := update_self ..

theorem rename_src {src dst : String} (h : src ≠ dst) : rename t src dst src = none := by
  unfold rename
  rw [update_of_ne h, update_self]

theorem moveCow_of_ne (h1 : k ≠ id) (h2 : k ≠ stage) : moveCow id stage t k = t k := by
  unfold moveCow
  rcases t id with _ | (_ | d) <;> rcases t stage with _ | (_ | e) <;> try rfl
  rcases hc : d.cow with _ | c
  · simp only [hc]
  · simp only [hc]
    rw [update_of_ne h2, update_of_ne h1]

theorem Staged.moveCow_id (h : Staged t id stage trash d sm c g) :
    moveCow id stage t id = some (.dir { d with cow := none }) := by
  unfold moveCow
  rw [h.final, h.staged]
  simp only [h.cow]
  rw [update_of_ne h.id_ne_stage, update_self]

theorem Staged.moveCow_stage (h : Staged t id stage trash d sm c g) :
    moveCow id stage t stage = some (.dir ⟨.absent, .ok sm, some c, some g⟩) := by
  unfold moveCow
  rw [h.final, h.staged]
  simp only [h.cow]
  exact update_self ..

/-- The tail touches the sandbox's directory, its staging directory and its trash, nothing else. -/
theorem pauseTail_of_ne (h1 : k ≠ id) (h2 : k ≠ stage) (h3 : k ≠ trash) :
    ∀ op ∈ pauseTail calls stage id trash, ∀ t : Tree κ μ, op t k = t k := by
  intro op hop t
  unfold pauseTail swapDir at hop
  split_ifs at hop <;> simp only [List.mem_cons, List.not_mem_nil, or_false] at hop
  all_goals
    rcases hop with rfl | hop
    · exact moveCow_of_ne h1 h2
  all_goals
    rcases hop with rfl | hop
    · exact rename_of_ne h1 h3
  · subst hop; exact rename_of_ne h3 h1
  · rcases hop with rfl | rfl
    · exact rename_of_ne h2 h1
    · exact removeAll_of_ne h3
  · subst hop; exact rename_of_ne h2 h1

theorem stopAfter_of_ne {ops : List (Tree κ μ → Tree κ μ)} (h : ∀ op ∈ ops, ∀ t, op t k = t k) :
    stopAfter n ops t k = t k := by
  unfold stopAfter
  have h' : ∀ op ∈ ops.take n, ∀ t, op t k = t k := fun op hop => h op (List.mem_of_mem_take hop)
  revert h'
  generalize ops.take n = l
  intro h'
  induction l generalizing t with
  | nil => rfl
  | cons op l ih =>
    exact (ih fun op' hop' => h' op' (List.mem_cons_of_mem _ hop')).trans (h' op List.mem_cons_self t)

/-! ### The sandbox's own directory when the agent stops -/

/-- No rename of the tail failed, and the rename to the final name was carried out. -/
def Swapped (calls : TailCalls) (n : ℕ) : Prop :=
  calls.moveCow = true ∧ calls.stat = true ∧ calls.toTrash = true ∧ calls.toFinal = true ∧ 3 ≤ n

instance : Decidable (Swapped calls n) := inferInstanceAs (Decidable (_ ∧ _ ∧ _ ∧ _ ∧ _))

theorem Staged.stopAfter_swapped (h : Staged t id stage trash d sm c g) (hs : Swapped calls n) :
    stopAfter n (pauseTail calls stage id trash) t id =
      some (.dir ⟨.absent, .ok sm, some c, some g⟩) := by
  obtain ⟨h1, h2, h3, h4, hn⟩ := hs
  obtain ⟨j, rfl⟩ := Nat.exists_eq_add_of_le' hn
  have hrest : ∀ t' : Tree κ μ,
      stopAfter j (if calls.rmTrash then [(removeAll · trash)] else []) t' id = t' id := by
    intro t'
    refine stopAfter_of_ne fun op hop t'' => ?_
    split_ifs at hop
    · obtain rfl := List.mem_singleton.mp hop
      exact removeAll_of_ne h.id_ne_trash
    · cases hop
  have hops : pauseTail calls stage id trash = moveCow id stage :: (rename · id trash) ::
      (rename · stage id) :: (if calls.rmTrash then [(removeAll · trash)] else [] :
        List (Tree κ μ → Tree κ μ)) := by
    simp [pauseTail, swapDir, h1, h2, h3, h4]
  rw [hops]
  change stopAfter j _ (rename (rename (moveCow id stage t) id trash) stage id) id = _
  rw [hrest, rename_dst, rename_of_ne h.id_ne_stage.symm h.stage_ne_trash, h.moveCow_stage]

theorem swapDir_nil (h : ¬ (calls.stat = true ∧ calls.toTrash = true)) :
    (swapDir calls stage id trash : List (Tree κ μ → Tree κ μ)) = [] := by
  unfold swapDir
  cases h1 : calls.stat <;> cases h2 : calls.toTrash <;> simp_all

theorem swapDir_not_toFinal (h1 : calls.stat = true) (h2 : calls.toTrash = true)
    (h3 : calls.toFinal = false) :
    (swapDir calls stage id trash : List (Tree κ μ → Tree κ μ)) =
      (rename · id trash) :: if calls.restore then [(rename · trash id)] else [] := by
  simp [swapDir, h1, h2, h3]

theorem swapDir_toFinal (h1 : calls.stat = true) (h2 : calls.toTrash = true)
    (h3 : calls.toFinal = true) :
    (swapDir calls stage id trash : List (Tree κ μ → Tree κ μ)) =
      (rename · id trash) :: (rename · stage id) ::
        if calls.rmTrash then [(removeAll · trash)] else [] := by
  simp [swapDir, h1, h2, h3]

/-- Otherwise whatever directory the sandbox has holds the memory image it had before. -/
theorem Staged.stopAfter_not_swapped (h : Staged t id stage trash d sm c g) (hs : ¬ Swapped calls n)
    {d' : SandboxDir κ μ} (hd : stopAfter n (pauseTail calls stage id trash) t id = some (.dir d')) :
    d'.mem = d.mem := by
  have hold : t id = some (.dir d') → d'.mem = d.mem := by
    intro e; rw [h.final] at e; cases e; rfl
  have hmoved : moveCow id stage t id = some (.dir d') → d'.mem = d.mem := by
    intro e; rw [h.moveCow_id] at e; cases e; rfl
  have hgone : rename (moveCow id stage t) id trash id ≠ some (.dir d') := by
    rw [rename_src h.id_ne_trash]; exact fun e => by cases e
  unfold pauseTail at hd
  by_cases h1 : calls.moveCow = true
  swap
  · rw [if_pos (by simpa using h1)] at hd
    exact hold (by simpa [stopAfter] using hd)
  rw [if_neg (by simpa using h1)] at hd
  rcases n with _ | n
  · exact hold hd
  change stopAfter n (swapDir calls stage id trash) (moveCow id stage t) id = _ at hd
  by_cases h2 : calls.stat = true ∧ calls.toTrash = true
  swap
  · rw [swapDir_nil h2] at hd
    exact hmoved (by simpa [stopAfter] using hd)
  rcases h3 : calls.toFinal with _ | _
  · -- the rename to the final name failed; the old directory is back, or still in the trash
    rw [swapDir_not_toFinal h2.1 h2.2 h3] at hd
    rcases n with _ | n
    · exact hmoved hd
    change stopAfter n (if calls.restore then [(rename · trash id)] else [])
      (rename (moveCow id stage t) id trash) id = _ at hd
    split_ifs at hd with h4
    · rcases n with _ | n
      · exact absurd hd hgone
      · refine hmoved (Eq.trans ?_ hd)
        simp [stopAfter, rename_dst]
    · exact absurd (by simpa [stopAfter] using hd) hgone
  · -- the agent stopped before the rename to the final name
    rw [swapDir_toFinal h2.1 h2.2 h3] at hd
    rcases n with _ | _ | n
    · exact hmoved hd
    · exact absurd hd hgone
    · exact absurd ⟨h1, h2.1, h2.2, h3, by omega⟩ hs

/-! ### The next start-up -/

/-- The other sandboxes, after the stop and the clean-up, still use other slots, all in range. -/
theorem Staged.cleaned_others (h : Staged t id stage trash d sm c g) (entries₀ : List String) :
    AloneOn (cleanupOrphanPauseDirs env entries₀ (stopAfter n (pauseTail calls stage id trash) t)) id
        sm.slotIndex ∧
      ∀ k, k ≠ id → isSwapName k = false → ∀ st, readRunningState (cleanupOrphanPauseDirs env entries₀
        (stopAfter n (pauseTail calls stage id trash) t)) k = .ok st → InRange st.slotIndex := by
  have hstop : ∀ k, k ≠ id → isSwapName k = false →
      stopAfter n (pauseTail calls stage id trash) t k = t k := by
    intro k hk hsw
    have hks : k ≠ stage := by
      rintro rfl; rw [h.stage_name] at hsw; cases hsw
    have hkt : k ≠ trash := by
      rintro rfl; rw [h.trash_name] at hsw; cases hsw
    exact stopAfter_of_ne (pauseTail_of_ne hk hks hkt)
  have he : Erodes (stopAfter n (pauseTail calls stage id trash) t)
      (cleanupOrphanPauseDirs env entries₀ (stopAfter n (pauseTail calls stage id trash) t)) :=
    cleanupOrphanPauseDirs_erodes entries₀
  constructor
  · refine AloneOn.erode (fun k hk hsw => ?_) he
    rw [readRunningState_congr (hstop k hk hsw), readSnapshotMeta_congr (hstop k hk hsw)]
    exact h.alone k hk hsw
  · intro k hk hsw st hst
    have hst' := he.readRunningState hsw hst
    rw [readRunningState_congr (hstop k hk hsw)] at hst'
    exact h.slots k hk hsw st hst'

/-- **Crash-atomicity of `Pause`.**  From the moment the VM is gone, start-up registers the sandbox with the
complete new generation exactly when every rename succeeded and the staging directory had been renamed to
the sandbox's own name. -/
theorem startUp_complete_iff (sb : SandboxState) (cowPath : String) (now : Time)
    (entries₀ entries₁ entries₂ : List String) (claims : ClaimFiles)
    (h : Staged t id stage trash d (pauseMeta env.uuidString sb cowPath now) c g) (hslot : InRange sb.slotIndex)
    (hclaim : env.claimErr sb.slotIndex = false) (hnd₁ : entries₁.Nodup) (hnd₂ : entries₂.Nodup)
    (hlist : ∀ m₁, restoreRunningSandboxes env entries₁ (newManager (cleanupOrphanPauseDirs env entries₀
        (stopAfter n (pauseTail calls stage id trash) t)) claims) = .ok m₁ →
      m₁.tree id ≠ none → id ∈ entries₂) :
    (∃ m, startUp env entries₀ entries₁ entries₂ claims
        (stopAfter n (pauseTail calls stage id trash) t) = .ok m ∧
      Complete id (pauseMeta env.uuidString sb cowPath now) c g m) ↔ Swapped calls n := by
  have hid := isSwapName_of_orphan h.id_name
  have hclean : ∀ {k}, isOrphanName k = false → cleanupOrphanPauseDirs env entries₀
      (stopAfter n (pauseTail calls stage id trash) t) k =
        stopAfter n (pauseTail calls stage id trash) t k :=
    fun hk => cleanupOrphanPauseDirs_of_sandbox hk entries₀
  constructor
  · -- an unfinished swap leaves no directory with the new memory image under the sandbox's name
    rintro ⟨m, hm, -, d', hd', -, -, hmem⟩
    by_contra hs
    obtain ⟨d₁, hd₁, -, -, hmem₁⟩ := (restoreSandboxes_erodes hm).dir hid hd'
    have hd₂ : stopAfter n (pauseTail calls stage id trash) t id = some (.dir d₁) :=
      (hclean h.id_name).symm.trans hd₁
    exact h.new ((h.stopAfter_not_swapped hs hd₂).symm.trans (hmem₁.symm.trans hmem))
  · intro hs
    have hdir : cleanupOrphanPauseDirs env entries₀ (stopAfter n (pauseTail calls stage id trash) t) id =
        some (.dir ⟨.absent, .ok (pauseMeta env.uuidString sb cowPath now), some c, some g⟩) :=
      (hclean h.id_name).trans (h.stopAfter_swapped hs)
    obtain ⟨halone, hrange⟩ : AloneOn (cleanupOrphanPauseDirs env entries₀
        (stopAfter n (pauseTail calls stage id trash) t)) id sb.slotIndex ∧ _ :=
      h.cleaned_others entries₀
    -- no recorded slot is out of range, so start-up returns
    have hquiet : ∀ name ∈ entries₁, ¬ PanicsOn env (newManager (cleanupOrphanPauseDirs env entries₀
        (stopAfter n (pauseTail calls stage id trash) t)) claims) name := by
      rintro name - ⟨-, hsw, -, st, hst, -, hout⟩
      by_cases hname : name = id
      · subst hname
        obtain ⟨-, d₁, hd₁, hst₁⟩ := readRunningState_ok hst
        cases hdir.symm.trans hd₁
        cases hst₁
      · exact hout (hrange name hname hsw st hst)
    obtain ⟨m, hm⟩ := (restoreSandboxes_ok_iff hnd₁).mpr hquiet
    obtain ⟨hbox, htree⟩ := restoreSandboxes_registers hid
      ⟨rfl, hdir, seedFromDir_seeded true claims sb.slotIndex⟩ rfl rfl hslot halone
      (parsePlainUUID_uuidString env _) (parsePlainUUID_uuidString env _) hclaim hnd₂ hlist hm
    exact ⟨m, hm, ⟨_, hbox, rfl⟩, _, htree, rfl, rfl, rfl⟩

/-! ### A first pause -/

/-- A sandbox on slot 7 that has never been paused. -/
def firstBox : SandboxState where
  id := "cl-cafe0123"
  status := .pausing
  templateTeamID := 0
  templateID := 1
  vcpus := 1
  memoryMB := 512
  timeoutSec := 300
  slotIndex := 7
  hostIP := none
  rootfsPath := "/dev/mapper/wrenn-cl-cafe0123"
  createdAt := 0
  lastActiveAt := 0
  metadata := []
  slot := none
  client := none
  dmDevice := none
  baseImagePath := "/var/lib/wrenn/images/rootfs.ext4"
  volumes := []
  sandboxDirOverride := ""
  lazyRestore := false

def firstMeta : SnapshotMeta :=
  pauseMeta freshBoot.uuidString firstBox "/var/lib/wrenn/sandboxes/cl-cafe0123/rootfs.cow" 0

/-- Its directory when the VM is gone: the CoW is number 1, the staged memory image number 2. -/
def firstTree : Tree ℕ ℕ :=
  Function.update (Function.update (fun _ => none) "cl-cafe0123"
      (some (.dir ⟨.ok (deadState "cl-cafe0123" 7), .absent, some 1, none⟩)))
    (stagingName "cl-cafe0123" 1) (some (.dir (stagedDir firstMeta 2)))

/-- Every call of the tail succeeds. -/
def allOk : TailCalls := ⟨true, true, true, true, true, true⟩

theorem firstTree_of_ne {k : String} (h1 : k ≠ "cl-cafe0123") (h2 : isSwapName k = false) :
    firstTree k = none := by
  have h3 : k ≠ stagingName "cl-cafe0123" 1 := by
    rintro rfl; rw [isSwapName_stagingName] at h2; cases h2
  unfold firstTree
  rw [update_of_ne h3, update_of_ne h1]

theorem staged_firstTree : Staged firstTree "cl-cafe0123" (stagingName "cl-cafe0123" 1)
    (trashName "cl-cafe0123" 2) ⟨.ok (deadState "cl-cafe0123" 7), .absent, some 1, none⟩ firstMeta 1 2 where
  id_name := by decide
  stage_name := isSwapName_stagingName ..
  trash_name := isSwapName_trashName ..
  final := by decide
  cow := rfl
  new := by decide
  staged := by decide
  trash_free := by decide
  alone := by
    intro k hk hs
    unfold readRunningState readSnapshotMeta
    rw [firstTree_of_ne hk hs]
    exact ⟨fun st h => (nomatch h), fun sm h => (nomatch h)⟩
  slots := by
    intro k hk hs st h
    unfold readRunningState at h
    rw [firstTree_of_ne hk hs] at h
    cases h

/-- Stopped right after the swap, the first pause is recovered as a whole. -/
theorem startUp_complete_first_pause :
    Swapped allOk 3 ∧ ∃ m, startUp freshBoot [] ["cl-cafe0123"] ["cl-cafe0123"] (fun _ => false)
      (stopAfter 3 (pauseTail allOk (stagingName "cl-cafe0123" 1) "cl-cafe0123"
        (trashName "cl-cafe0123" 2)) firstTree) = .ok m ∧ Complete "cl-cafe0123" firstMeta 1 2 m := by
  refine ⟨by decide, ?_⟩
  exact (startUp_complete_iff firstBox "/var/lib/wrenn/sandboxes/cl-cafe0123/rootfs.cow" 0 [] _ _ _
    staged_firstTree (by decide) rfl (by decide) (by decide) fun _ _ _ => by simp).mpr (by decide)

/-- Stopped right after the CoW was moved, with every call successful: start-up deletes both the CoW and the
new memory image, and the sandbox is gone. -/
theorem startUp_loses_first_pause :
    ∃ m, startUp freshBoot ["cl-cafe0123", "cl-cafe0123.staging-1"] ["cl-cafe0123"] [] (fun _ => false)
      (stopAfter 1 (pauseTail allOk (stagingName "cl-cafe0123" 1) "cl-cafe0123"
        (trashName "cl-cafe0123" 2)) firstTree) = .ok m ∧ m.boxes "cl-cafe0123" = none ∧
      m.tree "cl-cafe0123" = none ∧ m.tree "cl-cafe0123.staging-1" = none ∧
      firstTree "cl-cafe0123.staging-1" ≠ none :=
  ⟨_, rfl, rfl, rfl, rfl, by decide⟩

end Wrenn.Sandbox.PauseCrash
