import Wrenn.Lib.Folds
import Wrenn.Sandbox.Restore

/-!
# What the start-up passes can do

The passes are characterized once, entry by entry, and every later argument about start-up uses these
facts instead of the code.

* `Erodes t t'`: at sandbox names, start-up never writes: an entry stays, loses its `sandbox.json`, or goes.
* `Touches name S m m'`: what one turn of the running pass changes (`restoreRunning_touches`): the entry
  `name`, its registration, and the slots in `S`.
* `restoreSandboxes_erodes`, `restoreSandboxes_paused`: a sandbox registered as paused had a readable pause
  generation under its own name.
* `restoreSandboxes_registers`: conversely, a pause generation without running state, alone on its slot, is
  registered and its directory is left as it is.
-/

namespace Wrenn.Sandbox.RestoreSpec

open Lib.Folds Network.Slots Function Disk Startup Restore

variable {κ μ : Type*} {env : Env} {m m' m₁ : Manager κ μ} {t t' t₁ : Tree κ μ}
variable {st : RunningState} {name k : String}

/-! ### Erosion -/

/-- At every sandbox name, `t'` holds what `t` holds, or that without `sandbox.json`, or nothing. -/
def Erodes (t t' : Tree κ μ) : Prop :=
  ∀ k, isSwapName k = false → t' k = none ∨ t' k = t k ∨ t' k = (t k).map Entry.dropState

theorem Erodes.refl (t : Tree κ μ) : Erodes t t := fun _ _ => .inr (.inl rfl)

theorem dropState_dropState (e : Entry κ μ) : e.dropState.dropState = e.dropState := by
  cases e <;> rfl

theorem Erodes.trans (h : Erodes t t₁) (h' : Erodes t₁ t') : Erodes t t' := by
  intro k hk
  rcases h' k hk with h2 | h2 | h2
  · exact .inl h2
  · rw [h2]; exact h k hk
  · rcases h k hk with h1 | h1 | h1 <;> rw [h1] at h2
    · exact .inl h2
    · exact .inr (.inr h2)
    · refine .inr (.inr ?_)
      rw [h2, Option.map_map]
      congr 1
      funext e; exact dropState_dropState e

/-- What is left of an entry still has its metadata, its memory image and its CoW. -/
theorem Erodes.dir (h : Erodes t t') (hk : isSwapName k = false) {d' : SandboxDir κ μ}
    (hd : t' k = some (.dir d')) :
    ∃ d, t k = some (.dir d) ∧ d'.snapMeta = d.snapMeta ∧ d'.cow = d.cow ∧ d'.mem = d.mem := by
  rcases h k hk with h | h | h <;> rw [hd] at h
  · cases h
  · exact ⟨d', h.symm, rfl, rfl, rfl⟩
  · rcases ht : t k with _ | (_ | d) <;> rw [ht] at h <;> cases h
    exact ⟨d, rfl, rfl, rfl, rfl⟩

variable {sm : SnapshotMeta} {i : ℤ} {boxes : String → Option SandboxState} {entries₁ entries₂ : List String}
  {id : String}

theorem readSnapshotMeta_ok :
    readSnapshotMeta t name = .ok sm ↔ ∃ d, t name = some (.dir d) ∧ d.snapMeta = .ok sm := by
  unfold readSnapshotMeta
  rcases ht : t name with _ | (_ | d)
  · simp
  · simp
  · rcases hd : d.snapMeta with _ | _ | sm' <;> simp [hd]

theorem Erodes.readSnapshotMeta (h : Erodes t t') (hk : isSwapName k = false)
    (hm : readSnapshotMeta t' k = .ok sm) : readSnapshotMeta t k = .ok sm := by
  obtain ⟨d', hd', hsm⟩ := readSnapshotMeta_ok.mp hm
  obtain ⟨d, hd, h1, -⟩ := h.dir hk hd'
  exact readSnapshotMeta_ok.mpr ⟨d, hd, h1 ▸ hsm⟩

theorem tryDeleteRunningState_self : tryDeleteRunningState env t name name = t name ∨
    tryDeleteRunningState env t name name = (t name).map Entry.dropState := by
  unfold tryDeleteRunningState
  split_ifs
  · exact .inr (update_self ..)
  · exact .inl rfl

theorem tryRemoveAll_self : tryRemoveAll env t name name = none ∨
    tryRemoveAll env t name name = t name := by
  unfold tryRemoveAll
  split_ifs
  · exact .inl (update_self ..)
  · exact .inr rfl

theorem trashCorruptDir_of_ne (hk : isSwapName k = false) (hne : k ≠ name) :
    trashCorruptDir env t name k = t k := by
  unfold trashCorruptDir
  split_ifs
  · have htr : k ≠ trashName name (env.trashTime name) := by
      rintro rfl; rw [isSwapName_trashName] at hk; cases hk
    unfold rename
    rw [update_of_ne htr, update_of_ne hne]
  · rfl

theorem trashCorruptDir_self (hk : isSwapName name = false) :
    trashCorruptDir env t name name = none ∨ trashCorruptDir env t name name = t name := by
  unfold trashCorruptDir
  split_ifs
  · have htr : name ≠ trashName name (env.trashTime name) := by
      intro h; rw [h, isSwapName_trashName] at hk; cases hk
    left
    unfold rename
    rw [update_of_ne htr, update_self]
  · exact .inr rfl

theorem trashCorruptDir_erodes (name : String) : Erodes t (trashCorruptDir env t name) := by
  intro k hk
  by_cases h : k = name
  · subst h
    have hself : trashCorruptDir env t k k = none ∨ trashCorruptDir env t k k = t k :=
      trashCorruptDir_self hk
    exact hself.imp_right .inl
  · exact .inr (.inl (trashCorruptDir_of_ne hk h))

theorem cleanupOrphan_of_sandbox (hk : isOrphanName k = false) (name : String) :
    cleanupOrphan env t name k = t k := by
  unfold cleanupOrphan
  split_ifs with h
  · refine tryRemoveAll_of_ne ?_
    rintro rfl
    simp [hk] at h
  · rfl

theorem cleanupOrphan_erodes (name : String) : Erodes t (cleanupOrphan env t name) := by
  intro k _
  unfold cleanupOrphan
  split_ifs with h
  · by_cases hk : k = name
    · subst hk
      have hself : tryRemoveAll env t k k = none ∨ tryRemoveAll env t k k = t k := tryRemoveAll_self
      exact hself.imp_right .inl
    · exact .inr (.inl (tryRemoveAll_of_ne hk))
  · exact .inr (.inl rfl)

theorem cleanupOrphanPauseDirs_erodes (entries : List String) :
    Erodes t (cleanupOrphanPauseDirs env entries t) := by
  unfold cleanupOrphanPauseDirs
  induction entries generalizing t with
  | nil => exact .refl t
  | cons name entries ih => exact (cleanupOrphan_erodes name).trans ih

/-- The clean-up of orphans keeps every directory of a sandbox. -/
theorem cleanupOrphanPauseDirs_of_sandbox (hk : isOrphanName k = false) (entries : List String) :
    cleanupOrphanPauseDirs env entries t k = t k := by
  unfold cleanupOrphanPauseDirs
  induction entries generalizing t with
  | nil => rfl
  | cons name entries ih => exact ih.trans (cleanupOrphan_of_sandbox hk name)

/-! ### One turn of the running pass -/

/-- A turn of the running pass on `name` that may touch the slots in `S`. -/
structure Touches (name : String) (S : ℤ → Prop) (m m' : Manager κ μ) : Prop where
  boxes_of_ne : ∀ k, k ≠ name → m'.boxes k = m.boxes k
  boxes_self : m'.boxes name = m.boxes name ∨ ∃ sb, m'.boxes name = some sb ∧ sb.status = .running
  tree_of_ne : ∀ k, k ≠ name → m'.tree k = m.tree k
  tree_self : m'.tree name = none ∨ m'.tree name = m.tree name ∨
    m'.tree name = (m.tree name).map Entry.dropState
  slots_of_not : ∀ i, ¬ S i → m'.slots.inUse i = m.slots.inUse i ∧ m'.slots.seeded i = m.slots.seeded i

theorem Touches.refl (name : String) (S : ℤ → Prop) (m : Manager κ μ) : Touches name S m m :=
  ⟨fun _ _ => rfl, .inl rfl, fun _ _ => rfl, .inr (.inl rfl), fun _ _ => ⟨rfl, rfl⟩⟩

theorem reserve_of_ne {a a' : SlotAllocator} {files files' : ClaimFiles} {ioErr : Bool} {index : ℤ}
    (h : reserve a files ioErr index = .ok (a', files')) (hi : i ≠ index) :
    a'.inUse i = a.inUse i ∧ a'.seeded i = a.seeded i := by
  obtain ⟨-, -, rfl⟩ := reserve_spec h
  exact ⟨update_of_ne hi .., update_of_ne hi ..⟩

/-- A turn that only reserves the recorded slot. -/
theorem Touches.of_reserve {slots : SlotAllocator} {claims : ClaimFiles} {loops} {ioErr : Bool}
    (h : reserve m.slots m.claims ioErr st.slotIndex = .ok (slots, claims)) :
    Touches name (· = st.slotIndex) m { m with slots := slots, claims := claims, loops := loops } :=
  ⟨fun _ _ => rfl, .inl rfl, fun _ _ => rfl, .inr (.inl rfl), fun _ hi => reserve_of_ne h hi⟩

theorem reattachRunning_spec (env : Env) (m : Manager κ μ) (st : RunningState) :
    ∃ m' e, reattachRunning env m st = .ok (m', e) ∧ Touches st.id (· = st.slotIndex) m m' := by
  unfold reattachRunning
  split
  · exact ⟨_, _, rfl, .refl ..⟩
  split
  · exact ⟨_, _, rfl, .refl ..⟩
  split
  · exact ⟨_, _, rfl, .refl ..⟩
  split
  · exact ⟨_, _, rfl, .refl ..⟩
  · next slots claims hres =>
    -- the reservation has checked the range, so the slot can be built
    obtain ⟨slot, hslot, -⟩ := newSlot_of_reserve hres
    rw [hslot]
    simp only
    split
    · exact ⟨_, _, rfl, .of_reserve hres⟩
    split
    · exact ⟨_, _, rfl, .of_reserve hres⟩
    split
    · exact ⟨_, _, rfl, .of_reserve hres⟩
    · exact ⟨_, _, rfl, fun k hk => update_of_ne hk _ _,
        .inr ⟨_, update_self .., rfl⟩, fun _ _ => rfl, .inr (.inl rfl),
        fun _ hi => reserve_of_ne hres hi⟩

theorem sweepDeadRunning_touches (h : sweepDeadRunning env m st = .ok m') :
    Touches st.id (· = st.slotIndex) m m' := by
  have hdel : ∀ k, k ≠ st.id → tryDeleteRunningState env m.tree st.id k = m.tree k :=
    fun k hk => tryDeleteRunningState_of_ne hk
  have hself : tryDeleteRunningState env m.tree st.id st.id = m.tree st.id ∨
      tryDeleteRunningState env m.tree st.id st.id = (m.tree st.id).map Entry.dropState :=
    tryDeleteRunningState_self
  have hrm : ∀ k, k ≠ st.id →
      tryRemoveAll env (tryDeleteRunningState env m.tree st.id) st.id k = m.tree k :=
    fun k hk => (tryRemoveAll_of_ne hk).trans (hdel k hk)
  have hrmself : tryRemoveAll env (tryDeleteRunningState env m.tree st.id) st.id st.id = none ∨
      tryRemoveAll env (tryDeleteRunningState env m.tree st.id) st.id st.id = m.tree st.id ∨
      tryRemoveAll env (tryDeleteRunningState env m.tree st.id) st.id st.id =
        (m.tree st.id).map Entry.dropState := by
    rcases tryRemoveAll_self with h | h
    · exact .inl h
    · rw [h]; exact .inr hself
  unfold sweepDeadRunning at h
  rcases hslot : newSlot st.slotIndex with p | slot <;> simp only [hslot] at h
  · cases h
  rcases hm : readSnapshotMeta (tryDeleteRunningState env m.tree st.id) st.id with e | sm <;>
    simp only [hm] at h
  · split_ifs at h
    · cases h
      exact ⟨fun _ _ => rfl, .inl rfl, hrm, hrmself,
        fun i hi => ⟨update_of_ne hi _ _, update_of_ne hi _ _⟩⟩
    · cases h
      exact ⟨fun _ _ => rfl, .inl rfl, hrm, hrmself, fun _ _ => ⟨rfl, rfl⟩⟩
  · cases h
    exact ⟨fun _ _ => rfl, .inl rfl, hdel, .inr hself, fun _ _ => ⟨rfl, rfl⟩⟩

/-- **One turn of the running pass** changes only its own entry, and only the slot recorded there. -/
theorem restoreRunning_touches (h : restoreRunning env m name = .ok m') :
    Touches name (fun i => isSwapName name = false ∧
      ∃ st, readRunningState m.tree name = .ok st ∧ i = st.slotIndex) m m' := by
  unfold restoreRunning at h
  by_cases h1 : (!isDir m.tree name || isSwapName name) = true
  · rw [if_pos h1] at h; cases h; exact .refl ..
  rw [if_neg h1] at h
  rcases hr : readRunningState m.tree name with (_ | _) | st <;> simp only [hr] at h
  · cases h; exact .refl ..
  · cases h
    exact ⟨fun _ _ => rfl, .inl rfl, fun k hk => tryDeleteRunningState_of_ne hk,
      .inr tryDeleteRunningState_self, fun _ _ => ⟨rfl, rfl⟩⟩
  · obtain ⟨hid, -⟩ := readRunningState_ok hr
    have hT : Touches st.id (· = st.slotIndex) m m' := by
      obtain ⟨m1, e, h4, h5⟩ := reattachRunning_spec env m st
      rw [h4] at h
      split_ifs at h with h2 h3
      · cases h; exact .refl ..
      · exact sweepDeadRunning_touches h
      · cases h; exact h5
    rw [hid] at hT
    have hswap : isSwapName name = false := by
      cases hs : isSwapName name
      · rfl
      · simp [hs] at h1
    exact ⟨hT.1, hT.2, hT.3, hT.4, fun i hi => hT.5 i fun he => hi ⟨hswap, st, rfl, he⟩⟩

theorem Touches.erodes {S : ℤ → Prop} (h : Touches name S m m') : Erodes m.tree m'.tree := by
  intro k _
  by_cases hk : k = name
  · subst hk; exact h.tree_self
  · exact .inr (.inl (h.tree_of_ne k hk))

/-- The running pass erodes the directory and registers running sandboxes only. -/
theorem restoreRunningSandboxes_spec {entries : List String}
    (h : restoreRunningSandboxes env entries m = .ok m') :
    Erodes m.tree m'.tree ∧
      ∀ k sb, m'.boxes k = some sb → m.boxes k = some sb ∨ sb.status = .running := by
  refine foldlM_rel (R := fun m m' : Manager κ μ => Erodes m.tree m'.tree ∧
    ∀ k sb, m'.boxes k = some sb → m.boxes k = some sb ∨ sb.status = .running)
    (fun _ => ⟨.refl _, fun _ _ => .inl⟩) ?_ ?_ h
  · rintro m₀ m₁ m₂ ⟨h1, h2⟩ ⟨h3, h4⟩
    refine ⟨h1.trans h3, fun k sb hk => ?_⟩
    rcases h4 k sb hk with h5 | h5
    · exact h2 k sb h5
    · exact .inr h5
  · intro name _ m₀ m₁ hstep
    have hT := restoreRunning_touches hstep
    refine ⟨hT.erodes, fun k sb hk => ?_⟩
    by_cases hkn : k = name
    · subst hkn
      rcases hT.boxes_self with h1 | ⟨sb', h1, h2⟩
      · exact .inl (h1 ▸ hk)
      · rw [h1] at hk; cases hk; exact .inr h2
    · exact .inl (hT.boxes_of_ne k hkn ▸ hk)

/-! ### The paused pass: candidates -/

variable {c : Candidate}

theorem scanPaused_candidate (h : scanPaused env boxes t name = .candidate c) :
    c.sandboxID = name ∧ isSwapName name = false ∧ boxes name = none ∧
      readSnapshotMeta t name = .ok c.snapMeta := by
  unfold scanPaused at h
  by_cases h1 : (!isDir t name || isSwapName name) = true
  · rw [if_pos h1] at h; cases h
  rw [if_neg h1] at h
  by_cases h2 : (boxes name).isSome = true
  · rw [if_pos h2] at h; cases h
  rw [if_neg h2] at h
  rcases hr : readRunningState t name with e | st <;> simp only [hr] at h
  swap
  · cases h
  rcases hm : readSnapshotMeta t name with e | sm <;> simp only [hm] at h
  · cases h
  split_ifs at h with h3
  rcases hp1 : parsePlainUUID env sm.teamID with _ | team <;> simp only [hp1] at h
  · cases h
  rcases hp2 : parsePlainUUID env sm.templateID with _ | templ <;> simp only [hp2] at h
  · cases h
  cases h
  have hswap : isSwapName name = false := by
    cases hs : isSwapName name
    · rfl
    · simp [hs] at h1
  exact ⟨rfl, hswap, by simpa using h2, rfl⟩

theorem scanPaused_congr (h : t' name = t name) :
    scanPaused env boxes t' name = scanPaused env boxes t name := by
  unfold scanPaused isDir readRunningState readSnapshotMeta
  rw [h]

theorem scanPausedAll_erodes :
    ∀ (entries : List String) (t : Tree κ μ), Erodes t (scanPausedAll env boxes entries t).1
  | [], t => .refl t
  | name :: entries, t => by
    unfold scanPausedAll
    split
    · exact scanPausedAll_erodes entries t
    · exact (trashCorruptDir_erodes name).trans (scanPausedAll_erodes entries _)
    · exact scanPausedAll_erodes entries t

theorem mem_scanPausedAll :
    ∀ (entries : List String) (t : Tree κ μ), c ∈ (scanPausedAll env boxes entries t).2 →
      isSwapName c.sandboxID = false ∧ boxes c.sandboxID = none ∧
        readSnapshotMeta t c.sandboxID = .ok c.snapMeta
  | [], t, h => by cases h
  | name :: entries, t, h => by
    unfold scanPausedAll at h
    split at h
    · exact mem_scanPausedAll entries t h
    · obtain ⟨h1, h2, h3⟩ := mem_scanPausedAll entries _ h
      exact ⟨h1, h2, (trashCorruptDir_erodes name).readSnapshotMeta h1 h3⟩
    · next c' hc =>
      rcases List.mem_cons.mp h with rfl | h
      · obtain ⟨rfl, h1, h2, h3⟩ := scanPaused_candidate hc
        exact ⟨h1, h2, h3⟩
      · exact mem_scanPausedAll entries t h

theorem scanPausedAll_sublist :
    ∀ (entries : List String) (t : Tree κ μ),
      ((scanPausedAll env boxes entries t).2.map Candidate.sandboxID).Sublist entries
  | [], t => by unfold scanPausedAll; exact List.Sublist.slnil
  | name :: entries, t => by
    unfold scanPausedAll
    split
    · exact (scanPausedAll_sublist entries t).cons name
    · exact (scanPausedAll_sublist entries _).cons name
    · next c hc =>
      obtain ⟨hname, -⟩ := scanPaused_candidate hc
      simp only [List.map_cons, hname]
      exact (scanPausedAll_sublist entries t).cons_cons name

/-- An entry that scans as a candidate is collected, and the scan leaves its directory alone. -/
theorem scanPausedAll_collects (hid : isSwapName k = false) :
    ∀ (entries : List String) (t : Tree κ μ), scanPaused env boxes t k = .candidate c →
      (scanPausedAll env boxes entries t).1 k = t k ∧
        (k ∈ entries → c ∈ (scanPausedAll env boxes entries t).2)
  | [], t, _ => ⟨rfl, fun h => by cases h⟩
  | name :: entries, t, hc => by
    by_cases hk : k = name
    · subst hk
      unfold scanPausedAll
      rw [hc]
      exact ⟨(scanPausedAll_collects hid entries t hc).1, fun _ => List.mem_cons_self⟩
    · have hmem : k ∈ name :: entries → k ∈ entries := fun h => (List.mem_cons.mp h).resolve_left hk
      unfold scanPausedAll
      split
      · obtain ⟨h1, h2⟩ := scanPausedAll_collects hid entries t hc
        exact ⟨h1, fun h => h2 (hmem h)⟩
      · have ht : trashCorruptDir env t name k = t k := trashCorruptDir_of_ne hid hk
        obtain ⟨h1, h2⟩ := scanPausedAll_collects hid entries (trashCorruptDir env t name)
          ((scanPaused_congr ht).trans hc)
        exact ⟨h1.trans ht, fun h => h2 (hmem h)⟩
      · obtain ⟨h1, h2⟩ := scanPausedAll_collects hid entries t hc
        exact ⟨h1, fun h => List.mem_cons_of_mem _ (h2 (hmem h))⟩

/-! ### The paused pass: buckets -/

section Buckets

variable {cands stale : List Candidate} {c winner : Candidate} {slot : ℤ}

/-- The losers of a bucket, moved aside one after the other. -/
def trashAll (env : Env) (stale : List Candidate) (t : Tree κ μ) : Tree κ μ :=
  stale.foldl (fun t c => trashCorruptDir env t c.sandboxID) t

theorem trashAll_erodes : ∀ (stale : List Candidate) (t : Tree κ μ), Erodes t (trashAll env stale t)
  | [], t => .refl t
  | c :: stale, _ => (trashCorruptDir_erodes c.sandboxID).trans (trashAll_erodes stale _)

theorem trashAll_of_ne (hk : isSwapName k = false) :
    ∀ (stale : List Candidate) (t : Tree κ μ), (∀ c ∈ stale, c.sandboxID ≠ k) →
      trashAll env stale t k = t k
  | [], _, _ => rfl
  | c :: stale, _, h =>
    (trashAll_of_ne hk stale _ fun c hc => h c (List.mem_cons_of_mem _ hc)).trans
      (trashCorruptDir_of_ne hk (h c List.mem_cons_self).symm)

theorem restoreBucket_cases (h : restoreBucket env cands m slot = .ok m') :
    ∃ winner stale,
      env.sortCands (cands.filter fun c => c.snapMeta.slotIndex = slot) = winner :: stale ∧
      m' = registerPaused env { m with tree := trashAll env stale m.tree } winner := by
  unfold restoreBucket at h
  split at h
  · cases h
  · next winner stale hs => cases h; exact ⟨winner, stale, hs, rfl⟩

theorem mem_bucket (hs : env.sortCands (cands.filter fun c => c.snapMeta.slotIndex = slot) = winner :: stale)
    (hc : c ∈ winner :: stale) : c ∈ cands ∧ c.snapMeta.slotIndex = slot := by
  rw [← hs, (env.sortCands_perm _).mem_iff, List.mem_filter] at hc
  exact ⟨hc.1, by simpa using hc.2⟩

theorem registerPaused_erodes : Erodes m.tree (registerPaused env m c).tree := by
  unfold registerPaused
  split
  · exact trashCorruptDir_erodes _
  · exact .refl _

theorem registerPaused_boxes {sb : SandboxState}
    (h : (registerPaused env m c).boxes k = some sb) :
    m.boxes k = some sb ∨ (k = c.sandboxID ∧ sb = pausedState c) := by
  unfold registerPaused at h
  split at h
  · exact .inl h
  · by_cases hk : k = c.sandboxID
    · subst hk
      simp only [update_self, Option.some.injEq] at h
      exact .inr ⟨rfl, h.symm⟩
    · exact .inl ((update_of_ne hk _ _).symm.trans h)

/-- A registration leaves the other sandboxes and the other slots alone. -/
theorem registerPaused_of_ne (hk : isSwapName k = false) (hne : k ≠ c.sandboxID) {i : ℤ}
    (hi : i ≠ c.snapMeta.slotIndex) :
    (registerPaused env m c).boxes k = m.boxes k ∧ (registerPaused env m c).tree k = m.tree k ∧
      (registerPaused env m c).slots.inUse i = m.slots.inUse i ∧
      (registerPaused env m c).slots.seeded i = m.slots.seeded i := by
  unfold registerPaused
  split
  · exact ⟨rfl, trashCorruptDir_of_ne hk hne, rfl, rfl⟩
  · next slots claims hres =>
    obtain ⟨h1, h2⟩ := reserve_of_ne hres hi
    exact ⟨update_of_ne hne _ _, rfl, h1, h2⟩

/-- A bucket of another slot leaves a sandbox alone that is no candidate for it. -/
theorem restoreBucket_of_ne (hk : isSwapName k = false) {i : ℤ}
    (hcands : ∀ c ∈ cands, c.sandboxID = k → c.snapMeta.slotIndex = i) (hi : slot ≠ i)
    (h : restoreBucket env cands m slot = .ok m') :
    m'.boxes k = m.boxes k ∧ m'.tree k = m.tree k ∧ m'.slots.inUse i = m.slots.inUse i ∧
      m'.slots.seeded i = m.slots.seeded i := by
  obtain ⟨winner, stale, hs, rfl⟩ := restoreBucket_cases h
  have hne : ∀ c ∈ winner :: stale, c.sandboxID ≠ k := by
    intro c hc he
    obtain ⟨h1, h2⟩ := mem_bucket hs hc
    exact hi (h2.symm.trans (hcands c h1 he))
  have hw : i ≠ winner.snapMeta.slotIndex := by
    rw [(mem_bucket hs List.mem_cons_self).2]; exact hi.symm
  have hstale : trashAll env stale m.tree k = m.tree k :=
    trashAll_of_ne hk stale _ fun c hc => hne c (List.mem_cons_of_mem _ hc)
  refine (registerPaused_of_ne hk (hne winner List.mem_cons_self).symm hw).imp_right ?_
  exact fun ⟨h2, h3⟩ => ⟨h2.trans hstale, h3⟩

/-- The paused pass erodes the directory, and registers its candidates only. -/
theorem restorePausedSandboxes_spec {entries : List String}
    (h : restorePausedSandboxes env entries m = .ok m') :
    Erodes m.tree m'.tree ∧ ∀ k sb, m'.boxes k = some sb → m.boxes k = some sb ∨
      ∃ c ∈ (scanPausedAll env m.boxes entries m.tree).2, k = c.sandboxID ∧ sb = pausedState c := by
  unfold restorePausedSandboxes at h
  have herode : Erodes m.tree (scanPausedAll env m.boxes entries m.tree).1 :=
    scanPausedAll_erodes entries m.tree
  rcases hsc : scanPausedAll env m.boxes entries m.tree with ⟨t, cands⟩
  rw [hsc] at h herode
  simp only at h
  have hfold := foldlM_rel (R := fun m m' : Manager κ μ => Erodes m.tree m'.tree ∧
    ∀ k sb, m'.boxes k = some sb → m.boxes k = some sb ∨
      ∃ c ∈ cands, k = c.sandboxID ∧ sb = pausedState c)
    (fun _ => ⟨.refl _, fun _ _ => .inl⟩) ?_ ?_ h
  · exact ⟨herode.trans hfold.1, hfold.2⟩
  · rintro m₀ m₁ m₂ ⟨h1, h2⟩ ⟨h3, h4⟩
    refine ⟨h1.trans h3, fun k sb hk => ?_⟩
    rcases h4 k sb hk with h5 | h5
    · exact h2 k sb h5
    · exact .inr h5
  · intro slot _ m₀ m₁ hstep
    obtain ⟨winner, stale, hs, rfl⟩ := restoreBucket_cases hstep
    refine ⟨(trashAll_erodes stale m₀.tree).trans registerPaused_erodes, fun k sb hk => ?_⟩
    rcases registerPaused_boxes hk with h1 | ⟨h1, h2⟩
    · exact .inl h1
    · exact .inr ⟨winner, (mem_bucket hs List.mem_cons_self).1, h1, h2⟩

end Buckets

/-! ### Both passes -/

theorem restoreSandboxes_cases
    (h : restoreSandboxes env entries₁ entries₂ m = .ok m') :
    ∃ m₁, restoreRunningSandboxes env entries₁ m = .ok m₁ ∧
      restorePausedSandboxes env entries₂ m₁ = .ok m' := by
  unfold restoreSandboxes at h
  split at h
  · cases h
  · next m₁ h1 => exact ⟨m₁, h1, h⟩

theorem restoreSandboxes_erodes
    (h : restoreSandboxes env entries₁ entries₂ m = .ok m') : Erodes m.tree m'.tree := by
  obtain ⟨m₁, h1, h2⟩ := restoreSandboxes_cases h
  exact (restoreRunningSandboxes_spec h1).1.trans (restorePausedSandboxes_spec h2).1

/-- **What start-up registers as paused** had a readable pause generation under its own name. -/
theorem restoreSandboxes_paused {sb : SandboxState}
    (h : restoreSandboxes env entries₁ entries₂ m = .ok m') (hk : m'.boxes k = some sb)
    (hnew : m.boxes k = none) (hp : sb.status = .paused) :
    isSwapName k = false ∧ ∃ sm team templ, readSnapshotMeta m.tree k = .ok sm ∧
      sb = pausedState ⟨k, sm, team, templ⟩ := by
  obtain ⟨m₁, h1, h2⟩ := restoreSandboxes_cases h
  obtain ⟨he, hb⟩ := restoreRunningSandboxes_spec h1
  rcases (restorePausedSandboxes_spec h2).2 k sb hk with h3 | ⟨c, hc, rfl, rfl⟩
  · rcases hb k sb h3 with h4 | h4
    · rw [hnew] at h4; cases h4
    · rw [hp] at h4; cases h4
  · obtain ⟨hswap, -, hread⟩ := mem_scanPausedAll entries₂ m₁.tree hc
    exact ⟨hswap, c.snapMeta, c.teamID, c.templID, he.readSnapshotMeta hswap hread, rfl⟩

/-! ### A pause generation alone on its slot -/

theorem Erodes.readRunningState (h : Erodes t t') (hk : isSwapName k = false)
    (hr : readRunningState t' k = .ok st) : readRunningState t k = .ok st := by
  rcases h k hk with h1 | h1 | h1
  · unfold Disk.readRunningState at hr; rw [h1] at hr; cases hr
  · rw [← hr]; exact (readRunningState_congr h1).symm
  · obtain ⟨-, d', hd', hst⟩ := readRunningState_ok hr
    rcases ht : t k with _ | (_ | d) <;> rw [h1, ht] at hd' <;> cases hd'
    cases hst

/-- No other sandbox of the directory records the slot `i`, running or paused. -/
def AloneOn (t : Tree κ μ) (id : String) (i : ℤ) : Prop :=
  ∀ k, k ≠ id → isSwapName k = false →
    (∀ st, readRunningState t k = .ok st → st.slotIndex ≠ i) ∧
    (∀ sm, readSnapshotMeta t k = .ok sm → sm.slotIndex ≠ i)

theorem AloneOn.erode (h : AloneOn t id i) (he : Erodes t t') :
    AloneOn t' id i :=
  fun k hk hs => ⟨fun st hst => (h k hk hs).1 st (he.readRunningState hs hst),
    fun sm hsm => (h k hk hs).2 sm (he.readSnapshotMeta hs hsm)⟩

/-- The sandbox `id`, not registered yet, has the directory `d` and its slot `i` can be reserved. -/
structure Waiting (id : String) (d : SandboxDir κ μ) (i : ℤ) (m : Manager κ μ) : Prop where
  box : m.boxes id = none
  dir : m.tree id = some (.dir d)
  free : m.slots.inUse i = true → m.slots.seeded i = true

theorem restoreRunning_waiting {d : SandboxDir κ μ} (hd : d.state = .absent)
    (ha : AloneOn m.tree id i) (hw : Waiting id d i m) (h : restoreRunning env m name = .ok m') :
    Waiting id d i m' ∧ AloneOn m'.tree id i := by
  have hT := restoreRunning_touches h
  refine ⟨?_, ha.erode hT.erodes⟩
  by_cases hname : id = name
  · subst hname
    -- its own turn finds no `sandbox.json`
    have hread : readRunningState m.tree id = .error .notExist := by
      unfold readRunningState; rw [hw.dir]; simp only [hd]
    unfold restoreRunning at h
    rw [hread] at h
    split_ifs at h <;> cases h <;> exact hw
  · have hslot : ¬ (isSwapName name = false ∧
        ∃ st, readRunningState m.tree name = .ok st ∧ i = st.slotIndex) := by
      rintro ⟨hs, st, hst, rfl⟩
      exact (ha name (Ne.symm hname) hs).1 st hst rfl
    obtain ⟨h1, h2⟩ := hT.slots_of_not i hslot
    exact ⟨(hT.boxes_of_ne id hname).trans hw.box, (hT.tree_of_ne id hname).trans hw.dir,
      by rw [h1, h2]; exact hw.free⟩

/-- The bucket of a slot that only one candidate records. -/
theorem sortCands_single {cands : List Candidate} (hnd : (cands.map Candidate.sandboxID).Nodup) (hc : c ∈ cands)
    (hone : ∀ c' ∈ cands, c'.snapMeta.slotIndex = c.snapMeta.slotIndex → c'.sandboxID = c.sandboxID) :
    env.sortCands (cands.filter fun c' => c'.snapMeta.slotIndex = c.snapMeta.slotIndex) = [c] := by
  have hinj := List.inj_on_of_nodup_map hnd
  have hfilter : (cands.filter fun c' => c'.snapMeta.slotIndex = c.snapMeta.slotIndex).Perm [c] := by
    rw [List.perm_ext_iff_of_nodup ((List.Nodup.of_map _ hnd).filter _) (List.nodup_singleton c)]
    intro c'
    rw [List.mem_filter, List.mem_singleton, decide_eq_true_iff]
    constructor
    · rintro ⟨h1, h2⟩; exact hinj h1 hc (hone c' h1 h2)
    · rintro rfl; exact ⟨hc, rfl⟩
  exact List.perm_singleton.mp ((env.sortCands_perm _).trans hfilter)

/-- **A pause generation is recovered**: without running state, alone on a slot of the range, it is
registered as paused, and its directory is left as it was found. -/
theorem restoreSandboxes_registers
    {d : SandboxDir κ μ} {team templ : UUID}
    (hid : isSwapName id = false) (hw : Waiting id d sm.slotIndex m)
    (hst : d.state = .absent) (hsm : d.snapMeta = .ok sm) (hr : InRange sm.slotIndex)
    (halone : AloneOn m.tree id sm.slotIndex)
    (hteam : parsePlainUUID env sm.teamID = some team)
    (htempl : parsePlainUUID env sm.templateID = some templ)
    (hclaim : env.claimErr sm.slotIndex = false) (hnd : entries₂.Nodup)
    (hlist : ∀ m₁, restoreRunningSandboxes env entries₁ m = .ok m₁ → m₁.tree id ≠ none → id ∈ entries₂)
    (h : restoreSandboxes env entries₁ entries₂ m = .ok m') :
    m'.boxes id = some (pausedState ⟨id, sm, team, templ⟩) ∧ m'.tree id = some (.dir d) := by
  obtain ⟨m₁, h1, h2⟩ := restoreSandboxes_cases h
  -- the running pass leaves the sandbox waiting
  obtain ⟨hw₁, ha₁⟩ : Waiting id d sm.slotIndex m₁ ∧ AloneOn m₁.tree id sm.slotIndex :=
    foldlM_rel (R := fun m m' : Manager κ μ => Waiting id d sm.slotIndex m ∧ AloneOn m.tree id sm.slotIndex →
        Waiting id d sm.slotIndex m' ∧ AloneOn m'.tree id sm.slotIndex)
      (fun _ h => h) (fun h h' hp => h' (h hp))
      (fun _ _ _ _ hs hp => restoreRunning_waiting hst hp.2 hp.1 hs) h1 ⟨hw, halone⟩
  -- the scan makes it a candidate
  have hscan : scanPaused env m₁.boxes m₁.tree id = .candidate ⟨id, sm, team, templ⟩ := by
    have h0 : sm.slotIndex ≠ 0 := by unfold InRange at hr; omega
    unfold scanPaused isDir readRunningState readSnapshotMeta
    simp [hw₁.dir, hid, hw₁.box, hst, hsm, h0, hteam, htempl]
  obtain ⟨htree, hcand⟩ := scanPausedAll_collects hid entries₂ m₁.tree hscan
  have hsub : ((scanPausedAll env m₁.boxes entries₂ m₁.tree).2.map Candidate.sandboxID).Sublist
      entries₂ := scanPausedAll_sublist entries₂ m₁.tree
  unfold restorePausedSandboxes at h2
  rcases hsc : scanPausedAll env m₁.boxes entries₂ m₁.tree with ⟨t, cands⟩
  have hread : ∀ c ∈ cands, isSwapName c.sandboxID = false ∧
      readSnapshotMeta m₁.tree c.sandboxID = .ok c.snapMeta := by
    intro c hc
    have hmem : c ∈ (scanPausedAll env m₁.boxes entries₂ m₁.tree).2 := by rw [hsc]; exact hc
    obtain ⟨hs, -, hread⟩ := mem_scanPausedAll entries₂ m₁.tree hmem
    exact ⟨hs, hread⟩
  have hother : ∀ c ∈ cands, c.snapMeta.slotIndex = sm.slotIndex → c.sandboxID = id := by
    intro c hc he
    by_contra hne
    exact (ha₁ c.sandboxID hne (hread c hc).1).2 c.snapMeta (hread c hc).2 he
  have hown : ∀ c ∈ cands, c.sandboxID = id → c.snapMeta.slotIndex = sm.slotIndex := by
    rintro c hc rfl
    obtain ⟨d', hd', hsm'⟩ := readSnapshotMeta_ok.mp (hread c hc).2
    rw [hw₁.dir] at hd'; cases hd'
    rw [hsm] at hsm'; cases hsm'; rfl
  rw [hsc] at h2 htree hcand hsub
  simp only at h2 htree hcand hsub
  have hmemc := hcand (hlist m₁ h1 (by rw [hw₁.dir]; simp))
  have hsingle : env.sortCands (cands.filter fun c' => c'.snapMeta.slotIndex = sm.slotIndex) =
      [⟨id, sm, team, templ⟩] :=
    sortCands_single (hnd.sublist hsub) hmemc hother
  refine foldlM_visit (P := Waiting id d sm.slotIndex)
    (Q := fun m => m.boxes id = some (pausedState ⟨id, sm, team, templ⟩) ∧ m.tree id = some (.dir d))
    (a := sm.slotIndex) ?_ ((env.mapOrder_perm _).nodup_iff.mpr (List.nodup_dedup _)) ?_ ?_ ?_ ?_ h2
  · -- its own bucket
    intro m₂ m₃ hw₂ hb
    obtain ⟨winner, stale, hs, rfl⟩ := restoreBucket_cases hb
    rw [hsingle] at hs
    cases hs
    obtain ⟨⟨slots, claims⟩, hres⟩ : ∃ r, reserve m₂.slots m₂.claims false sm.slotIndex = .ok r :=
      reserve_ok hr hw₂.free
    unfold registerPaused
    rw [hclaim]
    simp only [hres]
    exact ⟨update_self .., hw₂.dir⟩
  · rw [(env.mapOrder_perm _).mem_iff, List.mem_dedup]
    exact List.mem_map.mpr ⟨_, hmemc, rfl⟩
  · intro slot _ hslot m₂ m₃ hw₂ hb
    obtain ⟨hb1, hb2, hb3, hb4⟩ := restoreBucket_of_ne hid hown hslot hb
    exact ⟨hb1.trans hw₂.box, hb2.trans hw₂.dir, by rw [hb3, hb4]; exact hw₂.free⟩
  · intro slot _ hslot m₂ m₃ hq hb
    obtain ⟨hb1, hb2, -⟩ := restoreBucket_of_ne hid hown hslot hb
    exact ⟨hb1.trans hq.1, hb2.trans hq.2⟩
  · exact ⟨hw₁.box, htree.trans hw₁.dir, hw₁.free⟩

end Wrenn.Sandbox.RestoreSpec
