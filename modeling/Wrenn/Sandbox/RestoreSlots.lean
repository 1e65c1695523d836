import Wrenn.Sandbox.RestorePanic

/-!
# Which slots the restored sandboxes own

The running pass reserves the slot of every live sandbox it can read (`Adopts`), keeps it reserved even
if the adoption fails later, and releases the slot of every dead sandbox without a pause generation
(`Frees`), whoever owns it by then.  The paused pass opens one bucket per slot and registers the newest
candidate, if the slot can still be reserved.

* `restoreRunning_turn`: one turn of the running pass, in terms of the two;
* `Ran`: what the running pass has achieved after some of its entries;
* `restorePausedSandboxes_buckets`: the outcome of each bucket;
* `restoreSandboxes_slots_iff`: the restored sandboxes own distinct slots, whatever the re-attach steps
  answer, exactly when no swept directory records the slot of a live one listed before it.
-/

namespace Wrenn.Sandbox.RestoreSlots

open Lib.Folds Network.Slots Function Disk Startup Restore RestoreSpec

variable {κ μ : Type*} {env : Env} {m m' m₁ : Manager κ μ} {t t' : Tree κ μ} {name k : String} {s : ℤ}

/-- `name` records a live VM on the slot `s`, and everything up to the reservation goes well. -/
def Adopts (env : Env) (t : Tree κ μ) (name : String) (s : ℤ) : Prop :=
  isSwapName name = false ∧ ∃ st team templ, readRunningState t name = .ok st ∧
    chProcessAlive env st = true ∧ parsePlainUUID env st.teamID = some team ∧
    parsePlainUUID env st.templateID = some templ ∧ st.slotIndex = s ∧ InRange s ∧
    env.claimErr s = false

/-- `name` records a dead VM on the slot `s` and has no pause generation to keep the slot for. -/
def Frees (env : Env) (t : Tree κ μ) (name : String) (s : ℤ) : Prop :=
  isSwapName name = false ∧ ∃ st, readRunningState t name = .ok st ∧
    chProcessAlive env st = false ∧ st.slotIndex = s ∧ ∀ sm, readSnapshotMeta t name ≠ .ok sm

theorem adopts_congr (h : t' name = t name) : Adopts env t' name s ↔ Adopts env t name s := by
  unfold Adopts
  rw [readRunningState_congr h]

/-- A directory records one slot. -/
theorem adopts_unique {s' : ℤ} (h : Adopts env t name s) (h' : Adopts env t name s') : s' = s := by
  obtain ⟨-, st, _, _, hr, -, -, -, rfl, -⟩ := h
  obtain ⟨-, st', _, _, hr', -, -, -, rfl, -⟩ := h'
  rw [hr] at hr'
  cases hr'
  rfl

theorem frees_congr (h : t' name = t name) : Frees env t' name s ↔ Frees env t name s := by
  unfold Frees
  rw [readRunningState_congr h, readSnapshotMeta_congr h]

variable {st : RunningState}

theorem isDir_of_readRunningState (h : readRunningState t name = .ok st) :
    isDir t name = true := by
  obtain ⟨-, d, hd, -⟩ := readRunningState_ok h
  unfold isDir
  rw [hd]

/-- The environment answers every re-attach step with success. -/
structure Reattaches (env : Env) : Prop where
  loop : ∀ dm cow, env.reattachLoop dm cow ≠ none
  losetup : ∀ path, env.losetup path ≠ none
  probe : ∀ sock, env.probeOk sock = true

/-! ### One turn of the running pass -/

/-- What a turn on an unregistered `name` does to the slots and the registered sandboxes. -/
inductive Turn (env : Env) (m m' : Manager κ μ) (name : String) : Prop
  | idle (hA : ∀ s, ¬ Adopts env m.tree name s) (hF : ∀ s, ¬ Frees env m.tree name s)
      (hs : m'.slots = m.slots) (hb : m'.boxes = m.boxes)
  | freed (s : ℤ) (hF : Frees env m.tree name s) (hs : m'.slots = (release m.slots m.claims s).1)
      (hb : m'.boxes = m.boxes)
  | refused (s : ℤ) (hA : Adopts env m.tree name s) (ho : Owned m.slots s) (hs : m'.slots = m.slots)
      (hb : m'.boxes = m.boxes)
  | left (s : ℤ) (hA : Adopts env m.tree name s) (ho : ¬ Owned m.slots s)
      (hs : m'.slots = adopt m.slots s) (hb : m'.boxes = m.boxes) (hr : ¬ Reattaches env)
  | attached (s : ℤ) (sb : SandboxState) (hA : Adopts env m.tree name s) (ho : ¬ Owned m.slots s)
      (hs : m'.slots = adopt m.slots s) (hsb : sb.slotIndex = s)
      (hb : m'.boxes = Function.update m.boxes name (some sb))

/-- Without a readable state of the right kind a turn is idle. -/
theorem not_adopts_of_dead (hr : readRunningState t name = .ok st)
    (ha : chProcessAlive env st = false) (s : ℤ) : ¬ Adopts env t name s := by
  rintro ⟨-, st', _, _, hr', ha', -⟩
  rw [hr] at hr'
  cases hr'
  rw [ha] at ha'
  cases ha'

theorem not_frees_of_alive (hr : readRunningState t name = .ok st)
    (ha : chProcessAlive env st = true) (s : ℤ) : ¬ Frees env t name s := by
  rintro ⟨-, st', hr', ha', -⟩
  rw [hr] at hr'
  cases hr'
  rw [ha] at ha'
  cases ha'

theorem readSnapshotMeta_tryDelete (env : Env) (t : Tree κ μ) (name : String) :
    readSnapshotMeta (tryDeleteRunningState env t name) name = readSnapshotMeta t name := by
  have h : tryDeleteRunningState env t name name = t name ∨
      tryDeleteRunningState env t name name = (t name).map Entry.dropState :=
    tryDeleteRunningState_self
  unfold readSnapshotMeta
  rcases h with h | h
  · rw [h]
  · rw [h]
    rcases t name with _ | (_ | d) <;> rfl

theorem sweepDeadRunning_turn (hsw : isSwapName name = false)
    (hr : readRunningState m.tree name = .ok st) (ha : chProcessAlive env st = false)
    (h : sweepDeadRunning env m st = .ok m') : Turn env m m' name := by
  have hid : st.id = name := (readRunningState_ok hr).1
  have hrange : InRange st.slotIndex := by
    by_contra hno
    obtain ⟨p, hp⟩ := RestorePanic.sweepDeadRunning_error_iff.mpr hno
    rw [h] at hp
    cases hp
  obtain ⟨slot, hslot, -⟩ := newSlot_ok hrange
  unfold sweepDeadRunning at h
  rw [hslot] at h
  simp only at h
  rcases hm : readSnapshotMeta (tryDeleteRunningState env m.tree st.id) st.id with e | sm
  · rw [hm, if_pos (by have := hrange.1; omega)] at h
    rw [hid, readSnapshotMeta_tryDelete] at hm
    rw [← Except.ok.inj h]
    refine .freed st.slotIndex ⟨hsw, st, hr, ha, rfl, fun sm hsm => ?_⟩ rfl rfl
    rw [hm] at hsm
    cases hsm
  · rw [hm] at h
    rw [hid, readSnapshotMeta_tryDelete] at hm
    rw [← Except.ok.inj h]
    exact .idle (not_adopts_of_dead hr ha) (fun s hF => hF.2.choose_spec.2.2.2 sm hm) rfl rfl

theorem reattachRunning_turn {e : Option ReattachError}
    (hd : m.slots.slotsDir = true) (hsw : isSwapName name = false)
    (hr : readRunningState m.tree name = .ok st) (ha : chProcessAlive env st = true)
    (h : reattachRunning env m st = .ok (m', e)) : Turn env m m' name := by
  have hid : st.id = name := (readRunningState_ok hr).1
  -- before the reservation nothing changes, and the directory does not adopt its slot
  have hidle : (∀ s, ¬ Adopts env m.tree name s) → m' = m → Turn env m m' name := by
    rintro hA rfl
    exact .idle hA (not_frees_of_alive hr ha) rfl rfl
  have hsame : ∀ s, Adopts env m.tree name s → (∃ team, parsePlainUUID env st.teamID = some team) ∧
      (∃ templ, parsePlainUUID env st.templateID = some templ) ∧ st.slotIndex = s ∧ InRange s ∧
      env.claimErr s = false := by
    rintro s ⟨-, st', team, templ, hr', -, h1, h2, h3, h4, h5⟩
    rw [hr] at hr'
    cases hr'
    exact ⟨⟨team, h1⟩, ⟨templ, h2⟩, h3, h4, h5⟩
  unfold reattachRunning at h
  rcases hteam : parsePlainUUID env st.teamID with _ | team
  · rw [hteam] at h
    refine hidle (fun s hA => ?_) (by cases h; rfl)
    obtain ⟨team, h1⟩ := (hsame s hA).1
    rw [hteam] at h1
    cases h1
  rcases htempl : parsePlainUUID env st.templateID with _ | templ
  · rw [hteam, htempl] at h
    refine hidle (fun s hA => ?_) (by cases h; rfl)
    obtain ⟨templ, h1⟩ := (hsame s hA).2.1
    rw [htempl] at h1
    cases h1
  simp only [hteam, htempl] at h
  by_cases h0 : st.slotIndex = 0
  · rw [if_pos h0] at h
    refine hidle (fun s hA => ?_) (by cases h; rfl)
    obtain ⟨-, -, h1, h2, -⟩ := hsame s hA
    have := h2.1
    omega
  rw [if_neg h0] at h
  rcases hres : reserve m.slots m.claims (env.claimErr st.slotIndex) st.slotIndex with
    e' | ⟨slots, claims⟩
  · -- the reservation fails: out of range, an I/O error, or the slot has an owner
    rw [hres] at h
    by_cases ho : InRange st.slotIndex ∧ env.claimErr st.slotIndex = false
    · have howned : Owned m.slots st.slotIndex := by
        by_contra hno
        obtain ⟨r, hok⟩ := (reserve_ok_iff hd).mpr ⟨ho.1, hno, ho.2⟩
        rw [hres] at hok
        cases hok
      have hm : m' = m := by cases h; rfl
      exact .refused st.slotIndex ⟨hsw, st, team, templ, hr, ha, hteam, htempl, rfl, ho.1, ho.2⟩
        howned (by rw [hm]) (by rw [hm])
    · refine hidle (fun s hA => ?_) (by cases h; rfl)
      obtain ⟨-, -, rfl, h1, h2⟩ := hsame s hA
      exact ho ⟨h1, h2⟩
  · obtain ⟨hrange, hno, hio⟩ := (reserve_ok_iff hd).mp ⟨_, hres⟩
    obtain ⟨-, -, hslots⟩ := reserve_spec hres
    obtain ⟨slot, hslot, -⟩ := newSlot_ok hrange
    have hA : Adopts env m.tree name st.slotIndex :=
      ⟨hsw, st, team, templ, hr, ha, hteam, htempl, rfl, hrange, hio⟩
    simp only [hres, hslot] at h
    rcases hloop : env.reattachLoop st.dmName st.cowPath with _ | cowLoop
    · rw [hloop] at h
      cases h
      exact .left st.slotIndex hA hno hslots rfl fun hall => hall.loop _ _ hloop
    rcases hacq : Devicemapper.Loops.acquire m.loops env.losetup st.baseImagePath with _ | ⟨loops, dev⟩
    · simp only [hloop, hacq] at h
      cases h
      refine .left st.slotIndex hA hno hslots rfl fun hall => ?_
      unfold Devicemapper.Loops.acquire at hacq
      split at hacq
      · cases hacq
      · split at hacq
        · next hl => exact hall.losetup _ hl
        · cases hacq
    simp only [hloop, hacq] at h
    cases hprobe : env.probeOk st.chSocket with
    | false =>
      simp only [hprobe, Bool.not_false, if_true] at h
      cases h
      refine .left st.slotIndex hA hno hslots rfl fun hall => ?_
      rw [hall.probe] at hprobe
      cases hprobe
    | true =>
      simp only [hprobe, Bool.not_true, Bool.false_eq_true, if_false] at h
      cases h
      exact .attached st.slotIndex _ hA hno hslots rfl (by rw [hid])

/-- **One turn of the running pass.** -/
theorem restoreRunning_turn (hd : m.slots.slotsDir = true) (hbox : m.boxes name = none)
    (h : restoreRunning env m name = .ok m') : Turn env m m' name := by
  have hidle : (∀ st, readRunningState m.tree name ≠ .ok st) ∨ isSwapName name = true →
      m'.slots = m.slots → m'.boxes = m.boxes → Turn env m m' name := by
    intro hno hs hb
    refine .idle ?_ ?_ hs hb
    · rintro s ⟨hsw, st, _, _, hr, -⟩
      rcases hno with hno | hno
      · exact hno st hr
      · rw [hsw] at hno
        cases hno
    · rintro s ⟨hsw, st, hr, -⟩
      rcases hno with hno | hno
      · exact hno st hr
      · rw [hsw] at hno
        cases hno
  unfold restoreRunning at h
  rcases hr : readRunningState m.tree name with e | st
  · have hno : ∀ st, readRunningState m.tree name ≠ .ok st := by
      intro st hst
      rw [hr] at hst
      cases hst
    rw [hr] at h
    by_cases hc : (!isDir m.tree name || isSwapName name) = true
    · rw [if_pos hc] at h
      cases h
      exact hidle (.inl hno) rfl rfl
    · rw [if_neg hc] at h
      cases e <;> cases h <;> exact hidle (.inl hno) rfl rfl
  · rw [isDir_of_readRunningState hr, hr] at h
    cases hsw : isSwapName name with
    | true =>
      simp only [hsw, Bool.not_true, Bool.or_true, if_true] at h
      cases h
      exact hidle (.inr hsw) rfl rfl
    | false =>
      simp only [hsw, Bool.not_true, Bool.or_false, Bool.false_eq_true, if_false, hbox,
        Option.isSome_none] at h
      cases ha : chProcessAlive env st with
      | false =>
        simp only [ha, Bool.not_false, if_true] at h
        exact sweepDeadRunning_turn hsw hr ha h
      | true =>
        simp only [ha, Bool.not_true, Bool.false_eq_true, if_false] at h
        rcases hre : reattachRunning env m st with p | ⟨m1, e⟩
        · rw [hre] at h
          cases h
        · rw [hre] at h
          rw [← Except.ok.inj h]
          exact reattachRunning_turn hd hsw hr ha hre

theorem Turn.slotsDir (h : Turn env m m' name) : m'.slots.slotsDir = m.slots.slotsDir := by
  cases h with
  | idle _ _ hs _ | refused _ _ _ hs _ => rw [hs]
  | freed _ _ hs _ | left _ _ _ hs _ _ | attached _ _ _ _ hs _ _ => rw [hs]; rfl

theorem Adopts.iff_eq {s' : ℤ} (h : Adopts env t name s) : Adopts env t name s' ↔ s' = s :=
  ⟨adopts_unique h, fun he => he ▸ h⟩

/-! ### The running pass -/

/-- No directory that frees its slot is listed after one that adopts the same slot. -/
def NoLaterSweep (env : Env) (t : Tree κ μ) (entries : List String) : Prop :=
  entries.Pairwise fun a b => ∀ s, Adopts env t a s → ¬ Frees env t b s

/-- The entries outside `D` are as found and not registered. -/
structure Untouched (t : Tree κ μ) (D : String → Prop) (m : Manager κ μ) : Prop where
  dir : m.slots.slotsDir = true
  tree : ∀ k, ¬ D k → m.tree k = t k
  new : ∀ k, ¬ D k → m.boxes k = none

/-- The running pass over the directory `t` after the entries in `D`. -/
structure Ran (env : Env) (t : Tree κ μ) (D : String → Prop) (m : Manager κ μ) : Prop
    extends Untouched t D m where
  box : ∀ k sb, m.boxes k = some sb → Adopts env t k sb.slotIndex
  one : ∀ k k' sb sb', m.boxes k = some sb → m.boxes k' = some sb' →
    sb.slotIndex = sb'.slotIndex → k = k'
  owned : ∀ s, Owned m.slots s ↔ ∃ k, D k ∧ Adopts env t k s

/-- At the start every slot is seeded or free. -/
theorem not_owned_newManager (t : Tree κ μ) (claims : ClaimFiles) (s : ℤ) :
    ¬ Owned (newManager t claims).slots s := by
  rintro ⟨h1, h2⟩
  have := seedFromDir_seeded true claims s h1
  rw [newManager] at h2
  rw [h2] at this
  cases this

theorem untouched_newManager (t : Tree κ μ) (claims : ClaimFiles) :
    Untouched t (fun _ => False) (newManager t claims) where
  dir := by simp [newManager, seedFromDir, newSlotAllocator]
  tree := fun _ _ => rfl
  new := fun _ _ => rfl

theorem ran_newManager (env : Env) (t : Tree κ μ) (claims : ClaimFiles) :
    Ran env t (fun _ => False) (newManager t claims) where
  toUntouched := untouched_newManager t claims
  box := fun _ _ h => nomatch h
  one := fun _ _ _ _ h => nomatch h
  owned := fun s => ⟨fun h => absurd h (not_owned_newManager t claims s), fun ⟨_, h, _⟩ => h.elim⟩

variable {D : String → Prop}

/-- What a turn leaves alone, whatever it does to the slots. -/
theorem Untouched.turn (h : Untouched t D m) (hD : ¬ D name) (hst : restoreRunning env m name = .ok m') :
    Untouched t (fun k => k = name ∨ D k) m' := by
  have hT := restoreRunning_touches hst
  refine ⟨(restoreRunning_turn h.dir (h.new name hD) hst).slotsDir.trans h.dir, ?_, ?_⟩
  · intro k hk
    rw [not_or] at hk
    rw [hT.tree_of_ne k hk.1, h.tree k hk.2]
  · intro k hk
    rw [not_or] at hk
    rw [hT.boxes_of_ne k hk.1, h.new k hk.2]

/-- **A turn of the running pass** keeps the account of owned slots, unless it frees a slot that an
earlier directory has adopted. -/
theorem Ran.turn (h : Ran env t D m) (hD : ¬ D name) (hno : ∀ k s, D k → Adopts env t k s → ¬ Frees env t name s)
    (hst : restoreRunning env m name = .ok m') : Ran env t (fun k => k = name ∨ D k) m' := by
  have hunt := h.toUntouched.turn hD hst
  have hAt : ∀ s, Adopts env m.tree name s ↔ Adopts env t name s :=
    fun s => adopts_congr (h.tree name hD)
  -- the slots with an owner, when those of `m'` are those of `m` and the one `name` adopts
  have howned : (∀ s, Owned m'.slots s ↔ Owned m.slots s ∨ Adopts env t name s) →
      ∀ s, Owned m'.slots s ↔ ∃ k, (k = name ∨ D k) ∧ Adopts env t k s := by
    intro hs s
    rw [hs s, h.owned s]
    constructor
    · rintro (⟨k, hk, hA⟩ | hA)
      · exact ⟨k, .inr hk, hA⟩
      · exact ⟨name, .inl rfl, hA⟩
    · rintro ⟨k, rfl | hk, hA⟩
      · exact .inr hA
      · exact .inl ⟨k, hk, hA⟩
  have hsame : m'.boxes = m.boxes → (∀ s, Owned m'.slots s ↔ Owned m.slots s ∨ Adopts env t name s) →
      Ran env t (fun k => k = name ∨ D k) m' := by
    intro hb hs
    refine ⟨hunt, ?_, ?_, howned hs⟩
    · rw [hb]
      exact h.box
    · rw [hb]
      exact h.one
  cases restoreRunning_turn h.dir (h.new name hD) hst with
  | idle hA _ hs hb =>
    refine hsame hb fun s => ?_
    rw [hs, ← hAt s]
    exact (or_iff_left (hA s)).symm
  | freed s hF hs hb =>
    rw [frees_congr (h.tree name hD)] at hF
    have hfree : ¬ Owned m.slots s := fun ho => by
      obtain ⟨k, hk, hA⟩ := (h.owned s).mp ho
      exact hno k s hk hA hF
    have hdead : ∀ s', ¬ Adopts env t name s' := fun s' hA => by
      obtain ⟨-, st, hr, ha, -⟩ := hF
      exact not_adopts_of_dead hr ha s' hA
    refine hsame hb fun s' => ?_
    rw [or_iff_left (hdead s'), hs]
    by_cases he : s' = s
    · rw [he]
      exact iff_of_false (not_owned_release m.slots m.claims s) hfree
    · exact owned_release_of_ne he
  | refused s hA ho hs hb =>
    rw [hAt] at hA
    refine hsame hb fun s' => ?_
    rw [hs]
    refine ⟨.inl, fun h1 => h1.elim id fun hA' => ?_⟩
    rw [adopts_unique hA hA']
    exact ho
  | left s hA ho hs hb _ =>
    rw [hAt] at hA
    exact hsame hb fun s' => by rw [hs, owned_adopt_iff, hA.iff_eq]
  | attached s sb hA ho hs hsb hb =>
    rw [hAt] at hA
    have hboxes : ∀ k sb', m'.boxes k = some sb' → (k = name ∧ sb' = sb) ∨ m.boxes k = some sb' := by
      intro k sb' hk
      rw [hb] at hk
      by_cases hkn : k = name
      · rw [hkn, update_self, Option.some.injEq] at hk
        exact .inl ⟨hkn, hk.symm⟩
      · rw [update_of_ne hkn] at hk
        exact .inr hk
    -- the slot had no owner, so no registered sandbox was on it
    have hfree : ∀ k sb', m.boxes k = some sb' → sb'.slotIndex ≠ s := by
      intro k sb' hk he
      refine ho ((h.owned s).mpr ⟨k, ?_, he ▸ h.box k sb' hk⟩)
      by_contra hDk
      rw [h.new k hDk] at hk
      cases hk
    refine ⟨hunt, fun k sb' hk => ?_, fun k k' sb₁ sb₂ hk hk' he => ?_,
      howned fun s' => by rw [hs, owned_adopt_iff, hA.iff_eq]⟩
    · rcases hboxes k sb' hk with ⟨rfl, rfl⟩ | hk
      · rw [hsb]
        exact hA
      · exact h.box k sb' hk
    · rcases hboxes k sb₁ hk with ⟨rfl, rfl⟩ | hk
      · rcases hboxes k' sb₂ hk' with ⟨rfl, rfl⟩ | hk'
        · rfl
        · exact absurd (he.symm.trans hsb) (hfree k' sb₂ hk')
      · rcases hboxes k' sb₂ hk' with ⟨rfl, rfl⟩ | hk'
        · exact absurd (he.trans hsb) (hfree k sb₁ hk)
        · exact h.one k k' sb₁ sb₂ hk hk' he

variable {entries : List String}

theorem not_done_cons (hname : name ∉ entries) (hD : ∀ k ∈ name :: entries, ¬ D k) :
    ∀ k ∈ entries, ¬ (k = name ∨ D k) := by
  rintro k hk (rfl | hDk)
  · exact hname hk
  · exact hD k (List.mem_cons_of_mem _ hk) hDk

/-- The whole running pass. -/
theorem ran_restoreRunning :
    ∀ {m : Manager κ μ}, Ran env t D m → entries.Nodup → (∀ k ∈ entries, ¬ D k) →
      (∀ a b s, D a → b ∈ entries → Adopts env t a s → ¬ Frees env t b s) →
      NoLaterSweep env t entries → entries.foldlM (restoreRunning env) m = .ok m' →
      Ran env t (fun k => k ∈ entries ∨ D k) m' := by
  induction entries generalizing D with
  | nil =>
    intro m h _ _ _ _ hf
    cases hf
    have : (fun k => k ∈ ([] : List String) ∨ D k) = D := by
      funext k
      simp
    rw [this]
    exact h
  | cons name entries ih =>
    intro m h hnd hD hno hsw hf
    obtain ⟨hname, hnd⟩ := List.nodup_cons.mp hnd
    obtain ⟨hfirst, hsw⟩ := List.pairwise_cons.mp hsw
    obtain ⟨m1, hstep, hf⟩ := foldlM_cons_ok hf
    have h1 := h.turn (hD name List.mem_cons_self)
      (fun k s hk => hno k name s hk List.mem_cons_self) hstep
    have h2 := ih h1 hnd (not_done_cons hname hD) ?_ hsw hf
    · have : (fun k => k ∈ name :: entries ∨ D k) = fun k => k ∈ entries ∨ k = name ∨ D k := by
        funext k
        rw [List.mem_cons, or_assoc, or_left_comm]
      rw [this]
      exact h2
    · rintro a b s (rfl | hDa) hb
      · exact hfirst b hb s
      · exact hno a b s hDa (List.mem_cons_of_mem _ hb)

/-! ### The paused pass -/

section Buckets

variable {cands : List Candidate} {c : Candidate} {slot : ℤ} {entries : List String}

theorem registerPaused_boxes_of_ne (hk : k ≠ c.sandboxID) :
    (registerPaused env m c).boxes k = m.boxes k := by
  unfold registerPaused
  split
  · rfl
  · exact update_of_ne hk ..

theorem registerPaused_slotsDir : (registerPaused env m c).slots.slotsDir = m.slots.slotsDir := by
  unfold registerPaused
  split
  · rfl
  · next hres =>
    obtain ⟨-, -, h⟩ := reserve_spec hres
    simp only [h]

theorem registerPaused_owned_of_ne (hs : s ≠ c.snapMeta.slotIndex) :
    Owned (registerPaused env m c).slots s ↔ Owned m.slots s := by
  unfold registerPaused
  split
  · exact Iff.rfl
  · next hres =>
    obtain ⟨h1, h2⟩ := reserve_of_ne hres hs
    unfold Owned
    simp only [h1, h2]

/-- The registration of a winner. -/
theorem registerPaused_self (env : Env) (hd : m.slots.slotsDir = true) (hb : m.boxes c.sandboxID = none)
    (hs : c.snapMeta.slotIndex = s) :
    ((InRange s ∧ ¬ Owned m.slots s ∧ env.claimErr s = false) ∧
        (registerPaused env m c).boxes c.sandboxID = some (pausedState c) ∧
        Owned (registerPaused env m c).slots s) ∨
      (¬ (InRange s ∧ ¬ Owned m.slots s ∧ env.claimErr s = false) ∧
        (registerPaused env m c).boxes c.sandboxID = none ∧
        (Owned (registerPaused env m c).slots s ↔ Owned m.slots s)) := by
  subst hs
  unfold registerPaused
  rcases hres : reserve m.slots m.claims (env.claimErr c.snapMeta.slotIndex) c.snapMeta.slotIndex with
    e | ⟨slots, claims⟩
  · refine .inr ⟨fun hc => ?_, hb, Iff.rfl⟩
    obtain ⟨r, hr⟩ := (reserve_ok_iff hd).mpr hc
    rw [hres] at hr
    cases hr
  · obtain ⟨-, -, rfl⟩ := reserve_spec hres
    exact .inl ⟨(reserve_ok_iff hd).mp ⟨_, hres⟩, update_self .., owned_adopt m.slots _⟩

/-- The outcome of the bucket of `s`: a newest candidate is chosen, no other one is registered, and the
chosen one is registered if and only if its slot can be reserved. -/
def BucketDone (env : Env) (cands : List Candidate) (m : Manager κ μ) (s : ℤ) (m' : Manager κ μ) : Prop :=
  ∃ w ∈ cands, w.snapMeta.slotIndex = s ∧
    (∀ c ∈ cands, c.snapMeta.slotIndex = s → newestFirst w c) ∧
    (∀ c ∈ cands, c.snapMeta.slotIndex = s → c.sandboxID ≠ w.sandboxID →
      m'.boxes c.sandboxID = none) ∧
    (((InRange s ∧ ¬ Owned m.slots s ∧ env.claimErr s = false) ∧
        m'.boxes w.sandboxID = some (pausedState w) ∧ Owned m'.slots s) ∨
      (¬ (InRange s ∧ ¬ Owned m.slots s ∧ env.claimErr s = false) ∧
        m'.boxes w.sandboxID = none ∧ (Owned m'.slots s ↔ Owned m.slots s)))

/-- The bucket of `s` has not been opened yet. -/
structure BucketWaits (cands : List Candidate) (m : Manager κ μ) (s : ℤ) (m' : Manager κ μ) : Prop where
  dir : m'.slots.slotsDir = true
  boxes : ∀ c ∈ cands, c.snapMeta.slotIndex = s → m'.boxes c.sandboxID = none
  owned : Owned m'.slots s ↔ Owned m.slots s

theorem restoreBucket_slotsDir (h : restoreBucket env cands m slot = .ok m') :
    m'.slots.slotsDir = m.slots.slotsDir := by
  obtain ⟨winner, stale, -, rfl⟩ := restoreBucket_cases h
  exact registerPaused_slotsDir

/-- A bucket leaves the sandboxes that are no candidates of its slot alone. -/
theorem restoreBucket_boxes (h : restoreBucket env cands m slot = .ok m')
    (hk : ∀ c ∈ cands, c.snapMeta.slotIndex = slot → c.sandboxID ≠ k) : m'.boxes k = m.boxes k := by
  obtain ⟨winner, stale, hs, rfl⟩ := restoreBucket_cases h
  obtain ⟨hc, hslot⟩ := mem_bucket hs List.mem_cons_self
  exact registerPaused_boxes_of_ne (hk winner hc hslot).symm

theorem restoreBucket_owned (h : restoreBucket env cands m slot = .ok m') (hs : s ≠ slot) :
    Owned m'.slots s ↔ Owned m.slots s := by
  obtain ⟨winner, stale, hsort, rfl⟩ := restoreBucket_cases h
  obtain ⟨-, hslot⟩ := mem_bucket hsort List.mem_cons_self
  exact registerPaused_owned_of_ne (m := { m with tree := trashAll env stale m.tree })
    (by rw [hslot]; exact hs)

/-- Candidates with one name are one candidate. -/
theorem cand_eq (hnd : (cands.map Candidate.sandboxID).Nodup) {c c' : Candidate} (hc : c ∈ cands)
    (hc' : c' ∈ cands) (h : c'.sandboxID = c.sandboxID) : c' = c :=
  List.inj_on_of_nodup_map hnd hc' hc h

theorem restoreBucket_other (hnd : (cands.map Candidate.sandboxID).Nodup) (hc : c ∈ cands)
    (hs : c.snapMeta.slotIndex ≠ slot) (h : restoreBucket env cands m slot = .ok m') :
    m'.boxes c.sandboxID = m.boxes c.sandboxID := by
  refine restoreBucket_boxes h fun c' hc' hs' he => hs ?_
  rw [← cand_eq hnd hc hc' he, hs']

variable {m₀ : Manager κ μ}

/-- Opening the bucket of `s`. -/
theorem BucketWaits.opened (hw : BucketWaits cands m₀ s m) (h : restoreBucket env cands m s = .ok m') :
    BucketDone env cands m₀ s m' := by
  obtain ⟨winner, stale, hsort, rfl⟩ := restoreBucket_cases h
  obtain ⟨hmem, hslot⟩ := mem_bucket hsort List.mem_cons_self
  have hsorted := env.sortCands_sorted (cands.filter fun c => c.snapMeta.slotIndex = s)
  rw [hsort, List.pairwise_cons] at hsorted
  refine ⟨winner, hmem, hslot, fun c hc hcs => ?_, fun c hc hcs hne => ?_, ?_⟩
  · have hin : c ∈ winner :: stale := by
      rw [← hsort, (env.sortCands_perm _).mem_iff, List.mem_filter]
      exact ⟨hc, by simpa using hcs⟩
    rcases List.mem_cons.mp hin with rfl | hin
    · exact le_refl _
    · exact hsorted.1 c hin
  · rw [registerPaused_boxes_of_ne hne]
    exact hw.boxes c hc hcs
  · have hself := registerPaused_self (c := winner)
      (m := { m with tree := trashAll env stale m.tree }) env hw.dir
      (hw.boxes winner hmem hslot) hslot
    rw [← hw.owned]
    exact hself

theorem BucketWaits.other (hw : BucketWaits cands m₀ s m) (hnd : (cands.map Candidate.sandboxID).Nodup)
    (hs : slot ≠ s) (h : restoreBucket env cands m slot = .ok m') : BucketWaits cands m₀ s m' where
  dir := (restoreBucket_slotsDir h).trans hw.dir
  boxes := fun c hc hcs => by
    rw [restoreBucket_other hnd hc (by rw [hcs]; exact hs.symm) h]
    exact hw.boxes c hc hcs
  owned := (restoreBucket_owned h hs.symm).trans hw.owned

theorem BucketDone.other (hb : BucketDone env cands m₀ s m) (hnd : (cands.map Candidate.sandboxID).Nodup)
    (hs : slot ≠ s) (h : restoreBucket env cands m slot = .ok m') : BucketDone env cands m₀ s m' := by
  obtain ⟨w, hw, hws, hnew, hothers, hreg⟩ := hb
  have hkeep : ∀ c ∈ cands, c.snapMeta.slotIndex = s → m'.boxes c.sandboxID = m.boxes c.sandboxID :=
    fun c hc hcs => restoreBucket_other hnd hc (by rw [hcs]; exact hs.symm) h
  refine ⟨w, hw, hws, hnew, fun c hc hcs hne => ?_, ?_⟩
  · rw [hkeep c hc hcs]
    exact hothers c hc hcs hne
  · rw [hkeep w hw hws, restoreBucket_owned h hs.symm]
    exact hreg

/-- **The paused pass, bucket by bucket.** -/
theorem restorePausedSandboxes_buckets (hnd : entries.Nodup) (hd : m.slots.slotsDir = true)
    (h : restorePausedSandboxes env entries m = .ok m') :
    (∀ k, (∀ c ∈ (scanPausedAll env m.boxes entries m.tree).2, c.sandboxID ≠ k) →
        m'.boxes k = m.boxes k) ∧
      (∀ s, (∀ c ∈ (scanPausedAll env m.boxes entries m.tree).2, c.snapMeta.slotIndex ≠ s) →
        (Owned m'.slots s ↔ Owned m.slots s)) ∧
      ∀ s, (∃ c ∈ (scanPausedAll env m.boxes entries m.tree).2, c.snapMeta.slotIndex = s) →
        BucketDone env (scanPausedAll env m.boxes entries m.tree).2 m s m' := by
  have hsub : ((scanPausedAll env m.boxes entries m.tree).2.map Candidate.sandboxID).Nodup :=
    hnd.sublist (scanPausedAll_sublist entries m.tree)
  have hnone : ∀ c ∈ (scanPausedAll env m.boxes entries m.tree).2, m.boxes c.sandboxID = none :=
    fun c hc => (mem_scanPausedAll entries m.tree hc).2.1
  unfold restorePausedSandboxes at h
  rcases hsc : scanPausedAll env m.boxes entries m.tree with ⟨t, cands⟩
  rw [hsc] at h hsub hnone
  simp only at h hsub hnone ⊢
  have hslots : ∀ s, s ∈ env.mapOrder (cands.map fun c => c.snapMeta.slotIndex).dedup ↔
      ∃ c ∈ cands, c.snapMeta.slotIndex = s := by
    intro s
    rw [(env.mapOrder_perm _).mem_iff, List.mem_dedup, List.mem_map]
  refine ⟨fun k hk => ?_, fun s hs => ?_, fun s hs => ?_⟩
  · have hrel := foldlM_rel (R := fun m m' : Manager κ μ => m'.boxes k = m.boxes k) (fun _ => rfl)
      (fun h1 h2 => h2.trans h1)
      (fun slot _ m₂ m₃ hb => restoreBucket_boxes hb fun c hc _ => hk c hc) h
    exact hrel
  · have hrel := foldlM_rel (R := fun m m' : Manager κ μ => Owned m'.slots s ↔ Owned m.slots s)
      (fun _ => Iff.rfl) (fun h1 h2 => h2.trans h1) (fun slot hslot m₂ m₃ hb => ?_) h
    · exact hrel
    refine restoreBucket_owned hb fun he => ?_
    obtain ⟨c, hc, hcs⟩ := (hslots slot).mp hslot
    exact hs c hc (hcs.trans he.symm)
  · have hwait : BucketWaits cands m s { m with tree := t } :=
      ⟨hd, fun c hc _ => hnone c hc, Iff.rfl⟩
    exact foldlM_visit (P := BucketWaits cands m s) (Q := BucketDone env cands m s) (a := s)
      (fun m₂ m₃ hw hb => hw.opened hb) ((env.mapOrder_perm _).nodup_iff.mpr (List.nodup_dedup _))
      ((hslots s).mpr hs) (fun slot _ hne m₂ m₃ hw hb => hw.other hsub hne hb)
      (fun slot _ hne m₂ m₃ hw hb => hw.other hsub hne hb) hwait h

end Buckets

/-! ### Directories of live machines -/

theorem trashCorruptDir_of_some (hk : t k ≠ none) (hne : k ≠ name) :
    trashCorruptDir env t name k = t k := by
  unfold trashCorruptDir
  split_ifs with h
  · rw [Bool.and_eq_true, Option.isNone_iff_eq_none] at h
    have htr : k ≠ trashName name (env.trashTime name) := fun he => hk (he ▸ h.2)
    unfold rename
    rw [update_of_ne htr, update_of_ne hne]
  · rfl

theorem ne_none_of_readRunningState (h : readRunningState t k = .ok st) :
    t k ≠ none := by
  obtain ⟨-, d, hd, -⟩ := readRunningState_ok h
  rw [hd]
  exact Option.some_ne_none _

theorem scanPaused_of_readable {boxes : String → Option SandboxState}
    (h : readRunningState t name = .ok st) : scanPaused env boxes t name = .skip := by
  unfold scanPaused
  rw [h]
  split_ifs <;> rfl

/-- The scan neither moves a directory with a readable running state nor makes it a candidate. -/
theorem scanPausedAll_of_readable {boxes : String → Option SandboxState} :
    ∀ (entries : List String) (t : Tree κ μ), readRunningState t k = .ok st →
      (scanPausedAll env boxes entries t).1 k = t k ∧
        ∀ c ∈ (scanPausedAll env boxes entries t).2, c.sandboxID ≠ k
  | [], t, _ => ⟨rfl, fun c hc => nomatch hc⟩
  | name :: entries, t, h => by
    have hne : ∀ sc, scanPaused env boxes t name = sc → sc ≠ .skip → k ≠ name := by
      rintro sc hsc hskip rfl
      exact hskip (hsc.symm.trans (scanPaused_of_readable h))
    unfold scanPausedAll
    split
    · exact scanPausedAll_of_readable entries t h
    · next hsc =>
      have hkept : trashCorruptDir env t name k = t k :=
        trashCorruptDir_of_some (ne_none_of_readRunningState h) (hne _ hsc (by simp))
      obtain ⟨h1, h2⟩ := scanPausedAll_of_readable entries (trashCorruptDir env t name)
        ((readRunningState_congr hkept).trans h)
      exact ⟨h1.trans hkept, h2⟩
    · next c hsc =>
      obtain ⟨h1, h2⟩ := scanPausedAll_of_readable entries t h
      refine ⟨h1, fun c' hc' => ?_⟩
      rcases List.mem_cons.mp hc' with rfl | hc'
      · rw [(scanPaused_candidate hsc).1]
        exact (hne _ hsc (by simp)).symm
      · exact h2 c' hc'

theorem trashAll_of_some (hk : t k ≠ none) :
    ∀ (stale : List Candidate), (∀ c ∈ stale, c.sandboxID ≠ k) → trashAll env stale t k = t k := by
  intro stale
  induction stale generalizing t with
  | nil => exact fun _ => rfl
  | cons c stale ih =>
    intro h
    have hkept : trashCorruptDir env t c.sandboxID k = t k :=
      trashCorruptDir_of_some hk (h c List.mem_cons_self).symm
    have hsome : trashCorruptDir env t c.sandboxID k ≠ none := by
      rw [hkept]
      exact hk
    exact (ih hsome fun c' hc' => h c' (List.mem_cons_of_mem _ hc')).trans hkept

theorem restoreBucket_tree {cands : List Candidate} {slot : ℤ} (hk : m.tree k ≠ none)
    (hc : ∀ c ∈ cands, c.sandboxID ≠ k) (h : restoreBucket env cands m slot = .ok m') :
    m'.tree k = m.tree k := by
  obtain ⟨winner, stale, hsort, rfl⟩ := restoreBucket_cases h
  have hne : ∀ c ∈ winner :: stale, c.sandboxID ≠ k := fun c hcs => hc c (mem_bucket hsort hcs).1
  have hstale : trashAll env stale m.tree k = m.tree k :=
    trashAll_of_some hk stale fun c hcs => hne c (List.mem_cons_of_mem _ hcs)
  unfold registerPaused
  split
  · have hsome : trashAll env stale m.tree k ≠ none := by
      rw [hstale]
      exact hk
    exact (trashCorruptDir_of_some hsome (hne winner List.mem_cons_self).symm).trans hstale
  · exact hstale

/-- **The paused pass leaves the directory of a live machine alone.** -/
theorem restorePausedSandboxes_kept (h : restorePausedSandboxes env entries m = .ok m')
    (hk : readRunningState m.tree k = .ok st) : m'.tree k = m.tree k := by
  unfold restorePausedSandboxes at h
  have hscan : (scanPausedAll env m.boxes entries m.tree).1 k = m.tree k ∧
      ∀ c ∈ (scanPausedAll env m.boxes entries m.tree).2, c.sandboxID ≠ k :=
    scanPausedAll_of_readable entries m.tree hk
  rcases hsc : scanPausedAll env m.boxes entries m.tree with ⟨t, cands⟩
  rw [hsc] at h hscan
  simp only at h hscan
  have hrel := foldlM_rel (R := fun m m' : Manager κ μ => m.tree k ≠ none → m'.tree k = m.tree k)
    (fun _ _ => rfl) (fun h1 h2 hn => (h2 (by rw [h1 hn]; exact hn)).trans (h1 hn))
    (fun slot _ m₂ m₃ hb hn => restoreBucket_tree hn hscan.2 hb) h
  have hsome : t k ≠ none := by
    rw [hscan.1]
    exact ne_none_of_readRunningState hk
  exact (hrel hsome).trans hscan.1

/-! ### The restored sandboxes -/

/-- The candidates of the paused pass over `entries` in the state `m`. -/
def candidates (env : Env) (entries : List String) (m : Manager κ μ) : List Candidate :=
  (scanPausedAll env m.boxes entries m.tree).2

/-- What the two passes are for: `m₁` is the state between them, `t` the directory they started from. -/
structure SlotsOwned (env : Env) (t : Tree κ μ) (entries₁ entries₂ : List String)
    (m₁ m' : Manager κ μ) : Prop where
  owned : ∀ k sb, m'.boxes k = some sb → InRange sb.slotIndex ∧
    m'.slots.inUse sb.slotIndex = true ∧ m'.slots.seeded sb.slotIndex = false
  distinct : ∀ k k' sb sb', m'.boxes k = some sb → m'.boxes k' = some sb' →
    sb.slotIndex = sb'.slotIndex → k = k'
  /-- at most one candidate of a slot is registered, a newest one -/
  single : ∀ c ∈ candidates env entries₂ m₁, ∀ c' ∈ candidates env entries₂ m₁,
    c.snapMeta.slotIndex = c'.snapMeta.slotIndex → (m'.boxes c.sandboxID).isSome = true →
    (m'.boxes c'.sandboxID).isSome = true → c = c'
  newest : ∀ c ∈ candidates env entries₂ m₁, ∀ c' ∈ candidates env entries₂ m₁,
    c.snapMeta.slotIndex = c'.snapMeta.slotIndex → (m'.boxes c.sandboxID).isSome = true →
    c'.snapMeta.createdAt ≤ c.snapMeta.createdAt
  /-- registered exactly when the slot is in range and no live sandbox holds it, its claim file being
  writable -/
  registered : ∀ s, (∃ c ∈ candidates env entries₂ m₁, c.snapMeta.slotIndex = s) →
    ((∃ c ∈ candidates env entries₂ m₁, c.snapMeta.slotIndex = s ∧
      (m'.boxes c.sandboxID).isSome = true) ↔
      InRange s ∧ (¬ ∃ a ∈ entries₁, Adopts env t a s) ∧ env.claimErr s = false)
  kept : ∀ k st, readRunningState m₁.tree k = .ok st → m'.tree k = m₁.tree k

section Final

variable {entries₁ entries₂ : List String} {D : String → Prop}

/-- Where a registered sandbox comes from: the running pass, or the bucket of its slot. -/
theorem box_cases (hnd : entries₂.Nodup) (hd : m₁.slots.slotsDir = true)
    (h : restorePausedSandboxes env entries₂ m₁ = .ok m') {sb : SandboxState}
    (hk : m'.boxes k = some sb) :
    m₁.boxes k = some sb ∨ ∃ c ∈ candidates env entries₂ m₁, k = c.sandboxID ∧
      sb.slotIndex = c.snapMeta.slotIndex ∧ InRange sb.slotIndex ∧ ¬ Owned m₁.slots sb.slotIndex ∧
      Owned m'.slots sb.slotIndex := by
  obtain ⟨hboxes, -, hbuckets⟩ := restorePausedSandboxes_buckets hnd hd h
  by_cases hcand : ∃ c ∈ candidates env entries₂ m₁, c.sandboxID = k
  · obtain ⟨c, hc, rfl⟩ := hcand
    obtain ⟨w, hw, hws, -, hothers, hreg⟩ := hbuckets c.snapMeta.slotIndex ⟨c, hc, rfl⟩
    by_cases hcw : c.sandboxID = w.sandboxID
    · rw [hcw] at hk
      rcases hreg with ⟨⟨hr, hno, -⟩, hb, ho⟩ | ⟨-, hb, -⟩
      · rw [hb, Option.some.injEq] at hk
        have hslot : sb.slotIndex = c.snapMeta.slotIndex := by
          rw [← hk]
          exact hws
        refine .inr ⟨c, hc, rfl, hslot, ?_⟩
        rw [hslot]
        exact ⟨hr, hno, ho⟩
      · rw [hb] at hk
        cases hk
    · rw [hothers c hc rfl hcw] at hk
      cases hk
  · refine .inl ((hboxes k fun c hc he => hcand ⟨c, hc, he⟩).symm.trans hk)

/-- A slot that has an owner after the running pass keeps it. -/
theorem owned_kept (hnd : entries₂.Nodup) (hd : m₁.slots.slotsDir = true)
    (h : restorePausedSandboxes env entries₂ m₁ = .ok m') (ho : Owned m₁.slots s) :
    Owned m'.slots s := by
  obtain ⟨-, hslots, hbuckets⟩ := restorePausedSandboxes_buckets hnd hd h
  by_cases hcand : ∃ c ∈ candidates env entries₂ m₁, c.snapMeta.slotIndex = s
  · obtain ⟨w, -, -, -, -, hreg⟩ := hbuckets s hcand
    rcases hreg with ⟨⟨-, hno, -⟩, -⟩ | ⟨-, -, hsame⟩
    · exact absurd ho hno
    · exact hsame.mpr ho
  · exact (hslots s fun c hc he => hcand ⟨c, hc, he⟩).mpr ho

/-- After a running pass that never frees an adopted slot, the restored sandboxes own theirs. -/
theorem Ran.slotsOwned (hran : Ran env t (fun k => k ∈ entries₁ ∨ False) m₁) (hnd : entries₂.Nodup)
    (h : restorePausedSandboxes env entries₂ m₁ = .ok m') :
    SlotsOwned env t entries₁ entries₂ m₁ m' := by
  have hd := hran.dir
  obtain ⟨-, -, hbuckets⟩ := restorePausedSandboxes_buckets hnd hd h
  have hbox : ∀ k sb, m₁.boxes k = some sb → Owned m₁.slots sb.slotIndex := by
    intro k sb hk
    refine (hran.owned _).mpr ⟨k, ?_, hran.box k sb hk⟩
    by_contra hno
    rw [hran.new k hno] at hk
    cases hk
  have hids : ((candidates env entries₂ m₁).map Candidate.sandboxID).Nodup :=
    hnd.sublist (scanPausedAll_sublist entries₂ m₁.tree)
  -- a registered candidate is the one its bucket has chosen
  have hchosen : ∀ c ∈ candidates env entries₂ m₁, (m'.boxes c.sandboxID).isSome = true →
      ∀ w ∈ candidates env entries₂ m₁, (∀ c' ∈ candidates env entries₂ m₁,
        c'.snapMeta.slotIndex = c.snapMeta.slotIndex → c'.sandboxID ≠ w.sandboxID →
        m'.boxes c'.sandboxID = none) → c = w := by
    intro c hc hsome w hw hothers
    by_contra hne
    rw [hothers c hc rfl fun he => hne (cand_eq hids hw hc he)] at hsome
    cases hsome
  refine ⟨fun k sb hk => ?_, fun k k' sb sb' hk hk' he => ?_, fun c hc c' hc' he h1 h2 => ?_,
    fun c hc c' hc' he h1 => ?_, fun s hs => ?_, fun k st hk => restorePausedSandboxes_kept h hk⟩
  · rcases box_cases hnd hd h hk with hk | ⟨c, -, -, -, hr, -, ho⟩
    · obtain ⟨-, st, _, _, -, -, -, -, -, hr, -⟩ := hran.box k sb hk
      exact ⟨hr, owned_kept hnd hd h (hbox k sb hk)⟩
    · exact ⟨hr, ho⟩
  · rcases box_cases hnd hd h hk with hk1 | ⟨c, hc, rfl, hcs, -, hno, -⟩
    · rcases box_cases hnd hd h hk' with hk1' | ⟨c', -, -, -, -, hno', -⟩
      · exact hran.one k k' sb sb' hk1 hk1' he
      · rw [← he] at hno'
        exact absurd (hbox k sb hk1) hno'
    · rcases box_cases hnd hd h hk' with hk1' | ⟨c', hc', rfl, hcs', -, -, -⟩
      · rw [he] at hno
        exact absurd (hbox k' sb' hk1') hno
      · obtain ⟨w, hw, -, -, hothers, -⟩ := hbuckets c.snapMeta.slotIndex ⟨c, hc, rfl⟩
        have hslot : c'.snapMeta.slotIndex = c.snapMeta.slotIndex := by
          rw [← hcs', ← he, hcs]
        rw [hchosen c hc (by rw [hk]; rfl) w hw hothers,
          hchosen c' hc' (by rw [hk']; rfl) w hw (by rw [hslot]; exact hothers)]
  · obtain ⟨w, hw, -, -, hothers, -⟩ := hbuckets c.snapMeta.slotIndex ⟨c, hc, rfl⟩
    rw [hchosen c hc h1 w hw hothers, hchosen c' hc' h2 w hw (by rw [← he]; exact hothers)]
  · obtain ⟨w, hw, -, hnew, hothers, -⟩ := hbuckets c.snapMeta.slotIndex ⟨c, hc, rfl⟩
    rw [hchosen c hc h1 w hw hothers]
    exact hnew c' hc' he.symm
  · have howner : Owned m₁.slots s ↔ ∃ a ∈ entries₁, Adopts env t a s := by
      rw [hran.owned s]
      simp only [or_false]
    rw [← howner]
    obtain ⟨w, hw, hws, -, hothers, hreg⟩ := hbuckets s hs
    rcases hreg with ⟨hcond, hb, -⟩ | ⟨hcond, hb, -⟩
    · exact iff_of_true ⟨w, hw, hws, by rw [hb]; rfl⟩ hcond
    · refine iff_of_false ?_ hcond
      rintro ⟨c, hc, hcs, hsome⟩
      rw [hchosen c hc hsome w hw (by rw [hcs]; exact hothers), hb] at hsome
      cases hsome

/-! ### A slot freed under its owner -/

/-- Some registered sandbox is on the slot. -/
def Taken (m : Manager κ μ) (s : ℤ) : Prop := ∃ k sb, m.boxes k = some sb ∧ sb.slotIndex = s

/-- Two registered sandboxes are on the slot, or one is and the allocator knows nothing of it. -/
def Clash (m : Manager κ μ) (s : ℤ) : Prop :=
  (∃ k k' sb sb', k ≠ k' ∧ m.boxes k = some sb ∧ m.boxes k' = some sb' ∧ sb.slotIndex = s ∧
    sb'.slotIndex = s) ∨ (¬ Owned m.slots s ∧ Taken m s)

theorem SlotsOwned.not_clash (h : SlotsOwned env t entries₁ entries₂ m₁ m') : ¬ Clash m' s := by
  rintro (⟨k, k', sb, sb', hne, hk, hk', hs, hs'⟩ | ⟨hno, k, sb, hk, rfl⟩)
  · exact hne (h.distinct k k' sb sb' hk hk' (hs.trans hs'.symm))
  · exact hno (h.owned k sb hk).2

/-- A step that keeps the registered sandboxes, and registers one on every slot it gives an owner,
keeps a clash. -/
theorem Clash.step (hc : Clash m s) (hkeep : ∀ k sb, m.boxes k = some sb → m'.boxes k = some sb)
    (hown : Owned m'.slots s → Owned m.slots s ∨
      ∃ k sb, m.boxes k = none ∧ m'.boxes k = some sb ∧ sb.slotIndex = s) : Clash m' s := by
  rcases hc with ⟨k, k', sb, sb', hne, hk, hk', hs, hs'⟩ | ⟨hno, k, sb, hk, hs⟩
  · exact .inl ⟨k, k', sb, sb', hne, hkeep k sb hk, hkeep k' sb' hk', hs, hs'⟩
  · by_cases ho : Owned m'.slots s
    · rcases hown ho with ho' | ⟨k', sb', hk', hk'', hs'⟩
      · exact absurd ho' hno
      · refine .inl ⟨k, k', sb, sb', fun he => ?_, hkeep k sb hk, hk'', hs, hs'⟩
        rw [he, hk'] at hk
        cases hk
    · exact .inr ⟨ho, k, sb, hkeep k sb hk, hs⟩

/-- When every re-attach step succeeds, a turn keeps the registered sandboxes, and a slot gets an owner
together with a registered sandbox. -/
theorem Turn.boxes (hr : Reattaches env) (hnew : m.boxes name = none) (h : Turn env m m' name) :
    (∀ k sb, m.boxes k = some sb → m'.boxes k = some sb) ∧
      ∀ s, Owned m'.slots s → Owned m.slots s ∨
        ∃ k sb, m.boxes k = none ∧ m'.boxes k = some sb ∧ sb.slotIndex = s := by
  cases h with
  | idle _ _ hs hb | refused _ _ _ hs hb => rw [hs, hb]; exact ⟨fun _ _ hk => hk, fun _ => .inl⟩
  | freed s _ hs hb =>
    rw [hs, hb]
    refine ⟨fun _ _ hk => hk, fun s' ho => .inl ?_⟩
    by_cases he : s' = s
    · rw [he] at ho
      exact absurd ho (not_owned_release m.slots m.claims s)
    · exact (owned_release_of_ne he).mp ho
  | left _ _ _ _ _ hno => exact absurd hr hno
  | attached s sb _ _ hs hsb hb =>
    rw [hs, hb]
    refine ⟨fun k sb' hk => ?_, fun s' ho => ?_⟩
    · rw [update_of_ne, hk]
      rintro rfl
      rw [hnew] at hk
      cases hk
    · rcases owned_adopt_iff.mp ho with ho | rfl
      · exact .inl ho
      · exact .inr ⟨name, sb, hnew, update_self .., hsb⟩

/-- Every slot with an owner has a registered sandbox. -/
def Boxed (m : Manager κ μ) : Prop := ∀ s, Owned m.slots s → Taken m s

theorem Boxed.turn (hr : Reattaches env) (hnew : m.boxes name = none) (h : Turn env m m' name)
    (hb : Boxed m) : Boxed m' := by
  obtain ⟨hkeep, hown⟩ := h.boxes hr hnew
  intro s ho
  rcases hown s ho with ho | ⟨k, sb, -, hk, hs⟩
  · obtain ⟨k, sb, hk, hs⟩ := hb s ho
    exact ⟨k, sb, hkeep k sb hk, hs⟩
  · exact ⟨k, sb, hk, hs⟩

/-- The state of the running pass in which nothing has gone wrong with re-attaching. -/
structure Attached (t : Tree κ μ) (D : String → Prop) (m : Manager κ μ) : Prop
    extends Untouched t D m where
  boxed : Boxed m

theorem Attached.turn (hr : Reattaches env) (h : Attached t D m) (hD : ¬ D name)
    (hst : restoreRunning env m name = .ok m') : Attached t (fun k => k = name ∨ D k) m' :=
  ⟨h.toUntouched.turn hD hst,
    h.boxed.turn hr (h.new name hD) (restoreRunning_turn h.dir (h.new name hD) hst)⟩

variable {entries : List String}

/-- The rest of the running pass keeps what every turn keeps. -/
theorem running_rest {P : Manager κ μ → Prop} (hr : Reattaches env)
    (hP : ∀ {m m' : Manager κ μ} {D : String → Prop} {name : String}, Attached t D m → ¬ D name →
      restoreRunning env m name = .ok m' → P m → P m') :
    ∀ {m m' : Manager κ μ} {D : String → Prop}, Attached t D m → entries.Nodup →
      (∀ k ∈ entries, ¬ D k) → entries.foldlM (restoreRunning env) m = .ok m' → P m → P m' := by
  induction entries with
  | nil =>
    intro m m' D _ _ _ hf hp
    cases hf
    exact hp
  | cons name entries ih =>
    intro m m' D h hnd hD hf hp
    obtain ⟨hname, hnd⟩ := List.nodup_cons.mp hnd
    obtain ⟨m1, hstep, hf⟩ := foldlM_cons_ok hf
    have hDn := hD name List.mem_cons_self
    exact ih (h.turn hr hDn hstep) hnd (not_done_cons hname hD) hf (hP h hDn hstep hp)

theorem Clash.rest (hr : Reattaches env) (h : Attached t D m) (hnd : entries.Nodup) (hD : ∀ k ∈ entries, ¬ D k)
    (hf : entries.foldlM (restoreRunning env) m = .ok m') (hc : Clash m s) : Clash m' s := by
  refine running_rest (P := fun m => Clash m s) hr (fun h hDn hst hc => ?_) h hnd hD hf hc
  obtain ⟨hkeep, hown⟩ :=
    (restoreRunning_turn h.dir (h.new _ hDn) hst).boxes hr (h.new _ hDn)
  exact hc.step hkeep (hown s)

/-- The sweep of a directory on a slot with a registered sandbox. -/
theorem Attached.clash_of_frees (h : Attached t D m) (hD : ¬ D name) (ht : Taken m s)
    (hF : Frees env t name s) (hst : restoreRunning env m name = .ok m') : Clash m' s := by
  rw [← frees_congr (h.tree name hD)] at hF
  have hF' := hF
  obtain ⟨-, st, hread, hdead, hslot, -⟩ := hF'
  cases restoreRunning_turn h.dir (h.new name hD) hst with
  | idle _ hno _ _ => exact absurd hF (hno s)
  | freed s' hF' hs hb =>
    obtain ⟨-, st', hread', -, hslot', -⟩ := hF'
    rw [hread] at hread'
    cases hread'
    rw [hslot] at hslot'
    subst hslot'
    refine .inr ⟨by rw [hs]; exact not_owned_release m.slots m.claims s, ?_⟩
    rw [Taken, hb]
    exact ht
  | refused _ hA _ _ _ | left _ hA _ _ _ _ | attached _ _ hA _ _ _ _ =>
    exact absurd hA (not_adopts_of_dead hread hdead _)

/-- After the turn of a directory that adopts `s`, some registered sandbox is on `s`. -/
theorem Attached.taken_of_adopts (hr : Reattaches env) (h : Attached t D m) (hD : ¬ D name)
    (hA : Adopts env t name s) (hst : restoreRunning env m name = .ok m') : Taken m' s := by
  rw [← adopts_congr (h.tree name hD)] at hA
  have hboxed := (h.turn hr hD hst).boxed s
  cases restoreRunning_turn h.dir (h.new name hD) hst with
  | idle hno _ _ _ => exact absurd hA (hno s)
  | freed _ hF _ _ =>
    obtain ⟨-, st, hread, hdead, -⟩ := hF
    exact absurd hA (not_adopts_of_dead hread hdead s)
  | refused s' hA' ho hs _ =>
    rw [adopts_unique hA hA', ← hs] at ho
    exact hboxed ho
  | left _ _ _ _ _ hno => exact absurd hr hno
  | attached s' _ hA' _ hs _ _ =>
    refine hboxed ?_
    rw [hs, adopts_unique hA hA']
    exact owned_adopt m.slots s

theorem clash_of_taken (hr : Reattaches env) :
    ∀ {m : Manager κ μ} {D : String → Prop}, Attached t D m → entries.Nodup →
      (∀ k ∈ entries, ¬ D k) → Taken m s → (∃ b ∈ entries, Frees env t b s) →
      entries.foldlM (restoreRunning env) m = .ok m' → Clash m' s := by
  induction entries with
  | nil =>
    rintro m D _ _ _ _ ⟨b, hb, -⟩
    cases hb
  | cons name entries ih =>
    rintro m D h hnd hD ht ⟨b, hb, hF⟩ hf
    obtain ⟨hname, hnd'⟩ := List.nodup_cons.mp hnd
    obtain ⟨m1, hstep, hrest⟩ := foldlM_cons_ok hf
    have hDn := hD name List.mem_cons_self
    have h1 := h.turn hr hDn hstep
    have hD1 := not_done_cons hname hD
    rcases List.mem_cons.mp hb with rfl | hb
    · exact (h.clash_of_frees hDn ht hF hstep).rest hr h1 hnd' hD1 hrest
    · obtain ⟨k, sb, hk, hs⟩ := ht
      have hkeep := ((restoreRunning_turn h.dir (h.new name hDn) hstep).boxes hr (h.new name hDn)).1
      exact ih h1 hnd' hD1 ⟨k, sb, hkeep k sb hk, hs⟩ ⟨b, hb, hF⟩ hrest

/-- A directory swept after one that adopts its slot leaves a clash behind. -/
theorem clash_of_later_sweep (hr : Reattaches env) :
    ∀ {m : Manager κ μ} {D : String → Prop}, Attached t D m → entries.Nodup →
      (∀ k ∈ entries, ¬ D k) → ¬ NoLaterSweep env t entries →
      entries.foldlM (restoreRunning env) m = .ok m' → ∃ s, Clash m' s := by
  induction entries with
  | nil =>
    intro m D _ _ _ hno
    exact absurd List.Pairwise.nil hno
  | cons name entries ih =>
    intro m D h hnd hD hno hf
    obtain ⟨hname, hnd⟩ := List.nodup_cons.mp hnd
    obtain ⟨m1, hstep, hf⟩ := foldlM_cons_ok hf
    have hDn := hD name List.mem_cons_self
    have h1 := h.turn hr hDn hstep
    have hD1 := not_done_cons hname hD
    by_cases hrest : NoLaterSweep env t entries
    · obtain ⟨b, hb, s, hA, hF⟩ : ∃ b ∈ entries, ∃ s, Adopts env t name s ∧ Frees env t b s := by
        by_contra hnone
        push Not at hnone
        exact hno (List.pairwise_cons.mpr ⟨fun b hb s hA => hnone b hb s hA, hrest⟩)
      exact ⟨s, clash_of_taken hr h1 hnd hD1 (h.taken_of_adopts hr hDn hA hstep) ⟨b, hb, hF⟩ hf⟩
    · exact ih h1 hnd hD1 hrest hf

/-- The paused pass does not mend a clash. -/
theorem Clash.paused (hnd : entries₂.Nodup) (hd : m₁.slots.slotsDir = true)
    (h : restorePausedSandboxes env entries₂ m₁ = .ok m') (hc : Clash m₁ s) : Clash m' s := by
  obtain ⟨hboxes, hslots, hbuckets⟩ := restorePausedSandboxes_buckets hnd hd h
  have hnone : ∀ c ∈ candidates env entries₂ m₁, m₁.boxes c.sandboxID = none :=
    fun c hc => (mem_scanPausedAll entries₂ m₁.tree hc).2.1
  refine hc.step (fun k sb hk => ?_) fun ho => ?_
  · rw [hboxes k fun c hcand he => ?_]
    · exact hk
    · rw [← he, hnone c hcand] at hk
      cases hk
  · by_cases hcand : ∃ c ∈ candidates env entries₂ m₁, c.snapMeta.slotIndex = s
    · obtain ⟨w, hw, hws, -, -, hreg⟩ := hbuckets s hcand
      rcases hreg with ⟨-, hb, -⟩ | ⟨-, -, hsame⟩
      · exact .inr ⟨w.sandboxID, pausedState w, hnone w hw, hb, hws⟩
      · exact .inl (hsame.mp ho)
    · exact .inl ((hslots s fun c hc he => hcand ⟨c, hc, he⟩).mp ho)

end Final

/-! ### The condition -/

/-- The answers of the re-attach steps that follow the reservation. -/
structure Outcome where
  reattachLoop : String → String → Option String
  losetup : String → Option String
  probeOk : String → Bool

def withOutcome (env : Env) (o : Outcome) : Env :=
  { env with reattachLoop := o.reattachLoop, losetup := o.losetup, probeOk := o.probeOk }

/-- **Restored sandboxes own distinct slots**, whatever the re-attach steps answer, exactly when no
directory of a dead sandbox without a pause generation is listed after that of a live sandbox with the
same recorded slot. -/
theorem restoreSandboxes_slots_iff (env : Env) (t : Tree κ μ) (claims : ClaimFiles)
    (entries₁ entries₂ : List String) (hnd₁ : entries₁.Nodup) (hnd₂ : entries₂.Nodup)
    (hret : ∀ o, ∃ m', restoreSandboxes (withOutcome env o) entries₁ entries₂
      (newManager t claims) = .ok m') :
    (∀ o m₁ m', restoreRunningSandboxes (withOutcome env o) entries₁ (newManager t claims) = .ok m₁ →
        restorePausedSandboxes (withOutcome env o) entries₂ m₁ = .ok m' →
        SlotsOwned (withOutcome env o) t entries₁ entries₂ m₁ m') ↔
      NoLaterSweep env t entries₁ := by
  constructor
  · -- let every re-attach step succeed
    intro h
    by_contra hno
    obtain ⟨o, hr⟩ : ∃ o, Reattaches (withOutcome env o) :=
      ⟨⟨fun _ _ => some "", fun _ => some "", fun _ => true⟩,
        fun _ _ => Option.some_ne_none _, fun _ => Option.some_ne_none _, fun _ => rfl⟩
    obtain ⟨m', hm'⟩ := hret o
    obtain ⟨m₁, h1, h2⟩ := restoreSandboxes_cases hm'
    have hstart : Attached t (fun _ => False) (newManager t claims) :=
      ⟨untouched_newManager t claims, fun s ho => absurd ho (not_owned_newManager t claims s)⟩
    obtain ⟨s, hc⟩ := clash_of_later_sweep hr hstart hnd₁ (fun _ _ hf => hf) hno h1
    have hd : m₁.slots.slotsDir = true := by
      refine running_rest (P := fun m => m.slots.slotsDir = true) hr (fun h hDn hst hd => ?_) hstart
        hnd₁ (fun _ _ hf => hf) h1 hstart.dir
      exact (restoreRunning_turn h.dir (h.new _ hDn) hst).slotsDir.trans hd
    exact (h o m₁ m' h1 h2).not_clash (hc.paused hnd₂ hd h2)
  · intro hsw o m₁ m' h1 h2
    exact (ran_restoreRunning (ran_newManager (withOutcome env o) t claims) hnd₁
      (fun _ _ hf => hf) (fun _ _ _ hf => hf.elim) hsw h1).slotsOwned hnd₂ h2

/-- The process of sandbox `cl-aaaa0001` is left, and every call succeeds. -/
def oneAlive : Env :=
  { freshBoot with
    killOk := fun _ => true
    cmdline := fun _ => some "cloud-hypervisor --api-socket /tmp/ch-cl-aaaa0001.sock"
    statOk := fun _ => true
    reattachLoop := fun _ _ => some "/dev/loop1"
    probeOk := fun _ => true }

/-- Two sandboxes that were running when the agent died. -/
def twoRunning (slot₁ slot₂ : ℤ) : Tree Unit Unit :=
  Function.update (RestorePanic.deadTree "cl-bbbb0002" slot₂) "cl-aaaa0001"
    (some (.dir ⟨.ok (RestorePanic.deadState "cl-aaaa0001" slot₁), .absent, some (), none⟩))

theorem oneAlive_alive (o : Outcome) :
    chProcessAlive (withOutcome oneAlive o) (RestorePanic.deadState "cl-aaaa0001" 5) = true := rfl

/-- The generation of a sandbox that was paused on slot 7. -/
def pausedMeta : SnapshotMeta where
  templateName := "minimal"
  teamID := "00000000-0000-0000-0000-000000000000"
  templateID := "00000000-0000-0000-0000-000000000001"
  vcpus := 1
  memoryMB := 512
  timeoutSec := 300
  slotIndex := 7
  baseTemplate := "/var/lib/wrenn/images/rootfs.ext4"
  cowPath := "/var/lib/wrenn/sandboxes/cl-cccc0003/rootfs.cow"
  sandboxDir := "/tmp/ch-vm-cl-cccc0003"
  createdAt := 0
  volumes := []

/-- A live sandbox on slot 5, a dead one on slot 6 and a paused one on slot 7. -/
def onePaused : Tree Unit Unit :=
  Function.update (twoRunning 5 6) "cl-cccc0003" (some (.dir ⟨.absent, .ok pausedMeta, some (), some ()⟩))

/-- Start-up registers the live sandbox and the paused one, and restores the slots as it should. -/
theorem onePaused_slotsOwned :
    (∃ m', restoreSandboxes oneAlive ["cl-aaaa0001", "cl-bbbb0002", "cl-cccc0003"]
        ["cl-aaaa0001", "cl-cccc0003"] (newManager onePaused fun _ => false) = .ok m' ∧
      (m'.boxes "cl-aaaa0001").map SandboxState.slotIndex = some 5 ∧
      (m'.boxes "cl-cccc0003").map SandboxState.slotIndex = some 7) ∧
    ∀ o m₁ m', restoreRunningSandboxes (withOutcome oneAlive o) ["cl-aaaa0001", "cl-bbbb0002", "cl-cccc0003"]
        (newManager onePaused fun _ => false) = .ok m₁ →
      restorePausedSandboxes (withOutcome oneAlive o) ["cl-aaaa0001", "cl-cccc0003"] m₁ = .ok m' →
      SlotsOwned (withOutcome oneAlive o) onePaused ["cl-aaaa0001", "cl-bbbb0002", "cl-cccc0003"]
        ["cl-aaaa0001", "cl-cccc0003"] m₁ m' := by
  refine ⟨⟨_, rfl, rfl, rfl⟩, ?_⟩
  refine (restoreSandboxes_slots_iff oneAlive onePaused (fun _ => false) _ _ (by decide)
    (by decide) fun o => (RestorePanic.restoreSandboxes_ok_iff (by decide)).mpr ?_).mpr ?_
  · rintro name hname ⟨-, -, -, st, hst, ha, hout⟩
    simp only [List.mem_cons, List.not_mem_nil, or_false] at hname
    rcases hname with rfl | rfl | rfl <;> cases hst
    · rw [oneAlive_alive] at ha
      cases ha
    · exact hout (by decide)
  · refine List.pairwise_cons.mpr ⟨fun b hb s hadopts hfrees => ?_, List.pairwise_pair.mpr ?_⟩
    · obtain ⟨-, st, _, _, hr, -, -, -, rfl, -⟩ := hadopts
      obtain ⟨-, st', hr', -, hs, -⟩ := hfrees
      cases hr
      simp only [List.mem_cons, List.not_mem_nil, or_false] at hb
      rcases hb with rfl | rfl <;> cases hr'
      exact absurd hs (by decide)
    · rintro s - ⟨-, st', hr', -⟩
      cases hr'

/-- A live sandbox and a dead one on the same slot: the sweep of the second frees the slot of the
first, which is registered on it. -/
theorem sweep_frees_slot_of_live :
    ∃ m' sb, restoreSandboxes oneAlive ["cl-aaaa0001", "cl-bbbb0002"] ["cl-aaaa0001"]
        (newManager (twoRunning 5 5) fun _ => false) = .ok m' ∧
      m'.boxes "cl-aaaa0001" = some sb ∧ sb.slotIndex = 5 ∧ m'.slots.inUse 5 = false := by
  refine ⟨_, _, rfl, rfl, rfl, rfl⟩

end Wrenn.Sandbox.RestoreSlots
