import Wrenn.Volumes.Holders

/-!
# The removal of a backing file

`VolumeService.Delete` claims a row (`deleting`) so that nobody attaches it, and a claim may be taken over by
another `Delete`.  Either of the two then gives it back for both: with `AbortVolumeDelete` if its own
`DeleteVolume` fails, and the reaper gives it back after a while.  The other goes on and removes the file of a
volume that may be in use again.  Nor does giving back ask whether the file is still there.

`Careful` is the condition on these statements.
-/

namespace Wrenn.Volumes.Removal

open Lib.Runs Lib.Tables Lib.Threads Model Holders
open ControlPlane.Database hiding Row Status

/-- A `Delete` that has the claim. -/
def deletes : Proc → Option ℕ
  | .getHost v _ | .deleteFile v _ | .abort v | .deleteRow v => some v
  | _ => none

/-- The volume still has its data. -/
def Intact (k : Core) (v : ℕ) : Prop := ∀ f ∈ k.homes, f.2 = v → f ∈ k.files

/-- The condition on one process. -/
def careful (k : Core) (l : List Proc) : Proc → Prop
  | .beginDelete v => v ∉ l.filterMap deletes
  | .abort v => Intact k v
  | .releaseStale cutoff => ∀ r ∈ k.volumes.rows, stale cutoff r = true →
    Idle k l r.id ∧ r.id ∉ l.filterMap deletes ∧ Intact k r.id
  | .detach ids => ∀ r ∈ k.volumes.rows, detachable ids r = true → Idle k l r.id
  | _ => True

/-- The condition of the module. -/
def Careful (s : State) : Act → Prop
  | .act t _ => ∀ p ∈ s.threads[t]?, careful s.core s.threads p
  | _ => True

variable {k : Core} {l : List Proc} {p : Proc} {s : State} {a : Act}

theorem gentle_of_careful (h : careful k l p) : gentle k l p := by
  cases p with
  | releaseStale cutoff => exact fun r hr hst => (h r hr hst).1
  | detach ids => exact h
  | _ => trivial

theorem Careful.gentle (h : Careful s a) : Gentle s a := by
  cases a with
  | act t ch => exact fun p hp => gentle_of_careful (h p hp)
  | _ => trivial

/-! ### What a statement does to a row -/

section

variable {k k' : Core} {p p' : Proc} {w : ℕ}

theorem none_of_updated {P : Volume → Bool} {f : Volume → Volume} (hk : Updated k k' P f) (hw : k.status w = none) :
    k'.status w = none := by
  rw [Core.status, Option.map_eq_none_iff] at hw
  rw [Core.status, hk w, hw]
  rfl

/-- Rows do not come back. -/
theorem none_does (h : Does k p k' p') (hw : k.status w = none) : k'.status w = none := by
  cases h with
  | reserve => exact none_of_updated (updated_reserve k _) hw
  | link => exact none_of_updated (updated_link k _ _) hw
  | mark => exact none_of_updated (updated_mark k _ _ _) hw
  | release => exact none_of_updated (updated_release k _) hw
  | beginDelete => exact none_of_updated (updated_beginDelete k _) hw
  | abort => exact none_of_updated (updated_abort k _) hw
  | releaseStale => exact none_of_updated (updated_releaseStale k _) hw
  | detach => exact none_of_updated (updated_detach k _) hw
  | @deleteRow v =>
    rw [Core.status, Option.map_eq_none_iff] at hw
    change ((deleteVolumeRow k.volumes v).select w).map Volume.status = none
    rw [deleteVolumeRow, Table.select_delete, hw]
    rfl
  | _ => exact hw

/-- What becomes of a row that is `deleting`. -/
inductive Given (k k' : Core) (w : ℕ) : Proc → Prop
  | kept {p : Proc} (h : k'.status w = some .deleting) : Given k k' w p
  | abort : Given k k' w (.abort w)
  | row (h : k'.status w = none) : Given k k' w (.deleteRow w)
  | stale {cutoff : ℕ} {r : Volume} (hr : k.volumes.select w = some r) (hst : stale cutoff r = true) :
    Given k k' w (.releaseStale cutoff)

theorem given_of_updated {P : Volume → Bool} {f : Volume → Volume} (hk : Updated k k' P f)
    (hw : k.status w = some .deleting)
    (h : ∀ r, k.volumes.select w = some r → r.status = .deleting → P r = true → Given k k' w p) : Given k k' w p := by
  obtain ⟨r, hr, hst⟩ := Option.map_eq_some_iff.mp hw
  by_cases hp : P r = true
  · exact h r hr hst hp
  · refine .kept ?_
    rw [status_of_select (hk.miss hr hp), hst]

theorem given_does (h : Does k p k' p') (hw : k.status w = some .deleting) : Given k k' w p := by
  cases h with
  | reserve =>
    refine given_of_updated (updated_reserve k _) hw fun r hr hst hp => ?_
    exact absurd (hst.symm.trans (of_decide_eq_true hp).2) nofun
  | link =>
    refine given_of_updated (updated_link k _ _) hw fun r hr hst hp => ?_
    exact absurd (hst.symm.trans (of_decide_eq_true hp).2) nofun
  | mark =>
    refine given_of_updated (updated_mark k _ _ _) hw fun r hr hst hp => ?_
    exact absurd (hst.symm.trans (of_decide_eq_true hp).2) nofun
  | release =>
    refine given_of_updated (updated_release k _) hw fun r hr hst hp => ?_
    exact absurd (hst.symm.trans (of_decide_eq_true hp).2) nofun
  | detach =>
    refine given_of_updated (updated_detach k _) hw fun r hr hst hp => ?_
    have hmem := (of_decide_eq_true hp).2
    rw [hst] at hmem
    simp at hmem
  | beginDelete =>
    refine given_of_updated (updated_beginDelete k _) hw fun r hr hst hp => ?_
    exact .kept ((updated_beginDelete k _).hit hr hp)
  | abort =>
    refine given_of_updated (updated_abort k _) hw fun r hr hst hp => ?_
    obtain ⟨hid, -⟩ := of_decide_eq_true hp
    rw [← hid, Table.select_key hr]
    exact .abort
  | releaseStale =>
    exact given_of_updated (updated_releaseStale k _) hw fun r hr hst hp => .stale hr hp
  | @deleteRow v =>
    obtain ⟨r, hr, hst⟩ := Option.map_eq_some_iff.mp hw
    have hsel : Core.status { k with volumes := deleteVolumeRow k.volumes v } w =
        (if r.id = v ∧ r.status = .deleting then none else some r).map Volume.status := by
      rw [← select_deleteVolumeRow hr]
      rfl
    by_cases hid : r.id = v
    · obtain rfl : w = v := (Table.select_key hr).symm.trans hid
      exact .row (by rw [hsel, if_pos ⟨hid, hst⟩]; rfl)
    · exact .kept (by rw [hsel, if_neg fun hp => hid hp.1, Option.map_some, hst])
  | _ => exact .kept hw

end

/-! ### The invariant -/

structure Kept (k : Core) (l : List Proc) : Prop where
  held : Held k l
  one : (l.filterMap deletes).Nodup
  deleting : ∀ v ∈ l.filterMap deletes, k.status v = some .deleting
  /-- what the agent has provisioned is there when it answers -/
  provisioned : ∀ c h reserved, .createReply c h reserved ∈ l → ∀ v ∈ reserved, (h, v) ∈ k.files
  files : ∀ f ∈ k.homes, ∀ st, k.status f.2 = some st → st ≠ .deleting → f ∈ k.files

theorem Kept.perm {l' : List Proc} (h : l.Perm l') (hi : Kept k l) : Kept k l' where
  held := hi.held.perm h
  one := (h.filterMap deletes).nodup_iff.mp hi.one
  deleting v hv := hi.deleting v ((h.filterMap deletes).mem_iff.mpr hv)
  provisioned c h0 reserved hmem := hi.provisioned c h0 reserved (h.mem_iff.mpr hmem)
  files := hi.files

theorem kept_of_initial (h : Initial s) : Kept s.core s.threads := by
  refine ⟨held_of_initial h, ?_, ?_, ?_, ?_⟩
  · rw [h.threads]
    exact List.nodup_nil
  · rw [h.threads]
    exact List.forall_mem_nil _
  · rw [h.threads]
    exact fun c h0 reserved hmem => absurd hmem List.not_mem_nil
  · rw [h.homes]
    exact List.forall_mem_nil _

theorem mem_prepareVolumeDisks {files : List (ℕ × ℕ)} {h : ℕ} {specs : List ℕ} {f : ℕ × ℕ} :
    f ∈ prepareVolumeDisks files h specs ↔ f ∈ files ∨ f.1 = h ∧ f.2 ∈ specs := by
  have hone : ∀ files v, f ∈ ensureVolumeFile files h v ↔ f ∈ files ∨ f = (h, v) := by
    intro files v
    unfold ensureVolumeFile
    split_ifs with hmem
    · exact ⟨.inl, fun hf => hf.elim id fun he => he ▸ hmem⟩
    · rw [List.mem_cons, or_comm]
  unfold prepareVolumeDisks
  induction specs generalizing files with
  | nil => simp
  | cons v specs ih =>
    refine ih.trans ?_
    rw [hone, List.mem_cons, or_assoc]
    refine or_congr_right ?_
    rw [and_or_left, Prod.ext_iff]

section

variable {k k' : Core} {p p' : Proc} {rest l : List Proc}

theorem mem_deletes {v : ℕ} (h : deletes p = some v) : v ∈ (p :: rest).filterMap deletes :=
  List.mem_filterMap.mpr ⟨p, List.mem_cons_self .., h⟩

/-- The claims of the others stand. -/
theorem others_deleting (hl : l.Perm (p :: rest)) (hi : Kept k (p :: rest)) (hc : careful k l p)
    (h : Does k p k' p') : ∀ v ∈ rest.filterMap deletes, k'.status v = some .deleting := by
  intro v hv
  have hmem : v ∈ (p :: rest).filterMap deletes := (List.sublist_cons_self p rest).filterMap deletes |>.subset hv
  have hother : deletes p ≠ some v := by
    intro hp
    have hone := hi.one
    rw [List.filterMap_cons_some hp] at hone
    exact (List.nodup_cons.mp hone).1 hv
  cases given_does h (hi.deleting v hmem) with
  | kept hst => exact hst
  | abort | row => exact absurd rfl hother
  | @stale cutoff r hr hst =>
    obtain ⟨hrow, rfl⟩ := Table.select_eq_some.mp hr
    exact absurd ((hl.filterMap deletes).mem_iff.mpr hmem) (hc r hrow hst).2.1

/-- Who has the claim after a step. -/
theorem deletes_does (h : Does k p k' p') :
    deletes p' = none ∨ deletes p' = deletes p ∨
      ∃ v, p = .beginDelete v ∧ deletes p' = some v ∧ k'.status v = some .deleting := by
  cases h with
  | stop hs => cases hs <;> exact .inl rfl
  | getHost hp' => rcases hp' with rfl | rfl | rfl <;> exact .inr (.inl rfl)
  | deleteFile hp' => rcases hp' with rfl | rfl <;> exact .inr (.inl rfl)
  | notDeleted => exact .inr (.inl rfl)
  | destroy hp' => rcases hp' with rfl | rfl <;> exact .inl rfl
  | @beginDelete v vol p' hvol hst hp' =>
    refine .inr (.inr ⟨v, rfl, ?_, ?_⟩)
    · rcases hp' with rfl | ⟨h, rfl⟩ <;> rfl
    · exact (updated_beginDelete k v).hit hvol (decide_eq_true ⟨Table.select_key hvol, hst⟩)
  | _ => exact .inl rfl

/-- Whoever gives the claim back has it no more. -/
theorem ends_does {v : ℕ} (h : Does k p k' p') (hp : p = .abort v ∨ p = .deleteRow v) : deletes p' = none := by
  rcases hp with rfl | rfl
  · cases h with
    | giveUp hg => cases hg
    | stop hs =>
      cases hs
      rfl
    | abort => rfl
  · cases h with
    | giveUp hg => cases hg
    | stop hs =>
      cases hs
      rfl
    | deleteRow => rfl

theorem claims_does (hl : l.Perm (p :: rest)) (hi : Kept k (p :: rest)) (hc : careful k l p) (h : Does k p k' p') :
    ((p' :: rest).filterMap deletes).Nodup ∧
      ∀ v ∈ (p' :: rest).filterMap deletes, k'.status v = some .deleting := by
  have hothers := others_deleting hl hi hc h
  have hrest : (rest.filterMap deletes).Nodup :=
    ((List.sublist_cons_self p rest).filterMap deletes).nodup hi.one
  rcases deletes_does h with hnone | hsame | ⟨v, rfl, hnew, hst⟩
  · rw [List.filterMap_cons_none hnone]
    exact ⟨hrest, hothers⟩
  · cases hp : deletes p with
    | none =>
      rw [List.filterMap_cons_none (hsame.trans hp)]
      exact ⟨hrest, hothers⟩
    | some v =>
      have hone := hi.one
      rw [List.filterMap_cons_some hp] at hone
      rw [List.filterMap_cons_some (hsame.trans hp)]
      refine ⟨hone, fun w hw => ?_⟩
      rcases List.mem_cons.mp hw with rfl | hw
      · cases given_does h (hi.deleting w (mem_deletes hp)) with
        | kept hst => exact hst
        | abort => exact absurd (hsame.symm.trans (ends_does h (.inl rfl))) nofun
        | row => exact absurd (hsame.symm.trans (ends_does h (.inr rfl))) nofun
        | stale => cases hp
      · exact hothers w hw
  · rw [List.filterMap_cons_some hnew]
    refine ⟨List.nodup_cons.mpr ⟨fun hv => hc ?_, hrest⟩, fun w hw => ?_⟩
    · rw [(hl.filterMap deletes).mem_iff]
      exact hv
    · rcases List.mem_cons.mp hw with rfl | hw
      · exact hst
      · exact hothers w hw

variable {f : ℕ × ℕ}

/-- Only a `DeleteVolume` removes files. -/
theorem files_does (h : Does k p k' p') (hf : f ∈ k.files) : f ∈ k'.files ∨ p = .deleteFile f.2 f.1 := by
  cases h with
  | createCall => exact .inl (mem_prepareVolumeDisks.mpr (.inl hf))
  | @deleteFile v h p' hp' =>
    by_cases heq : f = (h, v)
    · rw [heq]
      exact .inr rfl
    · exact .inl (List.mem_filter.mpr ⟨hf, decide_eq_true heq⟩)
  | _ => exact .inl hf

/-- A file is removed under the claim. -/
theorem files_kept (hi : Kept k (p :: rest)) (h : Does k p k' p') (hf : f ∈ k.files)
    (hst : k.status f.2 ≠ some .deleting) : f ∈ k'.files := by
  rcases files_does h hf with hf | rfl
  · exact hf
  · exact absurd (hi.deleting f.2 (mem_deletes rfl)) hst

theorem provisioned_does (hi : Kept k (p :: rest)) (h : Does k p k' p') :
    ∀ c h0 reserved, .createReply c h0 reserved ∈ p' :: rest → ∀ v ∈ reserved, (h0, v) ∈ k'.files := by
  intro c h0 reserved hmem v hv
  rcases List.mem_cons.mp hmem with rfl | hmem
  · cases h with
    | createCall => exact mem_prepareVolumeDisks.mpr (.inr ⟨rfl, hv⟩)
    | stop hs => cases hs
    | beginDelete _ _ hp' => rcases hp' with hp' | ⟨_, hp'⟩ <;> cases hp'
    | getHost hp' => rcases hp' with hp' | hp' | hp' <;> cases hp'
    | deleteFile hp' | destroy hp' => rcases hp' with hp' | hp' <;> cases hp'
  · have hmem' : .createReply c h0 reserved ∈ p :: rest := List.mem_cons_of_mem _ hmem
    have hatt : k.status v = some .attaching := hi.held.attaching v (List.mem_flatMap.mpr ⟨_, hmem', hv⟩)
    refine files_kept hi h (hi.provisioned c h0 reserved hmem' v hv) ?_
    rw [hatt]
    nofun

/-- Where a volume has come up. -/
theorem homes_does (h : Does k p k' p') (hf : f ∈ k'.homes) :
    f ∈ k.homes ∨ ∃ c reserved, p = .createReply c f.1 reserved ∧ f.2 ∈ reserved ∧ k'.files = k.files ∧
      k'.volumes = k.volumes := by
  have hnew : ∀ {h : ℕ} {reserved : List ℕ}, f ∈ reserved.map (Prod.mk h) ++ k.homes →
      f ∈ k.homes ∨ f.1 = h ∧ f.2 ∈ reserved := by
    intro h reserved hf
    rcases List.mem_append.mp hf with hf | hf
    · obtain ⟨v, hv, rfl⟩ := List.mem_map.mp hf
      exact .inr ⟨rfl, hv⟩
    · exact .inl hf
  cases h with
  | @booted c h reserved | @lost c h reserved =>
    rcases hnew hf with hf | ⟨rfl, hv⟩
    · exact .inl hf
    · exact .inr ⟨c, reserved, rfl, hv, rfl, rfl⟩
  | _ => exact .inl hf

theorem intact_does (hi : Kept k (p :: rest)) (hc : careful k l p) (h : Does k p k' p') (hf : f ∈ k'.homes)
    {st : VolumeStatus} (hst : k'.status f.2 = some st) (hne : st ≠ .deleting) :
    f ∈ k'.files := by
  rcases homes_does h hf with hf | ⟨c, reserved, rfl, hv, hfiles, -⟩
  · cases hold : k.status f.2 with
    | none => exact absurd ((none_does h hold).symm.trans hst) nofun
    | some st0 =>
      by_cases hdel : st0 = .deleting
      · subst hdel
        -- the claim has been given back
        cases given_does h hold with
        | kept hkept => exact absurd (Option.some.inj (hkept.symm.trans hst)).symm hne
        | abort =>
          rcases files_does h (hc f hf rfl) with hmem | hp
          · exact hmem
          · cases hp
        | row hnone => exact absurd (hnone.symm.trans hst) nofun
        | @stale cutoff r hr hstale =>
          obtain ⟨hrow, hid⟩ := Table.select_eq_some.mp hr
          rcases files_does h ((hc r hrow hstale).2.2 f hf hid.symm) with hmem | hp
          · exact hmem
          · cases hp
      · refine files_kept hi h (hi.files f hf st0 hold hdel) ?_
        rw [hold]
        exact fun heq => hdel (Option.some.inj heq)
  · rw [hfiles]
    exact hi.provisioned c f.1 reserved List.mem_cons_self f.2 hv

/-- **A process.** -/
theorem kept_does (hl : l.Perm (p :: rest)) (hi : Kept k (p :: rest)) (hc : careful k l p) (h : Does k p k' p') :
    Kept k' (p' :: rest) := by
  obtain ⟨hone, hdeleting⟩ := claims_does hl hi hc h
  exact ⟨held_does hl hi.held (gentle_of_careful hc) h, hone, hdeleting, provisioned_does hi h,
    fun f hf st hst hne => intact_does hi hc h hf hst hne⟩

end

theorem kept_spawn {k' : Core} {q : Request} (hi : Kept k l) (h : spawn k q = some (k', p)) : Kept k' (p :: l) := by
  have hheld := held_spawn hi.held h
  obtain ⟨hp, hk⟩ := starts_of_spawn h
  have hdel : deletes p = none := by cases hp <;> rfl
  have hreply : ∀ c h0 reserved, p ≠ .createReply c h0 reserved := by
    cases hp <;> exact nofun
  rw [hk] at hheld ⊢
  refine ⟨hheld, ?_, ?_, fun c h0 reserved hmem => ?_, hi.files⟩
  · rw [List.filterMap_cons_none hdel]
    exact hi.one
  · rw [List.filterMap_cons_none hdel]
    exact hi.deleting
  · rcases List.mem_cons.mp hmem with heq | hmem
    · exact absurd heq.symm (hreply c h0 reserved)
    · exact hi.provisioned c h0 reserved hmem

/-- A thread that stops. -/
theorem kept_stop {rest : List Proc} (hi : Kept k (p :: rest)) : Kept k (.done :: rest) := by
  have hsub := (List.sublist_cons_self p rest).filterMap deletes
  refine ⟨held_stop hi.held rfl rfl, ?_, ?_, fun c h0 reserved hmem => ?_, hi.files⟩
  · rw [List.filterMap_cons_none (show deletes .done = none from rfl)]
    exact hsub.nodup hi.one
  · rw [List.filterMap_cons_none (show deletes .done = none from rfl)]
    exact fun v hv => hi.deleting v (hsub.subset hv)
  · rcases List.mem_cons.mp hmem with heq | hmem
    · cases heq
    · exact hi.provisioned c h0 reserved (List.mem_cons_of_mem _ hmem)

/-- **A step.** -/
theorem kept_step {s' : State} (hi : Kept s.core s.threads) (ha : Careful s a) (h : step s a = some s') :
    Kept s'.core s'.threads := by
  have hheld := held_step hi.held ha.gentle h
  cases moves_of_step h with
  | start hp hs' => exact (kept_spawn hi hp).perm hs'.symm
  | act hp hr hs hs' => exact (kept_does hs (hi.perm hs) (ha _ hp) (does_of_run hr)).perm hs'.symm
  | crash _ hs hs' => exact (kept_stop (hi.perm hs)).perm hs'.symm
  | noCrash => exact hi
  | @env e k he =>
    cases e with
    | vanish c | tick d =>
      cases he
      exact ⟨hheld, hi.one, hi.deleting, hi.provisioned, hi.files⟩

theorem reach_kept (h : Reach step Careful Initial s) : Kept s.core s.threads :=
  h.invariant (I := fun s => Kept s.core s.threads) (fun _ h0 => kept_of_initial h0)
    fun _ _ _ hi ha hs => kept_step hi ha hs

/-- The step that removes a file. -/
theorem removes_of_step {s' : State} (h : step s a = some s') {f : ℕ × ℕ} (hf : f ∈ s.core.files)
    (hf' : f ∉ s'.core.files) : .deleteFile f.2 f.1 ∈ s.threads := by
  cases moves_of_step h with
  | start hp hs' =>
    rw [(starts_of_spawn hp).2] at hf'
    exact absurd hf hf'
  | act hp hr hs hs' =>
    rcases files_does (does_of_run hr) hf with hmem | rfl
    · exact absurd hmem hf'
    · exact List.mem_of_getElem? hp
  | crash | noCrash => exact absurd hf hf'
  | @env e k he =>
    cases e <;> (cases he; exact absurd hf hf')

/-- **Removals.**  In every run that meets `Careful`, a file is removed only while the row of its volume is
`deleting` and no capsule boots or runs with the volume, and a volume that is `detached` or `attached` has its
file wherever a machine has come up with it. -/
theorem reach_file_removal_safe {s s' : State} {a : Act} (hs : Reach step Careful Initial s)
    (h : step s a = some s') :
    (∀ host v, (host, v) ∈ s.core.files → (host, v) ∉ s'.core.files →
      s.core.status v = some .deleting ∧ ∀ b ∈ s.core.boxes.rows, v ∉ b.mounts) ∧
    ∀ host v, (host, v) ∈ s.core.homes →
      (s.core.status v = some .detached ∨ s.core.status v = some .attached) → (host, v) ∈ s.core.files := by
  have hi := reach_kept hs
  refine ⟨fun host v hf hf' => ?_, fun host v hhome hst => ?_⟩
  · have hmem := removes_of_step h hf hf'
    have hdel : s.core.status v = some .deleting :=
      hi.deleting v (List.mem_filterMap.mpr ⟨_, hmem, rfl⟩)
    refine ⟨hdel, (hi.held.idle ?_ ?_).2⟩ <;> (rw [hdel]; nofun)
  · rcases hst with hst | hst
    all_goals exact hi.files _ hhome _ hst nofun

/-! ### Schedules -/

instance decidableIdle (k : Core) (l : List Proc) (v : ℕ) : Decidable (Idle k l v) :=
  inferInstanceAs (Decidable (_ ∧ _))

instance decidableIntact (k : Core) (v : ℕ) : Decidable (Intact k v) :=
  inferInstanceAs (Decidable (∀ f ∈ k.homes, f.2 = v → f ∈ k.files))

instance decidableCareful (s : State) (a : Act) : Decidable (Careful s a) := by
  cases a with
  | act t ch =>
    refine @Option.decidableForallMem _ _ (fun p => ?_) _
    cases p with
    | beginDelete v => exact inferInstanceAs (Decidable (v ∉ s.threads.filterMap deletes))
    | abort v => exact inferInstanceAs (Decidable (Intact s.core v))
    | releaseStale cutoff =>
      exact inferInstanceAs (Decidable (∀ r ∈ s.core.volumes.rows, stale cutoff r = true →
        Idle s.core s.threads r.id ∧ r.id ∉ s.threads.filterMap deletes ∧ Intact s.core r.id))
    | detach ids =>
      exact inferInstanceAs (Decidable (∀ r ∈ s.core.volumes.rows, detachable ids r = true →
        Idle s.core s.threads r.id))
    | _ => exact isTrue trivial
  | _ => exact isTrue trivial

/-- One volume. -/
def oneVolume : Volumes := ⟨[⟨7, .detached, none, none, 0⟩], by decide⟩

theorem oneVolume_initial : Initial (idle oneVolume) := idle_initial (by decide)

/-- The thread `t` creates a capsule with the volume on the host 0. -/
def createRun (t : ℕ) : List Act :=
  [.start (.create [7]), .act t .ok, .act t .ok, .act t .ok, .act t (.pick 0), .act t .ok, .act t .ok, .act t .ok,
    .act t .ok, .act t .ok, .act t .ok]

/-- The first capsule is created and destroyed. -/
def usedRun : List Act := createRun 0 ++ ([.start (.destroy 0), .act 1 .ok, .act 1 .ok] : List Act)

/-- The row, the file and who mounts the volume. -/
def view (s : State) : Option VolumeStatus × List (ℕ × ℕ) × List ℕ :=
  (s.core.status 7, s.core.files, (s.core.boxes.rows.filter fun b => decide (7 ∈ b.mounts)).map Box.id)

/-- A `Delete` by itself. -/
def deleteRun : List Act := usedRun ++ ([.start (.delete 7), .act 2 .ok, .act 2 .ok] : List Act)

theorem delete_removes_idle_file :
    ∃ s', step (last step (idle oneVolume) deleteRun) (.act 2 .ok) = some s' ∧ s'.core.files = [] ∧
      (last step (idle oneVolume) deleteRun).core.status 7 = some .deleting := by
  have hadm : Admits step Careful (idle oneVolume) deleteRun := by decide +kernel
  obtain ⟨s', hs'⟩ : ∃ s', step (last step (idle oneVolume) deleteRun) (.act 2 .ok) = some s' :=
    Option.isSome_iff_exists.mp (by decide +kernel)
  have hfiles : s'.core.files = [] := by
    have hmap : (step (last step (idle oneVolume) deleteRun) (.act 2 .ok)).map (fun s => s.core.files) = some [] := by
      decide +kernel
    rw [hs', Option.map_some, Option.some.injEq] at hmap
    exact hmap
  have hmem : (0, 7) ∈ (last step (idle oneVolume) deleteRun).core.files := by decide +kernel
  refine ⟨s', hs', hfiles, ?_⟩
  exact ((reach_file_removal_safe (.last oneVolume_initial hadm) hs').1 0 7 hmem (by simp [hfiles])).1

/-- Two calls of `Delete` have the claim; the first fails and gives it back, a capsule is created with the
volume, and the second removes the file under it. -/
theorem second_delete_removes_attached_file :
    (exec step (idle oneVolume) (usedRun ++
      ([.start (.delete 7), .act 2 .ok, .start (.delete 7), .act 3 .ok, .act 2 .failed, .act 2 .ok] : List Act) ++
      ([.start (.create [7]), .act 4 .ok, .act 4 .ok, .act 4 .ok, .act 4 .ok, .act 4 .ok, .act 4 .ok, .act 4 .ok,
        .act 4 .ok, .act 4 .ok, .act 4 .ok] : List Act) ++ ([.act 3 .ok] : List Act))).map view =
        some (some .attached, [(0, 7)], [1]) ∧
      (exec step (idle oneVolume) (usedRun ++
      ([.start (.delete 7), .act 2 .ok, .start (.delete 7), .act 3 .ok, .act 2 .failed, .act 2 .ok] : List Act) ++
      ([.start (.create [7]), .act 4 .ok, .act 4 .ok, .act 4 .ok, .act 4 .ok, .act 4 .ok, .act 4 .ok, .act 4 .ok,
        .act 4 .ok, .act 4 .ok, .act 4 .ok] : List Act) ++ ([.act 3 .ok, .act 3 .ok] : List Act))).map view =
        some (some .attached, [], [1]) := by
  constructor <;> decide +kernel

/-- The reply of `DeleteVolume` is lost: the file is gone and the row is `detached` again. -/
theorem lost_reply_leaves_row :
    (exec step (idle oneVolume) (deleteRun ++ ([.act 2 .lost, .act 2 .ok] : List Act))).map view =
      some (some .detached, [], []) := by
  decide +kernel

/-- The control plane restarts after `DeleteVolume`, and the reaper frees the row. -/
theorem reaper_frees_row_without_file :
    (exec step (idle oneVolume) (deleteRun ++
      ([.act 2 .ok, .crash 2, .env (.tick 1801), .start .reap, .act 3 .ok] : List Act))).map view =
      some (some .detached, [], []) := by
  decide +kernel

end Wrenn.Volumes.Removal
