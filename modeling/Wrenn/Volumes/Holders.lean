import Wrenn.Volumes.Model

/-!
# Who has a volume

A create has the volumes that it has claimed, until it has marked or released them, and a capsule has those
that it mounts.  As long as nothing is freed that somebody has, a volume is with one create at most, its row is
`attaching` then, and the row of a mounted volume is `attaching` or `attached` (`Held`).

Two statements free rows that they have not claimed: `DetachVolumesBySandboxIDs` and the reaper's
`ReleaseStaleVolumeReservations`.  `Gentle` is the condition on these.
-/

namespace Wrenn.Volumes.Holders

open Lib.Tables Lib.Threads Model
open ControlPlane.Database hiding Row Status

/-- The claimed volumes of a create. -/
def holds : Proc → List ℕ
  | .resolve _ _ reserved _ | .reserve _ _ _ reserved _ | .selectHost _ reserved _ | .insert _ _ reserved
  | .link _ _ _ reserved | .createCall _ _ reserved | .createReply _ _ reserved | .confirmGone _ reserved =>
    reserved
  | .mark _ _ todo | .release todo => todo
  | _ => []

/-- The capsule that may mount them; at a release it is gone. -/
def owner : Proc → Option ℕ
  | .resolve c _ _ _ | .reserve c _ _ _ _ | .selectHost c _ _ | .insert c _ _ | .link c _ _ _ | .createCall c _ _
  | .createReply c _ _ | .confirmGone c _ | .mark c _ _ => some c
  | _ => none

/-- A create that has not called the agent. -/
def early : Proc → Option ℕ
  | .resolve c _ _ _ | .reserve c _ _ _ _ | .selectHost c _ _ | .insert c _ _ | .link c _ _ _
  | .createCall c _ _ => some c
  | _ => none

/-- Nobody has the volume. -/
def Idle (k : Core) (l : List Proc) (v : ℕ) : Prop :=
  v ∉ l.flatMap holds ∧ ∀ b ∈ k.boxes.rows, v ∉ b.mounts

/-- The condition on one process. -/
def gentle (k : Core) (l : List Proc) : Proc → Prop
  | .releaseStale cutoff => ∀ r ∈ k.volumes.rows, stale cutoff r = true → Idle k l r.id
  | .detach ids => ∀ r ∈ k.volumes.rows, detachable ids r = true → Idle k l r.id
  | _ => True

structure Held (k : Core) (l : List Proc) : Prop where
  nodup : (l.flatMap holds).Nodup
  attaching : ∀ v ∈ l.flatMap holds, k.status v = some .attaching
  mounted : ∀ b ∈ k.boxes.rows, ∀ v ∈ b.mounts, k.status v = some .attaching ∨ k.status v = some .attached
  owned : ∀ p ∈ l, ∀ v ∈ holds p, ∀ b ∈ k.boxes.rows, v ∈ b.mounts → owner p = some b.id
  absent : ∀ c ∈ l.filterMap early, k.boxes.select c = none
  unique : (l.filterMap early).Nodup
  fresh : ∀ c ∈ l.filterMap early, c < k.nextID
  boxes : ∀ b ∈ k.boxes.rows, b.id < k.nextID

theorem Held.perm {k : Core} {l l' : List Proc} (h : l.Perm l') (hi : Held k l) : Held k l' where
  nodup := (h.flatMap_right holds).nodup_iff.mp hi.nodup
  attaching v hv := hi.attaching v ((h.flatMap_right holds).mem_iff.mpr hv)
  mounted := hi.mounted
  owned p hp := hi.owned p (h.mem_iff.mpr hp)
  absent c hc := hi.absent c ((h.filterMap early).mem_iff.mpr hc)
  unique := (h.filterMap early).nodup_iff.mp hi.unique
  fresh c hc := hi.fresh c ((h.filterMap early).mem_iff.mpr hc)
  boxes := hi.boxes

theorem Idle.perm {k : Core} {l l' : List Proc} {v : ℕ} (h : l.Perm l') (hi : Idle k l v) : Idle k l' v :=
  ⟨fun hv => hi.1 ((h.flatMap_right holds).mem_iff.mpr hv), hi.2⟩

theorem held_of_initial {s : State} (h : Initial s) : Held s.core s.threads := by
  have hrows : s.core.boxes.rows = [] := by rw [h.boxes]; rfl
  rw [h.threads]
  refine ⟨List.nodup_nil, ?_, ?_, ?_, ?_, List.nodup_nil, ?_, ?_⟩
  · exact List.forall_mem_nil _
  · exact fun b hb => absurd (hrows ▸ hb) List.not_mem_nil
  · exact List.forall_mem_nil _
  · exact List.forall_mem_nil _
  · exact List.forall_mem_nil _
  · exact fun b hb => absurd (hrows ▸ hb) List.not_mem_nil

section

variable {k k' : Core} {p p' : Proc} {rest : List Proc}

theorem Held.disjoint (hi : Held k (p :: rest)) {v : ℕ} (hv : v ∈ holds p) : v ∉ rest.flatMap holds := by
  have hnodup := hi.nodup
  rw [List.flatMap_cons] at hnodup
  exact fun hr => (List.nodup_append.mp hnodup).2.2 v hv v hr rfl

theorem Held.mine (hi : Held k (p :: rest)) {v : ℕ} (hv : v ∈ holds p) : k.status v = some .attaching :=
  hi.attaching v (List.mem_append_left _ hv)

/-- A volume that is neither claimed nor attached is with nobody. -/
theorem Held.idle {l : List Proc} (hi : Held k l) {v : ℕ} (h : k.status v ≠ some .attaching)
    (h' : k.status v ≠ some .attached) : Idle k l v := by
  refine ⟨fun hv => h (hi.attaching v hv), fun b hb hv => ?_⟩
  rcases hi.mounted b hb v hv with hst | hst
  · exact h hst
  · exact h' hst

/-- The ways in which a statement changes the status of a volume. -/
inductive Touch (k k' : Core) (p' : Proc) (rest : List Proc) (v : ℕ) : Prop
  | same (h : k'.status v = k.status v)
  | takes (h : k.status v = some .detached) (h' : k'.status v = some .attaching)
  | marks (hv : v ∉ holds p') (hr : v ∉ rest.flatMap holds) (h' : k'.status v = some .attached)
  | frees (hv : v ∉ holds p') (hr : v ∉ rest.flatMap holds) (hb : ∀ b ∈ k.boxes.rows, v ∉ b.mounts)

/-- A step that leaves the boxes alone. -/
theorem held_rows (hi : Held k (p :: rest)) (hboxes : k'.boxes = k.boxes) (hnext : k'.nextID = k.nextID)
    (hrow : ∀ v, Touch k k' p' rest v) (hnodup : (holds p').Nodup)
    (hnew : ∀ v ∈ holds p', v ∈ holds p ∨ k.status v = some .detached ∧ k'.status v = some .attaching)
    (howner : ∀ v ∈ holds p', owner p' = owner p ∨ ∀ b ∈ k.boxes.rows, v ∉ b.mounts)
    (hearly : early p' = none ∨ early p' = early p) : Held k' (p' :: rest) := by
  have hsub : ((p' :: rest).filterMap early).Sublist ((p :: rest).filterMap early) := by
    rcases hearly with he | he
    · rw [List.filterMap_cons_none he, List.filterMap_cons]
      cases early p with
      | none => exact List.Sublist.refl _
      | some c => exact List.sublist_cons_self ..
    · simp only [List.filterMap_cons, he]
      exact List.Sublist.refl _
  have hothers : ∀ v ∈ rest.flatMap holds, k.status v = some .attaching := fun v hv =>
    hi.attaching v (List.mem_append_right _ hv)
  refine ⟨?_, fun v hv => ?_, fun b hb v hv => ?_, fun q hq v hv b hb hm => ?_, fun c hc => ?_, ?_, fun c hc => ?_,
    fun b hb => ?_⟩
  · rw [List.flatMap_cons]
    refine List.nodup_append.mpr ⟨hnodup, ?_, fun v hv w hw heq => ?_⟩
    · have hold := hi.nodup
      rw [List.flatMap_cons] at hold
      exact (List.nodup_append.mp hold).2.1
    · subst heq
      rcases hnew v hv with hv | ⟨hst, -⟩
      · exact hi.disjoint hv hw
      · exact absurd (hst.symm.trans (hothers v hw)) nofun
  · rcases List.mem_append.mp (List.flatMap_cons .. ▸ hv) with hv | hv
    · rcases hnew v hv with hold | ⟨-, hst⟩
      · cases hrow v with
        | same h => exact h.trans (hi.mine hold)
        | takes h h' => exact h'
        | marks hn | frees hn => exact absurd hv hn
      · exact hst
    · cases hrow v with
      | same h => exact h.trans (hothers v hv)
      | takes h h' => exact h'
      | marks _ hr | frees _ hr => exact absurd hv hr
  · rw [hboxes] at hb
    cases hrow v with
    | same h =>
      rw [h]
      exact hi.mounted b hb v hv
    | takes h h' => exact .inl h'
    | marks _ _ h' => exact .inr h'
    | frees _ _ hfree => exact absurd hv (hfree b hb)
  · rw [hboxes] at hb
    rcases List.mem_cons.mp hq with rfl | hq
    · rcases hnew v hv with hold | ⟨hst, -⟩
      · rcases howner v hv with ho | hfree
        · rw [ho]
          exact hi.owned p List.mem_cons_self v hold b hb hm
        · exact absurd hm (hfree b hb)
      · -- what is mounted is not detached
        rcases hi.mounted b hb v hm with h | h <;> exact absurd (hst.symm.trans h) nofun
    · exact hi.owned q (List.mem_cons_of_mem _ hq) v hv b hb hm
  · rw [hboxes]
    exact hi.absent c (hsub.subset hc)
  · exact hsub.nodup hi.unique
  · rw [hnext]
    exact hi.fresh c (hsub.subset hc)
  · rw [hboxes] at hb
    rw [hnext]
    exact hi.boxes b hb

/-- A step that changes nothing but what the process has. -/
theorem held_keep (hi : Held k (p :: rest)) (hv : k'.volumes = k.volumes) (hboxes : k'.boxes = k.boxes)
    (hnext : k'.nextID = k.nextID) (hsub : (holds p').Sublist (holds p))
    (howner : ∀ v ∈ holds p', owner p' = owner p ∨ ∀ b ∈ k.boxes.rows, v ∉ b.mounts)
    (hearly : early p' = none ∨ early p' = early p) : Held k' (p' :: rest) := by
  refine held_rows hi hboxes hnext (fun v => .same ?_) ?_ (fun v hv => .inl (hsub.subset hv)) howner hearly
  · rw [Core.status, hv]
    rfl
  · have hold := hi.nodup
    rw [List.flatMap_cons] at hold
    exact hsub.nodup (List.nodup_append.mp hold).1

/-- Fewer boxes. -/
theorem held_destroyBox {l : List Proc} {c : ℕ} (hi : Held k l) :
    Held { k with boxes := destroyBox k.boxes c } l := by
  have hsub : ∀ b ∈ (destroyBox k.boxes c).rows, b ∈ k.boxes.rows := fun b hb => (List.mem_filter.mp hb).1
  refine ⟨hi.nodup, hi.attaching, fun b hb => hi.mounted b (hsub b hb),
    fun q hq v hv b hb => hi.owned q hq v hv b (hsub b hb), fun c' hc' => ?_, hi.unique, hi.fresh,
    fun b hb => hi.boxes b (hsub b hb)⟩
  change (destroyBox k.boxes c).select c' = none
  rw [destroyBox, Table.select_delete, hi.absent c' hc']
  rfl

end

/-! ### Statements -/

section

variable {k k' : Core} {p p' : Proc} {rest : List Proc} {P : Volume → Bool} {f : Volume → Volume} {v : ℕ}
  {r : Volume}

/-- It is enough to look at the rows that the statement changes. -/
theorem touch_of_updated (hk : Updated k k' P f)
    (h : ∀ r, k.volumes.select v = some r → P r = true → k'.status v = some (f r).status →
      Touch k k' p' rest v) : Touch k k' p' rest v := by
  cases hr : k.volumes.select v with
  | none => exact .same (by rw [Core.status, Core.status, hk v, hr]; rfl)
  | some r =>
    by_cases hp : P r = true
    · exact h r hr hp (hk.hit hr hp)
    · exact .same (by rw [Core.status, Core.status, hk v, hr, Option.map_some, if_neg hp])

theorem Idle.frees {l : List Proc} (hl : l.Perm (p :: rest)) (h : Idle k l v) (hp' : holds p' = []) :
    Touch k k' p' rest v := by
  have hr := (h.perm hl).1
  rw [List.flatMap_cons] at hr
  refine .frees ?_ (fun hv => hr (List.mem_append_right _ hv)) h.2
  rw [hp']
  exact List.not_mem_nil

/-- The statements that free what nobody has, or delete it. -/
theorem held_frees (hi : Held k (p :: rest)) (hboxes : k'.boxes = k.boxes) (hnext : k'.nextID = k.nextID)
    (hrow : ∀ v, Touch k k' p' rest v) (hp' : holds p' = []) (hearly : early p' = none) : Held k' (p' :: rest) := by
  refine held_rows hi hboxes hnext hrow ?_ ?_ ?_ (.inl hearly) <;> rw [hp']
  · exact List.nodup_nil
  all_goals exact List.forall_mem_nil _

theorem Held.nodup_mine (hi : Held k (p :: rest)) : (holds p).Nodup := by
  have hold := hi.nodup
  rw [List.flatMap_cons] at hold
  exact (List.nodup_append.mp hold).1

/-- No box has what an early create holds. -/
theorem Held.unmounted (hi : Held k (p :: rest)) {c : ℕ} (he : early p = some c) (ho : owner p = some c)
    (hv : v ∈ holds p) : ∀ b ∈ k.boxes.rows, v ∉ b.mounts := by
  intro b hb hm
  have hid : c = b.id := Option.some.inj (ho.symm.trans (hi.owned p List.mem_cons_self v hv b hb hm))
  have hnone := hi.absent c (List.mem_filterMap.mpr ⟨p, List.mem_cons_self .., he⟩)
  exact Table.select_eq_none.mp hnone b hb hid.symm

/-- A process that neither has nor will have a volume. -/
theorem held_stop (hi : Held k (p :: rest)) (hp' : holds p' = []) (hearly : early p' = none) : Held k (p' :: rest) := by
  refine held_frees hi rfl rfl (fun v => .same rfl) hp' hearly

/-- The capsule boots with what its create holds. -/
theorem held_createCall {c h : ℕ} {reserved : List ℕ} {boxes : Boxes}
    (hi : Held k (.createCall c h reserved :: rest)) (hins : k.boxes.insert ⟨c, h, reserved⟩ = some boxes) :
    Held { k with boxes := boxes, files := prepareVolumeDisks k.files h reserved }
      (.createReply c h reserved :: rest) := by
  have hmem : ∀ b ∈ boxes.rows, b = ⟨c, h, reserved⟩ ∨ b ∈ k.boxes.rows := by
    intro b hb
    have hsel := (Table.select_insert (k := b.id) hins).2
    rw [Table.select_mem hb] at hsel
    split_ifs at hsel
    · exact .inl (Option.some.inj hsel)
    · exact .inr (Table.select_eq_some.mp hsel.symm).1
  have hunique := List.nodup_cons.mp hi.unique
  have hlt : c < k.nextID := hi.fresh c List.mem_cons_self
  refine ⟨hi.nodup, hi.attaching, fun b hb v hv => ?_, fun q hq v hv b hb hm => ?_, fun c' hc' => ?_, hunique.2,
    fun c' hc' => hi.fresh c' (List.mem_cons_of_mem _ hc'), fun b hb => ?_⟩
  · rcases hmem b hb with rfl | hb
    · exact .inl (hi.mine hv)
    · exact hi.mounted b hb v hv
  · rcases hmem b hb with rfl | hb
    · rcases List.mem_cons.mp hq with rfl | hq
      · rfl
      · exact absurd (List.mem_flatMap.mpr ⟨q, hq, hv⟩) (hi.disjoint hm)
    · rcases List.mem_cons.mp hq with rfl | hq
      · exact hi.owned _ List.mem_cons_self v hv b hb hm
      · exact hi.owned q (List.mem_cons_of_mem _ hq) v hv b hb hm
  · -- another create has another number
    have hne : c' ≠ c := fun heq => hunique.1 (heq ▸ hc')
    change boxes.select c' = none
    rw [(Table.select_insert hins).2, if_neg hne]
    exact hi.absent c' (List.mem_cons_of_mem _ hc')
  · rcases hmem b hb with rfl | hb
    · exact hlt
    · exact hi.boxes b hb

/-- **A process.** -/
theorem held_does {l : List Proc} (hl : l.Perm (p :: rest)) (hi : Held k (p :: rest)) (hg : gentle k l p)
    (h : Does k p k' p') : Held k' (p' :: rest) := by
  cases h with
  | @giveUp p reserved hgives =>
    have hsame : holds p = reserved ∧ ∃ c, early p = some c ∧ owner p = some c := by
      cases p <;> cases hgives <;> exact ⟨rfl, _, rfl, rfl⟩
    obtain ⟨rfl, c, he, ho⟩ := hsame
    exact held_keep hi rfl rfl rfl (List.Sublist.refl _) (fun v hv => .inr (hi.unmounted he ho hv)) (.inl rfl)
  | stop hs => cases hs <;> exact held_stop hi rfl rfl
  | resolved | again | read | selectHost | insert | linked | notLinked =>
    exact held_keep hi rfl rfl rfl (List.Sublist.refl _) (fun v hv => .inl rfl) (.inr rfl)
  | notCalled | booted | lost | noReply =>
    exact held_keep hi rfl rfl rfl (List.Sublist.refl _) (fun v hv => .inl rfl) (.inl rfl)
  | notMarked | notReleased =>
    exact held_keep hi rfl rfl rfl (List.sublist_cons_self ..) (fun v hv => .inl rfl) (.inl rfl)
  | getHost hp' => rcases hp' with rfl | rfl | rfl <;> exact held_stop hi rfl rfl
  | deleteFile hp' =>
    rcases hp' with rfl | rfl <;> exact held_frees hi rfl rfl (fun v => .same rfl) rfl rfl
  | notDeleted => exact held_stop hi rfl rfl
  | @reserve c v refs reserved pin hst =>
    have hnew : v ∉ reserved := fun hv => absurd (hst.symm.trans (hi.mine hv)) nofun
    refine held_rows hi rfl rfl (fun w => touch_of_updated (updated_reserve k v) fun r hr hp hhit => ?_) ?_
      (fun w hw => ?_)
      (fun w hw => .inl rfl) (.inr rfl)
    · obtain ⟨hid, hdet⟩ := of_decide_eq_true hp
      exact .takes ((status_of_select hr).trans (congrArg some hdet)) hhit
    · exact List.nodup_append.mpr ⟨hi.nodup_mine, List.nodup_singleton v, fun w hw w' hw' heq =>
        hnew (List.mem_singleton.mp hw' ▸ heq ▸ hw)⟩
    · rcases List.mem_append.mp hw with hw | hw
      · exact .inl hw
      · obtain rfl := List.mem_singleton.mp hw
        obtain ⟨r, hr, hdet⟩ := Option.map_eq_some_iff.mp hst
        exact .inr ⟨hst, (updated_reserve k w).hit hr (decide_eq_true ⟨Table.select_key hr, hdet⟩)⟩
  | @link c h v todo reserved =>
    refine held_rows hi rfl rfl
      (fun w => touch_of_updated (updated_link k v c) fun r hr hp hhit => .same ?_) hi.nodup_mine
      (fun w hw => .inl hw) (fun w hw => .inl rfl) (.inr rfl)
    rw [hhit, status_of_select hr]
  | createCall hins => exact held_createCall hi hins
  | @mark c h v todo =>
    have hnodup : (v :: todo).Nodup := hi.nodup_mine
    refine held_rows hi rfl rfl (fun w => touch_of_updated (updated_mark k v h c) fun r hr hp hhit => ?_) hnodup.of_cons
      (fun w hw => .inl (List.mem_cons_of_mem _ hw)) (fun w hw => .inl rfl) (.inl rfl)
    obtain ⟨hid, -⟩ := of_decide_eq_true hp
    obtain rfl : w = v := (Table.select_key hr).symm.trans hid
    exact .marks (List.nodup_cons.mp hnodup).1 (hi.disjoint List.mem_cons_self) hhit
  | @gone c reserved =>
    refine held_keep (held_destroyBox (c := c) hi) rfl rfl rfl (List.Sublist.refl _) (fun v hv => .inr ?_) (.inl rfl)
    intro b hb hm
    obtain ⟨hb, hne⟩ := List.mem_filter.mp hb
    have hid := Option.some.inj (hi.owned _ List.mem_cons_self v hv b hb hm)
    simp [hid] at hne
  | notTold => exact held_stop (held_destroyBox hi) rfl rfl
  | destroy hp' => rcases hp' with rfl | rfl <;> exact held_stop (held_destroyBox hi) rfl rfl
  | @release v todo =>
    have hnodup : (v :: todo).Nodup := hi.nodup_mine
    refine held_rows hi rfl rfl (fun w => touch_of_updated (updated_release k v) fun r hr hp _ => ?_) hnodup.of_cons
      (fun w hw => .inl (List.mem_cons_of_mem _ hw)) (fun w hw => .inl rfl) (.inl rfl)
    obtain ⟨hid, -⟩ := of_decide_eq_true hp
    obtain rfl : w = v := (Table.select_key hr).symm.trans hid
    refine .frees (List.nodup_cons.mp hnodup).1 (hi.disjoint List.mem_cons_self) fun b hb hm => ?_
    cases hi.owned _ List.mem_cons_self w List.mem_cons_self b hb hm
  | @beginDelete v vol p' hvol hst hp' =>
    have hno : holds p' = [] ∧ early p' = none := by
      rcases hp' with rfl | ⟨h, rfl⟩ <;> exact ⟨rfl, rfl⟩
    refine held_frees hi rfl rfl (fun w => touch_of_updated (updated_beginDelete k v) fun r hr hp _ => ?_) hno.1 hno.2
    obtain ⟨-, hst⟩ := of_decide_eq_true hp
    refine Idle.frees (List.Perm.refl _) (hi.idle ?_ ?_) hno.1 <;>
      (rw [status_of_select hr]; intro heq; simp [Option.some.inj heq] at hst)
  | @abort v =>
    refine held_frees hi rfl rfl (fun w => touch_of_updated (updated_abort k v) fun r hr hp _ => ?_) rfl rfl
    obtain ⟨-, hst⟩ := of_decide_eq_true hp
    refine Idle.frees (List.Perm.refl _) (hi.idle ?_ ?_) rfl <;> (rw [status_of_select hr, hst]; nofun)
  | @deleteRow v =>
    refine held_frees hi rfl rfl (fun w => ?_) rfl rfl
    by_cases hst : k.status w = some .deleting
    · refine Idle.frees (List.Perm.refl _) (hi.idle ?_ ?_) rfl <;> (rw [hst]; nofun)
    · refine .same ?_
      change ((deleteVolumeRow k.volumes v).select w).map Volume.status = _
      rw [Core.status]
      cases hr : k.volumes.select w with
      | none => rw [deleteVolumeRow, Table.select_delete, hr, Option.filter_none]
      | some r =>
        rw [status_of_select hr, Option.some.injEq] at hst
        rw [select_deleteVolumeRow hr, if_neg fun hp => hst hp.2]
  | @releaseStale cutoff =>
    refine held_frees hi rfl rfl (fun w => touch_of_updated (updated_releaseStale k cutoff) fun r hr hp _ => ?_) rfl rfl
    obtain ⟨hmem, rfl⟩ := Table.select_eq_some.mp hr
    exact Idle.frees hl (hg r hmem hp) rfl
  | @detach ids =>
    refine held_frees hi rfl rfl (fun w => touch_of_updated (updated_detach k ids) fun r hr hp _ => ?_) rfl rfl
    obtain ⟨hmem, rfl⟩ := Table.select_eq_some.mp hr
    exact Idle.frees hl (hg r hmem hp) rfl

end

/-! ### Steps -/

/-- The condition of the module. -/
def Gentle (s : State) : Act → Prop
  | .act t _ => ∀ p ∈ s.threads[t]?, gentle s.core s.threads p
  | _ => True

theorem held_spawn {k k' : Core} {l : List Proc} {p : Proc} {q : Request} (hi : Held k l)
    (h : spawn k q = some (k', p)) : Held k' (p :: l) := by
  cases q with
  | create refs =>
    simp only [spawn] at h
    split_ifs at h
    cases h
    refine ⟨hi.nodup, hi.attaching, hi.mounted, fun p hp v hv => ?_, fun c hc => ?_, ?_, fun c hc => ?_,
      fun b hb => Nat.lt_succ_of_lt (hi.boxes b hb)⟩
    · rcases List.mem_cons.mp hp with rfl | hp
      · exact absurd hv List.not_mem_nil
      · exact hi.owned p hp v hv
    · rcases List.mem_cons.mp hc with rfl | hc
      · exact Table.select_eq_none.mpr fun b hb => Nat.ne_of_lt (hi.boxes b hb)
      · exact hi.absent c hc
    · exact List.nodup_cons.mpr ⟨fun hc => Nat.lt_irrefl _ (hi.fresh _ hc), hi.unique⟩
    · rcases List.mem_cons.mp hc with rfl | hc
      · exact Nat.lt_succ_self _
      · exact Nat.lt_succ_of_lt (hi.fresh c hc)
  | _ =>
    cases h
    refine ⟨hi.nodup, hi.attaching, hi.mounted, fun p hp v hv => ?_, hi.absent, hi.unique, hi.fresh, hi.boxes⟩
    rcases List.mem_cons.mp hp with rfl | hp
    · exact absurd hv List.not_mem_nil
    · exact hi.owned p hp v hv

/-- **A step.** -/
theorem held_step {s s' : State} {a : Act} (hi : Held s.core s.threads) (ha : Gentle s a)
    (h : step s a = some s') : Held s'.core s'.threads := by
  cases moves_of_step h with
  | start hp hs' => exact (held_spawn hi hp).perm hs'.symm
  | act hp hr hs hs' => exact (held_does hs (hi.perm hs) (ha _ hp) (does_of_run hr)).perm hs'.symm
  | crash _ hs hs' => exact (held_stop (hi.perm hs) rfl rfl).perm hs'.symm
  | noCrash => exact hi
  | @env e k he =>
    cases e with
    | vanish c =>
      cases he
      exact held_destroyBox hi
    | tick d =>
      cases he
      exact ⟨hi.nodup, hi.attaching, hi.mounted, hi.owned, hi.absent, hi.unique, hi.fresh, hi.boxes⟩

end Wrenn.Volumes.Holders
