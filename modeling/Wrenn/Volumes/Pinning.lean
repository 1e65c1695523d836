import Wrenn.Volumes.Removal

/-!
# The host of a volume

A volume is pinned by `MarkVolumeAttached`, after its first capsule has come up; from then on a create has to
go to that host.  A create reads the pin when it resolves the reference and claims the row later, without
looking at the row again; and a row whose capsule has come up without being marked, because the reply or the
write was lost, is freed without a pin.  Either way the next capsule starts on another host, with an empty
file.

`Steady` is the condition on these two.  Under it a process that claims a volume goes where the volume is
(`aims`), and a volume that has come up but is not pinned yet is with the create that is about to pin it.
-/

namespace Wrenn.Volumes.Pinning

open Lib.Runs Lib.Tables Lib.Threads Model Holders Removal
open ControlPlane.Database hiding Row Status

/-- The pin is recorded, or there is nothing to record. -/
def Settled (k : Core) (v : ℕ) : Prop := (k.pin v).isSome = true ∨ ∀ f ∈ k.homes, f.2 ≠ v

/-- The condition on one process. -/
def pinning (k : Core) : Proc → Prop
  | .reserve _ v _ _ pinnedHost => ∀ h ∈ k.pin v, pinnedHost = some h
  | .release (v :: _) => Settled k v
  | .releaseStale cutoff => ∀ r ∈ k.volumes.rows, stale cutoff r = true → Settled k r.id
  | .detach ids => ∀ r ∈ k.volumes.rows, detachable ids r = true → Settled k r.id
  | _ => True

/-- The condition of the module. -/
def Steady (s : State) (a : Act) : Prop :=
  Careful s a ∧
    match a with
    | .act t _ => ∀ p ∈ s.threads[t]?, pinning s.core p
    | _ => True

/-- The process takes its volumes to the host `h`. -/
def aims (h : ℕ) : Proc → Prop
  | .resolve _ _ _ pinnedHost | .reserve _ _ _ _ pinnedHost | .selectHost _ _ pinnedHost => pinnedHost = some h
  | .insert _ h' _ | .link _ h' _ _ | .createCall _ h' _ | .createReply _ h' _ | .mark _ h' _ => h' = h
  | _ => True

/-- The machine has come up on the host `h`. -/
def past (h : ℕ) : Proc → Prop
  | .mark _ h' _ => h' = h
  | .confirmGone _ _ | .release _ => True
  | _ => False

/-! ### Statements -/

section

variable {k k' : Core} {p p' : Proc} {w : ℕ}

theorem pin_of_updated {P : Volume → Bool} {f : Volume → Volume} (hk : Updated k k' P f)
    (hf : ∀ r, (f r).host = r.host) : k'.pin w = k.pin w := by
  rw [Core.pin, hk w, Core.pin]
  cases k.volumes.select w with
  | none => rfl
  | some r =>
    rw [Option.map_some, Option.bind_some, Option.bind_some]
    split_ifs
    · exact hf r
    · rfl

/-- Only `MarkVolumeAttached` pins. -/
theorem pin_does (h : Does k p k' p') (hw : k'.status w ≠ none) :
    k'.pin w = k.pin w ∨ ∃ c h todo, p = .mark c h (w :: todo) ∧ k'.pin w = (k.pin w <|> some h) := by
  cases h with
  | reserve => exact .inl (pin_of_updated (updated_reserve k _) fun _ => rfl)
  | link => exact .inl (pin_of_updated (updated_link k _ _) fun _ => rfl)
  | release => exact .inl (pin_of_updated (updated_release k _) fun _ => rfl)
  | beginDelete => exact .inl (pin_of_updated (updated_beginDelete k _) fun _ => rfl)
  | abort => exact .inl (pin_of_updated (updated_abort k _) fun _ => rfl)
  | releaseStale => exact .inl (pin_of_updated (updated_releaseStale k _) fun _ => rfl)
  | detach => exact .inl (pin_of_updated (updated_detach k _) fun _ => rfl)
  | @mark c h v todo =>
    have hk := updated_mark k v h c
    cases hr : k.volumes.select w with
    | none => exact .inl (by rw [Core.pin, hk w, Core.pin, hr]; rfl)
    | some r =>
      by_cases hp : decide (r.id = v ∧ r.status = .attaching) = true
      · obtain rfl : w = v := (Table.select_key hr).symm.trans (of_decide_eq_true hp).1
        refine .inr ⟨c, h, todo, rfl, ?_⟩
        rw [Core.pin, hk w, hr, Option.map_some, if_pos hp, Core.pin, hr]
        rfl
      · exact .inl (by rw [Core.pin, hk.miss hr hp, Core.pin, hr])
  | @deleteRow v =>
    refine .inl ?_
    cases hr : k.volumes.select w with
    | none => exact absurd (none_does (k := k) (p := .deleteRow v) .deleteRow (by rw [Core.status, hr]; rfl)) hw
    | some r =>
      have hsel : Core.pin { k with volumes := deleteVolumeRow k.volumes v } w =
          (if r.id = v ∧ r.status = .deleting then none else some r).bind Volume.host := by
        rw [← select_deleteVolumeRow hr]
        rfl
      have hsome : Core.status { k with volumes := deleteVolumeRow k.volumes v } w =
          (if r.id = v ∧ r.status = .deleting then none else some r).map Volume.status := by
        rw [← select_deleteVolumeRow hr]
        rfl
      rw [hsome] at hw
      rw [hsel, Core.pin, hr]
      split_ifs at hw ⊢
      · exact absurd rfl hw
      · rfl
  | _ => exact .inl rfl

/-- A claimed row stays claimed until it is marked or freed. -/
theorem attaching_does (h : Does k p k' p') (hp : pinning k p) (hw : k.status w = some .attaching) :
    k'.status w = some .attaching ∨ (∃ c h todo, p = .mark c h (w :: todo)) ∨ Settled k w := by
  have hkeep : ∀ {P : Volume → Bool} {f : Volume → Volume}, Updated k k' P f →
      (∀ r, k.volumes.select w = some r → r.status = .attaching → P r = true →
        k'.status w = some .attaching ∨ (∃ c h todo, p = .mark c h (w :: todo)) ∨ Settled k w) →
      k'.status w = some .attaching ∨ (∃ c h todo, p = .mark c h (w :: todo)) ∨ Settled k w := by
    intro P f hk hhit
    obtain ⟨r, hr, hst⟩ := Option.map_eq_some_iff.mp hw
    by_cases hpr : P r = true
    · exact hhit r hr hst hpr
    · exact .inl (by rw [status_of_select (hk.miss hr hpr), hst])
  cases h with
  | reserve =>
    refine hkeep (updated_reserve k _) fun r hr hst hpr => ?_
    exact absurd (hst.symm.trans (of_decide_eq_true hpr).2) nofun
  | link =>
    refine hkeep (updated_link k _ _) fun r hr hst hpr => .inl ?_
    rw [(updated_link k _ _).hit hr hpr, hst]
  | @mark c h v todo =>
    refine hkeep (updated_mark k v h c) fun r hr hst hpr => .inr (.inl ⟨c, h, todo, ?_⟩)
    rw [← (of_decide_eq_true hpr).1, Table.select_key hr]
  | @release v todo =>
    refine hkeep (updated_release k v) fun r hr hst hpr => .inr (.inr ?_)
    obtain rfl : w = v := (Table.select_key hr).symm.trans (of_decide_eq_true hpr).1
    exact hp
  | beginDelete =>
    refine hkeep (updated_beginDelete k _) fun r hr hst hpr => ?_
    have hmem := (of_decide_eq_true hpr).2
    rw [hst] at hmem
    simp at hmem
  | abort =>
    refine hkeep (updated_abort k _) fun r hr hst hpr => ?_
    exact absurd (hst.symm.trans (of_decide_eq_true hpr).2) nofun
  | releaseStale =>
    refine hkeep (updated_releaseStale k _) fun r hr hst hpr => .inr (.inr ?_)
    obtain ⟨hrow, rfl⟩ := Table.select_eq_some.mp hr
    exact hp r hrow hpr
  | detach =>
    refine hkeep (updated_detach k _) fun r hr hst hpr => .inr (.inr ?_)
    obtain ⟨hrow, rfl⟩ := Table.select_eq_some.mp hr
    exact hp r hrow hpr
  | @deleteRow v =>
    refine .inl ?_
    obtain ⟨r, hr, hst⟩ := Option.map_eq_some_iff.mp hw
    change ((deleteVolumeRow k.volumes v).select w).map Volume.status = some .attaching
    rw [select_deleteVolumeRow hr, if_neg (by simp [hst]), Option.map_some, hst]
  | _ => exact .inl hw

end

/-! ### The invariant -/

/-- A volume that has come up on the host `h` is pinned to it, or about to be. -/
def Home (k : Core) (l : List Proc) (h v : ℕ) : Prop :=
  k.pin v = some h ∨
    k.pin v = none ∧ k.status v = some .attaching ∧ ∀ p ∈ l, v ∈ holds p → past h p

structure Pinned (k : Core) (l : List Proc) : Prop where
  kept : Kept k l
  aims : ∀ p ∈ l, ∀ v ∈ holds p, ∀ h, k.pin v = some h → aims h p
  homes : ∀ f ∈ k.homes, k.status f.2 ≠ none → Home k l f.1 f.2
  one : ∀ f ∈ k.homes, ∀ g ∈ k.homes, f.2 = g.2 → f.1 = g.1

variable {k : Core} {l : List Proc} {s : State} {p : Proc}

theorem Pinned.perm {l' : List Proc} (h : l.Perm l') (hi : Pinned k l) : Pinned k l' where
  kept := hi.kept.perm h
  aims p hp := hi.aims p (h.mem_iff.mpr hp)
  homes f hf hne := (hi.homes f hf hne).imp_right fun hh =>
    ⟨hh.1, hh.2.1, fun p hp => hh.2.2 p (h.mem_iff.mpr hp)⟩
  one := hi.one

theorem pinned_of_initial (h : Initial s) : Pinned s.core s.threads := by
  refine ⟨kept_of_initial h, ?_, ?_, ?_⟩
  · rw [h.threads]
    exact List.forall_mem_nil _
  all_goals
    rw [h.homes]
    exact List.forall_mem_nil _

section

variable {k k' : Core} {p p' : Proc} {rest : List Proc}

variable {v h : ℕ}

/-- What a process has after a step it had before, or has just claimed. -/
theorem holds_does (h : Does k p k' p') (hv : v ∈ holds p') :
    v ∈ holds p ∨ ∃ c refs reserved pinnedHost, p = .reserve c v refs reserved pinnedHost ∧
      k.status v = some .detached := by
  cases h with
  | @giveUp p reserved hg =>
    refine .inl ?_
    cases p <;> cases hg <;> exact hv
  | stop hs => cases hs <;> cases hv
  | @reserve c w refs reserved pin hst =>
    rcases List.mem_append.mp hv with hv | hv
    · exact .inl hv
    · rw [List.mem_singleton.mp hv]
      exact .inr ⟨c, refs, reserved, pin, rfl, hst⟩
  | mark | notMarked | release | notReleased => exact .inl (List.mem_cons_of_mem _ hv)
  | beginDelete _ _ hp' => rcases hp' with rfl | ⟨h, rfl⟩ <;> cases hv
  | getHost hp' => rcases hp' with rfl | rfl | rfl <;> cases hv
  | deleteFile hp' | destroy hp' => rcases hp' with rfl | rfl <;> cases hv
  | notDeleted | notTold | abort | deleteRow | releaseStale | detach => cases hv
  | _ => exact .inl hv

/-- Two references with one pin. -/
theorem aims_read {pin host : Option ℕ} (hm : mismatch pin host = false) (hp : pin = some h) :
    (host <|> pin) = some h := by
  subst hp
  cases host with
  | none => rfl
  | some h' =>
    have heq : h = h' := by simpa [mismatch] using hm
    rw [heq]
    rfl

/-- A process keeps its aim. -/
theorem aims_does (h : Does k p k' p') {host : ℕ} (hv : v ∈ holds p') (ha : aims host p) : aims host p' := by
  cases h with
  | giveUp | lost | noReply | notCalled | gone | notTold | release | notReleased | notDeleted
  | abort | deleteRow | releaseStale | detach => trivial
  | stop hs => cases hs <;> cases hv
  | read hvol hnew hm => exact aims_read hm ha
  | selectHost hp => exact hp host ha
  | beginDelete _ _ hp' => rcases hp' with rfl | ⟨h, rfl⟩ <;> cases hv
  | getHost hp' => rcases hp' with rfl | rfl | rfl <;> cases hv
  | deleteFile hp' | destroy hp' => rcases hp' with rfl | rfl <;> cases hv
  | _ => exact ha

/-- A create that has come up stays so. -/
theorem past_does (h : Does k p k' p') {host : ℕ} (hv : v ∈ holds p') (ha : past host p) : past host p' := by
  cases h with
  | @giveUp p reserved hg | gone | release | notReleased => trivial
  | stop hs => cases hs <;> cases hv
  | mark | notMarked => exact ha
  | notTold => cases hv
  | _ => cases ha

theorem not_marked_of_mem {c : ℕ} {todo : List ℕ} (hi : Pinned k (.mark c h (v :: todo) :: rest)) :
    v ∉ todo ∧ ∀ q ∈ rest, v ∉ holds q := by
  refine ⟨(List.nodup_cons.mp hi.kept.held.nodup_mine).1, fun q hq hv => ?_⟩
  exact hi.kept.held.disjoint List.mem_cons_self (List.mem_flatMap.mpr ⟨q, hq, hv⟩)

theorem aims_step (hi : Pinned k (p :: rest)) (hp : pinning k p)
    (hst : ∀ v ∈ (p' :: rest).flatMap holds, k'.status v ≠ none)
    (h : Does k p k' p') : ∀ q ∈ p' :: rest, ∀ v ∈ holds q, ∀ host, k'.pin v = some host → aims host q := by
  intro q hq v hv host hpin
  have hne : k'.status v ≠ none := hst v (List.mem_flatMap.mpr ⟨q, hq, hv⟩)
  rcases pin_does h hne with hsame | ⟨c, h0, todo, rfl, -⟩
  · rw [hsame] at hpin
    rcases List.mem_cons.mp hq with rfl | hq
    · rcases holds_does h hv with hold | ⟨c, refs, reserved, pin, rfl, -⟩
      · exact aims_does h hv (hi.aims p List.mem_cons_self v hold host hpin)
      · exact aims_does h hv (hp host hpin)
    · exact hi.aims q (List.mem_cons_of_mem _ hq) v hv host hpin
  · -- nobody else has what is marked
    obtain ⟨htodo, hrest⟩ := not_marked_of_mem hi
    rcases List.mem_cons.mp hq with rfl | hq
    · cases h with
      | giveUp hg => cases hg
      | stop hs => cases hs
      | mark | notMarked => exact absurd hv htodo
    · exact absurd hv (hrest q hq)

/-- A volume stays where it has come up. -/
theorem home_does (hi : Pinned k (p :: rest)) (hp : pinning k p) (h : Does k p k' p') {f : ℕ × ℕ}
    (hf : f ∈ k.homes) (hst : k'.status f.2 ≠ none) : Home k' (p' :: rest) f.1 f.2 := by
  have hold : k.status f.2 ≠ none := fun hnone => hst (none_does h hnone)
  rcases hi.homes f hf hold with hpin | ⟨hpin, hatt, hpast⟩
  · refine .inl ?_
    rcases pin_does h hst with hsame | ⟨c, h0, todo, -, hmark⟩
    · rw [hsame, hpin]
    · rw [hmark, hpin]
      rfl
  · have hnot : ¬ Settled k f.2 := by
      rintro (hsome | hno)
      · rw [hpin] at hsome
        cases hsome
      · exact hno f hf rfl
    rcases pin_does h hst with hsame | ⟨c, h0, todo, rfl, hmark⟩
    · have hpast' : ∀ q ∈ p' :: rest, f.2 ∈ holds q → past f.1 q := by
        intro q hq hv
        rcases List.mem_cons.mp hq with rfl | hq
        · rcases holds_does h hv with hv' | ⟨c, refs, reserved, pin, rfl, hdet⟩
          · exact past_does h hv (hpast p List.mem_cons_self hv')
          · exact absurd (hdet.symm.trans hatt) nofun
        · exact hpast q (List.mem_cons_of_mem _ hq) hv
      rcases attaching_does h hp hatt with hatt' | ⟨c, h0, todo, rfl⟩ | hset
      · exact .inr ⟨hsame.trans hpin, hatt', hpast'⟩
      · -- a mark that has not pinned has not been executed
        refine .inr ⟨hsame.trans hpin, ?_, hpast'⟩
        cases h with
        | giveUp hg => cases hg
        | stop hs => cases hs
        | notMarked => exact hatt
        | mark =>
          exfalso
          obtain ⟨r, hr, hrst⟩ := Option.map_eq_some_iff.mp hatt
          have hhit : decide (r.id = f.2 ∧ r.status = .attaching) = true :=
            decide_eq_true ⟨Table.select_key hr, hrst⟩
          rw [Core.pin, updated_mark k f.2 h0 c f.2, hr, Option.map_some, if_pos hhit] at hsame
          rw [Core.pin, hr] at hpin hsame
          change (r.host <|> some h0) = r.host at hsame
          change r.host = none at hpin
          rw [hpin] at hsame
          cases hsame
      · exact absurd hset hnot
    · have heq : h0 = f.1 := hpast _ List.mem_cons_self List.mem_cons_self
      refine .inl ?_
      rw [hmark, hpin, heq]
      rfl

/-- Nothing comes up anywhere else. -/
theorem home_of_reply {c : ℕ} {reserved : List ℕ} (hi : Pinned k (.createReply c h reserved :: rest)) {f : ℕ × ℕ}
    (hf : f ∈ k.homes) (hv : f.2 ∈ reserved) : f.1 = h := by
  have hatt : k.status f.2 = some .attaching := hi.kept.held.mine hv
  rcases hi.homes f hf (by rw [hatt]; nofun) with hpin | ⟨-, -, hpast⟩
  · exact (hi.aims _ List.mem_cons_self f.2 hv f.1 hpin).symm
  · exact (hpast _ List.mem_cons_self hv).elim

end

/-- **A process.** -/
theorem pinned_does {k' : Core} {p' : Proc} {rest : List Proc} (hl : l.Perm (p :: rest)) (hi : Pinned k (p :: rest))
    (hc : careful k l p) (hp : pinning k p) (h : Does k p k' p') : Pinned k' (p' :: rest) := by
  have hkept := kept_does hl hi.kept hc h
  have hheld : ∀ v ∈ (p' :: rest).flatMap holds, k'.status v ≠ none := by
    intro v hv
    rw [hkept.held.attaching v hv]
    nofun
  refine ⟨hkept, aims_step hi hp hheld h, fun f hf hne => ?_, fun f hf g hg heq => ?_⟩
  · rcases homes_does h hf with hf | ⟨c, reserved, rfl, hv, -, hvol⟩
    · exact home_does hi hp h hf hne
    · -- the machine has just come up
      have hatt : k.status f.2 = some .attaching := hi.kept.held.mine hv
      have hpin' : k'.pin f.2 = k.pin f.2 := by rw [Core.pin, hvol, Core.pin]
      have hatt' : k'.status f.2 = some .attaching := by
        rw [Core.status, hvol]
        exact hatt
      cases hpin : k.pin f.2 with
      | some h0 =>
        have haim : f.1 = h0 := hi.aims _ List.mem_cons_self f.2 hv h0 hpin
        exact .inl (by rw [hpin', hpin, haim])
      | none =>
        refine .inr ⟨hpin'.trans hpin, hatt', fun q hq hq' => ?_⟩
        rcases List.mem_cons.mp hq with rfl | hq
        · cases h with
          | giveUp | lost | noReply => trivial
          | stop hs => cases hs
          | booted => rfl
        · exact absurd (List.mem_flatMap.mpr ⟨q, hq, hq'⟩) (hi.kept.held.disjoint hv)
  · rcases homes_does h hf with hf | ⟨c, reserved, rfl, hv, -, -⟩
    · rcases homes_does h hg with hg | ⟨c, reserved, rfl, hv, -, -⟩
      · exact hi.one f hf g hg heq
      · exact home_of_reply hi hf (heq ▸ hv)
    · rcases homes_does h hg with hg | ⟨c', reserved', hsame, -, -, -⟩
      · exact (home_of_reply hi hg (heq ▸ hv)).symm
      · exact (Proc.createReply.inj hsame).2.1

theorem pinned_spawn {k' : Core} {q : Request} (hi : Pinned k l) (h : spawn k q = some (k', p)) :
    Pinned k' (p :: l) := by
  have hkept := kept_spawn hi.kept h
  obtain ⟨hp, hk⟩ := starts_of_spawn h
  have hholds : holds p = [] := by cases hp <;> rfl
  rw [hk] at hkept ⊢
  refine ⟨hkept, fun p' hp' v hv => ?_, fun f hf hne => ?_, hi.one⟩
  · rcases List.mem_cons.mp hp' with rfl | hp'
    · rw [hholds] at hv
      cases hv
    · exact hi.aims p' hp' v hv
  · refine (hi.homes f hf hne).imp_right fun hh => ⟨hh.1, hh.2.1, fun p' hp' hv => ?_⟩
    rcases List.mem_cons.mp hp' with rfl | hp'
    · rw [hholds] at hv
      cases hv
    · exact hh.2.2 p' hp' hv

theorem pinned_stop {rest : List Proc} (hi : Pinned k (p :: rest)) : Pinned k (.done :: rest) := by
  refine ⟨kept_stop hi.kept, fun q hq v hv => ?_, fun f hf hne => ?_, hi.one⟩
  · rcases List.mem_cons.mp hq with rfl | hq
    · cases hv
    · exact hi.aims q (List.mem_cons_of_mem _ hq) v hv
  · refine (hi.homes f hf hne).imp_right fun hh => ⟨hh.1, hh.2.1, fun q hq hv => ?_⟩
    rcases List.mem_cons.mp hq with rfl | hq
    · cases hv
    · exact hh.2.2 q (List.mem_cons_of_mem _ hq) hv

/-- **A step.** -/
theorem pinned_step {s' : State} {a : Act} (hi : Pinned s.core s.threads) (ha : Steady s a) (h : step s a = some s') :
    Pinned s'.core s'.threads := by
  have hkept := kept_step hi.kept ha.1 h
  cases moves_of_step h with
  | start hp hs' => exact (pinned_spawn hi hp).perm hs'.symm
  | act hp hr hs hs' =>
    exact (pinned_does hs (hi.perm hs) (ha.1 _ hp) (ha.2 _ hp) (does_of_run hr)).perm hs'.symm
  | crash _ hs hs' => exact (pinned_stop (hi.perm hs)).perm hs'.symm
  | noCrash => exact hi
  | @env e k he => cases e <;> (cases he; exact ⟨hkept, hi.aims, hi.homes, hi.one⟩)

theorem reach_pinned (h : Reach step Steady Initial s) : Pinned s.core s.threads :=
  h.invariant (I := fun s => Pinned s.core s.threads) (fun _ h0 => pinned_of_initial h0)
    fun _ _ _ hi ha hs => pinned_step hi ha hs

/-- **Pinning.**  In every run that meets `Steady`: a create that calls the agent with a volume that has been
up before does so on the host of the volume's row, where its file is; and a volume has been up on one host. -/
theorem reach_volume_pinned {s : State} (hs : Reach step Steady Initial s) :
    (∀ c host reserved, .createCall c host reserved ∈ s.threads → ∀ v ∈ reserved, ∀ h0, (h0, v) ∈ s.core.homes →
      s.core.pin v = some host ∧ (host, v) ∈ s.core.files) ∧
    ∀ host host' v, (host, v) ∈ s.core.homes → (host', v) ∈ s.core.homes → host = host' := by
  have hi := reach_pinned hs
  refine ⟨fun c host reserved hmem v hv h0 hhome => ?_, fun host host' v h1 h2 => hi.one _ h1 _ h2 rfl⟩
  have hatt : s.core.status v = some .attaching :=
    hi.kept.held.attaching v (List.mem_flatMap.mpr ⟨_, hmem, hv⟩)
  rcases hi.homes _ hhome (by rw [hatt]; nofun) with hpin | ⟨-, -, hpast⟩
  · obtain rfl : host = h0 := hi.aims _ hmem v hv h0 hpin
    exact ⟨hpin, hi.kept.files _ hhome _ hatt nofun⟩
  · exact (hpast _ hmem hv).elim

/-! ### Schedules -/

instance decidableSettled (k : Core) (v : ℕ) : Decidable (Settled k v) :=
  inferInstanceAs (Decidable ((k.pin v).isSome = true ∨ ∀ f ∈ k.homes, f.2 ≠ v))

instance decidablePinning (k : Core) : ∀ p : Proc, Decidable (pinning k p)
  | .reserve _ v _ _ pinnedHost => inferInstanceAs (Decidable (∀ h ∈ k.pin v, pinnedHost = some h))
  | .release (v :: _) => inferInstanceAs (Decidable (Settled k v))
  | .releaseStale cutoff =>
    inferInstanceAs (Decidable (∀ r ∈ k.volumes.rows, stale cutoff r = true → Settled k r.id))
  | .detach ids =>
    inferInstanceAs (Decidable (∀ r ∈ k.volumes.rows, detachable ids r = true → Settled k r.id))
  | .resolve .. | .selectHost .. | .insert .. | .link .. | .createCall .. | .createReply .. | .mark ..
  | .confirmGone .. | .release [] | .beginDelete _ | .getHost .. | .deleteFile .. | .abort _ | .deleteRow _
  | .destroyCall .. | .done => isTrue trivial

instance decidableSteady (s : State) : ∀ a : Act, Decidable (Steady s a)
  | .act t _ => @instDecidableAnd _ _ inferInstance
    (inferInstanceAs (Decidable (∀ p ∈ s.threads[t]?, pinning s.core p)))
  | .start _ | .crash _ | .env _ => @instDecidableAnd _ _ inferInstance (isTrue trivial)

/-- The second capsule is about to be created where the first was. -/
def againRun : List Act :=
  usedRun ++ ([.start (.create [7]), .act 2 .ok, .act 2 .ok, .act 2 .ok, .act 2 .ok, .act 2 .ok, .act 2 .ok,
    .act 2 .ok] : List Act)

theorem second_capsule_on_same_host :
    .createCall 1 0 [7] ∈ (last step (idle oneVolume) againRun).threads ∧
      (last step (idle oneVolume) againRun).core.pin 7 = some 0 ∧
      (0, 7) ∈ (last step (idle oneVolume) againRun).core.files := by
  have hadm : Admits step Steady (idle oneVolume) againRun := by decide +kernel
  have hcall : .createCall 1 0 [7] ∈ (last step (idle oneVolume) againRun).threads := by decide +kernel
  have hhome : (0, 7) ∈ (last step (idle oneVolume) againRun).core.homes := by decide +kernel
  exact ⟨hcall, (reach_volume_pinned (.last oneVolume_initial hadm)).1 1 0 [7] hcall 7 (List.mem_singleton.mpr rfl) 0
    hhome⟩

/-- The pin and where the volume has been up. -/
def whereabouts (s : State) : Option ℕ × List (ℕ × ℕ) × List (ℕ × ℕ) := (s.core.pin 7, s.core.homes, s.core.files)

/-- A create resolves the volume while it has no pin; another capsule is created with it on the host 0 and
destroyed; the first create goes on, and the scheduler chooses the host 1. -/
theorem stale_pin_starts_empty :
    (exec step (idle oneVolume) (([.start (.create [7]), .act 0 .ok] : List Act) ++ createRun 1 ++
      ([.start (.destroy 1), .act 2 .ok, .act 2 .ok] : List Act) ++
      ([.act 0 .ok, .act 0 .ok, .act 0 (.pick 1), .act 0 .ok, .act 0 .ok, .act 0 .ok] : List Act))).map whereabouts =
        some (some 0, [(0, 7)], [(0, 7)]) ∧
    (exec step (idle oneVolume) (([.start (.create [7]), .act 0 .ok] : List Act) ++ createRun 1 ++
      ([.start (.destroy 1), .act 2 .ok, .act 2 .ok] : List Act) ++
      ([.act 0 .ok, .act 0 .ok, .act 0 (.pick 1), .act 0 .ok, .act 0 .ok, .act 0 .ok, .act 0 .ok,
        .act 0 .ok] : List Act))).map
        whereabouts = some (some 0, [(1, 7), (0, 7)], [(1, 7), (0, 7)]) := by
  constructor <;> decide +kernel

/-- The reply to a create is lost and the host does not confirm the teardown: the capsule runs, and when it is
destroyed the row is freed without a pin. -/
theorem lost_reply_frees_without_pin :
    (exec step (idle oneVolume) (([.start (.create [7]), .act 0 .ok, .act 0 .ok, .act 0 .ok, .act 0 (.pick 0),
      .act 0 .ok, .act 0 .ok, .act 0 .ok, .act 0 .ok, .act 0 .lost, .act 0 .failed] : List Act) ++
      ([.start (.destroy 0), .act 1 .ok, .act 1 .ok] : List Act))).map (fun s => (s.core.status 7, whereabouts s)) =
        some (some .detached, none, [(0, 7)], [(0, 7)]) := by
  decide +kernel

end Wrenn.Volumes.Pinning
