import Wrenn.Lib.Runs
import Wrenn.Host.Outcomes

/-!
# Pause generations stay good

A property `Good` of a pause generation, read off its metadata, its memory image and the CoW beside it, that a
capture establishes (`GoodLaws`): the memory image and the CoW have seen the same writes, or the disk is still
the one the guest saw.  This module shows, for any such property, where generations can go bad: only when the
guest writes while its sandbox counts as paused, when the agent stops although some generation on disk has been
resumed from (`Settled`), or when the base images change under it.

The invariant is kept sandbox by sandbox (`LocalInv`): `LocalInv.effect` for the operations on a sandbox,
`LocalInv.stop` and `LocalInv.startUp` for the two steps that concern all sandboxes at once.  `Inv.step` puts
them together.
-/

namespace Wrenn.Host.Generation

open Lib.Runs (Reach)
open Sandbox.Disk Sandbox.Startup Sandbox.PauseDisk
open Sandbox.PauseCrash (rename_of_ne rename_dst)
open Sandbox.RestoreSpec Lifecycle Outcomes

variable {β : Type*} {cfg : Config} {w w' : World β} {id id' k : String} {p q : Lifecycle.Part β}

abbrev Images (β : Type*) := String → Option (Image β)

abbrev Dir (β : Type*) := SandboxDir (Cow β) (Mem β)

/-- What is asked of a property of generations. -/
structure GoodLaws (Good : Images β → Dir β → Prop) : Prop where
  /-- it does not look at `sandbox.json` -/
  congr : ∀ {imgs d d'}, d'.snapMeta = d.snapMeta → d'.cow = d.cow → d'.mem = d.mem →
    Good imgs d → Good imgs d'
  /-- it says nothing of a directory without a CoW -/
  noCow : ∀ {imgs d}, d.cow = none → Good imgs d
  /-- a capture establishes it -/
  capture : ∀ {imgs : Images β} {sb cowPath now c} {u : UUID → String} {st},
    Good imgs ⟨st, .ok (pauseMeta u sb cowPath now), some c, some (capture (imgs sb.baseImagePath) c)⟩

/-! ### The invariant of one sandbox -/

section Local

variable (G : Dir β → Prop)

/-- What a `Pause` in progress has achieved. -/
def PhaseInv (id : String) (p : Lifecycle.Part β) : PausePhase → Prop
  | .quiescing => True
  | .staged ts => p.vm = false ∧ ∃ g, p.tree (stagingName id ts) = some (.dir g) ∧ g.cow = none ∧
      ∀ d, p.tree id = some (.dir d) → G { g with cow := d.cow }
  | .released ts => p.vm = false ∧ ∃ g, p.tree (stagingName id ts) = some (.dir g) ∧ g.cow = none ∧
      ∀ d, p.tree id = some (.dir d) → G { g with cow := d.cow }
  | .cowMoved ts => p.vm = false ∧ ∃ g, p.tree (stagingName id ts) = some (.dir g) ∧ G g
  | .trashed ts _ => p.vm = false ∧ ∃ g, p.tree (stagingName id ts) = some (.dir g) ∧ G g
  | .swapped _ => p.vm = false ∧ ∀ d, p.tree id = some (.dir d) → G d

def OpInv (id : String) (p : Lifecycle.Part β) : Prop :=
  match p.op with
  | none => True
  | some .resuming => ∃ sb, p.box = some sb ∧ sb.status = .paused
  | some (.pausing phase) => (∃ sb, p.box = some sb ∧ sb.status = .pausing) ∧ PhaseInv G id p phase

/-- The invariant of the sandbox `id`, whose generations are good when `G` holds of them. -/
structure LocalInv (up : Bool) (id : String) (p : Lifecycle.Part β) : Prop where
  lock : p.box = none → p.op = none
  down : up = false → p.box = none
  paused : ∀ {sb d}, p.box = some sb → sb.status = .paused → p.tree id = some (.dir d) → G d
  idle : ∀ {sb}, p.box = some sb → sb.status = .paused → p.op = none → p.vm = false
  rest : up = false → ∀ {d sm}, p.tree id = some (.dir d) → d.snapMeta = .ok sm → G d ∧ p.vm = false
  op : OpInv G id p

end Local

variable {G : Dir β → Prop} {up : Bool}

theorem LocalInv.up_of_op (h : LocalInv G up id p) {o : Op} (ho : p.op = some o) : up = true := by
  cases hu : up
  · rw [h.lock (h.down hu)] at ho; cases ho
  · rfl

variable {sb : SandboxState} {imgs : Images β} {d : Dir β}

/-- A sandbox that is registered, not paused and not locked satisfies the invariant. -/
theorem LocalInv.of_idle (hup : up = true) (hb : p.box = some sb) (hs : sb.status ≠ .paused) (ho : p.op = none) :
    LocalInv G up id p where
  lock h := by rw [hb] at h; cases h
  down h := by rw [hup] at h; cases h
  paused h h' := by rw [hb] at h; cases h; exact absurd h' hs
  idle h h' := by rw [hb] at h; cases h; exact absurd h' hs
  rest h := by rw [hup] at h; cases h
  op := by unfold OpInv; rw [ho]; trivial

/-- So does one that is not registered, while the agent runs. -/
theorem LocalInv.of_gone (hup : up = true) (hb : p.box = none) (ho : p.op = none) :
    LocalInv G up id p where
  lock _ := ho
  down _ := hb
  paused h := by rw [hb] at h; cases h
  idle h := by rw [hb] at h; cases h
  rest h := by rw [hup] at h; cases h
  op := by unfold OpInv; rw [ho]; trivial

/-- And one in the middle of a `Pause` that has kept its promises so far. -/
theorem LocalInv.of_phase {phase : PausePhase} (hup : up = true) (hb : p.box = some sb) (hs : sb.status = .pausing)
    (ho : p.op = some (.pausing phase)) (hph : PhaseInv G id p phase) : LocalInv G up id p where
  lock h := by rw [hb] at h; cases h
  down h := by rw [hup] at h; cases h
  paused h h' := by rw [hb] at h; cases h; rw [hs] at h'; cases h'
  idle h h' := by rw [hb] at h; cases h; rw [hs] at h'; cases h'
  rest h := by rw [hup] at h; cases h
  op := by unfold OpInv; rw [ho]; exact ⟨⟨sb, hb, hs⟩, hph⟩

/-- And one that is paused, with a good generation. -/
theorem LocalInv.of_paused (hup : up = true) (hb : p.box = some sb) (hs : sb.status = .paused)
    (ho : p.op = none ∧ p.vm = false ∨ p.op = some .resuming) (hgood : ∀ d, p.tree id = some (.dir d) → G d) :
    LocalInv G up id p where
  lock h := by rw [hb] at h; cases h
  down h := by rw [hup] at h; cases h
  paused _ _ hd := hgood _ hd
  idle _ _ h := by
    rcases ho with ho | ho
    · exact ho.2
    · rw [h] at ho; cases ho
  rest h := by rw [hup] at h; cases h
  op := by
    unfold OpInv
    rcases ho with ho | ho
    · rw [ho.1]; trivial
    · rw [ho]; exact ⟨sb, hb, hs⟩

theorem LocalInv.phase (h : LocalInv G up id p) {phase : PausePhase} (ho : p.op = some (.pausing phase))
    (hb : p.box = some sb) : sb.status = .pausing ∧ PhaseInv G id p phase := by
  have := h.op
  unfold OpInv at this
  rw [ho] at this
  obtain ⟨⟨sb', hb', hs⟩, hph⟩ := this
  rw [hb] at hb'; cases hb'
  exact ⟨hs, hph⟩

/-- The invariant looks only at what the sandbox owns. -/
theorem LocalInv.congr (h : LocalInv G up id p) (hb : q.box = p.box) (ho : q.op = p.op)
    (hv : q.vm = p.vm) (ht : ∀ k, Owned id k → q.tree k = p.tree k) : LocalInv G up id q := by
  have hid : q.tree id = p.tree id := ht id (.inl rfl)
  have hst : ∀ ts, q.tree (stagingName id ts) = p.tree (stagingName id ts) :=
    fun ts => ht _ (.inr ⟨ts, .inl rfl⟩)
  constructor
  · rw [hb, ho]; exact h.lock
  · rw [hb]; exact h.down
  · rw [hb, hid]; exact h.paused
  · rw [hb, ho, hv]; exact h.idle
  · rw [hid, hv]; exact h.rest
  · have hop := h.op
    unfold OpInv at hop ⊢
    rw [ho, hb]
    rcases hpo : p.op with _ | (phase | _) <;> rw [hpo] at hop
    · trivial
    · refine ⟨hop.1, ?_⟩
      have hph := hop.2
      cases phase <;> simp only [PhaseInv, hid, hst, hv] at hph ⊢ <;> exact hph
    · exact hop

/-! ### Operations on the sandbox -/

/-- The guest of a sandbox that counts as paused does not write. -/
def WriteOk (w : World β) (id : String) : LocalAction β → Prop
  | .write _ _ => ∀ sb, w.boxes id = some sb → sb.status ≠ .paused
  | _ => True

variable {Good : Images β → Dir β → Prop}

theorem PhaseInv.vmOff {phase : PausePhase} (h : PhaseInv G id p phase) {box : Option SandboxState}
    {op : Option Op} : PhaseInv G id ⟨box, op, false, p.tree⟩ phase := by
  cases phase with
  | quiescing => trivial
  | _ => exact ⟨rfl, h.2⟩

theorem PhaseInv.moveCow (hG : GoodLaws Good) {ts : ℕ} (h : PhaseInv (Good imgs) id p (.released ts)) :
    ∃ g, moveCow id (stagingName id ts) p.tree (stagingName id ts) = some (.dir g) ∧ Good imgs g := by
  obtain ⟨-, g, hg, hnone, hgood⟩ := h
  unfold Wrenn.Sandbox.PauseDisk.moveCow
  rw [hg]
  rcases ht : p.tree id with _ | (_ | d)
  · exact ⟨g, hg, hG.noCow hnone⟩
  · exact ⟨g, hg, hG.noCow hnone⟩
  · rcases hc : d.cow with _ | c <;> simp only [hc]
    · exact ⟨g, hg, hG.noCow hnone⟩
    · have := hgood d ht
      rw [hc] at this
      exact ⟨_, Function.update_self .., this⟩

/-- **Operations keep the invariant of their sandbox**, as long as no guest writes under a paused status. -/
theorem LocalInv.effect (hG : GoodLaws Good) (hid : validID id = true) {a : LocalAction β}
    (h : LocalInv (Good w.images) w.up id (w.part id)) (hw : WriteOk w id a)
    (he : Effect cfg w id a p) : LocalInv (Good w.images) w.up id p := by
  have hne := id_ne_staging hid
  have hne' := id_ne_trash hid
  cases he with
  | create hup _ _ hs => exact .of_idle hup rfl (by rw [hs]; exact fun e => by cases e) rfl
  | @write i v d c hv hd hc =>
    have hvm : (w.part id).vm ≠ false := by
      intro e; rw [show (w.part id).vm = true from hv] at e; cases e
    refine ⟨h.lock, h.down, fun hb hs => absurd hs (hw _ hb), fun hb hs => absurd hs (hw _ hb), ?_, ?_⟩
    · -- with the agent down, a directory with a generation has no running guest
      intro hdown d' sm hd' hsm
      have hd'' : d' = { d with cow := some (c.write i v) } := by
        have := (Function.update_self id _ w.tree).symm.trans hd'
        cases this; rfl
      subst hd''
      exact absurd (h.rest hdown hd hsm).2 hvm
    · have hop : OpInv (Good w.images) id ⟨w.boxes id, w.ops id, w.vm id, w.tree⟩ := h.op
      unfold OpInv at hop ⊢
      rcases hpo : w.ops id with _ | (phase | _) <;> simp only [hpo] at hop ⊢
      · refine ⟨hop.1, ?_⟩
        have hph := hop.2
        cases phase with
        | quiescing => trivial
        | _ => exact absurd hph.1 hvm
      · exact hop
  | vmDeath =>
    refine ⟨h.lock, h.down, h.paused, fun _ _ _ => rfl, fun hdown _ _ hd hsm => ⟨(h.rest hdown hd hsm).1, rfl⟩, ?_⟩
    have hop : OpInv (Good w.images) id ⟨w.boxes id, w.ops id, w.vm id, w.tree⟩ := h.op
    unfold OpInv at hop ⊢
    rcases hpo : w.ops id with _ | (phase | _) <;> simp only [hpo] at hop ⊢
    · exact ⟨hop.1, hop.2.vmOff⟩
    · exact hop
  | pauseBegin hup _ _ _ => exact .of_phase hup rfl rfl rfl trivial
  | rolledBack ho _ | givenUp ho _ | moveFailed ho _ | trashFailed ho _ | finalFailed ho _
  | resumed ho hb => exact .of_idle (h.up_of_op ho) rfl (fun e => by cases e) rfl
  | @snapshot ts now sb dm d c ho hb hd hc =>
    obtain ⟨hs, -⟩ := h.phase ho hb
    refine .of_phase (h.up_of_op ho) rfl hs rfl ⟨rfl, _, Function.update_self .., rfl, fun d' hd' => ?_⟩
    have : w.tree id = some (.dir d') := (Function.update_of_ne (hne ts) ..).symm.trans hd'
    rw [hd] at this; cases this
    rw [hc]
    exact hG.capture
  | release ho hb =>
    obtain ⟨hs, hph⟩ := h.phase ho hb
    exact .of_phase (h.up_of_op ho) rfl hs rfl ⟨rfl, hph.2⟩
  | movedCow ho hb =>
    obtain ⟨hs, hph⟩ := h.phase ho hb
    exact .of_phase (h.up_of_op ho) rfl hs rfl ⟨rfl, hph.moveCow hG⟩
  | @trashed ts ts' sb ho hb hfree =>
    obtain ⟨hs, -, g, hg, hgood⟩ := h.phase ho hb
    have hst : stagingName id ts ≠ trashName id ts' := by
      intro e
      rw [show (w.part id).tree (stagingName id ts) = w.tree (stagingName id ts) from rfl, e, hfree] at hg
      cases hg
    exact .of_phase (h.up_of_op ho) rfl hs rfl ⟨rfl, g, (rename_of_ne (hne ts).symm hst).trans hg, hgood⟩
  | finalized ho hb =>
    obtain ⟨hs, -, g, hg, hgood⟩ := h.phase ho hb
    refine .of_phase (h.up_of_op ho) rfl hs rfl ⟨rfl, fun d hd => ?_⟩
    have hd' : w.tree (stagingName id _) = some (.dir d) := rename_dst.symm.trans hd
    cases hg.symm.trans hd'
    exact hgood
  | @paused ts' rm sb ho hb =>
    obtain ⟨-, -, hgood⟩ := h.phase ho hb
    refine .of_paused (h.up_of_op ho) rfl rfl (.inl ⟨rfl, rfl⟩) fun d hd => hgood d ?_
    refine Eq.trans ?_ hd
    show w.tree id = (if rm then removeAll w.tree (trashName id ts') else w.tree) id
    split_ifs
    · exact (removeAll_of_ne (hne' ts')).symm
    · rfl
  | launched hup ho hb hs => exact .of_paused hup rfl hs (.inr rfl) fun d hd => h.paused hb hs hd
  | @resumeFailed sb ho hb =>
    have hop : OpInv (Good w.images) id ⟨w.boxes id, w.ops id, w.vm id, w.tree⟩ := h.op
    unfold OpInv at hop
    simp only [ho] at hop
    obtain ⟨sb', hb', hs⟩ := hop
    cases hb.symm.trans hb'
    exact .of_paused (h.up_of_op ho) rfl hs (.inl ⟨rfl, rfl⟩) fun d hd => h.paused hb hs hd
  | crashed hup _ _ | destroyed hup _ => exact .of_gone hup rfl rfl

/-! ### Stops and start-ups -/

/-- Every pause generation on disk belongs to a sandbox that is paused and not being resumed, or has just been
swapped in. -/
def Settled (w : World β) : Prop :=
  ∀ k d sm, isSwapName k = false → w.tree k = some (.dir d) → d.snapMeta = .ok sm →
    (∃ sb, w.boxes k = some sb ∧ sb.status = .paused ∧ w.ops k = none) ∨
      ∃ ts', w.ops k = some (.pausing (.swapped ts'))

/-- The base images `imgs` leave every generation on disk as good as it is. -/
def Keeps (Good : Images β → Dir β → Prop) (w : World β) (imgs : Images β) : Prop :=
  ∀ k d sm, isSwapName k = false → w.tree k = some (.dir d) → d.snapMeta = .ok sm →
    Good w.images d → Good imgs d

structure Inv (Good : Images β → Dir β → Prop) (w : World β) : Prop where
  box : ∀ id, validID id = true → LocalInv (Good w.images) w.up id (w.part id)
  names : ∀ k, isSwapName k = false → w.tree k ≠ none → validID k = true
  pausedID : ∀ k sb, w.boxes k = some sb → sb.status = .paused → validID k = true

/-- With every generation settled, the agent may stop: what it leaves on disk is good and at rest. -/
theorem Inv.settled (h : Inv Good w) (hs : Settled w) {sm : SnapshotMeta} (hid : validID id = true)
    (hd : w.tree id = some (.dir d)) (hsm : d.snapMeta = .ok sm) : Good w.images d ∧ w.vm id = false := by
  have hl := h.box id hid
  rcases hs id d sm (isSwapName_of_valid hid) hd hsm with ⟨sb, hb, hp, ho⟩ | ⟨ts', ho⟩
  · exact ⟨hl.paused hb hp hd, hl.idle hb hp ho⟩
  · rcases hb : w.boxes id with _ | sb
    · have hnone : w.ops id = none := hl.lock hb
      rw [ho] at hnone; cases hnone
    · obtain ⟨-, hv, hgood⟩ := hl.phase ho hb
      exact ⟨hgood d hd, hv⟩

theorem Inv.stop (h : Inv Good w) (hs : Settled w) (hk : Keeps Good w imgs) :
    Inv Good { w with up := false, boxes := fun _ => none, ops := fun _ => none, images := imgs } where
  box id hid := by
    refine ⟨fun _ => rfl, fun _ => rfl, nofun, nofun, ?_, trivial⟩
    intro _ d sm hd hsm
    obtain ⟨h1, h2⟩ := h.settled hs hid hd hsm
    exact ⟨hk id d sm (isSwapName_of_valid hid) hd hsm h1, h2⟩
  names := h.names
  pausedID _ _ e := nomatch e

/-- A start-up registers as paused only what was good and at rest on disk. -/
theorem Inv.startUp (hG : GoodLaws Good) (h : Inv Good w) (hdown : w.up = false) (hk : Keeps Good w imgs)
    {env : Env} {entries₀ entries₁ entries₂ : List String} {claims : Network.Slots.ClaimFiles}
    {m : Manager (Cow β) (Mem β)} (hm : startUp env entries₀ entries₁ entries₂ claims w.tree = .ok m) :
    Inv Good { w with up := true, boxes := m.boxes, ops := fun _ => none, tree := m.tree, images := imgs } := by
  have hclean : Erodes w.tree (cleanupOrphanPauseDirs env entries₀ w.tree) :=
    cleanupOrphanPauseDirs_erodes entries₀
  have herode : Erodes w.tree m.tree := hclean.trans (restoreSandboxes_erodes hm)
  -- a sandbox registered as paused had a readable generation, which was good and at rest
  have hpaused : ∀ {k sb}, m.boxes k = some sb → sb.status = .paused → validID k = true ∧
      w.vm k = false ∧ ∀ d, m.tree k = some (.dir d) → Good imgs d := by
    intro k sb hb hs
    obtain ⟨hswap, sm, -, -, hread, -⟩ := restoreSandboxes_paused hm hb rfl hs
    obtain ⟨d₀, hd₀, hsm₀⟩ := readSnapshotMeta_ok.mp (hclean.readSnapshotMeta hswap hread)
    have hid : validID k = true := h.names k hswap (by rw [hd₀]; exact fun e => by cases e)
    obtain ⟨hgood, hvm⟩ := (h.box k hid).rest hdown hd₀ hsm₀
    refine ⟨hid, hvm, fun d hd => ?_⟩
    obtain ⟨d₁, hd₁, h1, h2, h3⟩ := herode.dir hswap hd
    cases hd₀.symm.trans hd₁
    exact hG.congr h1 h2 h3 (hk k d₀ sm hswap hd₀ hsm₀ hgood)
  refine ⟨fun id hid => ⟨fun _ => rfl, nofun, ?_, ?_, nofun, trivial⟩, ?_, ?_⟩
  · intro sb d hb hs hd
    exact (hpaused hb hs).2.2 d hd
  · intro sb hb hs _
    exact (hpaused hb hs).2.1
  · intro k hswap hne
    refine h.names k hswap fun e => hne ?_
    rcases herode k hswap with h1 | h1 | h1
    · exact h1
    · exact h1.trans e
    · show m.tree k = none
      rw [h1, e]; rfl
  · intro k sb hb hs
    exact (hpaused hb hs).1

/-! ### Steps and runs -/

/-- The moves under which generations stay good. -/
def Guard (Good : Images β → Dir β → Prop) (cfg : Config) (w : World β) : Action β → Prop
  | .on id a => WriteOk w id a
  | .stop graceful shrunk => Settled w ∧
      Keeps Good w (if graceful then shrinkSystemImages cfg shrunk w.images else w.images)
  | .startUp _ _ _ _ _ expanded => Keeps Good w (ensureImageSizes cfg expanded w.images)

theorem Inv.on (hG : GoodLaws Good) (h : Inv Good w) (hid : validID id = true) {a : LocalAction β}
    (hw : WriteOk w id a) (he : Effect cfg w id a p) : Inv Good (w.put id p) where
  box id' hid' := by
    by_cases hne : id' = id
    · subst hne
      refine (LocalInv.effect hG hid (h.box id' hid) hw he).congr ?_ ?_ ?_ fun _ _ => rfl
      all_goals exact Function.update_self ..
    · refine (h.box id' hid').congr ?_ ?_ ?_ fun k hk => ?_
      · exact Function.update_of_ne hne ..
      · exact Function.update_of_ne hne ..
      · exact Function.update_of_ne hne ..
      · exact he.frame fun hk' => hne (owned_unique hid' hid hk hk')
  names k hswap hne := by
    by_cases ho : Owned id k
    · rw [owned_of_not_swap ho hswap]; exact hid
    · refine h.names k hswap fun e => hne ?_
      exact (he.frame ho).trans e
  pausedID k sb hb hs := by
    by_cases hk : k = id
    · rw [hk]; exact hid
    · exact h.pausedID k sb ((Function.update_of_ne hk ..).symm.trans hb) hs

theorem Inv.step (hG : GoodLaws Good) {a : Action β} (h : Inv Good w) (hok : Guard Good cfg w a)
    (hs : step cfg w a = some w') : Inv Good w' := by
  cases a with
  | on id a =>
    simp only [Lifecycle.step] at hs
    split_ifs at hs with hid
    rcases ha : act cfg w id a with _ | p <;> simp only [ha] at hs
    · cases hs
    · cases hs; exact h.on hG hid hok (act_effect ha)
  | stop graceful shrunk =>
    simp only [Lifecycle.step] at hs
    split at hs
    · cases hs; exact h.stop hok.1 hok.2
    · cases hs
  | startUp env entries₀ entries₁ entries₂ claims expanded =>
    simp only [Lifecycle.step] at hs
    split at hs
    · cases hs
    · next hup =>
      split at hs
      · cases hs
      · next m hm => cases hs; exact h.startUp hG (by simpa using hup) hok hm

theorem Inv.init (h : Init w) : Inv Good w where
  box id _ := by
    refine ⟨fun _ => h.ops id, fun _ => h.boxes id, fun e => ?_, fun e => ?_, fun _ _ _ e => ?_, ?_⟩
    · rw [show (w.part id).box = none from h.boxes id] at e; cases e
    · rw [show (w.part id).box = none from h.boxes id] at e; cases e
    · rw [show (w.part id).tree id = none from h.tree id] at e; cases e
    · unfold OpInv
      rw [show (w.part id).op = none from h.ops id]
      trivial
  names k _ hne := absurd (h.tree k) hne
  pausedID k sb hb := by rw [h.boxes k] at hb; cases hb

/-- **Invariant of guarded runs**, for a guard that implies `Guard`. -/
theorem reach_inv (hG : GoodLaws Good) {ok : World β → Action β → Prop}
    (hok : ∀ w a, ok w a → Guard Good cfg w a) (h : Reach (step cfg) ok Init w) : Inv Good w :=
  h.invariant (fun _ => Inv.init) fun w a _ hi ha hs => hi.step hG (hok w a ha) hs

/-- The generation of a sandbox registered as paused is good. -/
theorem Inv.paused_good (h : Inv Good w) (hb : w.boxes id = some sb) (hs : sb.status = .paused)
    (hd : w.tree id = some (.dir d)) : Good w.images d :=
  (h.box id (h.pausedID id sb hb hs)).paused hb hs hd

/-- So is the generation a `Resume` relaunches, over the disk as it is then. -/
theorem Inv.launch_good (h : Inv Good w) (hs : Lifecycle.step cfg w (.on id .resumeLaunch) = some w')
    (hd : w'.tree id = some (.dir d)) : Good w'.images d := by
  simp only [Lifecycle.step] at hs
  split_ifs at hs with hid
  rcases ha : act cfg w id .resumeLaunch with _ | p <;> simp only [ha] at hs
  · cases hs
  · cases hs
    cases act_effect ha with
    | launched _ _ hb hp => exact h.paused_good hb hp hd

end Wrenn.Host.Generation
