import Wrenn.Object.Fields

/-!
# Deleting the template of a sandbox

`DeleteSnapshot` asks under `m.mu` whether a registered sandbox comes from the template and removes the
template's directory after it has given up the lock.  What it cannot see are sandboxes that are not in
`m.boxes`: a `Create` under way, and one that a `Destroy` has taken out of the map, which is not torn down
yet and may even be put back.

The sandbox is one object again, made from the template in question; the others are the environment.

* `Attached`: as long as there is a dm-snapshot, the statements ahead remove it or leave it to a
  sandbox that is `Running`;
* `Bare`: a sandbox that has left `m.boxes` for good uses nothing, and calls that still have a pointer to it
  change nothing about that;
* `reach_template_not_in_use`: under the conditions of `Orderly` no directory in use is removed.
-/

namespace Wrenn.Object.Templates

open Lib.Runs Model Fields Function

/-- The template's rootfs is the origin of a dm-snapshot of the sandbox, or of the CoW it is paused on.  A
machine restored from the template's memory files has a dm-snapshot all the time. -/
def Uses (w : World) : Prop := w.attached = true ∨ w.sb.status = .paused ∧ w.snapshot = true

/-! ### `DeleteSnapshot` -/

inductive DeletePc
  | called
  /-- has found no registered sandbox of the template -/
  | checked
  | returned (ok : Bool)
  deriving DecidableEq, Repr

structure Sys where
  obj : World
  deletes : ℕ → Option DeletePc

inductive SysAct
  | obj (a : Act)
  | call (k : ℕ)
  /-- `others`: some other registered sandbox comes from the template -/
  | check (k : ℕ) (others : Bool)
  | remove (k : ℕ) (ok : Bool)

def Sys.setDelete (s : Sys) (k : ℕ) (pc : DeletePc) : Sys :=
  { s with deletes := Function.update s.deletes k (some pc) }

def step (s : Sys) : SysAct → Option Sys
  | .obj a => (Model.step s.obj a).map fun w => { s with obj := w }
  | .call k => if (s.deletes k).isNone then some (s.setDelete k .called) else none
  | .check k others =>
    if s.deletes k = some .called then
      some (s.setDelete k (if s.obj.registered ∨ others then .returned false else .checked))
    else none
  | .remove k ok => if s.deletes k = some .checked then some (s.setDelete k (.returned ok)) else none

def init : Sys := ⟨start, fun _ => none⟩

/-! ### Sandboxes that have left `m.boxes` -/

/-- `Destroy` and the crash clean-up take the entry out of `m.boxes` before they wait for the mutex. -/
def takes : Call → Bool
  | .destroy _ | .crash => true
  | _ => false

/-- The statements of `Destroy` and of the crash clean-up. -/
def removes : Section → Bool
  | .takeHandles .cleanup | .cancelPunch .cleanup _ _ | .awaitPunch .cleanup _ | .teardown _ _
  | .removeDir _ => true
  | _ => false

/-- Neither in `m.boxes` nor on the way into it or out of it. -/
structure Absent (w : World) : Prop where
  registered : w.registered = false
  origin : w.origin.hidden = true → w.origin = .unmade
  waiting : ∀ t c, w.threads t = some (.waiting c) → takes c = false
  holder : ∀ t s, w.holder = some (t, s) → removes s = false

/-- The statements that calls on such a sandbox get to. -/
def bareSection : Section → Bool
  | .materialize | .quiesce | .rollback | .release .dropCow _ | .readMeta | .freeze | .flattenPaused => true
  | .takeHandles j | .cancelPunch j _ _ | .awaitPunch j _ => decide (j ≠ .cleanup)
  | _ => false

structure Bare (w : World) : Prop where
  vm : w.vm = false
  attached : w.attached = false
  snapshot : w.sb.status = .paused → w.snapshot = false
  sec : ∀ t s, w.holder = some (t, s) → bareSection s = true

variable {w w' : World} {a : Act} {ch : Choice} {s : Section} {o : Outcome} {t : ℕ} {c0 : Option Thread}
  {c : Call} {e : Effect} {ok : Bool}

theorem Bare.not_uses (h : Bare w) : ¬ Uses w := by
  rintro (ha | ⟨hst, hsn⟩)
  · rw [h.attached] at ha
    cases ha
  · rw [h.snapshot hst] at hsn
    cases hsn

/-! ### The dm-snapshot -/

/-- The statements ahead remove the dm-snapshot, the field being set. -/
def detaches : List Op → Bool
  | [] => false
  | .checkDm :: _ => true
  | .removeSnapshot :: _ => true
  | .clearDm :: _ => false
  | _ :: ops => detaches ops

/-- What goes with the dm-snapshot (`a`) and the machine (`vm`) before a statement, or while the mutex is
free. -/
def Attached (a vm : Bool) (sb : Sandbox) : Option Section → Prop
  | some (.release _ ops) => a = true → sb.dmDevice = true ∧ detaches ops = true
  | some (.teardown _ ops) =>
    (a = true → sb.dmDevice = true ∧ detaches ops = true) ∧ (vm = true → Op.destroyVM ∈ ops)
  | some (.removeDir _) => a = false ∧ vm = false
  | some .swap | some .setPaused | some .storeHandles | some (.spawnPunch _) | some .readMeta
  | some (.attach _) | some .flattenPaused | some .link | some .promotePaused => a = false
  | none | some (.takeHandles _) | some (.cancelPunch _ _ _) | some (.awaitPunch _ _) =>
    a = true → sb.status = .running
  | _ => True

/-- A statement of `releaseRuntime`, `cleanup` or `cleanupAfterCrash`. -/
theorem detaches_op {op : Op} {ops : List Op}
    (h : w.attached = true → w.sb.dmDevice = true ∧ detaches (op :: ops) = true)
    (ha : (w.apply (op.effect w.sb)).attached = true) :
    (op.onSandbox w.sb).dmDevice = true ∧ detaches (op.guarded w.sb ++ ops) = true := by
  cases op with
  | checkDm =>
    obtain ⟨hd, -⟩ := h ha
    refine ⟨hd, ?_⟩
    simp [Op.guarded, hd, detaches]
  | removeSnapshot =>
    cases hd : w.sb.dmDevice with
    | true =>
      simp only [Op.effect, hd] at ha
      cases ha
    | false =>
      simp only [Op.effect, hd] at ha
      rw [(h ha).1] at hd
      cases hd
  | removeNetwork =>
    have ha' : w.attached = true := by
      cases hs : w.sb.slot <;> (simp only [Op.effect, hs] at ha; exact ha)
    exact h ha'
  | checkSlot =>
    obtain ⟨hd, hdet⟩ := h ha
    refine ⟨hd, ?_⟩
    cases hs : w.sb.slot
    all_goals simpa [Op.guarded, hs, detaches] using hdet
  | clearDm => exact absurd (h ha).2 (by rintro ⟨⟩)
  | _ => exact h ha

theorem destroyVM_op {op : Op} {ops : List Op}
    (h : w.vm = true → Op.destroyVM ∈ op :: ops) (hv : (w.apply (op.effect w.sb)).vm = true) :
    Op.destroyVM ∈ op.guarded w.sb ++ ops := by
  have hne : op ≠ .destroyVM := by
    intro he
    rw [he] at hv
    cases hv
  have hv' : w.vm = true := by
    rcases op.effect_cases w.sb with he | he | he | he <;> rw [he] at hv <;> first | exact hv | cases hv
  exact List.mem_append_right _ ((List.mem_cons.mp (h hv')).resolve_left fun he => hne he.symm)

theorem attached_after {a vm : Bool} {sb : Sandbox} {j : Joiner} (hm : Matches sb)
    (hj : j ≠ .cleanup → sb.status = .paused) (h : a = true → sb.status = .running) :
    Attached a vm sb (some j.after) := by
  have hnone : j ≠ .cleanup → a = false := by
    intro hne
    cases ha : a with
    | false => rfl
    | true => exact absurd ((h ha).symm.trans (hj hne)) nofun
  cases j with
  | resume | template => exact hnone nofun
  | cleanup => exact ⟨fun ha => ⟨(hm.running (h ha)).dmDevice, rfl⟩, fun _ => List.mem_cons_self ..⟩

/-- **One statement under the mutex.** -/
theorem body_attached (hs : SecOk w.sb s)
    (ha : Attached w.attached w.vm w.sb (some s)) (h : body w ch s = some o) :
    Attached (w.apply o.effect).attached (w.apply o.effect).vm o.sb o.next := by
  cases s with
  | writeMeta =>
    rw [body, useDm_of_set hs.2] at h
    cases h
    dsimp only
    split_ifs
    · exact fun _ => ⟨hs.2.dmDevice, rfl⟩
    · trivial
  | release cow ops =>
    cases ops with
    | cons op ops =>
      cases h
      exact detaches_op ha
    | nil =>
      have hnone : w.attached = true → False := fun hat => absurd (ha hat).2 (by rintro ⟨⟩)
      cases cow <;> cases h
      · exact Bool.eq_false_iff.mpr hnone
      · exact fun hat => (hnone hat).elim
  | cancelPunch j c d =>
    cases h
    cases c <;> exact ha
  | awaitPunch j d =>
    cases d <;> simp only [body, Option.ite_none_right_eq_some] at h
    · cases h
      exact attached_after hs.1 hs.2 ha
    · cases h.2
      exact attached_after hs.1 hs.2 ha
  | watch =>
    obtain ⟨e, -, rfl⟩ := Option.map_eq_some_iff.mp h
    trivial
  | stateRead | flatten =>
    rw [body, useDm_of_set hs.2] at h
    cases h
    trivial
  | teardown c ops =>
    cases ops with
    | cons op ops =>
      cases h
      exact ⟨detaches_op ha.1, destroyVM_op ha.2⟩
    | nil =>
      cases h
      exact ⟨Bool.eq_false_iff.mpr fun hat => absurd (ha.1 hat).2 (by rintro ⟨⟩),
        Bool.eq_false_iff.mpr fun hv => absurd (ha.2 hv) (by rintro ⟨⟩)⟩
  | launch base =>
    simp only [body] at h
    split_ifs at h <;> cases h
    · trivial
    · exact fun hat => absurd (Bool.and_eq_true_iff.mp hat).2 Bool.false_ne_true
  | removeDir c =>
    cases h
    exact fun hat => absurd (ha.1.symm.trans hat) (by rintro ⟨⟩)
  | _ =>
    -- the dm-snapshot stays as it is, with a running sandbox or absent
    simp only [body] at h
    repeat' split at h
    all_goals
      cases h
      first
      | trivial
      | exact ha
      | exact fun _ => hs.1
      | exact fun _ => rfl
      | exact fun _ => ⟨hs.2.dmDevice, rfl⟩
      | exact fun hat => absurd (Eq.trans (Eq.symm ha) hat) Bool.false_ne_true
      | exact fun hat => absurd hat Bool.false_ne_true

/-! ### Calls on a sandbox that has left `m.boxes` -/

/-- Without a machine and without a pause directory, every call comes to nothing. -/
theorem body_bare (hs : SecOk w.sb s)
    (hv : w.vm = false) (ha : w.attached = false) (hsn : w.sb.status = .paused → w.snapshot = false)
    (hb : bareSection s = true) (h : body w ch s = some o) :
    (w.apply o.effect).vm = false ∧ (w.apply o.effect).attached = false ∧
      (o.sb.status = .paused → (w.apply o.effect).snapshot = false) ∧
      ∀ s', o.next = some s' → bareSection s' = true := by
  have hvm : ∀ ok : Bool, ¬ (ok = true ∧ w.vm = true) := fun ok hc => by
    rw [hv] at hc
    cases hc.2
  cases s with
  | quiesce | rollback | freeze =>
    simp only [body, if_neg (hvm _)] at h
    cases h
    exact ⟨hv, ha, (by first | exact hsn | rintro ⟨⟩), (by first | rintro _ ⟨⟩; rfl | rintro _ ⟨⟩)⟩
  | release cow ops =>
    cases cow with
    | keepCow => cases hb
    | dropCow =>
      cases ops with
      | nil =>
        cases h
        refine ⟨hv, ha, fun hst => ?_, (by rintro _ ⟨⟩)⟩
        change (w.snapshot && !ch.ok) = false
        rw [hsn hst, Bool.false_and]
      | cons op ops =>
        cases h
        have hst := onSandbox_status w.sb op
        refine ⟨?_, ?_, fun hp => ?_, (by rintro _ ⟨⟩; rfl)⟩
        · rcases op.effect_cases w.sb with he | he | he | he <;> rw [he] <;> first | rfl | exact hv
        · rcases op.effect_cases w.sb with he | he | he | he <;> rw [he] <;> first | rfl | exact ha
        · have hsn' := hsn (hst ▸ hp)
          rcases op.effect_cases w.sb with he | he | he | he <;> rw [he] <;> exact hsn'
  | awaitPunch j d =>
    have hj : bareSection j.after = true := by
      cases j with
      | cleanup => cases hb
      | _ => rfl
    cases d <;> simp only [body, Option.ite_none_right_eq_some] at h
    · cases h
      exact ⟨hv, ha, hsn, (by rintro _ ⟨⟩; exact hj)⟩
    · cases h.2
      exact ⟨hv, ha, hsn, (by rintro _ ⟨⟩; exact hj)⟩
  | readMeta | flattenPaused =>
    rw [body, if_neg (fun hc => absurd (hc.2.symm.trans (hsn hs.1)) (by rintro ⟨⟩))] at h
    cases h
    exact ⟨hv, ha, hsn, (by rintro _ ⟨⟩)⟩
  | materialize =>
    simp only [body] at h
    split_ifs at h <;> cases h
    · exact ⟨hv, ha, (by rintro ⟨⟩), (by rintro _ ⟨⟩; rfl)⟩
    · exact ⟨hv, ha, hsn, (by rintro _ ⟨⟩)⟩
  | takeHandles j | cancelPunch j c d =>
    cases h
    exact ⟨hv, ha, hsn, (by rintro _ ⟨⟩; exact hb)⟩
  | _ => cases hb

/-- A body that removes the sandbox goes on to do so until it has removed the directory. -/
theorem body_removes (hs : removes s = true)
    (h : body w ch s = some o) :
    (∃ c, s = .removeDir c ∧ o.next = none ∧ o.effect = .removeDir ch.ok ∧ o.sb = w.sb) ∨
      ∃ s', o.next = some s' ∧ removes s' = true := by
  cases s with
  | removeDir c =>
    cases h
    exact .inl ⟨c, rfl, rfl, rfl, rfl⟩
  | takeHandles j | cancelPunch j c d =>
    cases j with
    | cleanup =>
      cases h
      exact .inr ⟨_, rfl, rfl⟩
    | _ => cases hs
  | awaitPunch j d =>
    cases j with
    | cleanup =>
      cases d <;> simp only [body, Option.ite_none_right_eq_some] at h
      · cases h
        exact .inr ⟨_, rfl, rfl⟩
      · cases h.2
        exact .inr ⟨_, rfl, rfl⟩
    | _ => cases hs
  | teardown c ops => cases ops <;> (cases h; exact .inr ⟨_, rfl, rfl⟩)
  | _ => cases hs

/-! ### The object -/

/-- No other sandbox goes by the same ID, and the pause directory of a paused sandbox that is being removed
can be removed. -/
def Lone (w : World) : Act → Prop
  | .foreignVM _ => False
  | .evict => False
  | .act t other => w.threads t = some .watching → other = false
  | .body ch => ∀ t c, w.holder = some (t, .removeDir c) → w.sb.status = .paused → ch.ok = true
  | _ => True

structure Inv (w : World) : Prop extends Base w where
  attached : w.origin.hidden = false → Attached w.attached w.vm w.sb (w.holder.map Prod.snd)
  fresh : w.origin = .unmade ∨ w.origin = .acquiring → w.attached = false ∧ w.vm = false
  booting : ∀ b, w.origin = .attached b → w.vm = false
  bare : Absent w → Bare w

theorem inv_start : Inv start where
  toBase := base_start
  attached := nofun
  fresh := fun _ => ⟨rfl, rfl⟩
  booting := fun _ => nofun
  bare := fun _ => ⟨rfl, rfl, nofun, fun _ _ => nofun⟩

theorem absent_back (h : Absent w') (hr : w'.registered = w.registered)
    (ho : w.origin.hidden = true → w.origin = .unmade)
    (ht : ∀ t c, w.threads t = some (.waiting c) → takes c = true → w'.threads t = some (.waiting c))
    (hh : w'.holder = w.holder) : Absent w := by
  refine ⟨hr ▸ h.registered, ho, fun t c hc => ?_, fun t s hs => h.holder t s (hh.trans hs)⟩
  cases htk : takes c with
  | false => rfl
  | true => exact absurd (htk.symm.trans (h.waiting t c (ht t c hc htk))) nofun

/-- A thread that was not about to remove the sandbox may change. -/
theorem waiting_setThread {c : Thread} (h0 : w.threads t = c0)
    (hc0 : ∀ c, c0 = some (.waiting c) → takes c = false) (t' : ℕ) (c' : Call)
    (h : w.threads t' = some (.waiting c')) (htk : takes c' = true) :
    (w.setThread t c).threads t' = some (.waiting c') := by
  have hne : t' ≠ t := by
    intro he
    rw [he, h0] at h
    exact absurd (htk.symm.trans (hc0 c' h)) nofun
  rw [setThread_of_ne hne]
  exact h

/-- A sandbox that is on its way into `m.boxes` is not absent. -/
theorem not_absent_of_hidden (hh : w.origin.hidden = true) (hne : w.origin ≠ .unmade) :
    ¬ Absent w := fun h => hne (h.origin hh)

theorem inv_make {m : Make} (hi : Inv w) (hb : Base w') (ho : w.origin = .unmade)
    (h : make w m = some w') : Inv w' := by
  have hf := hi.fresh (.inl ho)
  have hho : w.holder = none := (hi.hidden (by rw [ho]; rfl)).holder
  cases m with
  | create =>
    cases h
    exact ⟨hb, (by rintro ⟨⟩), fun _ => hf, fun _ => (by rintro ⟨⟩),
      fun habs => absurd habs (not_absent_of_hidden rfl (by rintro ⟨⟩))⟩
  | reattach base =>
    simp only [make] at h
    split_ifs at h
    cases h
    refine ⟨hb, fun _ => ?_, (by simp), fun _ => (by rintro ⟨⟩), fun habs => absurd habs.registered (by rintro ⟨⟩)⟩
    rw [hho]
    exact fun _ => rfl
  | restorePaused =>
    cases h
    refine ⟨hb, fun _ => ?_, (by simp), fun _ => (by rintro ⟨⟩), fun habs => absurd habs.registered (by rintro ⟨⟩)⟩
    rw [hho]
    exact fun ha => absurd (hf.1.symm.trans ha) (by rintro ⟨⟩)

/-- A `Create` that has failed has left nothing behind. -/
theorem inv_failed (hb : Base w') (hw : Hidden w) (hsb : w'.sb = w.sb)
    (hho : w'.holder = w.holder) (ho : w'.origin = .closing) (ha : w'.attached = false)
    (hv : w'.vm = false) : Inv w' := by
  have hnone : w'.holder = none := hho.trans hw.holder
  have hst : w'.sb.status = .pending := by
    rw [hsb, hw.sb]
    rfl
  refine ⟨hb, fun _ => ?_, ?_, fun b he => ?_, fun _ => ⟨hv, ha, fun hp => ?_, fun t s hs => ?_⟩⟩
  · rw [hnone]
    exact fun hat => absurd (ha.symm.trans hat) nofun
  · rw [ho]
    rintro (he | he) <;> cases he
  · rw [ho] at he
    cases he
  · rw [hst] at hp
    cases hp
  · rw [hnone] at hs
    cases hs

/-- After the publication `Create` and the re-attach only start the watcher and read. -/
theorem Inv.published (hi : Inv w) (hb : Base w') (ho : w.origin.hidden = false)
    (ho' : w'.origin.hidden = false) (hsb : w'.sb = w.sb) (hho : w'.holder = w.holder)
    (ha : w'.attached = w.attached) (hv : w'.vm = w.vm) (hsn : w'.snapshot = w.snapshot)
    (hr : w'.registered = w.registered)
    (ht : ∀ t c, w.threads t = some (.waiting c) → w'.threads t = some (.waiting c)) : Inv w' := by
  refine ⟨hb, fun _ => ?_, fun he => ?_, fun b he => ?_, fun habs => ?_⟩
  · rw [ha, hv, hsb, hho]
    exact hi.attached ho
  · rcases he with he | he <;> (rw [he] at ho'; cases ho')
  · rw [he] at ho'
    cases ho'
  · have hbare := hi.bare (absent_back habs hr (fun h => absurd (ho.symm.trans h) nofun)
      (fun t c hc _ => ht t c hc) hho)
    exact ⟨hv.trans hbare.vm, ha.trans hbare.attached, fun hp => hsn.trans (hbare.snapshot (hsb ▸ hp)),
      fun t s hs => hbare.sec t s (hho ▸ hs)⟩

/-- A watcher gets a number of its own. -/
theorem watch_fresh {t0 : ℕ} (h : startCrashWatcher w t = some e)
    (he : e = .watch t0) : w.threads t0 = none := by
  unfold startCrashWatcher at h
  split_ifs at h with hv hn
  · rw [he] at h
    cases h
    exact Option.isNone_iff_eq_none.mp hn
  · rw [he] at h
    cases h

/-- An effect leaves the threads that there are as they are. -/
theorem apply_threads (hw : ∀ t, e = .watch t → w.threads t = none)
    {c : Thread} (h : w.threads t = some c) : (w.apply e).threads t = some c := by
  cases e with
  | watch t0 =>
    have hne : t ≠ t0 := by
      intro he
      rw [he, hw t0 rfl] at h
      cases h
    exact (update_of_ne hne _ _).trans h
  | _ => exact h

theorem watch_frame (h : startCrashWatcher w t = some e) :
    (w.apply e).attached = w.attached ∧ (w.apply e).vm = w.vm ∧ (w.apply e).snapshot = w.snapshot ∧
      ∀ t' c, w.threads t' = some c → (w.apply e).threads t' = some c := by
  have hth : ∀ t' c, w.threads t' = some c → (w.apply e).threads t' = some c :=
    fun _ _ hc => apply_threads (fun _ he => watch_fresh h he) hc
  unfold startCrashWatcher at h
  split_ifs at h <;> (cases h; exact ⟨rfl, rfl, rfl, hth⟩)

theorem effect_ne_watch (sb : Sandbox) (op : Op) (t : ℕ) : op.effect sb ≠ .watch t := by
  rcases op.effect_cases sb with he | he | he | he <;> simp [he]

theorem body_watch
    (h : body w ch s = some o) (he : o.effect = .watch t) : w.threads t = none := by
  cases s with
  | watch =>
    obtain ⟨e, hw, rfl⟩ := Option.map_eq_some_iff.mp h
    exact watch_fresh hw he
  | release c ops | teardown c ops =>
    cases ops with
    | cons op ops =>
      cases h
      exact absurd he (effect_ne_watch _ _ _)
    | nil => cases c <;> (cases h; cases he)
  | awaitPunch j d =>
    cases d <;> simp only [body, Option.ite_none_right_eq_some] at h
    · cases h
      cases he
    · cases h.2
      cases he
  | _ =>
    simp only [body, useDm] at h
    repeat' split at h
    all_goals
      cases h
      cases he

/-- The thread that holds the mutex is inside a call. -/
def Inside (w : World) : Prop := ∀ t s, w.holder = some (t, s) → w.threads t = some .inside

theorem Inside.setThread {c : Thread} (hi : Inside w)
    (hc : w.threads t ≠ some .inside) (hho : w'.holder = w.holder) (hth : w'.threads = w.threads) :
    Inside (w'.setThread t c) := by
  intro t' s' hs'
  have hin : w.threads t' = some .inside := hi t' s' (hho ▸ hs')
  have hne : t' ≠ t := by
    intro he
    exact hc (he ▸ hin)
  rw [setThread_of_ne hne, hth]
  exact hin

theorem inside_advance {c : Thread} (hi : Inside w)
    (hc : w.threads t = some c) (h : Advances w t ok c w') : Inside w' := by
  have hset : c ≠ .inside → ∀ {w1 : World} {c' : Thread}, w1.holder = w.holder →
      w1.threads = w.threads → Inside (w1.setThread t c') := by
    intro hne w1 c' hho hth
    exact hi.setThread (fun he => hne (Option.some.inj (hc.symm.trans he))) hho hth
  cases h with
  | lookup | await | removing => exact hset nofun rfl rfl
  | removeBox hc' =>
    unfold removeBox
    rcases hc' with rfl | rfl <;> split_ifs <;> exact hset nofun rfl rfl
  | enter h =>
    unfold enter at h
    repeat' split at h
    all_goals cases h
    all_goals first
      | exact hset nofun rfl rfl
      | rintro t' s' ⟨⟩
        exact setThread_self ..
  | watching =>
    unfold watcherCheck
    split_ifs <;> exact hset nofun rfl rfl

theorem inside_commit (hi : Inside w)
    (hho : w.holder = some (t, s)) (h : body w ch s = some o) : Inside (w.commit t o) := by
  intro t' s' hs'
  unfold World.commit at hs' ⊢
  cases hn : o.next with
  | none =>
    rw [hn] at hs'
    cases hs'
  | some s1 =>
    rw [hn] at hs'
    cases hs'
    exact apply_threads (fun _ he => body_watch h he) (hi t s hho)

/-- **One step.** -/
theorem inside_step (hi : Inside w) (h : Model.step w a = some w') :
    Inside w' := by
  cases moves_of_step h with
  | @make m _ _ hm =>
    cases m with
    | reattach base =>
      cases (Option.ite_none_right_eq_some.mp hm).2
      exact hi
    | _ =>
      cases hm
      exact hi
  | create hcr =>
    have hth : w'.holder = w.holder ∧ ∀ t c, w.threads t = some c → w'.threads t = some c := by
      cases hcr with
      | watch _ _ _ he => exact ⟨rfl, (watch_frame he).2.2.2⟩
      | _ => exact ⟨rfl, fun _ _ hc => hc⟩
    exact fun t s hs => hth.2 t _ (hi t s (hth.1 ▸ hs))
  | call hn => exact hi.setThread (fun he => absurd (hn.symm.trans he) nofun) rfl rfl
  | act hc ha => exact inside_advance hi hc ha
  | body hho ho => exact inside_commit hi hho ho
  | punched | foreignVM | evict => exact hi

theorem inv_create (hi : Inv w) (hb : Base w')
    (h : Creates w ch w') : Inv w' := by
  cases h with
  | attach ho =>
    exact ⟨hb, nofun, nofun, fun _ _ => (hi.fresh (.inr ho)).2,
      fun habs => absurd habs (not_absent_of_hidden rfl nofun)⟩
  | launch => exact ⟨hb, nofun, nofun, fun _ => nofun, fun habs => absurd habs (not_absent_of_hidden rfl nofun)⟩
  | publish ho =>
    refine ⟨hb, fun _ => ?_, nofun, fun _ => nofun, fun habs => absurd habs.registered nofun⟩
    rw [show w.holder = none from (hi.hidden (by rw [ho]; rfl)).holder]
    exact fun _ => rfl
  | fail ho hv ha =>
    refine inv_failed hb (hi.hidden ho) rfl rfl rfl ?_ ?_
    · rcases ha with rfl | ⟨rfl, ho⟩
      · rfl
      · exact (hi.fresh (.inr ho)).1
    · rcases hv with rfl | ⟨rfl, ho | ⟨b, ho⟩⟩
      · rfl
      · exact (hi.fresh (.inr ho)).2
      · exact hi.booting b ho
  | watch ho ho' _ he =>
    obtain ⟨ha, hv, hsn, ht⟩ := watch_frame he
    exact hi.published hb ho ho' rfl rfl ha hv hsn rfl fun t' c => ht t' _
  | read ho ho' => exact hi.published hb ho ho' rfl rfl rfl rfl rfl rfl fun _ _ hc => hc
  | nilDeref ho =>
    have hvis : w.origin.hidden = false := by rw [ho]; rfl
    exact hi.published hb hvis hvis rfl rfl rfl rfl rfl rfl fun _ _ hc => hc

/-- A thread other than the holder of the mutex moves on, without the entry. -/
theorem Inv.thread (hi : Inv w) (hb : Base w') (hs : Same w w')
    (ha : w'.attached = w.attached) (hv : w'.vm = w.vm)
    (hsn : w.snapshot = false → w'.snapshot = false) (habs : Absent w' → Absent w) : Inv w' := by
  refine ⟨hb, fun ho => ?_, fun he => ?_, fun b he => ?_, fun h => ?_⟩
  · rw [ha, hv, hs.sb, hs.holder]
    exact hi.attached (hs.origin ▸ ho)
  · rw [ha, hv]
    exact hi.fresh (hs.origin ▸ he)
  · rw [hv]
    exact hi.booting b (hs.origin ▸ he)
  · have hbare := hi.bare (habs h)
    exact ⟨hv.trans hbare.vm, ha.trans hbare.attached, fun hp => hsn (hbare.snapshot (hs.sb ▸ hp)),
      fun t s hss => hbare.sec t s (hs.holder ▸ hss)⟩

/-- The thread `t`, which is not about to remove the sandbox, goes on. -/
theorem Inv.setThread {c : Thread} (hi : Inv w)
    (hb : Base (w.setThread t c)) (h0 : w.threads t = c0)
    (hc0 : ∀ c, c0 = some (.waiting c) → takes c = false) : Inv (w.setThread t c) :=
  hi.thread hb ((same_rfl w).setThread t c) rfl rfl id fun habs =>
    absent_back habs rfl habs.origin (waiting_setThread h0 hc0) rfl

/-- A `Destroy` or a crash clean-up that has taken the entry out is on its way. -/
theorem Inv.taken (hi : Inv w)
    (hb : Base ({ w with registered := false }.setThread t (.waiting c))) (hc : takes c = true) :
    Inv ({ w with registered := false }.setThread t (.waiting c)) :=
  hi.thread hb (((same_rfl w).register false).setThread t _) rfl rfl id fun habs =>
    absurd (hc.symm.trans (habs.waiting t c (setThread_self ..))) nofun

theorem inv_removeBox (hi : Inv w) (hb : Base (removeBox w t))
    (h0 : w.threads t = c0) (hc0 : ∀ c, c0 = some (.waiting c) → takes c = false) :
    Inv (removeBox w t) := by
  unfold removeBox at hb ⊢
  split_ifs at hb ⊢
  · exact hi.taken hb rfl
  · exact hi.setThread hb h0 hc0

/-- `Destroy` and the crash clean-up are never refused. -/
theorem takes_of_refuse {st : Wrenn.Sandbox.Startup.SandboxStatus}
    (h : c.admission st = .refuse) : takes c = false := by
  cases c with
  | destroy st0 =>
    simp only [Call.admission] at h
    split_ifs at h
  | crash => cases h
  | _ => rfl

theorem attached_of_admission {a vm : Bool} {sb : Sandbox} (hm : Matches sb)
    (ha : a = true → sb.status = .running) (h : c.admission sb.status = .go s) :
    Attached a vm sb (some s) := by
  cases admitted_of_go h with
  | pause | freeze => trivial
  | join | destroy => exact ha
  | crash => exact ⟨fun hat => ⟨(hm.running (ha hat)).dmDevice, rfl⟩, fun _ => List.mem_cons_self ..⟩

theorem section_of_admission {st : Wrenn.Sandbox.Startup.SandboxStatus}
    (h : c.admission st = .go s) : removes s = takes c ∧ (takes c = false → bareSection s = true) := by
  cases admitted_of_go h with
  | pause => exact ⟨rfl, fun _ => rfl⟩
  | freeze hc => rcases hc with rfl | rfl <;> exact ⟨rfl, fun _ => rfl⟩
  | @join _ j hc hj =>
    rcases hc with rfl | rfl
    all_goals
      cases j with
      | cleanup => exact absurd rfl hj
      | _ => exact ⟨rfl, fun _ => rfl⟩
  | destroy | crash => exact ⟨rfl, (by rintro ⟨⟩)⟩

theorem inv_entered (hi : Inv w) (hb : Base w')
    (h : Entered w t c s w') : Inv w' := by
  obtain ⟨hwait, hho, hadm, rfl⟩ := h
  obtain ⟨hrem, hbs⟩ := section_of_admission hadm
  refine ⟨hb, fun ho => ?_, hi.fresh, hi.booting, fun habs => ?_⟩
  · have ha := hi.attached ho
    rw [hho] at ha
    exact attached_of_admission (hi.free hho) ha hadm
  · have htk : takes c = false := hrem ▸ habs.holder t s rfl
    have habs0 : Absent w := by
      refine ⟨habs.registered, habs.origin, fun t' c' hc' => ?_, fun t' s' hs' => ?_⟩
      · cases htk' : takes c' with
        | false => rfl
        | true =>
          have hw' := waiting_setThread (c := .inside) hwait (fun c1 h1 => by cases h1; exact htk) t' c' hc' htk'
          exact absurd (htk'.symm.trans (habs.waiting t' c' hw')) nofun
      · rw [hho] at hs'
        cases hs'
    have hbare := hi.bare habs0
    refine ⟨hbare.vm, hbare.attached, hbare.snapshot, fun t' s' hs' => ?_⟩
    cases hs'
    exact hbs htk

theorem inv_enter (hi : Inv w) (hb : Base w')
    (hc : w.threads t = some (.waiting c)) (h : enter w t c ok = some w') : Inv w' := by
  unfold enter at h
  split at h
  · cases h
  · rename_i hho
    split at h
    · rename_i hadm
      cases h
      exact hi.setThread hb hc fun c' he => by cases he; exact takes_of_refuse hadm
    · cases h
      exact hi.thread hb (((same_rfl w).register true).setThread t _) rfl rfl id
        fun habs => absurd habs.registered nofun
    · rename_i s hadm
      split_ifs at h with hc'
      · cases h
        refine hi.setThread hb hc fun c' he => ?_
        cases he
        rcases hc'.2 with hcc | hcc <;> (rw [hcc]; rfl)
      · exact inv_entered hi hb ⟨hc, hho, hadm, (Option.some.inj h).symm⟩

theorem inv_advance {c : Thread} (hi : Inv w) (hb : Base w')
    (hc : w.threads t = some c) (h : Advances w t ok c w') : Inv w' := by
  cases h with
  | lookup | await => exact hi.setThread hb hc fun _ => nofun
  | removeBox hc' =>
    refine inv_removeBox hi hb hc fun c he => ?_
    rcases hc' with rfl | rfl <;> cases he
  | removing =>
    refine hi.thread hb ⟨rfl, rfl, rfl, rfl, rfl, rfl, rfl, rfl⟩ rfl rfl (fun hsn => ?_) fun habs => ?_
    · change (w.snapshot && !ok) = false
      rw [hsn, Bool.false_and]
    · exact absent_back habs rfl habs.origin (waiting_setThread hc fun _ => nofun) rfl
  | enter h => exact inv_enter hi hb hc h
  | watching =>
    unfold watcherCheck at hb ⊢
    split_ifs at hb ⊢
    · exact hi.taken hb rfl
    · exact hi.setThread hb hc fun _ => nofun

theorem commit_frame (w : World) (t : ℕ) (o : Outcome) :
    (w.commit t o).attached = (w.apply o.effect).attached ∧ (w.commit t o).vm = (w.apply o.effect).vm ∧
      (w.commit t o).snapshot = (w.apply o.effect).snapshot ∧ (w.commit t o).registered = w.registered := by
  unfold World.commit
  split <;> exact ⟨rfl, rfl, rfl, rfl⟩

/-- **One statement under the mutex, and the sandbox.** -/
theorem inv_body (hi : Inv w)
    (hin : Inside w) (hb : Base (w.commit t o)) (hok : ∀ c, s = .removeDir c → w.sb.status = .paused → ch.ok = true)
    (hho : w.holder = some (t, s)) (h : body w ch s = some o) : Inv (w.commit t o) := by
  have hs : SecOk w.sb s := hi.held hho
  have hvis : w.origin.hidden = false :=
    Bool.eq_false_iff.mpr fun hh => absurd (hho.symm.trans (hi.hidden hh).holder) nofun
  have hat : Attached w.attached w.vm w.sb (some s) := by
    have h0 := hi.attached hvis
    rwa [hho] at h0
  obtain ⟨hfa, hfv, hfs, hfr⟩ := commit_frame w t o
  have hho' := commit_holder w t o
  refine ⟨hb, fun _ => ?_, fun he => ?_, fun b he => ?_, fun habs => ?_⟩
  · rw [hho', commit_sb, hfa, hfv]
    exact body_attached hs hat h
  · rw [commit_origin] at he
    rcases he with he | he <;> (rw [he] at hvis; cases hvis)
  · rw [commit_origin] at he
    rw [he] at hvis
    cases hvis
  cases hrem : removes s with
  | true =>
    -- the body ends here, or it goes on to remove the sandbox
    rcases body_removes hrem h with ⟨c, rfl, hn, he, hsb⟩ | ⟨s', hn, hrem'⟩
    · rw [he] at hfv hfa hfs
      refine ⟨hfv.trans hat.2, hfa.trans hat.1, fun hp => hfs.trans ?_, fun t' s' hs' => ?_⟩
      · rw [commit_sb, hsb] at hp
        change (w.snapshot && !ch.ok) = false
        rw [hok c rfl hp]
        exact Bool.and_false _
      · rw [hs', hn] at hho'
        cases hho'
    · have hnext : (w.commit t o).holder = some (t, s') := by
        unfold World.commit
        rw [hn]
        rfl
      exact absurd (hrem'.symm.trans (habs.holder t s' hnext)) nofun
  | false =>
    have hbare : Bare w := by
      refine hi.bare ⟨hfr.symm.trans habs.registered, fun hh => absurd (hvis.symm.trans hh) nofun, ?_, ?_⟩
      · intro t' c' hc'
        have hne : t' ≠ t := by
          intro he
          rw [he, hin t s hho] at hc'
          cases hc'
        have hth := apply_threads (fun _ he => body_watch h he) hc'
        refine habs.waiting t' c' ?_
        unfold World.commit
        split
        · exact (setThread_of_ne hne _).trans hth
        · exact hth
      · intro t' s' hs'
        rw [hho] at hs'
        cases hs'
        exact hrem
    obtain ⟨hv, ha, hsn, hsec⟩ := body_bare hs hbare.vm hbare.attached hbare.snapshot (hbare.sec t s hho) h
    refine ⟨hfv.trans hv, hfa.trans ha, fun hp => hfs.trans (hsn ?_), fun t' s' hs' => ?_⟩
    · rwa [commit_sb] at hp
    · rw [hs'] at hho'
      exact hsec s' hho'.symm

theorem inv_step (hi : Inv w) (hin : Inside w) (hok : Lone w a)
    (h : Model.step w a = some w') : Inv w' := by
  have hb : Base w' := base_step hi.toBase h
  cases moves_of_step h with
  | make ho hm => exact inv_make hi hb ho hm
  | create hc => exact inv_create hi hb hc
  | call hn => exact hi.setThread hb hn fun _ => (by rintro ⟨⟩)
  | act hc ha => exact inv_advance hi hb hc ha
  | body hho ho => exact inv_body hi hin hb (fun c hc => hok _ c (hc ▸ hho)) hho ho
  | punched hp =>
    refine ⟨hb, hi.attached, hi.fresh, hi.booting, fun habs => ?_⟩
    have hbare := hi.bare ⟨habs.registered, habs.origin, habs.waiting, habs.holder⟩
    exact ⟨hbare.vm, hbare.attached, hbare.snapshot, hbare.sec⟩
  | foreignVM | evict => exact absurd hok id

/-! ### A sandbox that is gone stays gone -/

theorem removes_of_bareSection (h : bareSection s = true) : removes s = false := by
  cases s with
  | takeHandles j | cancelPunch j c d | awaitPunch j d => cases j <;> first | rfl | cases h
  | teardown c ops | removeDir c => cases h
  | _ => rfl

theorem apply_waiting
    (h : (w.apply e).threads t = some (.waiting c)) : w.threads t = some (.waiting c) := by
  cases e with
  | watch t0 =>
    by_cases ht : t = t0
    · have hw : (w.apply (.watch t0)).threads t = some .watching := by
        rw [ht]
        exact update_self ..
      rw [hw] at h
      cases h
    · exact (update_of_ne ht _ _).symm.trans h
  | _ => exact h

theorem Absent.setThread {c : Thread} (h : Absent w)
    (hc : ∀ c', c = .waiting c' → takes c' = false) : Absent (w.setThread t c) := by
  refine ⟨h.registered, h.origin, fun t' c' hw => ?_, h.holder⟩
  by_cases ht : t' = t
  · rw [ht, setThread_self] at hw
    exact hc c' (Option.some.inj hw)
  · rw [setThread_of_ne ht] at hw
    exact h.waiting t' c' hw

theorem Absent.removeBox (h : Absent w) : Absent (removeBox w t) := by
  unfold Model.removeBox
  rw [if_neg (by rw [h.registered]; decide)]
  exact h.setThread fun _ => nofun

theorem Absent.lookup (h : Absent w) : Absent (lookup w t c) := by
  unfold Model.lookup
  rw [if_neg (by rw [h.registered]; decide)]
  exact h.setThread fun _ => nofun

theorem absent_create (habs : Absent w) (h : Creates w ch w') :
    Absent w' := by
  cases h with
  | attach ho | launch ho | publish ho =>
    exact absurd (habs.origin (by rw [ho]; rfl)) (by rw [ho]; exact nofun)
  | fail => exact ⟨habs.registered, nofun, habs.waiting, habs.holder⟩
  | watch _ ho' =>
    exact ⟨habs.registered, fun hh => absurd (ho'.symm.trans hh) nofun,
      fun t c hc => habs.waiting t c (apply_waiting hc), habs.holder⟩
  | read _ ho' =>
    exact ⟨habs.registered, fun hh => absurd (ho'.symm.trans hh) nofun, habs.waiting, habs.holder⟩
  | nilDeref =>
    exact ⟨habs.registered, habs.origin, fun t c hc => habs.waiting t c (apply_waiting hc), habs.holder⟩

theorem absent_enter (habs : Absent w)
    (hc : w.threads t = some (.waiting c)) (h : enter w t c ok = some w') : Absent w' := by
  have htk : takes c = false := habs.waiting t c hc
  unfold enter at h
  split at h
  · cases h
  · split at h
    · cases h
      exact habs.setThread fun _ => (by rintro ⟨⟩)
    · rename_i hadm
      cases c with
      | destroy st | crash => cases htk
      | _ =>
        simp only [Call.admission] at hadm
        split_ifs at hadm
    · rename_i s hadm
      split_ifs at h <;> cases h
      · exact habs.setThread fun _ => (by rintro ⟨⟩)
      · have habs' : Absent { w with holder := some (t, s) } := by
          refine ⟨habs.registered, habs.origin, habs.waiting, fun t' s' hs' => ?_⟩
          cases hs'
          exact (section_of_admission hadm).1.trans htk
        exact habs'.setThread fun _ => (by rintro ⟨⟩)

theorem absent_advance {c : Thread} (habs : Absent w)
    (hok : c = .watching → ok = false) (hc : w.threads t = some c)
    (h : Advances w t ok c w') : Absent w' := by
  cases h with
  | lookup => exact habs.lookup
  | await => exact habs.setThread fun _ => nofun
  | removeBox => exact habs.removeBox
  | removing =>
    exact Absent.setThread ⟨habs.registered, habs.origin, habs.waiting, habs.holder⟩ fun _ => nofun
  | enter h => exact absent_enter habs hc h
  | watching =>
    unfold watcherCheck
    rw [if_neg (by simp [habs.registered, hok rfl])]
    exact habs.setThread fun _ => nofun

theorem absent_step (hi : Inv w) (habs : Absent w) (hok : Lone w a)
    (hmk : ∀ m, a ≠ .make m) (h : Model.step w a = some w') : Absent w' := by
  cases moves_of_step h with
  | make => exact absurd rfl (hmk _)
  | create hc => exact absent_create habs hc
  | call => exact habs.setThread fun _ => (by rintro ⟨⟩)
  | act hc ha => exact absent_advance habs (fun he => hok (he ▸ hc)) hc ha
  | @body ch t s o hho ho =>
    have hbare := hi.bare habs
    obtain ⟨-, -, -, hsec⟩ :=
      body_bare (hi.held hho) hbare.vm hbare.attached hbare.snapshot (hbare.sec t s hho) ho
    have habs' : Absent { w.apply o.effect with sb := o.sb, holder := o.next.map fun s => (t, s) } := by
      refine ⟨habs.registered, habs.origin, fun t' c hc => habs.waiting t' c (apply_waiting hc),
        fun t' s' hs' => ?_⟩
      obtain ⟨s1, hn, he⟩ := Option.map_eq_some_iff.mp hs'
      cases he
      exact removes_of_bareSection (hsec _ hn)
    unfold World.commit
    split
    · exact habs'.setThread fun _ => (by rintro ⟨⟩)
    · exact habs'
  | punched => exact ⟨habs.registered, habs.origin, habs.waiting, habs.holder⟩
  | foreignVM | evict => exact absurd hok id

/-! ### Whole runs -/

/-- The condition of the development.  `Lone` holds for the sandbox.  The check of a `DeleteSnapshot` is not
made while a `Create` of the template is between its start and the publication, nor while a `Destroy` or a
crash clean-up is removing a sandbox of the template; and no sandbox of the template comes into being between
a check and the removal that follows. -/
def Orderly (s : Sys) : SysAct → Prop
  | .obj a => Lone s.obj a ∧ ∀ m, a = .make m → ∀ k, s.deletes k ≠ some .checked
  | .check _ _ =>
    (s.obj.origin.hidden = true → s.obj.origin = .unmade) ∧
      (∀ t c, s.obj.threads t = some (.waiting c) → takes c = false) ∧
      ∀ t s', s.obj.holder = some (t, s') → removes s' = false
  | _ => True

structure SysInv (s : Sys) : Prop where
  obj : Inv s.obj
  inside : Inside s.obj
  checked : ∀ k, s.deletes k = some .checked → Absent s.obj

theorem sysInv_init : SysInv init := ⟨inv_start, fun _ _ => nofun, fun _ => nofun⟩

/-- A `DeleteSnapshot` moves on. -/
theorem SysInv.setDelete {s : Sys} {k : ℕ} {pc : DeletePc} (hi : SysInv s)
    (hpc : pc = .checked → Absent s.obj) : SysInv (s.setDelete k pc) := by
  refine ⟨hi.obj, hi.inside, fun k' hk' => ?_⟩
  by_cases hk : k' = k
  · have hself : (s.setDelete k pc).deletes k' = some pc := by
      rw [hk]
      exact update_self ..
    exact hpc (Option.some.inj (hself.symm.trans hk'))
  · have hne : (s.setDelete k pc).deletes k' = s.deletes k' := update_of_ne hk ..
    exact hi.checked k' (hne.symm.trans hk')

theorem sysInv_step {s s' : Sys} {a : SysAct} (hi : SysInv s) (hok : Orderly s a)
    (h : step s a = some s') : SysInv s' := by
  cases a with
  | obj a =>
    obtain ⟨w, hw, rfl⟩ := Option.map_eq_some_iff.mp h
    refine ⟨inv_step hi.obj hi.inside hok.1 hw, inside_step hi.inside hw, fun k hk => ?_⟩
    exact absent_step hi.obj (hi.checked k hk) hok.1 (fun m hm => hok.2 m hm k hk) hw
  | call k | remove k ok =>
    simp only [step] at h
    split_ifs at h
    cases h
    exact hi.setDelete nofun
  | check k others =>
    simp only [step] at h
    split_ifs at h <;> cases h
    · exact hi.setDelete nofun
    · rename_i hreg
      have hno : s.obj.registered = false := by
        cases hr : s.obj.registered with
        | false => rfl
        | true => exact absurd (.inl hr) hreg
      exact hi.setDelete fun _ => ⟨hno, hok.1, hok.2.1, hok.2.2⟩

/-- **`DeleteSnapshot` removes no directory in use.**  In every run that meets `Orderly`: whenever a
`DeleteSnapshot` that has passed its check removes the template's directory, no dm-snapshot of the sandbox is
over its rootfs and no pause directory of the sandbox depends on it. -/
theorem reach_template_not_in_use {s s' : Sys} {k : ℕ} {ok : Bool}
    (h : Reach step Orderly (fun s => s = init) s) (hrm : step s (.remove k ok) = some s') :
    ¬ Uses s.obj := by
  have hi : SysInv s := h.invariant (I := SysInv) (fun s h0 => by rw [h0]; exact sysInv_init)
    (fun s a s' hi hok hs => sysInv_step hi hok hs)
  have hk : s.deletes k = some .checked := by
    simp only [step] at hrm
    split_ifs at hrm with hk
    exact hk
  exact (hi.obj.bare (hi.checked k hk)).not_uses

/-- `Create` and `Destroy` come to their end, and a `DeleteSnapshot` of the template is called. -/
def destroyRun : List SysAct :=
  [.obj (.make .create), .obj (.create good), .obj (.create good), .obj (.create good), .obj (.create good),
    .obj (.create good), .obj (.create good), .obj (.create good), .obj (.call 1 .destroy),
    .obj (.act 1 true), .obj (.act 1 true)]

def destroyEnd : Sys := (exec step init destroyRun).getD init

def callRun : List SysAct := (List.replicate 10 (.obj (.body good)) : List SysAct) ++ ([.call 0] : List SysAct)

def callEnd : Sys := (exec step destroyEnd callRun).getD init

def checkEnd : Sys := callEnd.setDelete 0 .checked

theorem callEnd_waiting : callEnd.obj.threads t ≠ some (.waiting c) := by
  have h1 : callEnd.obj.threads 1 = some .returned := rfl
  have h9 : callEnd.obj.threads 9 = some .watching := rfl
  intro h
  by_cases ht1 : t = 1
  · rw [ht1, h1] at h
    cases h
  · by_cases ht9 : t = 9
    · rw [ht9, h9] at h
      cases h
    · have hnone : callEnd.obj.threads t = none := by
        change (if _ : t = 1 then _ else if _ : t = 1 then _ else if _ : t = 1 then _ else
          if _ : t = 1 then _ else if _ : t = 9 then _ else none) = none
        simp [ht1, ht9]
      rw [hnone] at h
      cases h

theorem destroyed_template_not_in_use :
    (step checkEnd (.remove 0 true)).isSome = true ∧ ¬ Uses checkEnd.obj := by
  have hadm : Admits step Orderly init destroyRun :=
    ⟨⟨trivial, fun _ _ _ => nofun⟩, ⟨trivial, nofun⟩, ⟨trivial, nofun⟩, ⟨trivial, nofun⟩, ⟨trivial, nofun⟩,
      ⟨trivial, nofun⟩, ⟨trivial, nofun⟩, ⟨trivial, nofun⟩, ⟨trivial, nofun⟩, ⟨nofun, nofun⟩, ⟨nofun, nofun⟩,
      trivial⟩
  have hdestroy : Reach step Orderly (fun s => s = init) destroyEnd := .of_admits rfl hadm rfl
  have hrun : exec step destroyEnd callRun = some callEnd := rfl
  have hcall : Reach step Orderly (fun s => s = init) callEnd := by
    refine .of_admits_from hdestroy (admits_of_exec (fun a ha s => ?_) hrun) hrun
    rcases List.mem_append.mp ha with ha | ha
    · rw [List.eq_of_mem_replicate ha]
      exact ⟨fun _ _ _ _ => rfl, nofun⟩
    · rw [List.mem_singleton.mp ha]
      trivial
  have hok : Orderly callEnd (.check 0 false) :=
    ⟨nofun, fun _ _ h => absurd h callEnd_waiting, fun _ _ => nofun⟩
  have hcheck : step callEnd (.check 0 false) = some checkEnd := rfl
  have hremove : step checkEnd (.remove 0 true) = some (checkEnd.setDelete 0 (.returned true)) := rfl
  exact ⟨rfl, reach_template_not_in_use (.tail hcall hok hcheck) hremove⟩

/-- **A template is deleted under a `Create`.**  `Create` has its loop device and its dm-snapshot over the
template's rootfs; the sandbox is not in `m.boxes`, so `DeleteSnapshot` removes the directory. -/
theorem delete_under_create :
    ∃ s, exec step init
      [.obj (.make .create), .obj (.create good), .call 0, .check 0 false] = some s ∧
      (step s (.remove 0 true)).isSome = true ∧ s.obj.origin.inFlight = true ∧ s.obj.registered = false ∧
      Uses s.obj := ⟨_, rfl, rfl, rfl, rfl, .inl rfl⟩

/-- **A template is deleted under a `Destroy` that puts the sandbox back.**  `Destroy` has taken a running
sandbox out of `m.boxes` and waits for its mutex, which a `Pause` holds.  `DeleteSnapshot` passes its check,
the `Pause` comes to its end, and the sandbox is put back; it is paused on a CoW over the template's rootfs. -/
theorem delete_under_racing_pause :
    ∃ s, exec step init
      (([.obj (.make .create)] : List SysAct) ++ (List.replicate 7 (.obj (.create good)) : List SysAct) ++
        ([.obj (.call 1 .pause), .obj (.act 1 true), .obj (.act 1 true), .obj (.call 2 .destroy),
          .obj (.act 2 true), .call 0, .check 0 false] : List SysAct) ++
        (List.replicate 17 (.obj (.body good)) : List SysAct) ++ ([.obj (.act 2 true)] : List SysAct)) = some s ∧
      (step s (.remove 0 true)).isSome = true ∧ s.obj.registered = true ∧ s.obj.sb.status = .paused ∧
      Uses s.obj := ⟨_, rfl, rfl, rfl, rfl, .inr ⟨rfl, rfl⟩⟩

end Wrenn.Object.Templates
