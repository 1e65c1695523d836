import Wrenn.Object.Model

/-!
# The runtime fields and the status

`slot`, `client`, `dmDevice` and `baseImagePath` are set and cleared one by one in the middle of
bodies; `SecOk` says, statement by statement, what they are while `lifecycleMu` is held, `Matches`
what they are once it is free.  Nobody but the holder of the mutex writes them after the object is
published, but `Create` still reads `dmDevice` then, for `writeRunningState`.

* `body_secOk`: what one statement under the mutex preserves;
* `reach_runtime_matches_status`: as long as no `Pause` gets past its status test before the `Create`
  of its sandbox is back from `writeRunningState`, the fields agree with the status and nothing nil
  is dereferenced;
* `pause_under_create_nil_deref`: without the condition the agent panics.
-/

namespace Wrenn.Object.Fields

open Lib.Runs Model

/-- All four runtime fields are set. -/
structure AllSet (sb : Sandbox) : Prop where
  slot : sb.slot = true
  client : sb.client = true
  dmDevice : sb.dmDevice = true
  base : sb.baseImagePath ≠ ""

/-- All four are cleared. -/
structure AllCleared (sb : Sandbox) : Prop where
  slot : sb.slot = false
  client : sb.client = false
  dmDevice : sb.dmDevice = false
  base : sb.baseImagePath = ""

/-- The fields agree with the status. -/
structure Matches (sb : Sandbox) : Prop where
  running : sb.status = .running → AllSet sb
  paused : sb.status = .paused → AllCleared sb

/-- No statement of the list dereferences a nil field, `sb` being the object before the first. -/
def Safe : Sandbox → List Op → Prop
  | _, [] => True
  | sb, op :: ops => op.effect sb ≠ .nilDeref ∧ Safe (op.onSandbox sb) ops

/-- The object after the statements of the list. -/
def after (sb : Sandbox) (ops : List Op) : Sandbox := ops.foldl Op.onSandbox sb

def Op.clears : Op → Bool
  | .clearSlot | .clearClient | .clearDm | .clearBase => true
  | _ => false

/-- What is true of the object before a statement under `lifecycleMu`. -/
def SecOk (sb : Sandbox) : Section → Prop
  | .materialize | .watch | .stateGet | .stateRead | .initialise | .freeze | .flatten | .promote =>
    sb.status = .running ∧ AllSet sb
  | .quiesce | .writeMeta | .rollback => sb.status = .pausing ∧ AllSet sb
  | .release _ ops =>
    (sb.status = .pausing ∨ sb.status = .error) ∧ Safe sb ops ∧ AllCleared (after sb ops)
  | .swap | .setPaused => (sb.status = .pausing ∨ sb.status = .error) ∧ AllCleared sb
  | .storeHandles | .spawnPunch _ | .readMeta | .attach _ | .flattenPaused | .link | .promotePaused =>
    sb.status = .paused ∧ AllCleared sb
  | .launch base | .launched base => sb.status = .paused ∧ AllCleared sb ∧ base ≠ ""
  | .takeHandles j | .cancelPunch j _ _ | .awaitPunch j _ =>
    Matches sb ∧ (j ≠ .cleanup → sb.status = .paused)
  | .teardown _ ops => Matches sb ∧ Safe sb ops ∧ ∀ op ∈ ops, Op.clears op = false
  | .removeDir _ => Matches sb

/-- The object between two statements: under the mutex, or free. -/
def Between (sb : Sandbox) : Option Section → Prop
  | none => Matches sb
  | some s => SecOk sb s

/-! ### One statement -/

variable {sb : Sandbox} {op : Op} {o : Outcome} {w w' : World} {t : ℕ} {ch : Choice} {s : Section}

theorem matches_of_running (hst : sb.status = .running) (h : AllSet sb) :
    Matches sb := by
  refine ⟨fun _ => h, fun hp => ?_⟩
  rw [hst] at hp
  cases hp

theorem matches_of_paused (hst : sb.status = .paused) (h : AllCleared sb) :
    Matches sb := by
  refine ⟨fun hr => ?_, fun _ => h⟩
  rw [hst] at hr
  cases hr

theorem matches_of_error (hst : sb.status = .error) : Matches sb :=
  ⟨fun hr => (by rw [hst] at hr; cases hr), fun hp => (by rw [hst] at hp; cases hp)⟩

/-- Fields are compared, not the rest of the record. -/
theorem AllSet.congr {sb' : Sandbox} (h : AllSet sb) (hs : sb'.slot = sb.slot)
    (hc : sb'.client = sb.client) (hd : sb'.dmDevice = sb.dmDevice)
    (hb : sb'.baseImagePath = sb.baseImagePath) : AllSet sb' :=
  ⟨hs ▸ h.slot, hc ▸ h.client, hd ▸ h.dmDevice, hb ▸ h.base⟩

theorem AllCleared.congr {sb' : Sandbox} (h : AllCleared sb) (hs : sb'.slot = sb.slot)
    (hc : sb'.client = sb.client) (hd : sb'.dmDevice = sb.dmDevice)
    (hb : sb'.baseImagePath = sb.baseImagePath) : AllCleared sb' :=
  ⟨hs ▸ h.slot, hc ▸ h.client, hd ▸ h.dmDevice, hb ▸ h.base⟩

/-- A `nil` test and what it guards change nothing about the statements that follow. -/
theorem safe_guarded {ops : List Op} (h : Safe sb (op :: ops)) :
    Safe (op.onSandbox sb) (op.guarded sb ++ ops) := by
  obtain ⟨-, h⟩ := h
  cases op with
  | checkSlot =>
    cases hs : sb.slot with
    | true =>
      simp only [Op.guarded, hs, if_true, List.singleton_append]
      exact ⟨by simp [Op.effect, Op.onSandbox, hs], h⟩
    | false => simpa [Op.guarded, hs] using h
  | checkDm =>
    cases hd : sb.dmDevice with
    | true =>
      simp only [Op.guarded, hd, if_true, List.singleton_append]
      exact ⟨by simp [Op.effect, Op.onSandbox, hd], h⟩
    | false => simpa [Op.guarded, hd] using h
  | _ => exact h

theorem after_guarded (sb : Sandbox) (op : Op) (ops : List Op) :
    after (op.onSandbox sb) (op.guarded sb ++ ops) = after sb (op :: ops) := by
  cases op with
  | checkSlot => cases hs : sb.slot <;> simp [Op.guarded, hs, after, Op.onSandbox]
  | checkDm => cases hd : sb.dmDevice <;> simp [Op.guarded, hd, after, Op.onSandbox]
  | _ => rfl

theorem onSandbox_of_not_clears (h : Op.clears op = false) (sb : Sandbox) :
    op.onSandbox sb = sb := by
  cases op <;> first | rfl | cases h

theorem guarded_not_clears {o : Op} (h : o ∈ op.guarded sb) :
    Op.clears o = false := by
  unfold Op.guarded at h
  split at h
  · split_ifs at h
    · rw [List.mem_singleton.mp h]; rfl
    · cases h
  · split_ifs at h
    · rw [List.mem_singleton.mp h]; rfl
    · cases h
  · cases h

theorem safe_releaseOps (sb : Sandbox) : Safe sb releaseOps := by
  simp [releaseOps, teardownOps, Safe, Op.effect]

theorem allCleared_after_releaseOps (sb : Sandbox) : AllCleared (after sb releaseOps) :=
  ⟨rfl, rfl, rfl, rfl⟩

theorem safe_teardownOps (sb : Sandbox) : Safe sb teardownOps := by
  simp [teardownOps, Safe, Op.effect]

theorem teardownOps_not_clears : ∀ op ∈ teardownOps, Op.clears op = false := by decide

theorem useDm_of_set (h : AllSet sb) (s : Section) :
    useDm sb s = ⟨sb, some s, .nothing⟩ := by
  rw [useDm, if_pos h.dmDevice]

theorem startCrashWatcher_ne {e : Effect} (h : startCrashWatcher w t = some e) :
    e ≠ .nilDeref := by
  unfold startCrashWatcher at h
  split_ifs at h <;> (cases h; exact nofun)

theorem secOk_after {j : Joiner} (hm : Matches sb)
    (hj : j ≠ .cleanup → sb.status = .paused) : SecOk sb j.after := by
  cases j with
  | resume | template => exact ⟨hj (by decide), hm.paused (hj (by decide))⟩
  | cleanup => exact ⟨hm, safe_teardownOps sb, teardownOps_not_clears⟩

/-- **One statement under the mutex** keeps the fields as they should be and dereferences nothing
nil. -/
theorem body_secOk (hs : SecOk w.sb s)
    (h : body w ch s = some o) : Between o.sb o.next ∧ o.effect ≠ .nilDeref := by
  cases s with
  | writeMeta =>
    obtain ⟨hst, ha⟩ := hs
    rw [body, useDm_of_set ha] at h
    cases h
    refine ⟨?_, nofun⟩
    split_ifs
    · exact ⟨.inl hst, safe_releaseOps _, allCleared_after_releaseOps _⟩
    · exact ⟨hst, ha⟩
  | release cow ops =>
    obtain ⟨hst, hsafe, hclear⟩ := hs
    cases ops with
    | cons op ops =>
      cases h
      refine ⟨⟨?_, safe_guarded hsafe, ?_⟩, hsafe.1⟩
      · rw [onSandbox_status]
        exact hst
      · rw [after_guarded]
        exact hclear
    | nil =>
      cases cow <;> cases h
      · exact ⟨⟨hst, hclear⟩, nofun⟩
      · refine ⟨⟨fun hr => ?_, fun _ => hclear⟩, nofun⟩
        rcases hst with hst | hst <;> (rw [hst] at hr; cases hr)
  | takeHandles j =>
    cases h
    obtain ⟨hm, hj⟩ := hs
    exact ⟨⟨⟨fun hr => (hm.running hr).congr rfl rfl rfl rfl,
      fun hp => (hm.paused hp).congr rfl rfl rfl rfl⟩, hj⟩, nofun⟩
  | awaitPunch j d =>
    cases d <;> simp only [body, Option.ite_none_right_eq_some] at h
    · cases h
      exact ⟨secOk_after hs.1 hs.2, nofun⟩
    · cases h.2
      exact ⟨secOk_after hs.1 hs.2, nofun⟩
  | watch =>
    obtain ⟨e, he, rfl⟩ := Option.map_eq_some_iff.mp h
    exact ⟨hs, startCrashWatcher_ne he⟩
  | stateRead | flatten =>
    rw [body, useDm_of_set hs.2] at h
    cases h
    exact ⟨hs, nofun⟩
  | teardown c ops =>
    obtain ⟨hm, hsafe, hno⟩ := hs
    cases ops with
    | cons op ops =>
      cases h
      have hid : op.onSandbox w.sb = w.sb := onSandbox_of_not_clears (hno op List.mem_cons_self) _
      refine ⟨⟨hid.symm ▸ hm, safe_guarded hsafe, fun o ho => ?_⟩, hsafe.1⟩
      rcases List.mem_append.mp ho with ho | ho
      · exact guarded_not_clears ho
      · exact hno o (List.mem_cons_of_mem _ ho)
    | nil =>
      cases h
      exact ⟨hm, nofun⟩
  | _ =>
    -- the call goes on as it is, sets the status, or ends
    simp only [body] at h
    repeat' split at h
    all_goals
      cases h
      refine ⟨?_, nofun⟩
      first
      | exact hs
      | exact ⟨hs.1, hs.2, (‹_ ∧ _›).2⟩
      | exact ⟨rfl, hs.2.congr rfl rfl rfl rfl⟩
      | exact ⟨hs.1, hs.2.congr rfl rfl rfl rfl⟩
      | exact ⟨.inr rfl, safe_releaseOps _, allCleared_after_releaseOps _⟩
      | exact ⟨rfl, rfl, rfl, rfl, hs.2.2⟩
      | exact matches_of_error rfl
      | exact matches_of_running hs.1 hs.2
      | exact matches_of_running rfl (hs.2.congr rfl rfl rfl rfl)
      | exact matches_of_paused hs.1 hs.2
      | exact matches_of_paused rfl (hs.2.congr rfl rfl rfl rfl)
      | exact matches_of_paused rfl (hs.2.1.congr rfl rfl rfl rfl)

/-! ### While `Create` still reads the object -/

/-- The statements of `Pause`. -/
def ofPause : Section → Bool
  | .materialize | .quiesce | .writeMeta | .rollback | .release _ _ | .swap | .setPaused
  | .storeHandles | .spawnPunch _ => true
  | _ => false

/-- Running with all fields set, and the mutex, if it is held, is not held by a `Pause`. -/
structure Steady (sb : Sandbox) (s : Option Section) : Prop where
  status : sb.status = .running
  set : AllSet sb
  noPause : ∀ s', s = some s' → ofPause s' = false

theorem ofPause_after (j : Joiner) : ofPause j.after = false := by cases j <;> rfl

/-- No statement outside `Pause` clears a field of a running sandbox. -/
theorem body_steady (hs : SecOk w.sb s)
    (h0 : Steady w.sb (some s)) (h : body w ch s = some o) : Steady o.sb o.next := by
  obtain ⟨hst, ha, hno⟩ := h0
  have hp := hno s rfl
  have hpaused : w.sb.status = .paused → False := by rw [hst]; exact nofun
  have hkeep : ∀ s', ofPause s' = false → Steady w.sb (some s') := fun s' hs' =>
    ⟨hst, ha, fun s'' he => Option.some.inj he ▸ hs'⟩
  cases s with
  | readMeta | flattenPaused | link | promotePaused | attach base | launch base | launched base =>
    exact (hpaused hs.1).elim
  | takeHandles j =>
    cases h
    exact ⟨hst, ha.congr rfl rfl rfl rfl, fun s' he => Option.some.inj he ▸ rfl⟩
  | awaitPunch j d =>
    cases d <;> simp only [body, Option.ite_none_right_eq_some] at h
    · cases h
      exact hkeep _ (ofPause_after j)
    · cases h.2
      exact hkeep _ (ofPause_after j)
  | watch =>
    obtain ⟨e, -, rfl⟩ := Option.map_eq_some_iff.mp h
    exact hkeep _ rfl
  | stateRead | flatten =>
    rw [body, useDm_of_set ha] at h
    cases h
    exact hkeep _ rfl
  | teardown c ops =>
    cases ops with
    | nil =>
      cases h
      exact hkeep _ rfl
    | cons op ops =>
      cases h
      have hid := onSandbox_of_not_clears (hs.2.2 op List.mem_cons_self) w.sb
      simp only [hid]
      exact hkeep _ rfl
  | cancelPunch | stateGet | freeze | initialise | promote | removeDir =>
    simp only [body] at h
    repeat' split at h
    all_goals
      cases h
      first
      | exact hkeep _ rfl
      | exact ⟨hst, ha, fun _ => nofun⟩
  | _ => cases hp

/-! ### The system -/

/-- The base image of a creation under way. -/
def originBase : Origin → Option String
  | .attached b | .launched b => some b
  | _ => none

/-- What is true in every run, whoever comes in between. -/
structure Base (w : World) : Prop where
  between : Between w.sb (w.holder.map Prod.snd)
  hidden : w.origin.hidden = true → Hidden w
  base : ∀ b, originBase w.origin = some b → b ≠ ""

theorem hidden_of_base {o : Origin} {b : String} (h : originBase o = some b) : o.hidden = true := by
  cases o <;> first | rfl | cases h

theorem base_start : Base start := ⟨⟨nofun, nofun⟩, fun _ => start_hidden, fun _ => nofun⟩

theorem Base.free (h : Base w) (hho : w.holder = none) : Matches w.sb := by
  have hb := h.between
  rw [hho] at hb
  exact hb

theorem Base.held (h : Base w) (hho : w.holder = some (t, s)) :
    SecOk w.sb s := by
  have hb := h.between
  rw [hho] at hb
  exact hb

/-- What an admitted call finds. -/
theorem secOk_of_admission {c : Call} (hm : Matches sb)
    (h : c.admission sb.status = .go s) : SecOk sb s := by
  cases admitted_of_go h with
  | pause hst | freeze _ hst => exact ⟨hst, hm.running hst⟩
  | join _ _ hst => exact ⟨hm, fun _ => hst⟩
  | destroy => exact ⟨hm, fun hne => absurd rfl hne⟩
  | crash => exact ⟨hm, safe_teardownOps sb, teardownOps_not_clears⟩

theorem ofPause_of_admission {st : Wrenn.Sandbox.Startup.SandboxStatus} {c : Call}
    (hc : c ≠ .pause) (h : c.admission st = .go s) : ofPause s = false := by
  cases admitted_of_go h with
  | pause => exact absurd rfl hc
  | _ => rfl

theorem apply_nilDeref {e : Effect} (h : e ≠ .nilDeref) :
    (w.apply e).nilDeref = w.nilDeref := by
  change (w.nilDeref || decide (e = .nilDeref)) = w.nilDeref
  rw [decide_eq_false h, Bool.or_false]

theorem commit_nilDeref (h : o.effect ≠ .nilDeref) :
    (w.commit t o).nilDeref = w.nilDeref := by
  unfold World.commit
  split <;> exact apply_nilDeref h

/-- A step of `Create`: the object is published with its fields set, or left alone. -/
theorem base_create (hi : Base w)
    (hh : w'.origin.hidden = true → Hidden w') (h : Creates w ch w') : Base w' := by
  cases h with
  | attach _ hb => exact ⟨hi.between, hh, fun b he => Option.some.inj he ▸ hb⟩
  | launch ho => exact ⟨hi.between, hh, fun b he => hi.base b (by rw [ho]; exact he)⟩
  | publish ho =>
    refine ⟨?_, hh, fun b => nofun⟩
    rw [show w.holder = none from (hi.hidden (by rw [ho]; rfl)).holder]
    exact matches_of_running rfl ⟨rfl, rfl, rfl, hi.base _ (by rw [ho]; rfl)⟩
  | fail => exact ⟨hi.between, hh, fun b => nofun⟩
  | watch _ ho' | read _ ho' =>
    refine ⟨hi.between, hh, fun b he => ?_⟩
    exact absurd (ho'.symm.trans (hidden_of_base he)) nofun
  | nilDeref => exact ⟨hi.between, hh, hi.base⟩

theorem base_make {m : Make} (hi : Base w) (ho : w.origin = .unmade)
    (hh : w'.origin.hidden = true → Hidden w') (h : make w m = some w') : Base w' := by
  have hho : w.holder = none := (hi.hidden (by rw [ho]; rfl)).holder
  cases m with
  | create =>
    cases h
    exact ⟨hi.between, hh, fun b => (by rintro ⟨⟩)⟩
  | reattach base =>
    simp only [make] at h
    split_ifs at h with hb
    cases h
    refine ⟨?_, hh, fun b => (by rintro ⟨⟩)⟩
    rw [hho]
    exact matches_of_running rfl ⟨rfl, rfl, rfl, hb⟩
  | restorePaused =>
    cases h
    refine ⟨?_, hh, fun b => (by rintro ⟨⟩)⟩
    rw [hho]
    exact matches_of_paused rfl ⟨rfl, rfl, rfl, rfl⟩

/-- **One step.** -/
theorem base_step {a : Act} (hi : Base w) (h : step w a = some w') : Base w' := by
  have hh : w'.origin.hidden = true → Hidden w' := step_hidden hi.hidden h
  cases step_change h with
  | same hs =>
    exact ⟨hs.sb ▸ hs.holder ▸ hi.between, hh, fun b hb => hi.base b (hs.origin ▸ hb)⟩
  | make ho hm => exact base_make hi ho hh hm
  | create hc => exact base_create hi hh hc
  | enter he =>
    obtain ⟨-, hho, hadm, rfl⟩ := he
    exact ⟨secOk_of_admission (hi.free hho) hadm, hh, hi.base⟩
  | body hho hb =>
    refine ⟨?_, hh, fun b hb' => hi.base b ?_⟩
    · rw [commit_holder, commit_sb]
      exact (body_secOk (hi.held hho) hb).1
    · rw [commit_origin] at hb'
      exact hb'
  | punched hp => exact ⟨hi.between, hh, hi.base⟩

/-! ### With the condition on `Pause` -/

/-- A `Pause` gets past its status test only when the `Create` that made the sandbox, if any, is back
from `writeRunningState`. -/
def PublishedFirst (w : World) : Act → Prop
  | .act t _ =>
    w.threads t = some (.waiting .pause) → w.sb.status = .running → w.origin.publishing = false
  | _ => True

structure Inv (w : World) : Prop extends Base w where
  steady : w.origin.publishing = true → Steady w.sb (w.holder.map Prod.snd)
  sound : w.nilDeref = false

theorem inv_start : Inv start := ⟨base_start, nofun, rfl⟩

/-- `writeRunningState` reads the dm device of a steady sandbox. -/
theorem inv_create (hi : Inv w) (hb : Base w')
    (h : Creates w ch w') : Inv w' := by
  cases h with
  | attach | launch | fail => exact ⟨hb, nofun, hi.sound⟩
  | publish ho =>
    refine ⟨hb, fun _ => ⟨rfl, ⟨rfl, rfl, rfl, hi.base _ (by rw [ho]; rfl)⟩, ?_⟩, hi.sound⟩
    rw [show w.holder = none from (hi.hidden (by rw [ho]; rfl)).holder]
    exact fun _ => nofun
  | watch _ _ hp he =>
    exact ⟨hb, fun h => hi.steady (hp h), (apply_nilDeref (startCrashWatcher_ne he)).trans hi.sound⟩
  | read _ _ hp => exact ⟨hb, fun h => hi.steady (hp h), hi.sound⟩
  | nilDeref ho hd =>
    have hset := (hi.steady (by rw [ho]; rfl)).set.dmDevice
    exact absurd (hset.symm.trans hd) nofun

theorem inv_make {m : Make} (hi : Inv w) (hb : Base w') (h : make w m = some w') :
    Inv w' := by
  cases m with
  | create | restorePaused =>
    cases h
    exact ⟨hb, (by rintro ⟨⟩), hi.sound⟩
  | reattach base =>
    simp only [make] at h
    split_ifs at h
    cases h
    exact ⟨hb, (by rintro ⟨⟩), hi.sound⟩

theorem inv_step {a : Act} (hi : Inv w) (hok : PublishedFirst w a)
    (h : step w a = some w') : Inv w' := by
  have hb : Base w' := base_step hi.toBase h
  cases step_change h with
  | same hs =>
    exact ⟨hb, fun hp => hs.sb ▸ hs.holder ▸ hi.steady (hs.origin ▸ hp), hs.nilDeref.trans hi.sound⟩
  | make ho hm => exact inv_make hi hb hm
  | create hc => exact inv_create hi hb hc
  | enter he =>
    obtain ⟨hwait, hho, hadm, rfl⟩ := he
    refine ⟨hb, fun hp => ?_, hi.sound⟩
    obtain ⟨hst, hset, -⟩ := hi.steady hp
    refine ⟨hst, hset, fun s' he => ?_⟩
    cases he
    refine ofPause_of_admission (fun hc => ?_) hadm
    exact absurd (hp.symm.trans (hok (hc ▸ hwait) hst)) nofun
  | @body ch t s o hho ho =>
    have hs : SecOk w.sb s := hi.held hho
    refine ⟨hb, fun hp => ?_, (commit_nilDeref (body_secOk hs ho).2).trans hi.sound⟩
    rw [commit_origin] at hp
    have h0 := hi.steady hp
    rw [hho] at h0
    rw [commit_holder, commit_sb]
    exact body_steady hs h0 ho
  | punched hp => exact ⟨hb, hi.steady, hi.sound⟩

/-- **The runtime fields match the status.**  In every run in which each `Pause` finds the `Create` of
its sandbox back from `writeRunningState`: while the sandbox is in `m.boxes` and its `lifecycleMu` is
free, `Running` means that slot, client, dm device and base image path are all set and `Paused` that
all four are cleared; and no nil slot or dm device has been dereferenced. -/
theorem reach_runtime_matches_status {w : World}
    (h : Reach step PublishedFirst (fun w => w = start) w) :
    (w.registered = true → w.holder = none →
      (w.sb.status = .running → AllSet w.sb) ∧ (w.sb.status = .paused → AllCleared w.sb)) ∧
    w.nilDeref = false := by
  have hi : Inv w := h.invariant (I := Inv) (fun w h0 => by rw [h0]; exact inv_start)
    (fun w a w' hi hok hs => inv_step hi hok hs)
  refine ⟨fun _ hho => ?_, hi.sound⟩
  have hm : Matches w.sb := hi.free hho
  exact ⟨hm.running, hm.paused⟩

/-- Everything succeeds; a new goroutine gets the number 9. -/
def good : Choice := ⟨true, "/images/base/rootfs.ext4", 9⟩

/-- `Create` runs to its end and a `Pause` gets the mutex. -/
def enterPause : List Act :=
  [.make .create, .create good, .create good, .create good, .create good, .create good, .create good,
    .create good, .call 1 .pause, .act 1 true, .act 1 true]

def enterPauseEnd : World := (exec step start enterPause).getD start

def pausedEnd : World := (exec step enterPauseEnd (List.replicate 17 (.body good))).getD start

theorem pausedEnd_matches : pausedEnd.registered = true ∧ pausedEnd.holder = none ∧
    pausedEnd.sb.status = .paused ∧ AllCleared pausedEnd.sb := by
  have hadm : Admits step PublishedFirst start enterPause :=
    ⟨trivial, trivial, trivial, trivial, trivial, trivial, trivial, trivial, trivial,
      nofun, fun _ _ => rfl, trivial⟩
  have hin : Reach step PublishedFirst (fun w => w = start) enterPauseEnd :=
    .of_admits rfl hadm rfl
  have hbody : exec step enterPauseEnd (List.replicate 17 (.body good)) = some pausedEnd := rfl
  have hr : Reach step PublishedFirst (fun w => w = start) pausedEnd :=
    .of_admits_from hin
      (admits_of_exec (fun a ha s => by rw [List.eq_of_mem_replicate ha]; trivial) hbody) hbody
  exact ⟨rfl, rfl, rfl, ((reach_runtime_matches_status hr).1 rfl rfl).2 rfl⟩

/-- **`Pause` under a `Create` that has not returned.**  The sandbox is in `m.boxes`; `Create` has
found its machine and is about to read `sb.dmDevice.CowPath` when a `Pause` releases the runtime. -/
theorem pause_under_create_nil_deref :
    ∃ w, exec step start
      (([.make .create, .create good, .create good, .create good, .create good, .create good,
        .call 1 .pause, .act 1 true, .act 1 true] : List Act) ++ (List.replicate 11 (.body good) : List Act) ++
        ([.create good] : List Act)) = some w ∧
      w.nilDeref = true := ⟨_, rfl, rfl⟩

end Wrenn.Object.Fields
