import Wrenn.Object.Model

/-!
# The background punch

`Pause` ends by starting a goroutine that punches holes into the memory files of the pause directory.
It outlives the call; `punchCancel` and `punchDone` hand it over to the next `Resume`, template
snapshot or `Destroy`, which takes both fields under `m.mu`, cancels the goroutine and waits for it.

The hand-over works because a punch that has not been joined has exactly one owner (`handle`): the
field `punchDone`, or the call that has taken it.  A sandbox that is not `Paused`, and a body behind
its `waitForPunch`, have no handle (`Settled`), and every `Pause` starts from `Running`.
-/

namespace Wrenn.Object.Punch

open Lib.Runs Model Function

/-- The goroutine that is still to be joined, for an object whose mutex is held at `s`, or free. -/
def handle (sb : Sandbox) : Option Section → Option ℕ
  | some (.cancelPunch _ _ d) => d
  | some (.awaitPunch _ d) => d
  | _ => sb.punchDone

/-- What is true of `punchDone` before a statement under `lifecycleMu`, or while it is free. -/
def Settled (sb : Sandbox) : Option Section → Prop
  | some (.spawnPunch p) => sb.punchDone = some p ∧ sb.status = .paused
  | some .storeHandles => sb.punchDone = none ∧ sb.status = .paused
  | none | some (.takeHandles _) | some (.teardown true _) | some (.removeDir true) =>
    sb.status ≠ .paused → sb.punchDone = none
  | _ => sb.punchDone = none

/-- The goroutines, `h` being the handle of the one that is still to be joined. -/
structure Accounted (q : Punches) (h : Option ℕ) : Prop where
  owned : ∀ p, q.running p = true → h = some p
  known : ∀ p, h = some p → p < q.started ∧ q.joins p = 0
  fresh : ∀ p, q.started ≤ p → q.joins p = 0 ∧ q.closed p = false
  ended : ∀ p, q.closed p = true → q.running p = false
  once : ∀ p, q.joins p ≤ 1

/-! ### Goroutines -/

variable {q : Punches} {h : Option ℕ}

theorem Accounted.not_running (hq : Accounted q none) (p : ℕ) : q.running p = false := by
  cases hp : q.running p with
  | false => rfl
  | true => exact absurd (hq.owned p hp) nofun

variable {p t : ℕ} {sb : Sandbox} {s : Section} {w w' : World} {e : Effect} {ch : Choice} {o : Outcome}
  {a : Act}

theorem Accounted.unique (hq : Accounted q h) {p' : ℕ} (hp : q.running p = true)
    (hp' : q.running p' = true) : p = p' :=
  Option.some.inj ((hq.owned p hp).symm.trans (hq.owned p' hp'))

/-- `startAsyncPunch` makes new handles when none is left. -/
theorem Accounted.handles (hq : Accounted q none) :
    Accounted (q.apply .handles) (some q.started) := by
  refine ⟨fun p hp => ?_, fun p hp => ?_, fun p hp => ?_, hq.ended, hq.once⟩
  · have hr : q.running p = true := hp
    rw [hq.not_running p] at hr
    cases hr
  · cases hp
    exact ⟨Nat.lt_succ_self _, (hq.fresh _ (Nat.le_refl _)).1⟩
  · exact hq.fresh p (Nat.le_of_succ_le hp)

theorem Accounted.spawn (hq : Accounted q (some p)) (hc : q.closed p = false) :
    Accounted (q.apply (.spawn p)) (some p) := by
  refine ⟨fun p' hp => ?_, hq.known, hq.fresh, fun p' hp => ?_, hq.once⟩
  · by_cases he : p' = p
    · rw [he]
    · have hr : q.running p' = true := by
        simpa [Punches.apply, update_of_ne he] using hp
      exact hq.owned p' hr
  · have hcl : q.closed p' = true := hp
    have he : p' ≠ p := by
      intro he
      rw [he, hc] at hcl
      cases hcl
    simpa [Punches.apply, update_of_ne he] using hq.ended p' hcl

theorem Accounted.cancel (hq : Accounted q h) (c : Option ℕ) : Accounted (q.apply (.cancel c)) h := by
  cases c with
  | none => exact hq
  | some c => exact ⟨hq.owned, hq.known, hq.fresh, hq.ended, hq.once⟩

/-- `done` of the goroutine to be joined is closed; whatever runs is not that one, so nothing runs. -/
theorem Accounted.join (hq : Accounted q (some p)) (hc : q.closed p = true) :
    Accounted (q.apply (.join p)) none := by
  obtain ⟨hlt, h0⟩ := hq.known p rfl
  have hp : q.running p = false := hq.ended p hc
  refine ⟨fun p' hr => ?_, fun p' => nofun, fun p' hle => ?_, hq.ended, fun p' => ?_⟩
  · have he : p = p' := Option.some.inj (hq.owned p' hr)
    have hr' : q.running p' = true := hr
    rw [← he, hp] at hr'
    cases hr'
  · have hne : p' ≠ p := by
      have hle' : q.started ≤ p' := hle
      omega
    simpa [Punches.apply, update_of_ne hne] using hq.fresh p' hle
  · by_cases he : p' = p
    · simp [Punches.apply, he, h0]
    · simpa [Punches.apply, update_of_ne he] using hq.once p'

/-- A goroutine ends. -/
theorem Accounted.punched (hq : Accounted q h) (hr : q.running p = true) :
    Accounted { q with
      running := update q.running p false
      closed := update q.closed p true } h := by
  have hlt : p < q.started := (hq.known p (hq.owned p hr)).1
  refine ⟨fun p' hp => ?_, hq.known, fun p' hle => ?_, fun p' hc => ?_, hq.once⟩
  · by_cases he : p' = p
    · rw [he] at hp
      simp at hp
    · have hr' : q.running p' = true := by simpa [update_of_ne he] using hp
      exact hq.owned p' hr'
  · have he : p' ≠ p := by
      have hle' : q.started ≤ p' := hle
      omega
    simpa [update_of_ne he] using hq.fresh p' hle
  · by_cases he : p' = p
    · simp [he]
    · have hc' : q.closed p' = true := by simpa [update_of_ne he] using hc
      simpa [update_of_ne he] using hq.ended p' hc'

/-! ### One statement -/

/-- The object and the goroutines after a statement. -/
structure Kept (q : Punches) (sb : Sandbox) (s : Option Section) : Prop where
  settled : Settled sb s
  accounted : Accounted q (handle sb s)
  spawning : ∀ p, s = some (.spawnPunch p) → q.closed p = false ∧ q.running p = false

/-- The statements that end with no handle left, `Pause`'s last ones apart. -/
def plain : Option Section → Bool
  | some (.spawnPunch _) | some .storeHandles | some (.cancelPunch _ _ _) | some (.awaitPunch _ _) => false
  | _ => true

theorem kept_of_none {s : Option Section} (hs : plain s = true)
    (hd : sb.punchDone = none) (hq : Accounted q none) : Kept q sb s := by
  cases s with
  | none => exact ⟨fun _ => hd, (show handle sb none = none from hd).symm ▸ hq, fun _ => nofun⟩
  | some s =>
    have hh : handle sb (some s) = none := by
      cases s <;> first | exact hd | cases hs
    refine ⟨?_, hh.symm ▸ hq, fun p he => ?_⟩
    · cases s with
      | teardown c | removeDir c => cases c <;> first | exact hd | exact fun _ => hd
      | _ => first | exact hd | exact fun _ => hd | cases hs
    · rw [he] at hs
      cases hs

theorem plain_after (j : Joiner) : plain (some j.after) = true := by cases j <;> rfl

theorem useDm_punchDone (sb : Sandbox) (s : Section) : (useDm sb s).sb.punchDone = sb.punchDone := by
  unfold useDm
  split_ifs <;> rfl

theorem onSandbox_punchDone (sb : Sandbox) (op : Op) : (op.onSandbox sb).punchDone = sb.punchDone := by
  cases op <;> rfl

theorem apply_op_effect (q : Punches) (op : Op) (sb : Sandbox) : q.apply (op.effect sb) = q := by
  rcases op.effect_cases sb with he | he | he | he <;> rw [he] <;> rfl

theorem apply_useDm_effect (q : Punches) (sb : Sandbox) (s : Section) :
    q.apply (useDm sb s).effect = q := by
  unfold useDm
  split_ifs <;> rfl

theorem plain_useDm (h : plain (some s) = true) :
    plain (useDm sb s).next = true := by
  unfold useDm
  split_ifs
  · exact h
  · rfl

theorem apply_startCrashWatcher
    (h : startCrashWatcher w t = some e) (q : Punches) : q.apply e = q := by
  unfold startCrashWatcher at h
  split_ifs at h <;> (cases h; rfl)

/-- The statements at which there is no handle and that make none. -/
def calm : Section → Bool
  | .setPaused | .storeHandles | .spawnPunch _ | .takeHandles _ | .cancelPunch _ _ _
  | .awaitPunch _ _ | .teardown true _ | .removeDir true => false
  | _ => true

theorem settled_of_calm (hs : calm s = true)
    (h : Settled sb (some s)) : sb.punchDone = none := by
  cases s with
  | teardown c ops | removeDir c =>
    cases c with
    | true => cases hs
    | false => exact h
  | setPaused | storeHandles | spawnPunch p | takeHandles j | cancelPunch j c d | awaitPunch j d =>
    cases hs
  | _ => exact h

theorem handle_of_calm (hs : calm s = true) :
    handle sb (some s) = sb.punchDone := by
  cases s with
  | cancelPunch j c d | awaitPunch j d => cases hs
  | _ => rfl

/-- Such a statement leaves the handles and the goroutines alone. -/
theorem body_calm (hs : calm s = true)
    (h : body w ch s = some o) :
    o.sb.punchDone = w.sb.punchDone ∧ plain o.next = true ∧ ∀ q, Punches.apply q o.effect = q := by
  cases s with
  | writeMeta =>
    cases h
    exact ⟨useDm_punchDone _ _, plain_useDm (by split_ifs <;> rfl), fun q => apply_useDm_effect q _ _⟩
  | stateRead | flatten =>
    cases h
    exact ⟨useDm_punchDone _ _, plain_useDm rfl, fun q => apply_useDm_effect q _ _⟩
  | watch =>
    obtain ⟨e, he, rfl⟩ := Option.map_eq_some_iff.mp h
    exact ⟨rfl, rfl, apply_startCrashWatcher he⟩
  | release c ops | teardown c ops =>
    cases ops with
    | cons op ops =>
      cases h
      exact ⟨onSandbox_punchDone _ _, rfl, fun q => apply_op_effect q _ _⟩
    | nil => cases c <;> (cases h; exact ⟨rfl, rfl, fun _ => rfl⟩)
  | setPaused | storeHandles | spawnPunch | takeHandles | cancelPunch | awaitPunch => cases hs
  | _ =>
    simp only [body] at h
    repeat' split at h
    all_goals
      cases h
      exact ⟨rfl, rfl, fun _ => rfl⟩

/-- **One statement under the mutex** hands the punch on. -/
theorem body_kept
    (hk : Kept w.punches w.sb (some s)) (h : body w ch s = some o) :
    Kept (w.punches.apply o.effect) o.sb o.next := by
  by_cases hs : calm s = true
  · obtain ⟨hd, hp, he⟩ := body_calm hs h
    have hnone : w.sb.punchDone = none := settled_of_calm hs hk.settled
    have hq := hk.accounted
    rw [handle_of_calm hs, hnone] at hq
    rw [he]
    exact kept_of_none hp (hd.trans hnone) hq
  · obtain ⟨hset, hq, hspawn⟩ := hk
    cases s with
    | setPaused =>
      cases h
      exact ⟨⟨hset, rfl⟩, hq, fun p => nofun⟩
    | storeHandles =>
      cases h
      obtain ⟨hnone, hst⟩ := hset
      rw [show handle w.sb (some .storeHandles) = none from hnone] at hq
      refine ⟨⟨rfl, hst⟩, hq.handles, fun p hp => ?_⟩
      cases hp
      exact ⟨(hq.fresh _ (Nat.le_refl _)).2, hq.not_running _⟩
    | spawnPunch p =>
      cases h
      obtain ⟨hd, hst⟩ := hset
      have hhd : handle w.sb none = some p := hd
      refine ⟨fun hne => absurd hst hne, ?_, fun p => nofun⟩
      rw [hhd]
      rw [show handle w.sb (some (.spawnPunch p)) = some p from hd] at hq
      exact hq.spawn (hspawn p rfl).1
    | takeHandles j =>
      cases h
      exact ⟨rfl, hq, fun p => nofun⟩
    | cancelPunch j c d =>
      cases h
      exact ⟨hset, hq.cancel c, fun p => nofun⟩
    | awaitPunch j d =>
      cases d <;> simp only [body, Option.ite_none_right_eq_some] at h
      · cases h
        exact kept_of_none (plain_after j) hset hq
      · obtain ⟨hc, ⟨⟩⟩ := h
        exact kept_of_none (plain_after j) hset (Accounted.join hq hc)
    | teardown c ops =>
      cases c with
      | false => exact absurd rfl hs
      | true =>
        cases ops with
        | nil =>
          cases h
          exact ⟨hset, hq, fun p => nofun⟩
        | cons op ops =>
          cases h
          refine ⟨?_, ?_, fun p => nofun⟩
          · change (op.onSandbox w.sb).status ≠ .paused → (op.onSandbox w.sb).punchDone = none
            rw [onSandbox_punchDone, onSandbox_status]
            exact hset
          · change Accounted _ (op.onSandbox w.sb).punchDone
            rw [apply_op_effect, onSandbox_punchDone]
            exact hq
    | removeDir c =>
      cases c with
      | false => exact absurd rfl hs
      | true =>
        cases h
        exact ⟨hset, hq, fun p => nofun⟩
    | _ => exact absurd rfl hs

/-! ### Where the pause directory is used -/

/-- The machine is launched, the files are linked and the directory is swapped by statements of their
own. -/
def uses : Effect → Bool
  | .launch _ | .link | .swap _ => true
  | _ => false

theorem uses_op (sb : Sandbox) (op : Op) : uses (op.effect sb) = false := by
  rcases op.effect_cases sb with he | he | he | he <;> rw [he] <;> rfl

theorem uses_startCrashWatcher
    (h : startCrashWatcher w t = some e) : uses e = false := by
  unfold startCrashWatcher at h
  split_ifs at h <;> (cases h; rfl)

def used (w : World) : ℕ × ℕ × ℕ := (w.launches, w.links, w.swaps)

theorem used_apply (h : uses e = false) : used (w.apply e) = used w := by
  cases e with
  | launch ok | link | swap => cases h
  | _ => rfl

/-! ### The system -/

structure Inv (w : World) : Prop where
  kept : Kept w.punches w.sb (w.holder.map Prod.snd)
  hidden : w.origin.hidden = true → Hidden w

theorem accounted_start : Accounted start.punches none :=
  ⟨fun _ => nofun, fun _ => nofun, fun _ _ => ⟨rfl, rfl⟩, fun _ => nofun, fun _ => Nat.zero_le _⟩

theorem inv_start : Inv start := ⟨kept_of_none rfl rfl accounted_start, fun _ => start_hidden⟩

theorem Inv.frame (h : Inv w) (hsb : w'.sb = w.sb) (hho : w'.holder = w.holder)
    (hq : w'.punches = w.punches) (hh : w'.origin.hidden = true → Hidden w') : Inv w' :=
  ⟨hsb ▸ hho ▸ hq ▸ h.kept, hh⟩

/-- A call that gets the free mutex takes the punch over as it is. -/
theorem kept_of_admission {q : Punches} {c : Call} (hk : Kept q sb none)
    (h : c.admission sb.status = .go s) : Kept q sb (some s) := by
  have hset : sb.status ≠ .paused → sb.punchDone = none := hk.settled
  have hq : Accounted q sb.punchDone := hk.accounted
  cases admitted_of_go h with
  | pause hst | freeze _ hst =>
    have hnone : sb.punchDone = none := hset (by rw [hst]; exact nofun)
    rw [hnone] at hq
    exact kept_of_none rfl hnone hq
  | join | destroy | crash => exact ⟨hset, hq, fun p => nofun⟩

/-- The steps of whoever makes the object; what it publishes has no punch. -/
structure Making (w w' : World) : Prop where
  sb : w'.sb = w.sb ∨ w.origin.hidden = true ∧ w'.sb.punchDone = none
  holder : w'.holder = w.holder
  punches : w'.punches = w.punches
  used : used w' = used w

theorem create_making (h : Creates w ch w') : Making w w' := by
  cases h with
  | publish ho => exact ⟨.inr ⟨by rw [ho]; rfl, rfl⟩, rfl, rfl, rfl⟩
  | watch _ _ _ he =>
    exact ⟨.inl rfl, rfl, apply_startCrashWatcher he _, used_apply (uses_startCrashWatcher he)⟩
  | _ => exact ⟨.inl rfl, rfl, rfl, rfl⟩

theorem make_making {m : Make} (ho : w.origin = .unmade) (h : make w m = some w') :
    Making w w' := by
  have hh : w.origin.hidden = true := by rw [ho]; rfl
  cases m with
  | create =>
    cases h
    exact ⟨.inl rfl, rfl, rfl, rfl⟩
  | reattach base =>
    simp only [make] at h
    split_ifs at h
    cases h
    exact ⟨.inr ⟨hh, rfl⟩, rfl, rfl, rfl⟩
  | restorePaused =>
    cases h
    exact ⟨.inr ⟨hh, rfl⟩, rfl, rfl, rfl⟩

theorem Inv.making (hi : Inv w) (h : Making w w')
    (hh : w'.origin.hidden = true → Hidden w') : Inv w' := by
  rcases h.sb with hsb | ⟨ho, hd⟩
  · exact hi.frame hsb h.holder h.punches hh
  · have hw : Hidden w := hi.hidden ho
    refine ⟨?_, hh⟩
    rw [h.holder, h.punches, hw.holder, hw.punches]
    exact kept_of_none rfl hd accounted_start

theorem inv_step (hi : Inv w) (h : step w a = some w') : Inv w' := by
  have hh : w'.origin.hidden = true → Hidden w' := step_hidden hi.hidden h
  cases step_change h with
  | same hs => exact hi.frame hs.sb hs.holder hs.punches hh
  | make ho hm => exact hi.making (make_making ho hm) hh
  | create hc => exact hi.making (create_making hc) hh
  | enter he =>
    obtain ⟨-, hho, hadm, rfl⟩ := he
    have hk := hi.kept
    rw [hho] at hk
    exact ⟨kept_of_admission hk hadm, hh⟩
  | body hho hb =>
    have hk := hi.kept
    rw [hho] at hk
    refine ⟨?_, hh⟩
    rw [commit_punches, commit_sb, commit_holder]
    exact body_kept hk hb
  | @punched p hp =>
    refine ⟨⟨hi.kept.settled, hi.kept.accounted.punched hp, fun p' he => ?_⟩, hh⟩
    obtain ⟨hc, hr⟩ := hi.kept.spawning p' he
    -- the goroutine whose `go` statement is still to come is not the one that ended
    have hne : p' ≠ p := by
      intro heq
      rw [heq, hp] at hr
      cases hr
    simpa [update_of_ne hne] using ⟨hc, hr⟩

theorem reach_inv (h : Reach step (fun _ _ => True) (fun w => w = start) w) : Inv w :=
  h.invariant (I := Inv) (fun w h0 => by rw [h0]; exact inv_start)
    (fun w a w' hi _ hs => inv_step hi hs)

/-- No punch goroutine is running. -/
def Quiet (w : World) : Prop := ∀ p, w.punches.running p = false

/-- `Destroy` holds the mutex and `cleanup` is behind its first statement. -/
def Cleaning (w : World) : Prop :=
  ∃ t, (∃ ops, w.holder = some (t, .teardown false ops)) ∨ w.holder = some (t, .removeDir false)

theorem quiet_of_calm (hi : Inv w) (hho : w.holder = some (t, s))
    (hs : calm s = true) : Quiet w := by
  have hk := hi.kept
  rw [hho] at hk
  have hq : Accounted w.punches (handle w.sb (some s)) := hk.accounted
  rw [handle_of_calm hs, settled_of_calm hs hk.settled] at hq
  exact hq.not_running

theorem calm_of_uses
    (h : body w ch s = some o) (hu : uses o.effect = true) : calm s = true := by
  cases s with
  | setPaused | storeHandles | spawnPunch | takeHandles | cancelPunch | removeDir =>
    cases h
    cases hu
  | awaitPunch j d =>
    cases d <;> simp only [body, Option.ite_none_right_eq_some] at h
    · cases h
      cases hu
    · cases h.2
      cases hu
  | teardown c ops =>
    cases ops <;> cases h
    · cases hu
    · exact absurd ((uses_op _ _).symm.trans hu) nofun
  | _ => rfl

theorem used_commit (w : World) (t : ℕ) (o : Outcome) :
    used (w.commit t o) = used (w.apply o.effect) := by
  unfold World.commit
  split <;> rfl

/-- Whoever uses the directory holds the mutex at a statement before which no punch is left. -/
theorem calm_of_used (h : step w a = some w') (hu : used w' ≠ used w) :
    ∃ t s, w.holder = some (t, s) ∧ calm s = true := by
  cases step_change h with
  | same hs =>
    refine absurd ?_ hu
    rw [used, used, hs.launches, hs.links, hs.swaps]
  | make ho hm => exact absurd (make_making ho hm).used hu
  | create hc => exact absurd (create_making hc).used hu
  | enter he =>
    rw [he.eq] at hu
    exact absurd rfl hu
  | @body ch t s o hho hb =>
    refine ⟨t, s, hho, calm_of_uses hb ?_⟩
    cases he : uses o.effect with
    | true => rfl
    | false => exact absurd ((used_commit ..).trans (used_apply he)) hu
  | punched hp => exact absurd rfl hu

/-! ### After a clean-up -/

/-- The goroutines below `n` are over for good. -/
structure Past (n : ℕ) (w : World) : Prop where
  started : n ≤ w.punches.started
  finished : ∀ p, w.punches.running p = true → n ≤ p
  spawning : ∀ t p, w.holder = some (t, .spawnPunch p) → n ≤ p

theorem Past.frame {n : ℕ} (h : Past n w) (hho : w'.holder = w.holder)
    (hq : w'.punches = w.punches) : Past n w' :=
  ⟨hq ▸ h.started, hq ▸ h.finished, hho ▸ h.spawning⟩

/-- The goroutine that a statement starts, or is about to start. -/
theorem body_spawn (h : body w ch s = some o) :
    (∀ p, o.effect = .spawn p → s = .spawnPunch p) ∧
      ∀ p, o.next = some (.spawnPunch p) → p = w.punches.started := by
  by_cases hs : calm s = true
  · obtain ⟨-, hp, he⟩ := body_calm hs h
    refine ⟨fun p hep => ?_, fun p hn => ?_⟩
    · -- a calm statement has no effect on goroutines, starting one is such an effect
      have h0 := congrArg (fun q => q.running p) (he start.punches)
      rw [hep] at h0
      simp [Punches.apply, start] at h0
    · rw [hn] at hp
      cases hp
  · cases s with
    | storeHandles =>
      cases h
      exact ⟨by rintro _ ⟨⟩, by rintro _ ⟨⟩; rfl⟩
    | spawnPunch =>
      cases h
      exact ⟨by rintro _ ⟨⟩; rfl, by rintro _ ⟨⟩⟩
    | awaitPunch j d =>
      have hj : ∀ p, some j.after = some (Section.spawnPunch p) → p = w.punches.started := by
        cases j <;> rintro _ ⟨⟩
      cases d <;> simp only [body, Option.ite_none_right_eq_some] at h
      · cases h
        exact ⟨by rintro _ ⟨⟩, hj⟩
      · cases h.2
        exact ⟨by rintro _ ⟨⟩, hj⟩
    | teardown c ops =>
      cases ops with
      | nil =>
        cases h
        exact ⟨by rintro _ ⟨⟩, by rintro _ ⟨⟩⟩
      | cons op ops =>
        cases h
        refine ⟨fun p he => ?_, by rintro _ ⟨⟩⟩
        rcases op.effect_cases w.sb with h' | h' | h' | h' <;> exact absurd (h'.symm.trans he) nofun
    | setPaused | takeHandles | cancelPunch | removeDir =>
      cases h
      exact ⟨by rintro _ ⟨⟩, by rintro _ ⟨⟩⟩
    | _ => exact absurd rfl hs

theorem admission_ne_spawn (c : Call) (st : Wrenn.Sandbox.Startup.SandboxStatus) (p : ℕ) :
    c.admission st ≠ .go (.spawnPunch p) := by
  intro h
  cases admitted_of_go h

theorem started_le_apply (q : Punches) (e : Effect) : q.started ≤ (q.apply e).started := by
  unfold Punches.apply
  split <;> simp

theorem running_of_apply {q : Punches} (h : (q.apply e).running p = true) :
    q.running p = true ∨ e = .spawn p := by
  cases e with
  | spawn p' =>
    by_cases hp : p = p'
    · exact .inr (by rw [hp])
    · exact .inl (by simpa [Punches.apply, update_of_ne hp] using h)
  | cancel c => cases c <;> exact .inl h
  | _ => exact .inl h

theorem past_step {n : ℕ} (hp : Past n w) (h : step w a = some w') :
    Past n w' := by
  cases step_change h with
  | same hs => exact hp.frame hs.holder hs.punches
  | make ho hm => exact hp.frame (make_making ho hm).holder (make_making ho hm).punches
  | create hc => exact hp.frame (create_making hc).holder (create_making hc).punches
  | enter he =>
    obtain ⟨-, -, hadm, rfl⟩ := he
    refine ⟨hp.started, hp.finished, fun t p hsp => ?_⟩
    cases hsp
    exact absurd hadm (admission_ne_spawn _ _ _)
  | @body ch t s o hho hb =>
    obtain ⟨hspawn, hnext⟩ := body_spawn hb
    refine ⟨?_, fun p hr => ?_, fun t' p hsp => ?_⟩
    · rw [commit_punches]
      exact Nat.le_trans hp.started (started_le_apply ..)
    · rw [commit_punches] at hr
      rcases running_of_apply hr with hr | he
      · exact hp.finished p hr
      · exact hp.spawning t p (by rw [hho, hspawn p he])
    · have hn : o.next = some (.spawnPunch p) := by
        rw [← commit_holder w t o, hsp]
        rfl
      rw [hnext p hn]
      exact hp.started
  | @punched p0 _ =>
    refine ⟨hp.started, fun p hr => hp.finished p ?_, hp.spawning⟩
    by_cases he : p = p0
    · rw [he] at hr
      simp at hr
    · simpa [update_of_ne he] using hr

theorem quiet_of_cleaning (hi : Inv w) (hc : Cleaning w) : Quiet w := by
  obtain ⟨t, ⟨ops, hho⟩ | hho⟩ := hc
  all_goals exact quiet_of_calm hi hho rfl

theorem past_of_cleaning (hi : Inv w) (hc : Cleaning w) : Past w.punches.started w := by
  have hq : Quiet w := quiet_of_cleaning hi hc
  refine ⟨Nat.le_refl _, fun p hr => ?_, fun t p hsp => ?_⟩
  · rw [hq p] at hr
    cases hr
  · obtain ⟨t', ⟨ops, hho⟩ | hho⟩ := hc <;> (rw [hho] at hsp; cases hsp)

/-- **Background punching is exclusive.**  In every run of any calls on the sandbox: no punch goroutine
runs when a machine is launched from the pause directory, when its memory files are linked into a
template, when the directory is swapped, or while `cleanup` is behind its first statement, and none of
those started before such a `cleanup` runs at any later time; at most one runs at a time; each is
joined at most once. -/
theorem reach_punch_exclusive {w : World}
    (h : Reach step (fun _ _ => True) (fun w => w = start) w) :
    (∀ a w', step w a = some w' →
      w'.launches ≠ w.launches ∨ w'.links ≠ w.links ∨ w'.swaps ≠ w.swaps → Quiet w) ∧
    (Cleaning w → Quiet w ∧ ∀ w', Reach step (fun _ _ => True) (fun s => s = w) w' →
      ∀ p, w'.punches.running p = true → w.punches.started ≤ p) ∧
    (∀ p p', w.punches.running p = true → w.punches.running p' = true → p = p') ∧
    ∀ p, w.punches.joins p ≤ 1 := by
  have hi : Inv w := reach_inv h
  refine ⟨fun a w' hs hu => ?_, fun hc => ⟨quiet_of_cleaning hi hc, fun w' hr p hp => ?_⟩,
    fun p p' => ?_, ?_⟩
  · have hne : used w' ≠ used w := by
      intro he
      simp only [used, Prod.mk.injEq] at he
      tauto
    obtain ⟨t, s, hho, hcalm⟩ := calm_of_used hs hne
    exact quiet_of_calm hi hho hcalm
  · have hpast : Past w.punches.started w' := hr.invariant (I := Past w.punches.started)
      (fun s hs => by rw [hs]; exact past_of_cleaning hi hc)
      (fun s a s' hp _ hs => past_step hp hs)
    exact hpast.finished p hp
  · exact hi.kept.accounted.unique
  · exact hi.kept.accounted.once

/-- A sandbox is created and paused; `Destroy` finds the punch at work, cancels it and waits. -/
def destroyRun : List Act :=
  let c : Choice := ⟨true, "/images/base/rootfs.ext4", 9⟩
  ([.make .create] : List Act) ++ (List.replicate 7 (.create c) : List Act) ++
    ([.call 1 .pause, .act 1 true, .act 1 true] : List Act) ++
    (List.replicate 17 (.body c) : List Act) ++
    ([.call 2 .destroy, .act 2 true, .act 2 true, .body c, .body c, .punched 0, .body c] : List Act)

def destroyRunEnd : World := (exec step start destroyRun).getD start

theorem destroyRun_exclusive :
    destroyRunEnd.punches.started = 1 ∧ destroyRunEnd.punches.joins 0 = 1 ∧ Quiet destroyRunEnd := by
  have hrun : exec step start destroyRun = some destroyRunEnd := rfl
  have hr : Reach step (fun _ _ => True) (fun w => w = start) destroyRunEnd :=
    .of_admits rfl (admits_of_exec (fun _ _ _ => trivial) hrun) hrun
  have hc : Cleaning destroyRunEnd := ⟨2, .inl ⟨teardownOps, rfl⟩⟩
  exact ⟨rfl, rfl, ((reach_punch_exclusive hr).2.1 hc).1⟩

end Wrenn.Object.Punch
