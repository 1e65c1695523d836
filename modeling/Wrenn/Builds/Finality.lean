import Wrenn.Builds.Model

/-!
# The status of a build

A build whose status is `success`, `failed` or `cancelled` should stay so, and one that was cancelled should be
`cancelled`.  `reach_build_status_final` shows it for the runs in which `Cancel` meets the worker in places
where the worker looks at its context before it writes: not between the mark `running` and the first phase,
where every failure, also one by the cancellation, is written without a look, and not between a look and the
write after it.  `cancelled_build_fails` and `success_written_over` are runs outside these bounds.
-/

namespace Wrenn.Builds.Finality

open Lib.Runs Lib.Threads Model

/-! ### The condition -/

/-- The call has written the status and not yet signalled the worker. -/
def pastWrite : Proc → Bool
  | .lookup | .signal => true
  | _ => false

/-- The call has read the status and not yet signalled the worker. -/
def midway : Proc → Bool
  | .write | .lookup | .signal => true
  | _ => false

/-- The worker may still write `failed` without a look at its context. -/
def unguarded (b : Build) : Stage → Bool
  | .readRecipe | .provision _ | .parseRecipe | .markFailed => true
  | .phase .preBuild | .phase .recipe | .healthcheck => decide (b.healthcheck = some false)
  | _ => false

/-- The next step of the worker writes the status or looks at the context. -/
def decides : Stage → Bool
  | .markRunning | .check | .markSuccess | .markFailed => true
  | _ => false

/-- A `Cancel` writes the status only where the worker will look at its context, it learns of its write and
goes on to the signal, and the worker waits with its own writes and looks until then. -/
def Timely (s : State) : Act → Prop
  | .act t r => s.threads[t]? = some .write → unguarded s.core.build s.core.worker = false ∧ r ≠ .lost
  | .crash t => ∀ p ∈ s.threads[t]?, pastWrite p = false
  | .env (.work _) => decides s.core.worker = true → s.threads.any midway = false
  | _ => True

instance (s : State) : ∀ a, Decidable (Timely s a)
  | .act t r => inferInstanceAs
      (Decidable (s.threads[t]? = some .write → unguarded s.core.build s.core.worker = false ∧ r ≠ .lost))
  | .crash t => inferInstanceAs (Decidable (∀ p ∈ s.threads[t]?, pastWrite p = false))
  | .env (.work _) => inferInstanceAs
      (Decidable (decides s.core.worker = true → s.threads.any midway = false))
  | .env .shutdown | .env .die | .start _ => isTrue trivial

/-! ### The invariant -/

/-- The worker is at work on the build. -/
def exposed : Stage → Bool
  | .queued | .register | .fetch | .unregister | .done => false
  | _ => true

/-- The worker is in `cancelMap`. -/
def listed : Stage → Bool
  | .queued | .register | .done => false
  | _ => true

/-- The worker writes no more. -/
def settled : Stage → Bool
  | .unregister | .done => true
  | _ => false

structure Firm (k : Core) (threads : List Proc) : Prop where
  cancelled : k.cancelReturned = true ∨ threads.any pastWrite = true → k.status = .cancelled
  guarded : k.status = .cancelled → unguarded k.build k.worker = false
  signalled : k.status = .cancelled → exposed k.worker = true →
    k.ctxDone = true ∨ threads.any pastWrite = true
  ended : k.status = .success ∨ k.status = .failed → settled k.worker = true ∧ threads.any midway = false
  registered : listed k.worker = true → k.registered = true

section Invariant

variable {k : Core} {threads threads' rest : List Proc} {p : Proc}

theorem Firm.perm (h : Firm k threads) (hp : threads.Perm threads') : Firm k threads' := by
  have hpast : threads.any pastWrite = threads'.any pastWrite := hp.any_eq
  have hmid : threads.any midway = threads'.any midway := hp.any_eq
  obtain ⟨hc, hg, hs, he, hr⟩ := h
  rw [hpast] at hc hs
  rw [hmid] at he
  exact ⟨hc, hg, hs, he, hr⟩

variable {q : Proc} {r : Reply} {k' : Core} {w : Stage}

/-- A call that has not written goes on to where it has not written. -/
theorem Firm.replace (h : Firm k (p :: rest)) (hp : pastWrite p = false) (hq : pastWrite q = false)
    (hmid : midway q = true → k.status.final = false) : Firm k (q :: rest) := by
  obtain ⟨hc, hg, hs, he, hr⟩ := h
  simp only [List.any_cons, hp, Bool.false_or] at hc hs
  refine ⟨?_, hg, ?_, fun hst => ⟨(he hst).1, ?_⟩, hr⟩
  · simpa only [List.any_cons, hq, Bool.false_or] using hc
  · simpa only [List.any_cons, hq, Bool.false_or] using hs
  · have hrest : rest.any midway = false := by
      have := (he hst).2
      rw [List.any_cons, Bool.or_eq_false_iff] at this
      exact this.2
    rw [List.any_cons, hrest, Bool.or_false]
    by_contra hmid'
    have hnot := hmid (eq_true_of_ne_false hmid')
    rcases hst with hst | hst <;> rw [hst] at hnot <;> cases hnot

theorem firm_start (h : Firm k threads) : Firm k (.read :: threads) := by
  obtain ⟨hc, hg, hs, he, hr⟩ := h
  exact ⟨hc, hg, hs, he, hr⟩

/-! ### The steps of `Cancel` -/

theorem firm_write (h : Firm k (.write :: rest))
    (hok : unguarded k.build k.worker = false ∧ r ≠ .lost) (hrun : run k r .write = some (k', q)) :
    Firm k' (q :: rest) := by
  cases hrun
  cases r with
  | ok =>
    refine ⟨fun _ => rfl, fun _ => hok.1, fun _ _ => .inr rfl, ?_, h.registered⟩
    rintro (hst | hst) <;> cases hst
  | lost => exact absurd rfl hok.2
  | failed => exact h.replace rfl rfl fun hq => by cases hq

theorem firm_lookup (h : Firm k (.lookup :: rest))
    (hrun : run k r .lookup = some (k', q)) : Firm k' (q :: rest) := by
  have hst : k.status = .cancelled := h.cancelled (.inr rfl)
  obtain ⟨hc, hg, hs, he, hr⟩ := h
  unfold run at hrun
  by_cases hreg : k.registered = true
  · rw [if_pos hreg] at hrun
    cases hrun
    refine ⟨fun _ => hst, hg, fun _ _ => .inr rfl, ?_, hr⟩
    rintro (h' | h') <;> rw [hst] at h' <;> cases h'
  · rw [if_neg hreg] at hrun
    cases hrun
    refine ⟨fun _ => hst, hg, fun _ hexp => absurd (hr ?_) hreg, ?_, hr⟩
    · revert hexp
      cases k.worker <;> simp [exposed, listed]
    · rintro (h' | h') <;> rw [show k.status = _ from hst] at h' <;> cases h'

theorem firm_signal (h : Firm k (.signal :: rest)) :
    Firm { k with ctxDone := true, cancelReturned := true } (.halt :: rest) := by
  have hst : k.status = .cancelled := h.cancelled (.inr rfl)
  refine ⟨fun _ => hst, h.guarded, fun _ _ => .inl rfl, ?_, h.registered⟩
  rintro (h' | h') <;> rw [show k.status = _ from hst] at h' <;> cases h'

theorem firm_run (h : Firm k (p :: rest))
    (hok : p = .write → unguarded k.build k.worker = false ∧ r ≠ .lost) (hrun : run k r p = some (k', q)) :
    Firm k' (q :: rest) := by
  cases p with
  | read =>
    cases hrun
    refine h.replace rfl ?_ ?_
    · split_ifs <;> rfl
    · split_ifs with hcond
      · exact fun _ => hcond.2
      · intro hq
        cases hq
  | write => exact firm_write h (hok rfl) hrun
  | lookup => exact firm_lookup h hrun
  | signal =>
    cases hrun
    exact firm_signal h
  | halt => cases hrun

/-! ### The steps of the worker -/

theorem listed_of_exposed (h : exposed w = true) : listed w = true := by
  revert h
  cases w <;> simp [exposed, listed]

theorem settled_of_exposed (h : exposed w = true) : settled w = false := by
  revert h
  cases w <;> simp [exposed, settled]

theorem exposed_of_unguarded {b : Build} (h : unguarded b w = true) : exposed w = true := by
  revert h
  cases w <;> simp [exposed, unguarded]

/-- The worker goes on and leaves the status as it is. -/
theorem Firm.advance (h : Firm k threads) (hexp : exposed k.worker = true) (t : Bool)
    (hguarded : k.status = .cancelled → unguarded k.build w = false) :
    Firm { k with worker := w, template := t } threads := by
  refine ⟨h.cancelled, hguarded, fun hst _ => h.signalled hst hexp, fun hst => ?_,
    fun _ => h.registered (listed_of_exposed hexp)⟩
  have hsettled := (h.ended hst).1
  rw [settled_of_exposed hexp] at hsettled
  cases hsettled

theorem Firm.leave (h : Firm k threads) (hlisted : listed k.worker = true) :
    Firm { k with worker := .unregister } threads :=
  ⟨h.cancelled, fun _ => rfl, fun _ => nofun, fun hst => ⟨rfl, (h.ended hst).2⟩,
    fun _ => h.registered hlisted⟩

/-- The worker takes up the build. -/
theorem Firm.enter (h : Firm k threads) (hsettled : settled k.worker = false) {r : Bool}
    (hguarded : unguarded k.build w = false) (hexp : exposed w = true → k.status ≠ .cancelled)
    (hlisted : listed w = true → r = true) : Firm { k with worker := w, registered := r } threads := by
  refine ⟨h.cancelled, fun _ => hguarded, fun hst he => absurd hst (hexp he), fun hst => ?_, hlisted⟩
  have hend := (h.ended hst).1
  rw [hsettled] at hend
  cases hend

/-- The worker writes over a status that is not final. -/
theorem Firm.writes (h : Firm k threads) {st : Status} (hst : k.status.final = false)
    (hnew : st ≠ .cancelled) (hended : st = .success ∨ st = .failed → settled w = true ∧ threads.any midway = false)
    (hlisted : listed k.worker = true) : Firm { k with status := st, worker := w } threads := by
  refine ⟨fun hc => ?_, fun hc => absurd hc hnew, fun hc => absurd hc hnew, hended,
    fun _ => h.registered hlisted⟩
  rw [show k.status = .cancelled from h.cancelled hc] at hst
  cases hst

theorem any_pastWrite (h : threads.any midway = false) : threads.any pastWrite = false := by
  rw [List.any_eq_false] at h ⊢
  intro p hp hpast
  refine h p hp ?_
  cases p <;> first | rfl | cases hpast

/-- A write of the worker that is executed meets a status that is not final. -/
theorem Firm.not_final (h : Firm k threads) (hmid : threads.any midway = false) (hexp : exposed k.worker = true)
    (hctx : k.ctxDone = false ∨ unguarded k.build k.worker = true) : k.status.final = false := by
  have hsettled := settled_of_exposed hexp
  cases hst : k.status with
  | pending | running => rfl
  | success =>
    have := (h.ended (.inl hst)).1
    rw [hsettled] at this
    cases this
  | failed =>
    have := (h.ended (.inr hst)).1
    rw [hsettled] at this
    cases this
  | cancelled =>
    have hsig := h.signalled hst hexp
    rw [any_pastWrite hmid] at hsig
    have hguarded := h.guarded hst
    rcases hctx with hctx | hun
    · simp [hctx] at hsig
    · rw [hun] at hguarded
      cases hguarded

theorem onCtx_done (h : k.ctxDone = true) : onCtx k r = .failed := if_pos h

/-- A write on the context of the build, which ends the work unless it is the mark `running`. -/
theorem Firm.write_onCtx (h : Firm k threads) (hmid : threads.any midway = false)
    (hexp : exposed k.worker = true) {st : Status} (hnew : st ≠ .cancelled)
    (hended : st = .success ∨ st = .failed → settled w = true) :
    Firm { k with
      status := written k st (onCtx k r)
      worker := if onCtx k r = .ok then w else .unregister } threads := by
  cases hr : onCtx k r with
  | failed => exact h.leave (listed_of_exposed hexp)
  | ok | lost =>
    have hctx : k.ctxDone = false := by
      by_contra hctx
      rw [onCtx_done (eq_true_of_ne_false hctx)] at hr
      cases hr
    have hst := h.not_final hmid hexp (.inl hctx)
    refine h.writes hst hnew (fun h => ⟨?_, hmid⟩) (listed_of_exposed hexp)
    first | exact hended h | rfl

theorem firm_markFailed (h : Firm k threads) (hmid : threads.any midway = false) (hw : k.worker = .markFailed)
    (r : Reply) : Firm { k with status := written k .failed r, worker := .unregister } threads := by
  have hexp : exposed k.worker = true := by rw [hw]; rfl
  have hst := h.not_final hmid hexp (.inr (by rw [hw]; rfl))
  cases r with
  | failed => exact h.leave (listed_of_exposed hexp)
  | ok | lost => exact h.writes hst nofun (fun _ => ⟨rfl, hmid⟩) (listed_of_exposed hexp)

theorem firm_healthcheck (h : Firm k threads) (hw : k.worker = .healthcheck)
    (hfail : k.build.healthcheck ≠ some false → unguarded k.build w = false) :
    Firm { k with worker := w } threads := by
  refine h.advance (by rw [hw]; rfl) k.template fun hst => hfail ?_
  have hguarded := h.guarded hst
  rw [hw] at hguarded
  exact of_decide_eq_false hguarded

theorem firm_fetch (h : Firm k threads) (hw : k.worker = .fetch) (r : Reply)
    (hwork : (if onCtx k r = .ok ∧ k.status ≠ .cancelled then some { k with worker := .markRunning }
      else some { k with worker := .unregister }) = some k') : Firm k' threads := by
  have hlisted : listed k.worker = true := by rw [hw]; rfl
  split_ifs at hwork with hcond <;> cases hwork
  · exact h.enter (by rw [hw]; rfl) rfl (fun _ => hcond.2) fun _ => h.registered hlisted
  · exact h.leave hlisted

theorem firm_work (h : Firm k threads)
    (hok : decides k.worker = true → threads.any midway = false) (hwork : work k r = some k') :
    Firm k' threads := by
  -- at a stage without a look ahead the build cannot be cancelled
  have hfree : unguarded k.build k.worker = true → ∀ w, Firm { k with worker := w } threads := fun hun w =>
    h.advance (exposed_of_unguarded hun) k.template fun hst => by
      rw [h.guarded hst] at hun
      cases hun
  have hlook : decides k.worker = true → exposed k.worker = true → k.ctxDone = false → k.status ≠ .cancelled :=
    fun hd hexp hctx hst => by
      have hnot := h.not_final (hok hd) hexp (.inl hctx)
      rw [hst] at hnot
      cases hnot
  unfold work at hwork
  cases hw : k.worker with
  | queued =>
    rw [hw] at hwork
    cases hwork
    exact h.enter (by rw [hw]; rfl) rfl nofun nofun
  | register =>
    rw [hw] at hwork
    cases hwork
    exact h.enter (by rw [hw]; rfl) rfl nofun fun _ => rfl
  | fetch =>
    rw [hw] at hwork
    exact firm_fetch h hw r hwork
  | markRunning =>
    rw [hw] at hwork
    cases hwork
    refine h.write_onCtx (hok (by rw [hw]; rfl)) (by rw [hw]; rfl) nofun ?_
    rintro (hst | hst) <;> cases hst
  | readRecipe | provision p | parseRecipe =>
    rw [hw] at hwork
    cases hwork
    exact hfree (by rw [hw]; rfl) _
  | phase ph =>
    rw [hw] at hwork
    cases hwork
    refine h.advance (by rw [hw]; rfl) k.template fun hst => ?_
    have hguard := h.guarded hst
    rw [hw] at hguard
    split_ifs
    · cases ph <;> exact hguard
    · rfl
  | healthcheck =>
    rw [hw] at hwork
    cases hwork
    refine firm_healthcheck h hw fun hvalid => ?_
    have hafter : unguarded k.build (afterHealthcheck k.build) = false := by
      unfold afterHealthcheck
      split_ifs <;> rfl
    split
    · exact hafter
    case h_2 hfalse => exact absurd hfalse hvalid
    · split_ifs
      · exact hafter
      · rfl
  | check =>
    rw [hw] at hwork
    cases hwork
    have hexp : exposed k.worker = true := by rw [hw]; rfl
    by_cases hctx : k.ctxDone = true
    · rw [if_pos hctx]
      exact h.leave (listed_of_exposed hexp)
    · rw [if_neg hctx]
      refine h.advance hexp k.template fun hst => absurd hst ?_
      exact hlook (by rw [hw]; rfl) hexp (eq_false_of_ne_true hctx)
  | persist =>
    rw [hw] at hwork
    cases hwork
    refine h.advance (by rw [hw]; rfl) k.template fun _ => ?_
    split_ifs <;> rfl
  | insertTemplate =>
    rw [hw] at hwork
    cases hwork
    exact h.advance (by rw [hw]; rfl) _ fun _ => rfl
  | markSuccess =>
    rw [hw] at hwork
    cases hwork
    have hwrite : Firm { k with
        status := written k .success (onCtx k r)
        worker := if onCtx k r = .ok then .unregister else .unregister } threads :=
      h.write_onCtx (hok (by rw [hw]; rfl)) (by rw [hw]; rfl) nofun fun _ => rfl
    rwa [ite_self] at hwrite
  | markFailed =>
    rw [hw] at hwork
    cases hwork
    exact firm_markFailed h (hok (by rw [hw]; rfl)) hw r
  | unregister =>
    rw [hw] at hwork
    cases hwork
    exact ⟨h.cancelled, fun _ => rfl, fun _ => nofun, fun hst => ⟨rfl, (h.ended hst).2⟩, nofun⟩
  | done =>
    rw [hw] at hwork
    cases hwork

/-! ### What a step does to the status -/

theorem work_status (h : Firm k threads)
    (hok : decides k.worker = true → threads.any midway = false) (hwork : work k r = some k')
    (hfinal : k.status.final = true) : k'.status = k.status := by
  have honCtx : decides k.worker = true → exposed k.worker = true → ∀ st, written k st (onCtx k r) = k.status := by
    intro hd hexp st
    have hctx : k.ctxDone = true := by
      by_contra hctx
      have hnot := h.not_final (hok hd) hexp (.inl (eq_false_of_ne_true hctx))
      rw [hfinal] at hnot
      cases hnot
    rw [onCtx_done hctx]
    rfl
  unfold work at hwork
  cases hw : k.worker <;> rw [hw] at hwork
  case fetch =>
    dsimp only at hwork
    split_ifs at hwork <;> cases hwork <;> rfl
  case markRunning =>
    cases hwork
    exact honCtx (by rw [hw]; rfl) (by rw [hw]; rfl) _
  case markSuccess =>
    cases hwork
    exact honCtx (by rw [hw]; rfl) (by rw [hw]; rfl) _
  case markFailed =>
    have hnot := h.not_final (hok (by rw [hw]; rfl)) (by rw [hw]; rfl) (.inr (by rw [hw]; rfl))
    rw [hfinal] at hnot
    cases hnot
  all_goals
    cases hwork
    try rfl

theorem run_status (h : Firm k (p :: rest))
    (hrun : run k r p = some (k', q)) (hfinal : k.status.final = true) : k'.status = k.status := by
  cases p with
  | read | signal =>
    cases hrun
    rfl
  | write =>
    cases hrun
    have hst : k.status = .cancelled := by
      cases hst : k.status with
      | pending | running => rw [hst] at hfinal; cases hfinal
      | success => cases (h.ended (.inl hst)).2
      | failed => cases (h.ended (.inr hst)).2
      | cancelled => rfl
    cases r <;> simp [written, hst]
  | lookup =>
    unfold run at hrun
    split_ifs at hrun <;> cases hrun <;> rfl
  | halt => cases hrun

theorem firm_env (h : Firm k threads) {e : Env}
    (hok : ∀ r, e = .work r → decides k.worker = true → threads.any midway = false) (henv : env k e = some k') :
    Firm k' threads ∧ (k.status.final = true → k'.status = k.status) := by
  cases e with
  | work r => exact ⟨firm_work h (hok r rfl) henv, work_status h (hok r rfl) henv⟩
  | shutdown =>
    cases henv
    exact ⟨⟨h.cancelled, h.guarded, fun _ _ => .inl rfl, h.ended, h.registered⟩, fun _ => rfl⟩
  | die =>
    cases henv
    exact ⟨⟨h.cancelled, fun _ => rfl, fun _ => nofun, fun hst => ⟨rfl, (h.ended hst).2⟩, nofun⟩, fun _ => rfl⟩

end Invariant

theorem firm_step {s s' : State} {a : Act} (h : Firm s.core s.threads) (hok : Timely s a)
    (hs : step s a = some s') :
    Firm s'.core s'.threads ∧ (s.core.status.final = true → s'.core.status = s.core.status) := by
  cases moves_of_step hs with
  | start hspawn hs' =>
    cases hspawn
    exact ⟨(firm_start h).perm hs'.symm, fun _ => rfl⟩
  | @act t r k p q rest threads hp hrun hthreads hs' =>
    have h' := h.perm hthreads
    refine ⟨(firm_run h' (fun hw => hok (hw ▸ hp)) hrun).perm hs'.symm, run_status h' hrun⟩
  | @crash t p rest threads hp hthreads hs' =>
    have hhalt : Firm s.core (.halt :: rest) := (h.perm hthreads).replace (hok p hp) rfl nofun
    exact ⟨hhalt.perm hs'.symm, fun _ => rfl⟩
  | noCrash => exact ⟨h, fun _ => rfl⟩
  | env henv => exact firm_env h (fun r he => by subst he; exact hok) henv

/-! ### The result -/

/-- In timely runs a build is `cancelled` once `Cancel` has returned nil, and no final status changes. -/
theorem reach_build_status_final {s : State} (h : Reach step Timely Initial s) :
    (s.core.cancelReturned = true → s.core.status = .cancelled) ∧
      ∀ a s', Timely s a → step s a = some s' → s.core.status.final = true →
        s'.core.status = s.core.status := by
  have hfirm : Firm s.core s.threads := by
    refine h.invariant (I := fun s => Firm s.core s.threads) ?_ fun s a s' hi hok hs => (firm_step hi hok hs).1
    rintro s ⟨build, rfl⟩
    exact ⟨by simp, nofun, nofun, by simp, nofun⟩
  exact ⟨fun hret => hfirm.cancelled (.inl hret), fun a s' hok hs => (firm_step hfirm hok hs).2⟩

/-! ### Runs -/

/-- A build whose columns are all in order, with a healthcheck. -/
def enqueued : State := ⟨⟨⟨true, true, some true, false, false⟩, .pending, false, .queued, false, false, false⟩, []⟩

def works (n : ℕ) : List Act := List.replicate n (.env (.work .ok))

/-- A call of `Cancel` that is not disturbed. -/
def cancelCall : List Act := [.start (), .act 0 .ok, .act 0 .ok, .act 0 .ok, .act 0 .ok]

/-- The build is cancelled in the phase of the recipe; the phase fails and the worker leaves. -/
def cancelledInRecipe : List Act := works 11 ++ cancelCall ++ ([.env (.work .failed)] : List Act) ++ works 2

theorem cancelled_in_recipe_stays :
    (last step enqueued cancelledInRecipe).core.status = .cancelled ∧
      (last step enqueued cancelledInRecipe).core.worker = .done := by
  have hadm : Admits step Timely enqueued cancelledInRecipe := by decide +kernel
  exact ⟨(reach_build_status_final (.last ⟨_, rfl⟩ hadm)).1 (by decide +kernel), by decide +kernel⟩

def view (s : State) : Status × Bool × Bool := (s.core.status, s.core.template, s.core.cancelReturned)

/-- `Cancel` returns nil while a host is being selected.  The selection fails because of the cancellation, and
`failBuild` writes `failed` over `cancelled`. -/
theorem cancelled_build_fails :
    (exec step enqueued (works 5 ++ cancelCall)).map view = some (.cancelled, false, true) ∧
      (exec step enqueued (works 5 ++ cancelCall ++ works 2)).map view = some (.failed, false, true) := by
  constructor <;> decide +kernel

/-- `Cancel` has read `running`; the worker inserts the template and writes `success`; `Cancel` writes over
it. -/
theorem success_written_over :
    (exec step enqueued (works 14 ++ ([.start (), .act 0 .ok] : List Act) ++ works 3)).map view =
        some (.success, true, false) ∧
      (exec step enqueued (works 14 ++ ([.start (), .act 0 .ok] : List Act) ++ works 3 ++
        ([.act 0 .ok] : List Act))).map view =
        some (.cancelled, true, false) := by
  constructor <;> decide +kernel

end Wrenn.Builds.Finality
