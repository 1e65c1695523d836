import Wrenn.Proxy.Tracker

/-!
# Force-closing

`ForceClose` cancels the context of the tracker, if there is one.  It is made by the first request that
asks for it, so a request that has been admitted and asks late makes a new one, or gets the one that
`Reset` has made meanwhile.

* `reach_force_closed`: if all admitted requests have their context when `ForceClose` is called, and `Reset` replaces no
  context that is in use and not cancelled, then `ForceClose` reaches every request;
* `late_context_not_cancelled`: a request that asks late.
-/

namespace Wrenn.Proxy.ForceClose

open Tracker Lib.Places Lib.Runs

/-- Every admitted request has its context when `ForceClose` is called, and `Reset` replaces a context that has been
cancelled or that nobody uses. -/
def Prompt (s : State) : Act → Prop
  | .forceClose => ∀ r ∈ s.requests, r.pc ≠ .admitted
  | .proceed _ => s.control = .resetCtx → ∀ c ∈ s.ctx, c ∈ s.cancelled ∨ ∀ r ∈ s.requests, r.pc ≠ .serving c
  | _ => True

instance (s : State) : ∀ a, Decidable (Prompt s a)
  | .forceClose => inferInstanceAs (Decidable (∀ r ∈ s.requests, r.pc ≠ .admitted))
  | .proceed _ => inferInstanceAs (Decidable (s.control = .resetCtx →
      ∀ c ∈ s.ctx, c ∈ s.cancelled ∨ ∀ r ∈ s.requests, r.pc ≠ .serving c))
  | .request | .move _ | .drain | .reset => isTrue trivial

/-- What a step does to the contexts, but for `Context` itself. -/
structure Frame (s s' : State) : Prop where
  ctx : s'.ctx = s.ctx
  cancelled : s'.cancelled = s.cancelled
  closes : s'.closes = s.closes

structure Reached (s : State) : Prop where
  admitted : ∀ r ∈ s.requests, r.pc = .admitted → r.since = s.closes
  current : ∀ r ∈ s.requests, ∀ c, r.pc = .serving c → c ∈ s.cancelled ∨ s.ctx = some c
  cancelled : ∀ r ∈ s.requests, ∀ c, r.pc = .serving c → r.since < s.closes → c ∈ s.cancelled

section Step

variable {s s' : State} {i : ℕ} {r : Request}

theorem mem_set {l : List Request} {r' q : Request} (hr : l[i]? = some r) (hq : q ∈ l.set i r') : q = r' ∨ q ∈ l := by
  obtain ⟨j, hj⟩ := List.mem_iff_getElem?.mp hq
  rcases get_set hr hj with ⟨-, rfl⟩ | ⟨-, hj⟩
  · exact .inl rfl
  · exact .inr (List.mem_of_getElem? hj)

/-- One request is replaced by one that has no context. -/
theorem Reached.set (h : Reached s) (hr : s.requests[i]? = some r) {r' : Request} (hf : Frame s s')
    (hreq : s'.requests = s.requests.set i r') (hserve : ∀ c, r'.pc ≠ .serving c)
    (hadm : r'.pc = .admitted → r'.since = s.closes) : Reached s' := by
  have hold : ∀ q ∈ s'.requests, q = r' ∨ q ∈ s.requests := fun q hq => mem_set hr (hreq ▸ hq)
  refine ⟨fun q hq hpc => ?_, fun q hq c hpc => ?_, fun q hq c hpc hlt => ?_⟩
  · rw [hf.closes]
    rcases hold q hq with rfl | hq
    · exact hadm hpc
    · exact h.admitted q hq hpc
  · rw [hf.cancelled, hf.ctx]
    rcases hold q hq with rfl | hq
    · exact absurd hpc (hserve c)
    · exact h.current q hq c hpc
  · rw [hf.cancelled]
    rw [hf.closes] at hlt
    rcases hold q hq with rfl | hq
    · exact absurd hpc (hserve c)
    · exact h.cancelled q hq c hpc hlt

theorem Reached.frame (h : Reached s) (hf : Frame s s') (hreq : s'.requests = s.requests) : Reached s' := by
  refine ⟨fun q hq hpc => ?_, fun q hq c hpc => ?_, fun q hq c hpc hlt => ?_⟩
  · rw [hf.closes]
    exact h.admitted q (hreq ▸ hq) hpc
  · rw [hf.cancelled, hf.ctx]
    exact h.current q (hreq ▸ hq) c hpc
  · rw [hf.cancelled]
    rw [hf.closes] at hlt
    exact h.cancelled q (hreq ▸ hq) c hpc hlt

/-- A request gets its context. -/
theorem Reached.context (h : Reached s) (hr : s.requests[i]? = some r) (hpc : r.pc = .admitted) :
    Reached (s.context i r) := by
  have hsince := h.admitted r (List.mem_of_getElem? hr) hpc
  have hget : ∀ {ctx : ℕ} {contexts : ℕ}, (∀ c, s.ctx = some c → c = ctx) →
      Reached ({ s with ctx := some ctx, contexts := contexts }.setPc i r (.serving ctx)) := by
    intro ctx contexts hctx
    refine ⟨fun q hq hq' => ?_, fun q hq c hq' => ?_, fun q hq c hq' hlt => ?_⟩
    · rcases mem_set hr hq with rfl | hq
      · cases hq'
      · exact h.admitted q hq hq'
    · rcases mem_set hr hq with rfl | hq
      · cases hq'
        exact .inr rfl
      · refine (h.current q hq c hq').imp id fun hc => ?_
        rw [hctx c hc]
        rfl
    · rcases mem_set hr hq with rfl | hq
      · change r.since < s.closes at hlt
        omega
      · exact h.cancelled q hq c hq' hlt
  unfold State.context
  split
  · rename_i c hc
    have hs : s = { s with ctx := some c, contexts := s.contexts } := by rw [← hc]
    rw [hs]
    exact hget fun c' hc' => Option.some.inj (hc'.symm.trans hc)
  · rename_i hc
    exact hget fun c' hc' => by
      rw [hc] at hc'
      cases hc'

theorem Reached.advance (h : Reached s) (hr : s.requests[i]? = some r) (hs : s.advance i r = some s') : Reached s' := by
  unfold State.advance at hs
  split at hs
  · cases hs
    refine h.set hr ⟨rfl, rfl, rfl⟩ rfl ?_ ?_
    · split_ifs <;> rintro _ ⟨⟩
    · split_ifs <;> rintro ⟨⟩
  · obtain ⟨-, hs⟩ := Option.ite_none_right_eq_some.mp hs
    cases hs
    exact h.set hr ⟨rfl, rfl, rfl⟩ rfl (by rintro _ ⟨⟩) (by rintro ⟨⟩)
  · cases hs
    split_ifs
    · exact h.set hr ⟨rfl, rfl, rfl⟩ rfl (by rintro _ ⟨⟩) (by rintro ⟨⟩)
    · exact h.set hr ⟨rfl, rfl, rfl⟩ rfl (by rintro _ ⟨⟩) (by rintro ⟨⟩)
  · cases hs
    unfold State.increment
    split_ifs
    · exact h.set hr ⟨rfl, rfl, rfl⟩ rfl (by rintro _ ⟨⟩) fun _ => rfl
    · exact h.set hr ⟨rfl, rfl, rfl⟩ rfl (by rintro _ ⟨⟩) fun _ => rfl
  · rename_i hpc
    cases hs
    exact h.context hr hpc
  · obtain ⟨-, hs⟩ := Option.ite_none_right_eq_some.mp hs
    cases hs
    unfold State.release
    split
    · split_ifs
      · exact h.set hr ⟨rfl, rfl, rfl⟩ rfl (by rintro _ ⟨⟩) (by rintro ⟨⟩)
      · exact h.set hr ⟨rfl, rfl, rfl⟩ rfl (by rintro _ ⟨⟩) (by rintro ⟨⟩)
    · exact h.set hr ⟨rfl, rfl, rfl⟩ rfl (by rintro _ ⟨⟩) (by rintro ⟨⟩)
  all_goals cases hs

theorem Reached.proceed (h : Reached s) {w : Wake} (hok : Prompt s (.proceed w)) (hs : s.proceed w = some s') :
    Reached s' := by
  have hwait : ∀ control, Reached { s.waitDrain.1 with control := control } := by
    intro control
    unfold State.waitDrain
    split_ifs
    all_goals exact h.frame ⟨rfl, rfl, rfl⟩ rfl
  unfold State.proceed at hs
  split at hs
  · cases hs
  · cases hs
    exact h.frame ⟨rfl, rfl, rfl⟩ rfl
  · obtain ⟨-, hs⟩ := Option.ite_none_right_eq_some.mp hs
    cases hs
    exact hwait _
  · obtain ⟨-, hs⟩ := Option.ite_none_right_eq_some.mp hs
    cases hs
    exact h.frame ⟨rfl, rfl, rfl⟩ rfl
  · obtain ⟨-, hs⟩ := Option.ite_none_right_eq_some.mp hs
    cases hs
    exact hwait _
  · obtain ⟨-, hs⟩ := Option.ite_none_right_eq_some.mp hs
    cases hs
    exact h.frame ⟨rfl, rfl, rfl⟩ rfl
  · rename_i hc
    cases hs
    refine ⟨h.admitted, fun q hq c hpc => .inl ?_, h.cancelled⟩
    -- The context that is replaced has been cancelled, or is not in use.
    rcases h.current q hq c hpc with hcan | hctx
    · exact hcan
    · exact (hok hc c hctx).resolve_right fun hnone => hnone q hq hpc
  · cases hs
    exact h.frame ⟨rfl, rfl, rfl⟩ rfl

end Step

theorem reached_step {s s' : State} {a : Act} (h : Reached s) (hok : Prompt s a) (hs : step s a = some s') :
    Reached s' := by
  cases a with
  | request =>
    cases hs
    have hold : ∀ {q : Request}, q ∈ s.requests ++ [⟨.start, 0⟩] → q ∈ s.requests ∨ q.pc = .start := fun hq =>
      (List.mem_append.mp hq).imp id fun hq => by rw [List.mem_singleton.mp hq]
    refine ⟨fun q hq hpc => ?_, fun q hq c hpc => ?_, fun q hq c hpc hlt => ?_⟩
    · rcases hold hq with hq | hst
      · exact h.admitted q hq hpc
      · cases hst.symm.trans hpc
    · rcases hold hq with hq | hst
      · exact h.current q hq c hpc
      · cases hst.symm.trans hpc
    · rcases hold hq with hq | hst
      · exact h.cancelled q hq c hpc hlt
      · cases hst.symm.trans hpc
  | move i =>
    obtain ⟨r, hr, hs⟩ := Option.bind_eq_some_iff.mp hs
    exact h.advance hr hs
  | drain =>
    obtain ⟨-, hs⟩ := Option.ite_none_right_eq_some.mp hs
    cases hs
    exact h.frame ⟨rfl, rfl, rfl⟩ rfl
  | forceClose =>
    obtain ⟨-, hs⟩ := Option.ite_none_right_eq_some.mp hs
    cases hs
    have hall : ∀ q ∈ s.requests, ∀ c, q.pc = .serving c → c ∈ s.ctx.toList ++ s.cancelled := by
      intro q hq c hpc
      rcases h.current q hq c hpc with hcan | hctx
      · exact List.mem_append_right _ hcan
      · exact List.mem_append_left _ (Option.mem_toList.mpr hctx)
    exact ⟨fun q hq hpc => absurd hpc (hok q hq), fun q hq c hpc => .inl (hall q hq c hpc),
      fun q hq c hpc _ => hall q hq c hpc⟩
  | reset =>
    obtain ⟨-, hs⟩ := Option.ite_none_right_eq_some.mp hs
    cases hs
    unfold State.signalDrain
    split
    all_goals exact h.frame ⟨rfl, rfl, rfl⟩ rfl
  | proceed w => exact h.proceed hok hs

/-- A request that was admitted before a `ForceClose` has a cancelled context, in every later state. -/
theorem reach_force_closed {s : State} (h : Reach step Prompt Initial s) :
    ∀ r ∈ s.requests, ∀ c, r.pc = .serving c → r.since < s.closes → c ∈ s.cancelled := by
  have hinv : Reached s := by
    refine h.invariant ?_ fun s a s' hi hok hs => reached_step hi hok hs
    rintro s rfl
    exact ⟨List.forall_mem_nil _, List.forall_mem_nil _,
      (List.forall_mem_nil _)⟩
  exact hinv.cancelled

/-- `Acquire`, alone. -/
def acquire (i : ℕ) : List Act := [.request, .move i, .move i, .move i, .move i]

/-- `Drain` and `ForceClose` that both time out. -/
def quiesce : List Act :=
  [.drain, .proceed .timeout, .proceed .timeout, .proceed .timeout, .forceClose, .proceed .timeout, .proceed .timeout]

def reset : List Act := [.reset, .proceed .timeout, .proceed .timeout]

/-- The request asks for its context before the pause. -/
def promptRun : List Act := acquire 0 ++ ([.move 0] : List Act) ++ quiesce ++ reset

theorem prompt_run_cancelled :
    (last step fresh promptRun).requests = [⟨.serving 0, 0⟩] ∧ 0 ∈ (last step fresh promptRun).cancelled := by
  have hadm : Admits step Prompt fresh promptRun := by decide +kernel
  have hreq : (last step fresh promptRun).requests = [⟨.serving 0, 0⟩] := by decide +kernel
  refine ⟨hreq, reach_force_closed (.last rfl hadm) ⟨.serving 0, 0⟩ ?_ 0 rfl (by decide +kernel)⟩
  rw [hreq]
  exact List.mem_singleton.mpr rfl

/-- Two requests are admitted before the pause; no one has asked for a context when `ForceClose` is called.  One asks
after it and one after the `Reset`; neither context is ever cancelled. -/
theorem late_context_not_cancelled :
    (exec step fresh (acquire 0 ++ acquire 1 ++ quiesce ++ ([.move 0] : List Act) ++ reset ++
      ([.move 1] : List Act))).map
        (fun s => (s.requests, s.closes, s.cancelled)) =
      some ([⟨.serving 0, 0⟩, ⟨.serving 1, 0⟩], 1, []) := by
  decide +kernel

end Wrenn.Proxy.ForceClose
