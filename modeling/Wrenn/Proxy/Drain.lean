import Wrenn.Proxy.Tracker

/-!
# The drain barrier

`Drain` sets the flag before it asks for the counter, and `Acquire` loads the flag a second time while it
has `mu`.  When `waitDrain` has `mu`, no request is between its second load and the counter, and from then
on all of them find the flag set; the counter can only fall.

* `Sound`: the counter counts the requests in flight, `zeroCh` is open while there are any, and what
  `Drain` waits for is this channel;
* `reach_drain_barrier`: no channel is closed twice, and behind a `Drain` that saw the counter at zero
  nothing is let in.
-/

namespace Wrenn.Proxy.Drain

open Tracker Lib.Places Lib.Runs

/-- Nothing can be let in. -/
def Sealed (s : State) : Prop := s.draining = true ∧ ∀ r ∈ s.requests, r.pc ≠ .increment

/-- The request that is in a section of `mu` has `mu`. -/
def Locked (mu : Option ℕ) (requests : List Request) : Prop :=
  ∀ i : ℕ, (requests[i]?).any (fun r => r.pc.holds) = true ↔ mu = some i

structure Sound (s : State) : Prop where
  lock : Locked s.mu s.requests
  count : s.count = s.requests.countP fun r => r.pc.inFlight
  zero : 0 < s.count → s.zeroCh.isSome = true
  zeroOpen : ∀ ch, s.zeroCh = some ch → ch < s.channels ∧ ch ∉ s.closed ∧ s.cancelDrain ≠ some ch
  cancelOpen : ∀ ch, s.cancelDrain = some ch → ch < s.channels ∧ ch ∉ s.closed
  made : ∀ ch ∈ s.closed, ch < s.channels
  nodup : s.closed.Nodup
  flagged : (s.control = .drainRegister ∨ ∃ cancel, s.control = .drainWait cancel) → s.draining = true
  waits : ∀ zero cancel, s.control = .drainSelect zero cancel →
    Sealed s ∧ (0 < s.count ∧ zero = s.zeroCh ∨ s.count = 0 ∧ zero.all fun ch => decide (ch ∈ s.closed))

/-! ### Requests -/

section Requests

variable {s : State} {i : ℕ} {r : Request}

variable {l : List Request} {r' : Request} {mu : Option ℕ}

/-- A request that is not in flight is replaced by one that is not, or one in flight by one in flight. -/
theorem countP_set_eq {p : Request → Bool} (hr : l[i]? = some r) (hp : p r' = p r) :
    (l.set i r').countP p = l.countP p := by
  obtain ⟨hi, hget⟩ := List.getElem?_eq_some_iff.mp hr
  have hpos : p r = true → 0 < l.countP p := fun h => List.countP_pos_iff.mpr ⟨r, List.mem_of_getElem? hr, h⟩
  rw [List.countP_set hi, hget, hp]
  split_ifs with h
  · have := hpos h
    omega
  · omega

theorem Locked.get (h : Locked mu l) (hr : l[i]? = some r) :
    r.pc.holds = true ↔ mu = some i := by
  have hi := h i
  rw [hr] at hi
  exact hi

theorem Locked.set {mu' : Option ℕ} (h : Locked mu l) (hr : l[i]? = some r)
    (hi : r'.pc.holds = true ↔ mu' = some i) (hother : ∀ j, j ≠ i → (mu' = some j ↔ mu = some j)) :
    Locked mu' (l.set i r') := by
  intro j
  by_cases hj : j = i
  · subst hj
    rw [get_set_self hr]
    exact hi
  · rw [List.getElem?_set_ne (Ne.symm hj)]
    exact (h j).trans (hother j hj).symm

theorem Locked.append (h : Locked mu l) (hr : r.pc.holds = false) :
    Locked mu (l ++ [r]) := by
  intro j
  by_cases hj : j = l.length
  · subst hj
    have hlast := h l.length
    rw [List.getElem?_eq_none (Nat.le_refl _)] at hlast
    rw [List.getElem?_append_right (Nat.le_refl _), Nat.sub_self]
    show r.pc.holds = true ↔ _
    rw [hr]
    exact hlast
  · have hsame : (l ++ [r])[j]? = l[j]? := by
      rcases Nat.lt_or_ge j l.length with hlt | hge
      · exact List.getElem?_append_left hlt
      · rw [List.getElem?_eq_none (by simp; omega), List.getElem?_eq_none hge]
    rw [hsame]
    exact h j

theorem Sealed.set (h : Sealed s) (hr : s.requests[i]? = some r) (hinc : r'.pc ≠ .increment) :
    ∀ q ∈ s.requests.set i r', q.pc ≠ .increment := by
  intro q hq
  obtain ⟨j, hj⟩ := List.mem_iff_getElem?.mp hq
  rcases get_set hr hj with ⟨-, rfl⟩ | ⟨-, hj⟩
  · exact hinc
  · exact h.2 q (List.mem_of_getElem? hj)

/-- A step that leaves the counter alone. -/
theorem Sound.look (h : Sound s) (hr : s.requests[i]? = some r) {pc : Pc}
    (hflight : pc.inFlight = r.pc.inFlight) (hmu : pc.holds = true ↔ mu = some i)
    (hother : ∀ j, j ≠ i → (mu = some j ↔ s.mu = some j)) (hinc : pc = .increment → s.draining = false) :
    Sound { s with mu := mu, requests := s.requests.set i { r with pc := pc } } := by
  refine ⟨h.lock.set hr hmu hother, ?_, h.zero, h.zeroOpen, h.cancelOpen, h.made, h.nodup, h.flagged,
    fun zero cancel hc => ?_⟩
  · have hcount : (s.requests.set i { r with pc := pc }).countP (fun r => r.pc.inFlight) =
        s.requests.countP fun r => r.pc.inFlight := countP_set_eq hr hflight
    show s.count = ((s.requests.set i { r with pc := pc }).countP (fun r => r.pc.inFlight) : ℕ)
    rw [hcount]
    exact h.count
  · obtain ⟨hsealed, hwait⟩ := h.waits zero cancel hc
    refine ⟨⟨hsealed.1, hsealed.set hr fun hpc => ?_⟩, hwait⟩
    have hopen := hinc hpc
    rw [hsealed.1] at hopen
    cases hopen

theorem Sound.admit (h : Sound s) (hr : s.requests[i]? = some r) (hpc : r.pc = .increment) : Sound (s.increment i) := by
  have hmem : r ∈ s.requests := List.mem_of_getElem? hr
  have hmu : s.mu = some i := (h.lock.get hr).mp (by rw [hpc]; rfl)
  have hnot : ∀ zero cancel, s.control ≠ .drainSelect zero cancel := fun zero cancel hc =>
    (h.waits zero cancel hc).1.2 r hmem hpc
  have hlock : Locked none (s.requests.set i ⟨.admitted, s.closes⟩) := by
    refine h.lock.set hr ⟨by rintro ⟨⟩, by rintro ⟨⟩⟩ fun j hj => ?_
    rw [hmu]
    exact ⟨by rintro ⟨⟩, fun heq => absurd (Option.some.inj heq).symm hj⟩
  have hcount : s.count + 1 = ((s.requests.set i ⟨.admitted, s.closes⟩).countP (fun r => r.pc.inFlight) : ℕ) := by
    obtain ⟨hi, hget⟩ := List.getElem?_eq_some_iff.mp hr
    rw [List.countP_set hi, hget, hpc, h.count]
    simp [Pc.inFlight]
  have hnonneg : 0 ≤ s.count := by
    have := h.count
    omega
  unfold State.increment
  split_ifs with hone
  · refine ⟨hlock, hcount, fun _ => rfl, ?_, fun ch hch => ?_, fun ch hch => ?_, h.nodup, h.flagged,
      fun zero cancel hc => absurd hc (hnot zero cancel)⟩
    · rintro ch ⟨⟩
      refine ⟨Nat.lt_succ_self _, fun hmade => ?_, fun hcancel => ?_⟩
      · have := h.made _ hmade
        omega
      · have := (h.cancelOpen _ hcancel).1
        omega
    · have hold := h.cancelOpen ch hch
      exact ⟨Nat.lt_succ_of_lt hold.1, hold.2⟩
    · exact Nat.lt_succ_of_lt (h.made ch hch)
  · exact ⟨hlock, hcount, fun _ => h.zero (by omega), h.zeroOpen, h.cancelOpen, h.made, h.nodup, h.flagged,
      fun zero cancel hc => absurd hc (hnot zero cancel)⟩

theorem Sound.release (h : Sound s) (hr : s.requests[i]? = some r) (hpc : r.pc.inFlight = true) (hmu : s.mu = none) :
    Sound (s.release i r) := by
  have hpos : 0 < s.count := by
    have := (List.countP_pos_iff (p := fun r : Request => r.pc.inFlight)).mpr ⟨r, List.mem_of_getElem? hr, hpc⟩
    have := h.count
    omega
  have hlock : Locked s.mu (s.requests.set i { r with pc := .released }) := by
    refine h.lock.set hr ?_ fun _ _ => Iff.rfl
    rw [hmu]
    exact ⟨by rintro ⟨⟩, by rintro ⟨⟩⟩
  have hcount : s.count - 1 = ((s.requests.set i { r with pc := .released }).countP (fun r => r.pc.inFlight) : ℕ) := by
    obtain ⟨hi, hget⟩ := List.getElem?_eq_some_iff.mp hr
    have hold := h.count
    rw [List.countP_set hi, hget, if_pos hpc, if_neg (by rintro ⟨⟩)]
    omega
  unfold State.release
  split
  · rename_i ch hch
    have hopen := h.zeroOpen ch hch
    have hsealed : ∀ {zero cancel}, s.control = .drainSelect zero cancel → s.draining = true ∧
        (∀ q ∈ s.requests.set i { r with pc := .released }, q.pc ≠ .increment) ∧ zero = s.zeroCh := by
      intro zero cancel hc
      obtain ⟨hs, hwait⟩ := h.waits zero cancel hc
      refine ⟨hs.1, hs.set hr (by rintro ⟨⟩), ?_⟩
      rcases hwait with ⟨-, hzero⟩ | ⟨h0, -⟩
      · exact hzero
      · omega
    split_ifs with hlast
    · refine ⟨hlock, hcount, fun hp => ?_, by rintro _ ⟨⟩, fun c hc => ?_, fun c hc => ?_,
        List.nodup_cons.mpr ⟨hopen.2.1, h.nodup⟩, h.flagged, fun zero cancel hc => ?_⟩
      · change 0 < s.count - 1 at hp
        omega
      · obtain ⟨hlt, hnot⟩ := h.cancelOpen c hc
        refine ⟨hlt, fun hmem => ?_⟩
        rcases List.mem_cons.mp hmem with rfl | hmem
        · exact hopen.2.2 hc
        · exact hnot hmem
      · rcases List.mem_cons.mp hc with rfl | hc
        · exact hopen.1
        · exact h.made c hc
      · obtain ⟨hd, hinc, hzero⟩ := hsealed hc
        rw [hzero, hch]
        exact ⟨⟨hd, hinc⟩, .inr ⟨hlast, decide_eq_true List.mem_cons_self⟩⟩
    · refine ⟨hlock, hcount, fun _ => h.zero hpos, h.zeroOpen, h.cancelOpen, h.made, h.nodup, h.flagged,
        fun zero cancel hc => ?_⟩
      obtain ⟨hd, hinc, hzero⟩ := hsealed hc
      refine ⟨⟨hd, hinc⟩, .inl ⟨?_, hzero⟩⟩
      show 0 < s.count - 1
      omega
  · rename_i hch
    have hsome := h.zero hpos
    rw [hch] at hsome
    cases hsome

/-- `Context` touches nothing that the counter depends on. -/
theorem Sound.withCtx (h : Sound s) (ctx : Option ℕ) (contexts : ℕ) :
    Sound { s with ctx := ctx, contexts := contexts } :=
  ⟨h.lock, h.count, h.zero, h.zeroOpen, h.cancelOpen, h.made, h.nodup, h.flagged, h.waits⟩

theorem Sound.advance {s' : State} (h : Sound s) (hr : s.requests[i]? = some r) (hs : s.advance i r = some s') :
    Sound s' := by
  have hlock := h.lock.get hr
  -- A request that does not have the mutex, and does not take it.
  have hstay : ∀ {s : State} {pc : Pc}, Sound s → s.requests[i]? = some r → r.pc.holds = false → pc.holds = false →
      pc.inFlight = r.pc.inFlight → Sound (s.setPc i r pc) := by
    intro s pc h hr hold hnew hflight
    have hnot : s.mu ≠ some i := fun hmu => by
      rw [(h.lock.get hr).mpr hmu] at hold
      cases hold
    have hiff : pc.holds = true ↔ s.mu = some i := by
      rw [hnew]
      exact ⟨by rintro ⟨⟩, fun hmu => absurd hmu hnot⟩
    exact h.look hr hflight hiff (fun _ _ => Iff.rfl) fun hinc => by
      rw [hinc] at hnew
      cases hnew
  unfold State.advance at hs
  split at hs
  · rename_i hpc
    cases hs
    refine hstay h hr (by rw [hpc]; rfl) ?_ ?_
    · split_ifs <;> rfl
    · rw [hpc]
      split_ifs <;> rfl
  · rename_i hpc
    obtain ⟨hmu, hs⟩ := Option.ite_none_right_eq_some.mp hs
    cases hs
    refine h.look hr (by rw [hpc]; rfl) ⟨fun _ => rfl, fun _ => rfl⟩ (fun j hj => ?_) (by rintro ⟨⟩)
    rw [hmu]
    exact ⟨fun heq => absurd (Option.some.inj heq).symm hj, by rintro ⟨⟩⟩
  · rename_i hpc
    have hmu : s.mu = some i := hlock.mp (by rw [hpc]; rfl)
    cases hs
    split_ifs with hd
    · refine h.look hr (by rw [hpc]; rfl) ⟨by rintro ⟨⟩, by rintro ⟨⟩⟩ (fun j hj => ?_) (by rintro ⟨⟩)
      rw [hmu]
      exact ⟨by rintro ⟨⟩, fun heq => absurd (Option.some.inj heq).symm hj⟩
    · exact h.look hr (by rw [hpc]; rfl) ⟨fun _ => hmu, fun _ => rfl⟩ (fun _ _ => Iff.rfl) fun _ => by simpa using hd
  · rename_i hpc
    cases hs
    exact h.admit hr hpc
  · rename_i hpc
    cases hs
    unfold State.context
    split
    · exact hstay h hr (by rw [hpc]; rfl) rfl (by rw [hpc]; rfl)
    · exact hstay (h.withCtx ..) hr (by rw [hpc]; rfl) rfl (by rw [hpc]; rfl)
  · rename_i ctx hpc
    obtain ⟨hmu, hs⟩ := Option.ite_none_right_eq_some.mp hs
    cases hs
    exact h.release hr (by rw [hpc]; rfl) hmu
  all_goals cases hs

end Requests

/-! ### The caller of `Drain`, `ForceClose` and `Reset` -/

section Control

variable {s s' : State}

/-- The state after a call has begun, or after a part of it that touches no channel. -/
theorem Sound.withControl (h : Sound s) {control : Control} {draining : Bool} {ctx : Option ℕ} {contexts closes : ℕ}
    {cancelled : List ℕ}
    (hflagged : (control = .drainRegister ∨ ∃ cancel, control = .drainWait cancel) → draining = true)
    (hwaits : ∀ zero cancel, control ≠ .drainSelect zero cancel) :
    Sound { s with control := control, draining := draining, ctx := ctx, contexts := contexts, closes := closes,
                   cancelled := cancelled } :=
  ⟨h.lock, h.count, h.zero, h.zeroOpen, h.cancelOpen, h.made, h.nodup, hflagged,
    fun zero cancel hc => absurd hc (hwaits zero cancel)⟩

theorem not_increment (h : Sound s) (hmu : s.mu = none) : ∀ r ∈ s.requests, r.pc ≠ .increment := by
  intro r hr hpc
  obtain ⟨i, hi⟩ := List.mem_iff_getElem?.mp hr
  have hheld := (h.lock.get hi).mp (by rw [hpc]; rfl)
  rw [hmu] at hheld
  cases hheld

/-- `waitDrain`, whatever its caller does next. -/
theorem Sound.waitDrain (h : Sound s) (hmu : s.mu = none) {control : Control}
    (hflagged : (control = .drainRegister ∨ ∃ cancel, control = .drainWait cancel) → s.draining = true)
    (hwaits : ∀ zero cancel, control = .drainSelect zero cancel → s.draining = true ∧ zero = s.waitDrain.2) :
    Sound { s.waitDrain.1 with control := control } := by
  have hinc := not_increment h hmu
  unfold State.waitDrain at hwaits ⊢
  split_ifs at hwaits ⊢ with h0
  · refine ⟨h.lock, h.count, h.zero, fun ch hch => ?_, fun ch hch => ?_, fun ch hch => ?_,
      List.nodup_cons.mpr ⟨fun hmem => ?_, h.nodup⟩, hflagged, fun zero cancel hc => ?_⟩
    · obtain ⟨hlt, hnot, hne⟩ := h.zeroOpen ch hch
      refine ⟨Nat.lt_succ_of_lt hlt, fun hmem => ?_, hne⟩
      rcases List.mem_cons.mp hmem with rfl | hmem
      · omega
      · exact hnot hmem
    · obtain ⟨hlt, hnot⟩ := h.cancelOpen ch hch
      refine ⟨Nat.lt_succ_of_lt hlt, fun hmem => ?_⟩
      rcases List.mem_cons.mp hmem with rfl | hmem
      · omega
      · exact hnot hmem
    · rcases List.mem_cons.mp hch with rfl | hch
      · exact Nat.lt_succ_self _
      · exact Nat.lt_succ_of_lt (h.made ch hch)
    · have := h.made _ hmem
      omega
    · obtain ⟨hd, rfl⟩ := hwaits zero cancel hc
      exact ⟨⟨hd, hinc⟩, .inr ⟨h0, decide_eq_true List.mem_cons_self⟩⟩
  · refine ⟨h.lock, h.count, h.zero, h.zeroOpen, h.cancelOpen, h.made, h.nodup, hflagged, fun zero cancel hc => ?_⟩
    obtain ⟨hd, rfl⟩ := hwaits zero cancel hc
    refine ⟨⟨hd, hinc⟩, .inl ⟨?_, rfl⟩⟩
    show 0 < s.count
    have := h.count
    omega

theorem Sound.signalDrain (h : Sound s) : Sound { s.signalDrain with control := .resetCtx } := by
  unfold State.signalDrain
  split
  · rename_i ch hch
    obtain ⟨hlt, hnot⟩ := h.cancelOpen ch hch
    rw [if_neg hnot]
    refine ⟨h.lock, h.count, h.zero, fun c hc => ?_, by rintro _ ⟨⟩, fun c hc => ?_,
      List.nodup_cons.mpr ⟨hnot, h.nodup⟩, ?_, by rintro _ _ ⟨⟩⟩
    · obtain ⟨hlt', hnot', hne⟩ := h.zeroOpen c hc
      refine ⟨hlt', fun hmem => ?_, by rintro ⟨⟩⟩
      rcases List.mem_cons.mp hmem with rfl | hmem
      · exact hne hch
      · exact hnot' hmem
    · rcases List.mem_cons.mp hc with rfl | hc
      · exact hlt
      · exact h.made c hc
    · rintro (⟨⟨⟩⟩ | ⟨_, ⟨⟩⟩)
  · exact ⟨h.lock, h.count, h.zero, h.zeroOpen, h.cancelOpen, h.made, h.nodup, by rintro (⟨⟨⟩⟩ | ⟨_, ⟨⟩⟩),
      by rintro _ _ ⟨⟩⟩

theorem Sound.proceed (h : Sound s) {w : Wake} (hs : s.proceed w = some s') : Sound s' := by
  have hidle : ¬ (Control.idle = .drainRegister ∨ ∃ cancel, Control.idle = .drainWait cancel) := by
    rintro (⟨⟨⟩⟩ | ⟨_, ⟨⟩⟩)
  unfold State.proceed at hs
  split at hs
  · cases hs
  · rename_i hc
    have hd := h.flagged (.inl hc)
    cases hs
    refine ⟨h.lock, h.count, h.zero, fun ch hch => ?_, ?_, fun ch hch => Nat.lt_succ_of_lt (h.made ch hch), h.nodup,
      fun _ => hd, by rintro _ _ ⟨⟩⟩
    · obtain ⟨hlt, hnot, -⟩ := h.zeroOpen ch hch
      refine ⟨Nat.lt_succ_of_lt hlt, hnot, fun heq => ?_⟩
      have := Option.some.inj heq
      omega
    · rintro ch ⟨⟩
      refine ⟨Nat.lt_succ_self _, fun hmem => ?_⟩
      have := h.made _ hmem
      omega
  · rename_i cancel hc
    have hd := h.flagged (.inr ⟨cancel, hc⟩)
    obtain ⟨hmu, hs⟩ := Option.ite_none_right_eq_some.mp hs
    cases hs
    refine h.waitDrain hmu (fun _ => hd) ?_
    rintro zero cancel' ⟨⟩
    exact ⟨hd, rfl⟩
  · obtain ⟨-, hs⟩ := Option.ite_none_right_eq_some.mp hs
    cases hs
    exact h.withControl (fun hc => absurd hc hidle) (by rintro _ _ ⟨⟩)
  · obtain ⟨hmu, hs⟩ := Option.ite_none_right_eq_some.mp hs
    cases hs
    exact h.waitDrain hmu (by rintro (⟨⟨⟩⟩ | ⟨_, ⟨⟩⟩)) (by rintro _ _ ⟨⟩)
  · obtain ⟨-, hs⟩ := Option.ite_none_right_eq_some.mp hs
    cases hs
    exact h.withControl (fun hc => absurd hc hidle) (by rintro _ _ ⟨⟩)
  · cases hs
    exact h.withControl (by rintro (⟨⟨⟩⟩ | ⟨_, ⟨⟩⟩)) (by rintro _ _ ⟨⟩)
  · cases hs
    exact h.withControl (fun hc => absurd hc hidle) (by rintro _ _ ⟨⟩)

end Control

variable {s s' : State}

theorem sound_step {a : Act} (h : Sound s) (hs : step s a = some s') : Sound s' := by
  cases a with
  | request =>
    cases hs
    refine ⟨h.lock.append rfl, ?_, h.zero, h.zeroOpen, h.cancelOpen, h.made, h.nodup, h.flagged,
      fun zero cancel hc => ?_⟩
    · show s.count = ((s.requests ++ [(⟨.start, 0⟩ : Request)]).countP (fun r => r.pc.inFlight) : ℕ)
      rw [List.countP_append, h.count]
      rfl
    · obtain ⟨hsealed, hwait⟩ := h.waits zero cancel hc
      refine ⟨⟨hsealed.1, fun q hq => ?_⟩, hwait⟩
      rcases List.mem_append.mp hq with hq | hq
      · exact hsealed.2 q hq
      · rw [List.mem_singleton.mp hq]
        rintro ⟨⟩
  | move i =>
    obtain ⟨r, hr, hs⟩ := Option.bind_eq_some_iff.mp hs
    exact h.advance hr hs
  | drain =>
    obtain ⟨-, hs⟩ := Option.ite_none_right_eq_some.mp hs
    cases hs
    exact h.withControl (fun _ => rfl) (by rintro _ _ ⟨⟩)
  | forceClose =>
    obtain ⟨-, hs⟩ := Option.ite_none_right_eq_some.mp hs
    cases hs
    exact h.withControl (by rintro (⟨⟨⟩⟩ | ⟨_, ⟨⟩⟩)) (by rintro _ _ ⟨⟩)
  | reset =>
    obtain ⟨-, hs⟩ := Option.ite_none_right_eq_some.mp hs
    cases hs
    exact h.signalDrain
  | proceed w => exact h.proceed hs

/-! ### Behind the barrier -/

/-- The step that lets requests in again, at the end of `Reset`. -/
def Reopens (s : State) : Act → Prop
  | .proceed _ => s.control = .resetStore
  | _ => False

theorem Sealed.advance {i : ℕ} {r : Request} (h : Sealed s) (hr : s.requests[i]? = some r)
    (hs : s.advance i r = some s') : Sealed s' ∧ s'.count ≤ s.count := by
  have hset : ∀ {pc : Pc}, pc ≠ .increment → ∀ q ∈ s.requests.set i { r with pc := pc }, q.pc ≠ .increment := fun hpc =>
    h.set hr hpc
  unfold State.advance at hs
  split at hs
  · cases hs
    rw [if_pos h.1]
    exact ⟨⟨h.1, hset (by rintro ⟨⟩)⟩, Int.le_refl _⟩
  · obtain ⟨-, hs⟩ := Option.ite_none_right_eq_some.mp hs
    cases hs
    exact ⟨⟨h.1, hset (by rintro ⟨⟩)⟩, Int.le_refl _⟩
  · cases hs
    rw [if_pos h.1]
    exact ⟨⟨h.1, hset (by rintro ⟨⟩)⟩, Int.le_refl _⟩
  · rename_i hpc
    exact absurd hpc (h.2 r (List.mem_of_getElem? hr))
  · cases hs
    unfold State.context
    split
    · exact ⟨⟨h.1, hset (by rintro ⟨⟩)⟩, Int.le_refl _⟩
    · exact ⟨⟨h.1, hset (by rintro ⟨⟩)⟩, Int.le_refl _⟩
  · obtain ⟨-, hs⟩ := Option.ite_none_right_eq_some.mp hs
    cases hs
    have hle : s.count - 1 ≤ s.count := by omega
    unfold State.release
    split
    · split_ifs
      · exact ⟨⟨h.1, hset (by rintro ⟨⟩)⟩, hle⟩
      · exact ⟨⟨h.1, hset (by rintro ⟨⟩)⟩, hle⟩
    · exact ⟨⟨h.1, hset (by rintro ⟨⟩)⟩, hle⟩
  all_goals cases hs

theorem sealed_proceed {w : Wake} (h : Sealed s) (hreset : s.control ≠ .resetStore) (hs : s.proceed w = some s') :
    Sealed s' ∧ s'.count = s.count := by
  have hwait : ∀ control, Sealed { s.waitDrain.1 with control := control } ∧ s.waitDrain.1.count = s.count := by
    intro control
    unfold State.waitDrain
    split_ifs
    all_goals exact ⟨h, rfl⟩
  unfold State.proceed at hs
  split at hs
  · cases hs
  · cases hs
    exact ⟨h, rfl⟩
  · obtain ⟨-, hs⟩ := Option.ite_none_right_eq_some.mp hs
    cases hs
    exact hwait _
  · obtain ⟨-, hs⟩ := Option.ite_none_right_eq_some.mp hs
    cases hs
    exact ⟨h, rfl⟩
  · obtain ⟨-, hs⟩ := Option.ite_none_right_eq_some.mp hs
    cases hs
    exact hwait _
  · obtain ⟨-, hs⟩ := Option.ite_none_right_eq_some.mp hs
    cases hs
    exact ⟨h, rfl⟩
  · cases hs
    exact ⟨h, rfl⟩
  · rename_i hc
    exact absurd hc hreset

theorem sealed_step {a : Act} (h : Sealed s) (hok : ¬ Reopens s a) (hs : step s a = some s') :
    Sealed s' ∧ s'.count ≤ s.count := by
  cases a with
  | request =>
    cases hs
    refine ⟨⟨h.1, fun q hq => ?_⟩, Int.le_refl _⟩
    rcases List.mem_append.mp hq with hq | hq
    · exact h.2 q hq
    · rw [List.mem_singleton.mp hq]
      rintro ⟨⟩
  | move i =>
    obtain ⟨r, hr, hs⟩ := Option.bind_eq_some_iff.mp hs
    exact h.advance hr hs
  | drain =>
    obtain ⟨-, hs⟩ := Option.ite_none_right_eq_some.mp hs
    cases hs
    exact ⟨⟨rfl, h.2⟩, Int.le_refl _⟩
  | forceClose =>
    obtain ⟨-, hs⟩ := Option.ite_none_right_eq_some.mp hs
    cases hs
    exact ⟨h, Int.le_refl _⟩
  | reset =>
    obtain ⟨-, hs⟩ := Option.ite_none_right_eq_some.mp hs
    cases hs
    unfold State.signalDrain
    split
    all_goals exact ⟨h, Int.le_refl _⟩
  | proceed w =>
    obtain ⟨hsealed, hcount⟩ := sealed_proceed h hok hs
    exact ⟨hsealed, Int.le_of_eq hcount⟩

theorem Sound.nonneg (h : Sound s) : 0 ≤ s.count := by
  have := h.count
  omega

theorem reach_sound (h : Reach step (fun _ _ => True) Initial s) : Sound s := by
  refine h.invariant ?_ fun s a s' hi _ hs => sound_step hi hs
  rintro s rfl
  exact ⟨fun i => ⟨by rintro ⟨⟩, by rintro ⟨⟩⟩, rfl, by rintro ⟨⟩, by rintro _ ⟨⟩, by rintro _ ⟨⟩,
    (List.forall_mem_nil _), List.nodup_nil, by rintro (⟨⟨⟩⟩ | ⟨_, ⟨⟩⟩), by rintro _ _ ⟨⟩⟩

/-- The counter is never negative and no channel is closed twice.  If `Drain` returns because `waitDrain`
has been closed, then until the last step of a `Reset` the counter stays at zero and no `Acquire` returns
true. -/
theorem reach_drain_barrier {s : State} (h : Reach step (fun _ _ => True) Initial s) :
    0 ≤ s.count ∧ s.closed.Nodup ∧
      ∀ zero cancel s1, s.control = .drainSelect zero cancel → step s (.proceed .zero) = some s1 →
        ∀ s2, Reach step (fun s a => ¬ Reopens s a) (fun s => s = s1) s2 →
          s2.count = 0 ∧ ∀ r ∈ s2.requests, r.pc ≠ .admitted := by
  have hsound := reach_sound h
  refine ⟨hsound.nonneg, hsound.nodup, fun zero cancel s1 hc hs s2 hrun => ?_⟩
  obtain ⟨hsealed, hwait⟩ := hsound.waits zero cancel hc
  have hdrained : s.count = 0 ∧ Sealed s1 ∧ s1.count = s.count := by
    change s.proceed .zero = some s1 at hs
    rw [State.proceed, hc] at hs
    obtain ⟨hwakes, hs⟩ := Option.ite_none_right_eq_some.mp hs
    cases hs
    refine ⟨?_, hsealed, rfl⟩
    rcases hwait with ⟨-, rfl⟩ | ⟨h0, -⟩
    · -- The channel is open while the counter is positive.
      cases hzero : s.zeroCh with
      | none =>
        rw [hzero] at hwakes
        cases hwakes
      | some ch =>
        rw [hzero] at hwakes
        exact absurd (of_decide_eq_true hwakes) (hsound.zeroOpen ch hzero).2.1
    · exact h0
  obtain ⟨h0, hsealed1, hcount⟩ := hdrained
  have hsound1 := sound_step hsound hs
  have hinv : Sound s2 ∧ Sealed s2 ∧ s2.count ≤ 0 := by
    refine hrun.invariant (I := fun s => Sound s ∧ Sealed s ∧ s.count ≤ 0) ?_ ?_
    · rintro s rfl
      exact ⟨hsound1, hsealed1, by omega⟩
    · rintro t a t' ⟨ht, hse, hle⟩ hok hstep
      obtain ⟨hse', hle'⟩ := sealed_step hse hok hstep
      exact ⟨sound_step ht hstep, hse', by omega⟩
  have hnonneg := hinv.1.nonneg
  have hzero : s2.count = 0 := by omega
  refine ⟨hzero, fun r hr hpc => ?_⟩
  have hpos := (List.countP_pos_iff (p := fun r : Request => r.pc.inFlight)).mpr ⟨r, hr, by rw [hpc]; rfl⟩
  have hcount2 := hinv.1.count
  omega

/-- One request is in flight when `Drain` begins, and is released; another one has passed the first load. -/
def drainRun : List Act :=
  [.request, .move 0, .move 0, .move 0, .move 0, .move 0, .request, .move 1, .drain, .proceed .timeout,
    .proceed .timeout,
    .move 0]

theorem drained_run_refuses :
    (last step fresh drainRun).count = 0 ∧
      ∀ s2, Reach step (fun s a => ¬ Reopens s a) (fun s => s = last step fresh (drainRun ++ [.proceed .zero])) s2 →
        s2.count = 0 ∧ ∀ r ∈ s2.requests, r.pc ≠ .admitted := by
  have hadm : Admits step (fun _ _ => True) fresh drainRun := by decide +kernel
  have hreach : Reach step (fun _ _ => True) Initial (last step fresh drainRun) := .last rfl hadm
  refine ⟨by decide +kernel, fun s2 hs2 => ?_⟩
  exact (reach_drain_barrier hreach).2.2 (some 0) 1 _ (by decide +kernel) (by decide +kernel) s2 hs2

end Wrenn.Proxy.Drain
