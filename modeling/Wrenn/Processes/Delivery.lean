import Wrenn.Processes.Output

/-!
# What a stream of process output delivers

The invariant says of each stream, by the point it is at, what it has yielded: nothing before the start event, a part
of its snapshot while it replays, and from then on the snapshot with what its receiver has got.  Everything else in
the handle only grows, and the output stops growing before the end event is stored.  A stream at its end has seen the
end event, so what it has received is all there is.

After the end event was sent, every step of a stream brings it nearer to its end (`run_lowers`).
-/

namespace Wrenn.Processes.Delivery

open Output Lib.Broadcast Lib.Runs Lib.Threads

structure CoreOk (k : Core) : Prop where
  log : Longest evLen OUTPUT_LOG_CAPACITY k.published k.outputLog.events
  exact : k.outputLog.Exact evLen
  ends : ∀ e ∈ k.ends, k.ended = some e
  one : k.ends.length ≤ 1
  waiting : k.waiting = false → k.ends ≠ []

/-- What is true of a stream since its attach. -/
structure Sound (k : Core) (f : Feed) : Prop where
  start : f.origin = .start → f.first = 0 ∧ f.snapshot = []
  connect : f.origin = .connect → Longest evLen OUTPUT_LOG_CAPACITY (k.published.take f.first) f.snapshot
  first_le : f.first ≤ f.next
  next_le : f.next ≤ k.published.length

def Told (k : Core) (f : Feed) : Prop :=
  f.lagged = false → f.out = .startEvent k.pid :: (k.output f).map .dataEvent

structure Fresh (f : Feed) : Prop where
  out : f.out = []
  next : f.next = f.first
  lagged : f.lagged = false

/-- The end of the process is either known to the request or still to come on its receiver. -/
def Attached (k : Core) (f : Feed) : Option EndEvent → Prop
  | some e => k.ended = some e
  | none => f.endNext = 0

def Fine (k : Core) : Proc → Prop
  | .lookup | .subscribeDataReplay | .gone => True
  | .subscribeEnd f => Sound k f ∧ Fresh f
  | .cachedEnd f => Sound k f ∧ Fresh f ∧ (f.endNext = 0 ∨ k.ended.isSome = true)
  | .release f cached | .begin f cached => Sound k f ∧ Fresh f ∧ Attached k f cached
  | .replay f left cached => Sound k f ∧ Attached k f cached ∧ f.next = f.first ∧
      ∃ done, f.snapshot = done ++ left ∧ f.out = .startEvent k.pid :: done.map .dataEvent
  | .recvData f | .recvEnd f => Sound k f ∧ Told k f ∧ f.endNext = 0
  | .tryRecvEnd f => Sound k f ∧ Told k f ∧ f.endNext = 0 ∧ k.ends ≠ [] ∧ f.next = k.published.length
  | .drain f e => Sound k f ∧ Told k f ∧ e.isSome = true ∧ k.ended = e
  | .finished f => Sound k f ∧ (f.lagged = false → Complete k f)

/-! ### What the threads of the process leave alone -/

/-- The output grows until the end event is stored, which then stays. -/
structure Grows (k k' : Core) : Prop where
  pid : k'.pid = k.pid
  published : ∃ more, k'.published = k.published ++ more
  fixed : k.ended.isSome = true → k'.published = k.published
  ended : ∀ e, k.ended = some e → k'.ended = some e
  ends : k.ends ≠ [] → k'.ends ≠ []

section Grows

variable {k k' : Core} {f : Feed} {p : Proc}

theorem Grows.of_eq (hpid : k'.pid = k.pid) (hpublished : k'.published = k.published) (hended : k'.ended = k.ended)
    (hends : k'.ends = k.ends) : Grows k k' :=
  ⟨hpid, ⟨[], by rw [hpublished, List.append_nil]⟩, fun _ => hpublished, fun _ => hended.trans, fun h => hends ▸ h⟩

theorem Grows.length_le (h : Grows k k') : k.published.length ≤ k'.published.length := by
  obtain ⟨more, hmore⟩ := h.published
  rw [hmore, List.length_append]
  omega

theorem Sound.mono (h : Grows k k') (hf : Sound k f) : Sound k' f := by
  have hlen := h.length_le
  obtain ⟨more, hmore⟩ := h.published
  have hfirst : f.first ≤ k.published.length := hf.first_le.trans hf.next_le
  refine ⟨hf.start, fun hc => ?_, hf.first_le, hf.next_le.trans hlen⟩
  rw [hmore, List.take_append_of_le_length hfirst]
  exact hf.connect hc

theorem output_of_grows (h : Grows k k') (hf : Sound k f) : k'.output f = k.output f := by
  obtain ⟨more, hmore⟩ := h.published
  rw [Core.output, Core.output, hmore, window_append more f.first hf.next_le]

theorem Told.mono (h : Grows k k') (hf : Sound k f) (ht : Told k f) : Told k' f := by
  intro hlag
  rw [h.pid, output_of_grows h hf]
  exact ht hlag

theorem complete_mono (h : Grows k k') (hc : Complete k f) : Complete k' f := by
  obtain ⟨output, e, hout, hended, hrest⟩ := hc
  have hfixed : k'.published = k.published := h.fixed (by rw [hended]; rfl)
  refine ⟨output, e, h.pid ▸ hout, h.ended e hended, ?_⟩
  rw [hfixed]
  exact hrest

theorem Attached.mono (h : Grows k k') {cached : Option EndEvent} (ha : Attached k f cached) :
    Attached k' f cached := by
  cases cached with
  | none => exact ha
  | some e => exact h.ended e ha

theorem Fine.mono (hk : CoreOk k) (h : Grows k k') (hp : Fine k p) : Fine k' p := by
  cases p with
  | lookup | subscribeDataReplay | gone => trivial
  | subscribeEnd f => exact ⟨hp.1.mono h, hp.2⟩
  | cachedEnd f =>
    refine ⟨hp.1.mono h, hp.2.1, hp.2.2.imp_right fun hsome => ?_⟩
    obtain ⟨e, he⟩ := Option.isSome_iff_exists.mp hsome
    rw [h.ended e he]
    rfl
  | release f cached | begin f cached => exact ⟨hp.1.mono h, hp.2.1, hp.2.2.mono h⟩
  | replay f left cached =>
    obtain ⟨hs, ha, hnext, done, hsnap, hout⟩ := hp
    exact ⟨hs.mono h, ha.mono h, hnext, done, hsnap, h.pid ▸ hout⟩
  | recvData f | recvEnd f => exact ⟨hp.1.mono h, hp.2.1.mono h hp.1, hp.2.2⟩
  | tryRecvEnd f =>
    obtain ⟨hs, ht, hend, hends, hnext⟩ := hp
    obtain ⟨e, he⟩ := List.exists_mem_of_ne_nil _ hends
    have hfixed : k'.published = k.published := h.fixed (by rw [hk.ends e he]; rfl)
    exact ⟨hs.mono h, ht.mono h hs, hend, h.ends hends, hfixed ▸ hnext⟩
  | drain f e =>
    obtain ⟨hs, ht, hsome, he⟩ := hp
    obtain ⟨e', rfl⟩ := Option.isSome_iff_exists.mp hsome
    exact ⟨hs.mono h, ht.mono h hs, rfl, h.ended e' he⟩
  | finished f => exact ⟨hp.1.mono h, fun hlag => complete_mono h (hp.2 hlag)⟩

end Grows

section Env

variable {k k' : Core}

theorem coreOk_publishData (h : CoreOk k) (ev : DataEvent) : CoreOk (k.publishData ev) :=
  ⟨longest_push h.log h.exact ev, h.exact.push ev, h.ends, h.one, h.waiting⟩

theorem env_step {e : Env} (h : CoreOk k) (he : env k e = some k') : CoreOk k' ∧ Grows k k' := by
  cases e with
  | publishData ev =>
    obtain ⟨hnone, hk'⟩ := Option.ite_none_right_eq_some.mp he
    cases hk'
    refine ⟨coreOk_publishData h ev, rfl, ⟨[ev], rfl⟩, fun hsome => ?_, fun _ => id, id⟩
    rw [Option.isNone_iff_eq_none] at hnone
    rw [hnone] at hsome
    cases hsome
  | storeEnd status =>
    obtain ⟨hnone, hk'⟩ := Option.ite_none_right_eq_some.mp he
    cases hk'
    rw [Option.isNone_iff_eq_none] at hnone
    have hno : k.ends = [] := by
      refine List.eq_nil_iff_forall_not_mem.mpr fun e he => ?_
      have := h.ends e he
      rw [hnone] at this
      cases this
    refine ⟨⟨h.log, h.exact, fun e he => ?_, h.one, h.waiting⟩, rfl, ⟨[], (List.append_nil _).symm⟩, fun _ => rfl,
      fun e he => ?_, id⟩
    · rw [show k.ends = [] from hno] at he
      exact absurd he List.not_mem_nil
    · rw [hnone] at he
      cases he
  | sendEnd =>
    obtain ⟨e, hended, he⟩ := Option.bind_eq_some_iff.mp he
    obtain ⟨hno, hk'⟩ := Option.ite_none_right_eq_some.mp he
    cases hk'
    refine ⟨⟨h.log, h.exact, fun e' he' => ?_, le_rfl, fun _ => List.cons_ne_nil _ _⟩, rfl,
      ⟨[], (List.append_nil _).symm⟩, fun _ => rfl, fun _ => id, fun _ => List.cons_ne_nil _ _⟩
    rw [List.mem_singleton.mp he']
    exact hended
  | exitWaiter =>
    obtain ⟨hsent, hk'⟩ := Option.ite_none_left_eq_some.mp he
    cases hk'
    exact ⟨⟨h.log, h.exact, h.ends, h.one, fun _ => hsent⟩, .of_eq rfl rfl rfl rfl⟩
  | unregister =>
    cases he
    exact ⟨⟨h.log, h.exact, h.ends, h.one, h.waiting⟩, .of_eq rfl rfl rfl rfl⟩

end Env

/-! ### The steps of a stream -/

section Run

variable {k k' : Core} {f : Feed} {p p' : Proc} {ev : DataEvent} {e : EndEvent}

/-- A request only counts itself. -/
theorem run_core (h : run k () p = some (k', p')) : ∃ n, k' = { k with refs := n } := by
  have hsame : ∀ {q}, some (k, q) = some (k', p') → ∃ n, k' = { k with refs := n } := by
    rintro q ⟨⟩
    exact ⟨k.refs, rfl⟩
  cases p with
  | lookup =>
    simp only [run] at h
    split_ifs at h
    · cases h
      exact ⟨k.refs + 1, rfl⟩
    · exact hsame h
  | release f cached =>
    cases h
    exact ⟨k.refs - 1, rfl⟩
  | subscribeDataReplay | subscribeEnd f | cachedEnd f | begin f cached => exact hsame h
  | replay f left cached =>
    cases left with
    | cons ev left => exact hsame h
    | nil => cases cached <;> exact hsame h
  | recvData f | recvEnd f | drain f e | tryRecvEnd f =>
    simp only [run] at h
    split at h <;> exact hsame h
  | finished f | gone => cases h

/-- A stream stays one, and its receiver lags only if it has more unread messages than the channel keeps. -/
theorem feed_run (hf : feed p = some f) (h : run k () p = some (k', p')) :
    ∃ f', feed p' = some f' ∧ f'.origin = f.origin ∧ f.next ≤ f'.next ∧
      (f.lagged = false → k.published.length ≤ f.next + BROADCAST_CAPACITY → f'.lagged = false) := by
  cases p with
  | lookup | subscribeDataReplay | gone => cases hf
  | finished g => cases h
  | subscribeEnd g | cachedEnd g | release g cached | begin g cached =>
    cases hf
    cases h
    exact ⟨_, rfl, rfl, le_rfl, fun hlag _ => hlag⟩
  | replay g left cached =>
    cases hf
    cases left with
    | cons ev left =>
      cases h
      exact ⟨_, rfl, rfl, le_rfl, fun hlag _ => hlag⟩
    | nil =>
      cases cached <;> cases h
      all_goals exact ⟨_, rfl, rfl, le_rfl, fun hlag _ => hlag⟩
  | recvEnd g | tryRecvEnd g =>
    cases hf
    simp only [run] at h
    split at h <;> cases h
    all_goals exact ⟨_, rfl, rfl, le_rfl, fun hlag _ => hlag⟩
  | recvData g =>
    cases hf
    have hr := recv_cases BROADCAST_CAPACITY k.published k.closed f.next
    simp only [run] at h
    generalize recv BROADCAST_CAPACITY k.published k.closed f.next = r at hr h
    cases hr with
    | message _ _ =>
      cases h
      exact ⟨_, rfl, rfl, Nat.le_succ _, fun hlag _ => hlag⟩
    | lagged hlag =>
      cases h
      have hle : f.next ≤ k.published.length - BROADCAST_CAPACITY := by omega
      exact ⟨_, rfl, rfl, hle, fun _ hkept => by omega⟩
    | empty _ _ | closed _ _ =>
      cases h
      exact ⟨_, rfl, rfl, le_rfl, fun hlag _ => hlag⟩
  | drain g e =>
    cases hf
    have hr := recv_cases BROADCAST_CAPACITY k.published k.closed f.next
    simp only [run] at h
    generalize recv BROADCAST_CAPACITY k.published k.closed f.next = r at hr h
    cases hr with
    | message _ _ =>
      cases h
      exact ⟨_, rfl, rfl, Nat.le_succ _, fun hlag _ => hlag⟩
    | lagged hlag =>
      cases h
      have hle : f.next ≤ k.published.length - BROADCAST_CAPACITY := by omega
      exact ⟨_, rfl, rfl, hle, fun _ hkept => by omega⟩
    | empty _ _ | closed _ _ =>
      cases h
      cases e <;> exact ⟨_, rfl, rfl, le_rfl, fun hlag _ => hlag⟩

theorem Sound.message (h : Sound k f) (hev : k.published[f.next]? = some ev) :
    Sound k ({ f with next := f.next + 1 }.yield (.dataEvent ev)) := by
  obtain ⟨hlt, -⟩ := List.getElem?_eq_some_iff.mp hev
  have hle := h.first_le
  exact ⟨h.start, h.connect, by show f.first ≤ f.next + 1; omega, hlt⟩

theorem Told.message (hs : Sound k f) (h : Told k f) (hev : k.published[f.next]? = some ev) :
    Told k ({ f with next := f.next + 1 }.yield (.dataEvent ev)) := by
  intro hlag
  have hwin := window_succ hs.first_le hev
  show f.out ++ [.dataEvent ev] = .startEvent k.pid ::
    (f.snapshot ++ window k.published f.first (f.next + 1)).map .dataEvent
  rw [h hlag, hwin, Core.output]
  simp

theorem Sound.lag (h : Sound k f) (hlag : f.next + BROADCAST_CAPACITY < k.published.length) :
    Sound k { f with next := k.published.length - BROADCAST_CAPACITY, lagged := true } := by
  have hle := h.first_le
  refine ⟨h.start, h.connect, ?_, ?_⟩
  · show f.first ≤ k.published.length - BROADCAST_CAPACITY
    omega
  · show k.published.length - BROADCAST_CAPACITY ≤ k.published.length
    omega

/-- A stream that has received everything and the end event. -/
theorem complete_of_told (hs : Sound k f) (ht : Told k f) (hnext : k.published.length ≤ f.next) (he : k.ended = some e)
    (hlag : f.lagged = false) : Complete k (f.yield (.endEvent e)) := by
  have hall : f.next = k.published.length := le_antisymm hs.next_le hnext
  have hout : k.output f = f.snapshot ++ k.published.drop f.first := by
    rw [Core.output, hall, window_length]
  refine ⟨k.output f, e, ?_, he, ?_, fun ho => ?_, fun ho => ⟨f.snapshot, hs.connect ho, hout⟩⟩
  · show f.out ++ [.endEvent e] = _
    rw [ht hlag]
    rfl
  · rw [hout]
    cases ho : f.origin with
    | start =>
      rw [(hs.start ho).2]
      exact List.drop_suffix _ _
    | connect =>
      obtain ⟨front, hfront⟩ := (hs.connect ho).suffix
      refine ⟨front, ?_⟩
      rw [← List.append_assoc, hfront, List.take_append_drop]
  · rw [hout, (hs.start ho).1, (hs.start ho).2]
    rfl

theorem sent_of_closed (hk : CoreOk k) (hc : k.closed = true) : k.ends ≠ [] := by
  simp only [Core.closed, Bool.and_eq_true, Bool.not_eq_true'] at hc
  exact hk.waiting hc.1.1

/-- The receiver for the end has the end event as soon as it was sent. -/
theorem recv_end (hk : CoreOk k) (hsent : k.ends ≠ []) :
    ∃ e, recv END_CAPACITY k.ends k.closed 0 = (.message e, 1) ∧ k.ended = some e := by
  have hone := hk.one
  have hpos : 0 < k.ends.length := List.length_pos_of_ne_nil hsent
  have hcap : END_CAPACITY = 16 := rfl
  have hr := recv_cases END_CAPACITY k.ends k.closed 0
  generalize recv END_CAPACITY k.ends k.closed 0 = r at hr
  cases hr with
  | @message e _ h => exact ⟨e, rfl, hk.ends e (List.mem_of_getElem? h)⟩
  | lagged h | empty h hc | closed h hc => omega

theorem fine_recvData (hk : CoreOk k) (h : Fine k (.recvData f)) (hrun : run k () (.recvData f) = some (k', p')) :
    Fine k p' := by
  obtain ⟨hs, ht, hend⟩ := h
  have hr := recv_cases BROADCAST_CAPACITY k.published k.closed f.next
  simp only [run] at hrun
  generalize recv BROADCAST_CAPACITY k.published k.closed f.next = r at hr hrun
  cases hr with
  | message _ hev =>
    cases hrun
    exact ⟨hs.message hev, ht.message hs hev, hend⟩
  | lagged hlag =>
    cases hrun
    exact ⟨hs.lag hlag, by rintro ⟨⟩, hend⟩
  | empty _ _ =>
    cases hrun
    exact ⟨hs, ht, hend⟩
  | closed hlen hc =>
    cases hrun
    exact ⟨hs, ht, hend, sent_of_closed hk hc, le_antisymm hs.next_le hlen⟩

theorem fine_recvEnd (hk : CoreOk k) (h : Fine k (.recvEnd f)) (hrun : run k () (.recvEnd f) = some (k', p')) :
    Fine k p' := by
  obtain ⟨hs, ht, hend⟩ := h
  simp only [run, hend] at hrun
  by_cases hsent : k.ends = []
  · have hopen : k.closed = false := by
      by_contra hc
      exact sent_of_closed hk (by simpa using hc) hsent
    rw [hsent, hopen] at hrun
    cases hrun
    exact ⟨hs, ht, hend⟩
  · obtain ⟨e, hrecv, he⟩ := recv_end hk hsent
    rw [hrecv] at hrun
    cases hrun
    exact ⟨⟨hs.start, hs.connect, hs.first_le, hs.next_le⟩, ht, rfl, he⟩

theorem fine_drain {o : Option EndEvent} (h : Fine k (.drain f o)) (hrun : run k () (.drain f o) = some (k', p')) :
    Fine k p' := by
  obtain ⟨hs, ht, hsome, he⟩ := h
  obtain ⟨e, rfl⟩ := Option.isSome_iff_exists.mp hsome
  have hfinal : ∀ (hlen : k.published.length ≤ f.next), Fine k (.finished (f.yield (.endEvent e))) := fun hlen =>
    ⟨⟨hs.start, hs.connect, hs.first_le, hs.next_le⟩, complete_of_told hs ht hlen he⟩
  have hr := recv_cases BROADCAST_CAPACITY k.published k.closed f.next
  simp only [run] at hrun
  generalize recv BROADCAST_CAPACITY k.published k.closed f.next = r at hr hrun
  cases hr with
  | message _ hev =>
    cases hrun
    exact ⟨hs.message hev, ht.message hs hev, rfl, he⟩
  | lagged hlag =>
    cases hrun
    exact ⟨hs.lag hlag, by rintro ⟨⟩, rfl, he⟩
  | empty hlen _ | closed hlen _ =>
    cases hrun
    exact hfinal hlen

theorem fine_tryRecvEnd (hk : CoreOk k) (h : Fine k (.tryRecvEnd f))
    (hrun : run k () (.tryRecvEnd f) = some (k', p')) : Fine k p' := by
  obtain ⟨hs, ht, hend, hsent, hnext⟩ := h
  obtain ⟨e, hrecv, he⟩ := recv_end hk hsent
  simp only [run, hend, hrecv] at hrun
  cases hrun
  exact ⟨⟨hs.start, hs.connect, hs.first_le, hs.next_le⟩, complete_of_told hs ht hnext.ge he⟩

theorem fine_replay {left : List DataEvent} {cached : Option EndEvent} (h : Fine k (.replay f left cached))
    (hrun : run k () (.replay f left cached) = some (k', p')) : Fine k p' := by
  obtain ⟨hs, ha, hnext, done, hsnap, hout⟩ := h
  cases left with
  | cons ev left =>
    cases hrun
    refine ⟨⟨hs.start, hs.connect, hs.first_le, hs.next_le⟩, ha, hnext, done ++ [ev], ?_, ?_⟩
    · show f.snapshot = done ++ [ev] ++ left
      rw [hsnap, List.append_assoc]
      rfl
    · show f.out ++ [.dataEvent ev] = _
      rw [hout]
      simp
  | nil =>
    have htold : Told k f := by
      intro _
      rw [hout, Core.output, hnext, window_self, hsnap]
      simp
    cases cached with
    | none =>
      cases hrun
      exact ⟨hs, htold, ha⟩
    | some e =>
      cases hrun
      exact ⟨hs, htold, rfl, ha⟩

theorem fine_run (hk : CoreOk k) (h : Fine k p) (hrun : run k () p = some (k', p')) : Fine k p' := by
  cases p with
  | lookup =>
    simp only [run] at hrun
    split_ifs at hrun <;> cases hrun <;> trivial
  | subscribeDataReplay =>
    cases hrun
    refine ⟨⟨by rintro ⟨⟩, fun _ => ?_, le_rfl, le_rfl⟩, rfl, rfl, rfl⟩
    show Longest evLen OUTPUT_LOG_CAPACITY (k.published.take k.published.length) k.outputLog.events
    rw [List.take_length]
    exact hk.log
  | subscribeEnd f =>
    cases hrun
    refine ⟨⟨h.1.start, h.1.connect, h.1.first_le, h.1.next_le⟩, ⟨h.2.out, h.2.next, h.2.lagged⟩, ?_⟩
    by_cases hsent : k.ends = []
    · left
      show k.ends.length = 0
      rw [hsent]
      rfl
    · right
      obtain ⟨e, he⟩ := List.exists_mem_of_ne_nil _ hsent
      rw [hk.ends e he]
      rfl
  | cachedEnd f =>
    cases hrun
    refine ⟨h.1, h.2.1, ?_⟩
    cases hended : k.ended with
    | some e => exact hended
    | none =>
      refine h.2.2.resolve_right fun hsome => ?_
      rw [hended] at hsome
      cases hsome
  | release f cached =>
    cases hrun
    exact h
  | begin f cached =>
    cases hrun
    obtain ⟨hs, hfresh, ha⟩ := h
    have ha' : Attached k (f.yield (.startEvent k.pid)) cached := by cases cached <;> exact ha
    refine ⟨⟨hs.start, hs.connect, hs.first_le, hs.next_le⟩, ha', hfresh.next, [], rfl, ?_⟩
    show f.out ++ [.startEvent k.pid] = _
    rw [hfresh.out]
    rfl
  | replay f left cached => exact fine_replay h hrun
  | recvData f => exact fine_recvData hk h hrun
  | recvEnd f => exact fine_recvEnd hk h hrun
  | drain f e => exact fine_drain h hrun
  | tryRecvEnd f => exact fine_tryRecvEnd hk h hrun
  | finished f | gone => cases hrun

end Run

/-! ### Every run -/

structure Good (s : State) : Prop where
  core : CoreOk s.core
  threads : ∀ p ∈ s.threads, Fine s.core p

theorem grows_refs (k : Core) (n : ℕ) : Grows k { k with refs := n } := .of_eq rfl rfl rfl rfl

theorem coreOk_refs {k : Core} (h : CoreOk k) (n : ℕ) : CoreOk { k with refs := n } :=
  ⟨h.log, h.exact, h.ends, h.one, h.waiting⟩

variable {s : State} {f : Feed}

theorem good_step {s' : State} {a : Act} (h : Good s) (hs : step s a = some s') : Good s' := by
  cases moves_of_step hs with
  | @start i k p threads hspawn hs' =>
    cases i with
    | connect =>
      cases hspawn
      refine ⟨h.core, fun q hq => ?_⟩
      rcases List.mem_cons.mp (hs'.subset hq) with rfl | hq
      · trivial
      · exact h.threads q hq
  | @act t c k p p' rest threads hp hrun hthreads hs' =>
    obtain ⟨n, rfl⟩ := run_core hrun
    have hgrows := grows_refs s.core n
    refine ⟨coreOk_refs h.core n, fun q hq => ?_⟩
    rcases List.mem_cons.mp (hs'.subset hq) with rfl | hq
    · have hfine : Fine s.core p := h.threads p (List.mem_of_getElem? hp)
      exact (fine_run h.core hfine hrun).mono h.core hgrows
    · exact (h.threads q (hthreads.symm.subset (List.mem_cons_of_mem _ hq))).mono h.core hgrows
  | @crash t p rest threads hp hthreads hs' =>
    refine ⟨h.core, fun q hq => ?_⟩
    rcases List.mem_cons.mp (hs'.subset hq) with rfl | hq
    · trivial
    · exact h.threads q (hthreads.symm.subset (List.mem_cons_of_mem _ hq))
  | noCrash => exact h
  | @env e k he =>
    obtain ⟨hok, hgrows⟩ := env_step h.core he
    exact ⟨hok, fun q hq => (h.threads q hq).mono h.core hgrows⟩

theorem good_initial (h : Initial s) : Good s := by
  obtain ⟨pid, rfl⟩ := h
  refine ⟨⟨⟨List.suffix_refl _, Nat.zero_le _, fun _ ht _ => ht⟩, rfl, List.forall_mem_nil _,
    Nat.zero_le _, by rintro ⟨⟩⟩, fun p hp => ?_⟩
  rw [List.mem_singleton.mp hp]
  exact ⟨⟨fun _ => ⟨rfl, rfl⟩, by rintro ⟨⟩, le_rfl, le_rfl⟩, ⟨rfl, rfl, rfl⟩, rfl⟩

theorem reach_good {ok : State → Act → Prop} (h : Reach step ok Initial s) : Good s :=
  h.invariant (fun _ => good_initial) fun _ _ _ hi _ hs => good_step hi hs

/-- The point a stream is at tells what it has yielded. -/
theorem soFar_of_fine {k : Core} {p : Proc} (h : Fine k p) (hf : feed p = some f) (hlag : f.lagged = false) :
    SoFar k f := by
  have hwithin : Sound k f → k.output f <:+: k.published := by
    intro hs
    cases ho : f.origin with
    | start =>
      rw [Core.output, (hs.start ho).2]
      exact window_infix _ _ _
    | connect =>
      obtain ⟨front, hfront⟩ := (hs.connect ho).suffix
      have hsplit : k.published.take f.next = k.published.take f.first ++ window k.published f.first f.next := by
        have htake : (k.published.take f.next).take f.first = k.published.take f.first := by
          rw [List.take_take, min_eq_left hs.first_le]
        rw [window, ← htake, List.take_append_drop]
      refine ⟨front, k.published.drop f.next, ?_⟩
      rw [Core.output, ← List.append_assoc, hfront, ← hsplit, List.take_append_drop]
  have hlive : Sound k f → Told k f → SoFar k f := fun hs ht => .inr (.inl ⟨_, hwithin hs, ht hlag⟩)
  cases p with
  | lookup | subscribeDataReplay | gone => cases hf
  | subscribeEnd g =>
    cases hf
    exact .inl h.2.out
  | cachedEnd g | release g cached | begin g cached =>
    cases hf
    exact .inl h.2.1.out
  | replay g left cached =>
    cases hf
    obtain ⟨hs, -, hnext, done, hsnap, hout⟩ := h
    refine .inr (.inl ⟨done, List.IsInfix.trans ⟨[], left, ?_⟩ (hwithin hs), hout⟩)
    rw [Core.output, hnext, window_self, hsnap, List.append_nil]
    rfl
  | recvData g | recvEnd g | tryRecvEnd g | drain g e =>
    cases hf
    exact hlive h.1 h.2.1
  | finished g =>
    cases hf
    exact .inr (.inr (h.2 hlag))

/-! ### The end of a stream -/

section Lowers

variable {k : Core} {f : Feed} {p : Proc}

/-- A bound on the steps that a stream will make once the end event was sent. -/
def weight (k : Core) : Proc → ℕ
  | .subscribeEnd f => 3 * (k.published.length - f.next) + f.snapshot.length + 10
  | .cachedEnd f => 3 * (k.published.length - f.next) + f.snapshot.length + 9
  | .release f _ => 3 * (k.published.length - f.next) + f.snapshot.length + 8
  | .begin f _ => 3 * (k.published.length - f.next) + f.snapshot.length + 7
  | .replay f left _ => 3 * (k.published.length - f.next) + left.length + 6
  | .recvData f => 3 * (k.published.length - f.next) + 4
  | .recvEnd f => 3 * (k.published.length - f.next) + 3
  | .drain f _ => 3 * (k.published.length - f.next) + 2
  | .tryRecvEnd _ => 1
  | .lookup | .subscribeDataReplay | .gone | .finished _ => 0

/-- The step of a stream that lowers its weight. -/
def Lowers (k : Core) (p : Proc) (f : Feed) : Prop :=
  ∃ n p' f', run k () p = some ({ k with refs := n }, p') ∧ feed p' = some f' ∧ f'.origin = f.origin ∧
    f'.first = f.first ∧ weight k p' < weight k p

theorem message_lt (hev : k.published[f.next]? = some ev) (n : ℕ) :
    3 * (k.published.length - (f.next + 1)) + n < 3 * (k.published.length - f.next) + n := by
  obtain ⟨hlt, -⟩ := List.getElem?_eq_some_iff.mp hev
  omega

theorem lagged_lt (hlag : f.next + BROADCAST_CAPACITY < k.published.length) (n : ℕ) :
    3 * (k.published.length - (k.published.length - BROADCAST_CAPACITY)) + n <
      3 * (k.published.length - f.next) + n := by
  omega

theorem lowers_recvData : Lowers k (.recvData f) f := by
  have hr := recv_cases BROADCAST_CAPACITY k.published k.closed f.next
  unfold Lowers
  simp only [run]
  generalize recv BROADCAST_CAPACITY k.published k.closed f.next = r at hr ⊢
  cases hr with
  | message _ hev => exact ⟨k.refs, _, _, rfl, rfl, rfl, rfl, message_lt hev 4⟩
  | lagged hlag => exact ⟨k.refs, _, _, rfl, rfl, rfl, rfl, lagged_lt hlag 4⟩
  | empty _ _ =>
    refine ⟨k.refs, _, _, rfl, rfl, rfl, rfl, ?_⟩
    show 3 * (k.published.length - f.next) + 3 < 3 * (k.published.length - f.next) + 4
    omega
  | closed _ _ =>
    refine ⟨k.refs, _, _, rfl, rfl, rfl, rfl, ?_⟩
    show 1 < 3 * (k.published.length - f.next) + 4
    omega

theorem lowers_drain {e : EndEvent} : Lowers k (.drain f (some e)) f := by
  have hr := recv_cases BROADCAST_CAPACITY k.published k.closed f.next
  unfold Lowers
  simp only [run]
  generalize recv BROADCAST_CAPACITY k.published k.closed f.next = r at hr ⊢
  cases hr with
  | message _ hev => exact ⟨k.refs, _, _, rfl, rfl, rfl, rfl, message_lt hev 2⟩
  | lagged hlag => exact ⟨k.refs, _, _, rfl, rfl, rfl, rfl, lagged_lt hlag 2⟩
  | empty _ _ | closed _ _ => exact ⟨k.refs, _, _, rfl, rfl, rfl, rfl, Nat.succ_pos _⟩

theorem run_lowers (hk : CoreOk k) (h : Fine k p) (hf : feed p = some f) (hsent : k.ends ≠ [])
    (hopen : ∀ g, p ≠ .finished g) : Lowers k p f := by
  cases p with
  | lookup | subscribeDataReplay | gone => cases hf
  | finished g => exact absurd rfl (hopen g)
  | subscribeEnd g | cachedEnd g | begin g cached =>
    cases hf
    exact ⟨k.refs, _, _, rfl, rfl, rfl, rfl, Nat.lt_succ_self _⟩
  | release g cached =>
    cases hf
    exact ⟨k.refs - 1, _, _, rfl, rfl, rfl, rfl, Nat.lt_succ_self _⟩
  | replay g left cached =>
    cases hf
    cases left with
    | cons ev left =>
      refine ⟨k.refs, _, _, rfl, rfl, rfl, rfl, ?_⟩
      show 3 * (k.published.length - f.next) + left.length + 6 <
        3 * (k.published.length - f.next) + (left.length + 1) + 6
      omega
    | nil =>
      cases cached with
      | none =>
        refine ⟨k.refs, _, _, rfl, rfl, rfl, rfl, ?_⟩
        show 3 * (k.published.length - f.next) + 4 < 3 * (k.published.length - f.next) + 6
        omega
      | some e =>
        refine ⟨k.refs, _, _, rfl, rfl, rfl, rfl, ?_⟩
        show 3 * (k.published.length - f.next) + 2 < 3 * (k.published.length - f.next) + 6
        omega
  | recvData g =>
    cases hf
    exact lowers_recvData
  | recvEnd g =>
    cases hf
    obtain ⟨e, hrecv, -⟩ := recv_end hk hsent
    refine ⟨k.refs, .drain { f with endNext := 1 } (some e), _, ?_, rfl, rfl, rfl, Nat.lt_succ_self _⟩
    simp only [run, h.2.2, hrecv]
  | drain g e =>
    cases hf
    obtain ⟨e', rfl⟩ := Option.isSome_iff_exists.mp h.2.2.1
    exact lowers_drain
  | tryRecvEnd g =>
    cases hf
    obtain ⟨e, hrecv, -⟩ := recv_end hk hsent
    refine ⟨k.refs, .finished ({ f with endNext := 1 }.yield (.endEvent e)), _, ?_, rfl, rfl, rfl, Nat.zero_lt_one⟩
    simp only [run, h.2.2.1, hrecv]

end Lowers

/-- The stream at place `t`, which was `f` once, after the end event was sent. -/
structure Ending (t : ℕ) (f : Feed) (s : State) : Prop where
  good : Good s
  sent : s.core.ends ≠ []
  stream : ∃ p g, s.threads[t]? = some p ∧ feed p = some g ∧ g.origin = f.origin ∧ g.first = f.first

def FinishedAt (t : ℕ) (s : State) : Prop := ∃ f, s.threads[t]? = some (.finished f)

def weightAt (t : ℕ) (s : State) : ℕ := (s.threads[t]?).elim 0 (weight s.core)

theorem step_lowers {t : ℕ} (h : Ending t f s) (hopen : ¬ FinishedAt t s) :
    ∃ s', step s (.act t ()) = some s' ∧ Ending t f s' ∧ weightAt t s' < weightAt t s := by
  obtain ⟨p, g, hp, hg, horigin, hfirst⟩ := h.stream
  have hnot : ∀ g, p ≠ .finished g := by
    rintro g rfl
    exact hopen ⟨g, hp⟩
  have hfine : Fine s.core p := h.good.threads p (List.mem_of_getElem? hp)
  obtain ⟨n, p', g', hrun, hg', horigin', hfirst', hlt⟩ := run_lowers h.good.core hfine hg h.sent hnot
  have hs' : step s (.act t ()) = some ⟨{ s.core with refs := n }, s.threads.set t p'⟩ := by
    show prog.step s (.act t ()) = _
    rw [Prog.step, hp]
    show (run s.core () p).map _ = _
    rw [hrun]
    rfl
  have hat : (s.threads.set t p')[t]? = some p' := List.getElem?_set_self (List.getElem?_eq_some_iff.mp hp).1
  refine ⟨_, hs', ⟨good_step h.good hs', h.sent, p', g', hat, hg', horigin'.trans horigin, hfirst'.trans hfirst⟩, ?_⟩
  have hsame : weight { s.core with refs := n } p' = weight s.core p' := by cases p' <;> rfl
  show ((s.threads.set t p')[t]?).elim 0 (weight { s.core with refs := n }) < (s.threads[t]?).elim 0 (weight s.core)
  rw [hat, hp]
  show weight { s.core with refs := n } p' < weight s.core p
  rw [hsame]
  exact hlt

/-- A stream that nobody interrupts comes to its end once the end event was sent. -/
theorem exists_finished {t : ℕ} {p : Proc} (h : Good s) (hp : s.threads[t]? = some p) (hf : feed p = some f)
    (hsent : s.core.ends ≠ []) :
    ∃ n s' f', exec step s (List.replicate n (.act t ())) = some s' ∧ s'.threads[t]? = some (.finished f') ∧
      f'.origin = f.origin ∧ f'.first = f.first ∧ Good s' := by
  have hending : Ending t f s := ⟨h, hsent, p, f, hp, hf, rfl, rfl⟩
  obtain ⟨n, s', hexec, hending', f', hf'⟩ :=
    exists_exec_replicate (weightAt t) (.act t () : Act) (fun _ hs hopen => step_lowers hs hopen) s hending
  obtain ⟨p', g, hp', hg, horigin, hfirst⟩ := hending'.stream
  rw [hf'] at hp'
  cases hp'
  cases hg
  exact ⟨n, s', f', hexec, hf', horigin, hfirst, hending'.good⟩

/-! ### The result -/

/-- **Process output.**  At any time a stream that has not lagged has yielded the start event and a run of the output
without a gap; at its end, the output up to its last event and the end event after it.  And it comes to its end as
soon as the process has. -/
theorem reach_stream {s : State} (h : Reach step (fun _ _ => True) Initial s) :
    ∀ t p f, s.threads[t]? = some p → feed p = some f →
      (f.lagged = false → SoFar s.core f) ∧ (p = .finished f → f.lagged = false → Complete s.core f) ∧
      (s.core.ends ≠ [] → ∃ n s' f', exec step s (List.replicate n (.act t ())) = some s' ∧
        s'.threads[t]? = some (.finished f') ∧ f'.origin = f.origin ∧ f'.first = f.first ∧
        (f'.lagged = false → Complete s'.core f')) := by
  have hgood := reach_good h
  intro t p f hp hf
  have hfine : Fine s.core p := hgood.threads p (List.mem_of_getElem? hp)
  refine ⟨soFar_of_fine hfine hf, ?_, fun hsent => ?_⟩
  · rintro rfl
    exact hfine.2
  · obtain ⟨n, s', f', hexec, hp', horigin, hfirst, hgood'⟩ := exists_finished hgood hp hf hsent
    exact ⟨n, s', f', hexec, hp', horigin, hfirst, (hgood'.threads _ (List.mem_of_getElem? hp')).2⟩

/-- A process that writes to both outputs and exits; a `Connect` attaches between the two, and subscribes to the end
while the waiter stores it. -/
def attachedRun : List Act :=
  [.act 0 (), .env (.publishData (.stdout [104])), .start .connect, .act 1 (), .act 1 (),
    .env (.publishData (.stderr [101])), .act 1 (), .env (.storeEnd (.ok ⟨some 3, "exit status: 3"⟩)), .act 1 (),
    .env .sendEnd] ++ (List.replicate 6 (.act 1 ()) ++ List.replicate 7 (.act 0 ()))

def attachedHandle : State := ⟨Core.new 7, [.release startFeed none]⟩

theorem attached_run_complete :
    ∃ f g, (last step attachedHandle attachedRun).threads = [.finished f, .finished g] ∧
      f.out = g.out ∧ g.origin = .connect ∧ Complete (last step attachedHandle attachedRun).core f ∧
      Complete (last step attachedHandle attachedRun).core g := by
  have hadm : Admits step (fun _ _ => True) attachedHandle attachedRun := by decide +kernel
  have hreach : Reach step (fun _ _ => True) Initial (last step attachedHandle attachedRun) := .last ⟨7, rfl⟩ hadm
  have hthreads : (last step attachedHandle attachedRun).threads =
      [.finished ⟨.start, 0, [], 2, 1, false, [.startEvent 7, .dataEvent (.stdout [104]), .dataEvent (.stderr [101]),
          .endEvent ⟨3, true, "exit status: 3", none⟩]⟩,
        .finished ⟨.connect, 1, [.stdout [104]], 2, 0, false, [.startEvent 7, .dataEvent (.stdout [104]),
          .dataEvent (.stderr [101]), .endEvent ⟨3, true, "exit status: 3", none⟩]⟩] := by decide +kernel
  have hstart := reach_stream hreach 0 _ _ (by rw [hthreads]; rfl) rfl
  have hconnect := reach_stream hreach 1 _ _ (by rw [hthreads]; rfl) rfl
  exact ⟨_, _, hthreads, rfl, rfl, hstart.2.1 rfl rfl, hconnect.2.1 rfl rfl⟩

end Wrenn.Processes.Delivery
