import Mathlib.Data.List.Sublists
import Wrenn.Builds.Broker

/-!
# The order of build events

A reader hands on what its subscription yields in order, and a fan-out has one reader that is not
cancelled; but an event goes to the subscribers that the build has when it is dispatched.  A reader that
has been cancelled and has not noticed yet dispatches to the subscribers of the next fan-out, beside the
reader of that fan-out.

* `Timely`: what is ahead of a subscriber comes after what it has been sent;
* `reach_events_in_order`: as long as no cancelled reader dispatches to a later fan-out, nobody gets an
  event twice or late.
-/

namespace Wrenn.Builds.Order

open Broker Lib.Places Lib.Runs Function

/-- A reader that is cancelled dispatches an event only while its build has no fan-out. -/
def attentive (s : State) : Act → Bool
  | .reader k .go =>
    match s.readers[k]? with
    | some ⟨build, true, .holding _ _⟩ => (s.builds build).isNone
    | _ => true
  | _ => true

/-- Events of a build of which `n` have been published, in the order of their publication. -/
def Ascending (n : ℕ) (events : List ℕ) : Prop := events.Pairwise (· < ·) ∧ ∀ e ∈ events, e < n

structure Timely (s : State) : Prop where
  reader : ∀ (k : ℕ) (r : Reader), s.readers[k]? = some r → Ascending (s.published r.build) r.pc.pending
  sub : ∀ (j : ℕ) (q : Subscriber), s.subscribers[j]? = some q → Ascending (s.published q.build) q.sent
  fan : ∀ build fan, s.builds build = some fan → ∀ j ∈ fan.subs, ∀ q r, s.subscribers[j]? = some q →
    s.readers[fan.reader]? = some r → (q.sent ++ r.pc.pending).Pairwise (· < ·)

section Timely

variable {s s' : State}

theorem Ascending.sublist {n : ℕ} {l l' : List ℕ} (h : Ascending n l) (hl : l'.Sublist l) : Ascending n l' :=
  ⟨h.1.sublist hl, fun e he => h.2 e (hl.subset he)⟩

theorem Ascending.append {n : ℕ} {l : List ℕ} (h : Ascending n l) : Ascending (n + 1) (l ++ [n]) := by
  refine ⟨List.pairwise_append.mpr ⟨h.1, List.pairwise_singleton _ _, fun e he e' he' => ?_⟩, fun e he => ?_⟩
  · rw [List.mem_singleton.mp he']
    exact h.2 e he
  · rcases List.mem_append.mp he with he | he
    · exact Nat.lt_succ_of_lt (h.2 e he)
    · rw [List.mem_singleton.mp he]
      exact Nat.lt_succ_self n

/-- Nobody is sent anything, nobody joins a fan-out, and readers get nothing new. -/
theorem Timely.frame (h : Timely s) (hpub : s'.published = s.published)
    (hsubs : ∀ (j : ℕ) q', s'.subscribers[j]? = some q' →
      ∃ q, s.subscribers[j]? = some q ∧ q'.build = q.build ∧ q'.sent = q.sent)
    (hreaders : ∀ (k : ℕ) r', s'.readers[k]? = some r' →
      ∃ r, s.readers[k]? = some r ∧ r'.build = r.build ∧ r'.pc.pending.Sublist r.pc.pending)
    (hfans : ∀ build f', s'.builds build = some f' →
      ∃ f, s.builds build = some f ∧ f'.reader = f.reader ∧ f'.subs ⊆ f.subs) : Timely s' := by
  refine ⟨fun k r' hr' => ?_, fun j q' hq' => ?_, fun build f' hf' j hj q' r' hq' hr' => ?_⟩
  · obtain ⟨r, hr, hb, hsub⟩ := hreaders k r' hr'
    rw [hpub, hb]
    exact (h.reader k r hr).sublist hsub
  · obtain ⟨q, hq, hb, hsent⟩ := hsubs j q' hq'
    rw [hpub, hb, hsent]
    exact h.sub j q hq
  · obtain ⟨f, hf, hreader, hsubset⟩ := hfans build f' hf'
    obtain ⟨q, hq, -, hsent⟩ := hsubs j q' hq'
    obtain ⟨r, hr, -, hsub⟩ := hreaders _ r' hr'
    rw [hreader] at hr
    rw [hsent]
    exact (h.fan build f hf j (hsubset hj) q r hq hr).sublist (hsub.append_left _)

theorem Timely.subscribe (h : Timely s) (build : ℕ) : Timely (s.subscribe build) := by
  -- The new subscriber has been sent nothing, and a new reader has nothing ahead.
  have hsub : ∀ k, ∀ (j : ℕ) q, (s.subscribers ++ [⟨build, k, .unused, false, [], 0⟩])[j]? = some q →
      Ascending (s.published q.build) q.sent := by
    intro k j q hq
    rcases get_append_new hq with hq | ⟨-, rfl⟩
    · exact h.sub j q hq
    · exact ⟨List.Pairwise.nil, List.forall_mem_nil _⟩
  unfold State.subscribe
  split
  · rename_i fan hfan
    refine ⟨h.reader, hsub _, fun b f hf j hj q r hq hr => ?_⟩
    dsimp only at hf hq hr
    rcases get_append_new hq with hq | ⟨-, rfl⟩
    · rcases of_update hf with ⟨-, ⟨⟩⟩ | ⟨-, hf⟩
      · rcases List.mem_append.mp hj with hj | hj
        · exact h.fan build fan hfan j hj q r hq hr
        · rw [List.mem_singleton.mp hj, List.getElem?_eq_none (Nat.le_refl _)] at hq
          cases hq
      · exact h.fan b f hf j hj q r hq hr
    · exact (h.reader _ r hr).1
  · refine ⟨fun k r hr => ?_, hsub _, fun b f hf j hj q r hq hr => ?_⟩
    · rcases get_append_new hr with hr | ⟨-, rfl⟩
      · exact h.reader k r hr
      · exact ⟨List.Pairwise.nil, List.forall_mem_nil _⟩
    · dsimp only at hf hq hr
      rcases get_append_new hr with hr | ⟨-, rfl⟩
      · rcases get_append_new hq with hq | ⟨-, rfl⟩
        · rcases of_update hf with ⟨-, ⟨⟩⟩ | ⟨-, hf⟩
          · rw [List.getElem?_eq_none (Nat.le_refl _)] at hr
            cases hr
          · exact h.fan b f hf j hj q r hq hr
        · exact (h.reader _ r hr).1
      · change (q.sent ++ []).Pairwise _
        rw [List.append_nil]
        exact (hsub _ j q hq).1

theorem Timely.release (h : Timely s) {ch : ℕ} {q : Subscriber} (hq : s.subscribers[ch]? = some q) :
    Timely (s.release ch q) := by
  have hsubs : ∀ (sub : Subscriber), sub.build = q.build → sub.sent = q.sent → ∀ (j : ℕ) q',
      (s.subscribers.set ch sub)[j]? = some q' →
      ∃ q, s.subscribers[j]? = some q ∧ q'.build = q.build ∧ q'.sent = q.sent := by
    intro sub hb hsent j q' hq'
    rcases get_set hq hq' with ⟨rfl, rfl⟩ | ⟨-, hq'⟩
    · exact ⟨q, hq, hb, hsent⟩
    · exact ⟨q', hq', rfl, rfl⟩
  have hreaders : ∀ (k : ℕ) r', s.readers[k]? = some r' →
      ∃ r, s.readers[k]? = some r ∧ r'.build = r.build ∧ r'.pc.pending.Sublist r.pc.pending :=
    fun k r hr => ⟨r, hr, rfl, List.Sublist.refl _⟩
  unfold State.release
  split
  · exact h.frame rfl (hsubs _ rfl rfl) hreaders fun b f hf => ⟨f, hf, rfl, fun j hj => hj⟩
  · rename_i fan hfan
    split_ifs
    · refine h.frame rfl (hsubs _ rfl rfl) (fun k r' hr' => ?_) fun b f hf => ?_
      · rcases get_modify hr' with ⟨rfl, r, hr, rfl⟩ | ⟨-, hr'⟩
        · exact ⟨r, hr, rfl, List.Sublist.refl _⟩
        · exact hreaders k r' hr'
      · rcases of_update hf with ⟨-, ⟨⟩⟩ | ⟨-, hf⟩
        exact ⟨f, hf, rfl, fun j hj => hj⟩
    · refine h.frame rfl (hsubs _ rfl rfl) hreaders fun b f hf => ?_
      rcases of_update hf with ⟨rfl, ⟨⟩⟩ | ⟨-, hf⟩
      · exact ⟨fan, hfan, rfl, List.erase_subset⟩
      · exact ⟨f, hf, rfl, fun j hj => hj⟩
    · exact h.frame rfl (hsubs _ rfl rfl) hreaders fun b f hf => ⟨f, hf, rfl, fun j hj => hj⟩

/-- What the subscription of a reader gives it when an event of a build is published. -/
theorem deliver_cases (build event : ℕ) (r : Reader) :
    (r.deliver build event).build = r.build ∧
      ((r.deliver build event).pc.pending = r.pc.pending ∨
        r.build = build ∧ (r.deliver build event).pc.pending = r.pc.pending ++ [event]) := by
  unfold Reader.deliver
  split_ifs with hb
  · split
    · rename_i hpc
      exact ⟨rfl, .inr ⟨hb, by rw [hpc]; rfl⟩⟩
    · rename_i hpc
      exact ⟨rfl, .inr ⟨hb, by rw [hpc]; rfl⟩⟩
    · exact ⟨rfl, .inl rfl⟩
  · exact ⟨rfl, .inl rfl⟩

theorem Timely.publish (h : Timely s) (hf : Fanned s) (build : ℕ) :
    Timely { s with published := update s.published build (s.published build + 1)
                    readers := s.readers.map (Reader.deliver build (s.published build)) } := by
  have hgrow : ∀ b l, Ascending (s.published b) l →
      Ascending (update s.published build (s.published build + 1) b) l := by
    rintro b l ⟨hl, hlt⟩
    refine ⟨hl, fun e he => ?_⟩
    have := hlt e he
    by_cases hb : b = build
    · subst hb
      rw [update_self]
      omega
    · rw [update_of_ne hb]
      exact this
  refine ⟨fun k r' hr' => ?_, fun j q hq => hgrow _ _ (h.sub j q hq), fun b f hfan j hj q r' hq hr' => ?_⟩
  all_goals
    dsimp only at hr'
    rw [List.getElem?_map] at hr'
    obtain ⟨r, hr, rfl⟩ := Option.map_eq_some_iff.mp hr'
    obtain ⟨hb, hsame | ⟨rfl, hpend⟩⟩ := deliver_cases build (s.published build) r
  · rw [hb, hsame]
    exact hgrow _ _ (h.reader k r hr)
  · rw [hb, hpend]
    dsimp only
    rw [update_self]
    exact (h.reader k r hr).append
  · rw [hsame]
    exact h.fan b f hfan j hj q r hq hr
  · -- Subscriber and reader belong to the build, so the new event comes after all of theirs.
    have hentry := hf.entry b f hfan
    obtain ⟨r0, hr0, hr0b, -⟩ := hentry.reader
    cases hr0.symm.trans hr
    obtain ⟨q0, hq0, hq0b, -⟩ := hentry.subs j hj
    cases hq0.symm.trans hq
    rw [hpend, ← List.append_assoc]
    have hall : Ascending (s.published r.build) (q.sent ++ r.pc.pending) := by
      refine ⟨h.fan b f hfan j hj q r hq hr, fun e he => ?_⟩
      rcases List.mem_append.mp he with he | he
      · rw [hr0b, ← hq0b]
        exact (h.sub j q hq).2 e he
      · exact (h.reader _ r hr).2 e he
    exact hall.append.1

variable {r : Reader} {pc : Pc}

/-- A reader dispatches the first of its events, or loses some. -/
theorem advance_pending {c : Choice} {event : Option ℕ} (h : r.advance c = some (pc, event)) :
    (event.toList ++ pc.pending).Sublist r.pc.pending ∧
      (event.isSome = true → c = .go ∧ ∃ e queue, r.pc = .holding e queue) := by
  obtain ⟨build, cancelled, p⟩ := r
  rcases p with _ | _ | (_ | ⟨e, queue⟩) | ⟨e, queue⟩ | _ | _ <;> cases c <;> cases cancelled <;>
    simp_all [Reader.advance]
  all_goals
    obtain ⟨rfl, rfl⟩ := h
    simp [Pc.pending]

theorem Timely.move (h : Timely s) {k : ℕ} (hr : s.readers[k]? = some r) (hpc : pc.pending.Sublist r.pc.pending) :
    Timely { s with readers := s.readers.set k { r with pc := pc } } := by
  refine h.frame rfl (fun j q hq => ⟨q, hq, rfl, rfl⟩) (fun i r' hr' => ?_) fun b f hf => ⟨f, hf, rfl, fun j hj => hj⟩
  rcases get_set hr hr' with ⟨rfl, rfl⟩ | ⟨-, hr'⟩
  · exact ⟨r, hr, rfl, hpc⟩
  · exact ⟨r', hr', rfl, List.Sublist.refl _⟩

/-- The reader `k` of the fan-out `fan` dispatches the event `e`. -/
theorem Timely.dispatch (h : Timely s) (hf : Fanned s) {k e : ℕ} {fan : Fanout} (hr : s.readers[k]? = some r)
    (hpc : (e :: pc.pending).Sublist r.pc.pending) (hfan : s.builds r.build = some fan) (hk : fan.reader = k) :
    Timely ({ s with readers := s.readers.set k { r with pc := pc } }.dispatch r.build e) := by
  have hmoved := h.move hr ((List.sublist_cons_self e _).trans hpc)
  have hentry := hf.entry _ fan hfan
  -- A subscriber is as before, or one of the fan-out that has been sent the event.
  have hsent : ∀ (j : ℕ) q', (s.subscribers.mapIdx fun j q => if j ∈ fan.subs then q.send e else q)[j]? = some q' →
      s.subscribers[j]? = some q' ∨ j ∈ fan.subs ∧ ∃ q, s.subscribers[j]? = some q ∧ q'.build = q.build ∧
        q.build = r.build ∧ q'.sent = q.sent ++ [e] ∧ (q.sent ++ r.pc.pending).Pairwise (· < ·) := by
    intro j q' hq'
    rw [List.getElem?_mapIdx] at hq'
    obtain ⟨q, hq, rfl⟩ := Option.map_eq_some_iff.mp hq'
    split_ifs with hj
    · obtain ⟨q0, hq0, hq0b, -⟩ := hentry.subs j hj
      cases hq0.symm.trans hq
      unfold Subscriber.send
      split_ifs
      · exact .inr ⟨hj, q, hq, rfl, hq0b, rfl, h.fan _ fan hfan j hj q r hq (hk ▸ hr)⟩
      · exact .inl hq
    · exact .inl hq
  unfold State.dispatch
  dsimp only
  rw [hfan]
  refine ⟨hmoved.reader, fun j q' hq' => ?_, fun b f hb j hj q' r' hq' hr' => ?_⟩
  · rcases hsent j q' hq' with hq | ⟨-, q, hq, hqb, hb, hq', hpair⟩
    · exact h.sub j q' hq
    · rw [hqb, hq']
      refine ⟨hpair.sublist ((List.singleton_sublist.mpr (hpc.subset List.mem_cons_self)).append_left _), ?_⟩
      intro e' he'
      rcases List.mem_append.mp he' with he' | he'
      · exact (h.sub j q hq).2 e' he'
      · rw [List.mem_singleton.mp he', hb]
        exact (h.reader k r hr).2 e (hpc.subset List.mem_cons_self)
  · rcases hsent j q' hq' with hq | ⟨-, q, hq, -, hqb, hq', hpair⟩
    · exact hmoved.fan b f hb j hj q' r' hq hr'
    · obtain ⟨q0, hq0, hq0b, -⟩ := (hf.entry b f hb).subs j hj
      cases hq0.symm.trans hq
      rw [← hq0b, hqb] at hb
      cases hfan.symm.trans hb
      dsimp only at hr'
      rw [hk, get_set_self hr] at hr'
      cases hr'
      rw [hq', List.append_assoc]
      exact hpair.sublist (hpc.append_left _)

theorem timely_step {a : Act} (h : Timely s) (hf : Fanned s) (hok : attentive s a = true)
    (hs : step s a = some s') : Timely s' := by
  have hkeep : ∀ {ch : ℕ} {q q' : Subscriber}, s.subscribers[ch]? = some q → q'.build = q.build → q'.sent = q.sent →
      Timely { s with subscribers := s.subscribers.set ch q' } := by
    intro ch q q' hq hb hsent
    refine h.frame rfl (fun j p hp => ?_) (fun k r hr => ⟨r, hr, rfl, List.Sublist.refl _⟩)
      fun b f hf => ⟨f, hf, rfl, fun j hj => hj⟩
    rcases get_set hq hp with ⟨rfl, rfl⟩ | ⟨-, hp⟩
    · exact ⟨q, hq, hb, hsent⟩
    · exact ⟨p, hp, rfl, rfl⟩
  cases a with
  | subscribe build =>
    cases hs
    exact h.subscribe build
  | release ch =>
    obtain ⟨q, hq, rfl⟩ := Option.map_eq_some_iff.mp hs
    split_ifs
    · exact hkeep hq rfl rfl
    · exact h
  | finish ch =>
    obtain ⟨q, hq, hs⟩ := Option.bind_eq_some_iff.mp hs
    obtain ⟨-, hs⟩ := Option.ite_none_right_eq_some.mp hs
    cases hs
    exact h.release hq
  | receive ch =>
    obtain ⟨q, hq, hs⟩ := Option.bind_eq_some_iff.mp hs
    obtain ⟨-, hs⟩ := Option.ite_none_right_eq_some.mp hs
    cases hs
    exact hkeep hq rfl rfl
  | publish build =>
    cases hs
    exact h.publish hf build
  | reader k c =>
    obtain ⟨r, hr, hs⟩ := Option.bind_eq_some_iff.mp hs
    obtain ⟨⟨pc, event⟩, hadv, rfl⟩ := Option.map_eq_some_iff.mp hs
    obtain ⟨hpend, hgo⟩ := advance_pending hadv
    cases event with
    | none => exact h.move hr hpend
    | some e =>
      obtain ⟨rfl, e0, queue, hpc⟩ := hgo rfl
      show Timely (State.dispatch _ r.build e)
      cases hfan : s.builds r.build with
      | none =>
        unfold State.dispatch
        dsimp only
        rw [hfan]
        exact h.move hr ((List.sublist_cons_self e _).trans hpend)
      | some fan =>
        have hlive : r.cancelled = false := by
          obtain ⟨build, cancelled, p⟩ := r
          cases cancelled with
          | false => rfl
          | true =>
            subst hpc
            simp [attentive, hr, hfan] at hok
        obtain ⟨f, hf', hk⟩ := hf.reader k r hr hlive
        cases hfan.symm.trans hf'
        exact h.dispatch hf hr hpend hfan hk

end Timely

/-- **Events arrive once and in order.**  In every run in which no cancelled reader dispatches to a later fan-out of its
build, what a subscriber is sent, and so what it receives, are events of its build in the order of their publication. -/
theorem reach_events_in_order {s : State} (h : Reach step (fun s a => attentive s a = true) Initial s)
    {sub : Subscriber} (hsub : sub ∈ s.subscribers) :
    sub.sent.Pairwise (· < ·) ∧ sub.received.Pairwise (· < ·) ∧ ∀ e ∈ sub.received, e < s.published sub.build := by
  have hinv : Fanned s ∧ Timely s := by
    refine h.invariant (I := fun s => Fanned s ∧ Timely s) ?_ fun s a s' hi hok hs =>
      ⟨fanned_step hi.1 hs, timely_step hi.2 hi.1 hok hs⟩
    rintro s rfl
    refine ⟨fanned_initial, fun k r hr => ?_, fun j q hq => ?_, by rintro _ _ ⟨⟩⟩
    · cases hr
    · cases hq
  obtain ⟨j, hj⟩ := List.mem_iff_getElem?.mp hsub
  have hsent := hinv.2.sub j sub hj
  have hreceived := hsent.sublist (List.take_sublist sub.taken sub.sent)
  exact ⟨hsent.1, hreceived⟩

/-- A subscriber gets two of three events and is released; its reader notices. -/
def orderedRun : List Act :=
  [.subscribe 0, .reader 0 .go, .reader 0 .go, .publish 0, .publish 0, .reader 0 .message, .reader 0 .go,
    .reader 0 .message, .reader 0 .go, .receive 0, .receive 0, .publish 0, .release 0, .finish 0, .reader 0 .done]

theorem orderedRun_in_order :
    ∃ sub ∈ (last step newBuildBroker orderedRun).subscribers, sub.received = [0, 1] ∧
      sub.received.Pairwise (· < ·) := by
  have hadm : Admits step (fun s a => attentive s a = true) newBuildBroker orderedRun := by decide +kernel
  have hmem : (⟨0, 0, .done, true, [0, 1], 2⟩ : Subscriber) ∈ (last step newBuildBroker orderedRun).subscribers := by
    decide +kernel
  exact ⟨_, hmem, rfl, (reach_events_in_order (.last rfl hadm) hmem).2.1⟩

/-- **An event comes twice.**  The first reader has lost its only subscriber and does not look at its context; the next
subscriber has a reader of its own, and both readers get the event and dispatch it to that subscriber. -/
theorem late_reader_duplicates :
    ∃ s, exec step newBuildBroker
      [.subscribe 0, .reader 0 .go, .reader 0 .go, .release 0, .finish 0, .subscribe 0, .reader 1 .go, .reader 1 .go,
        .publish 0, .reader 0 .message, .reader 0 .go, .reader 1 .message, .reader 1 .go, .receive 1,
        .receive 1] = some s ∧
      (s.subscribers[1]?).map Subscriber.received = some [0, 0] := ⟨_, rfl, by decide +kernel⟩

end Wrenn.Builds.Order
