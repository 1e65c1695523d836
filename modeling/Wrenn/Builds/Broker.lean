import Mathlib.Data.List.Nodup
import Wrenn.Lib.Places
import Wrenn.Lib.Runs

/-!
# The build broker

Subscribers to the events of a build share a fan-out, and a goroutine reads the Redis channel of the build
and dispatches what it gets.  The first subscriber makes the fan-out and starts the reader; the last one
that is released cancels the reader and removes the fan-out, and a later subscriber makes a new one.  A
reader that has been cancelled goes on until it notices, and it finds the fan-out by the build.

`Subscribe`, the body of a release and `dispatch` hold the mutex of the broker from begin to end, so each
is one step.  A subscriber is known by its place, and so is a reader; an event is the number of events
published for its build before it.

* `Fanned`: fan-outs, unreleased subscribers and uncancelled readers belong together;
* `reach_broker_safe`: what follows for channels, fan-outs and contexts.
-/

namespace Wrenn.Builds.Broker

open Lib.Places Lib.Runs Function

/-! ### The model -/

def buildSubBuffer : ℕ := 256

/-- The `sync.Once` of a release. -/
inductive Once
  | unused
  | entered
  | done
  deriving DecidableEq, Repr

structure Subscriber where
  build : ℕ
  /-- the reader of the fan-out it was added to -/
  reader : ℕ
  once : Once
  closed : Bool
  /-- the events put into the channel -/
  sent : List ℕ
  /-- how many of them have been received -/
  taken : ℕ
  deriving DecidableEq, Repr

inductive Pc
  /-- before the check of `ctx.Err` -/
  | loop
  | connecting
  /-- in the `select` of `subscribeOnce` -/
  | reading (queue : List ℕ)
  | holding (event : ℕ) (queue : List ℕ)
  /-- in the `select` of `run` -/
  | backoff
  | ended
  deriving DecidableEq, Repr

structure Reader where
  build : ℕ
  cancelled : Bool
  pc : Pc
  deriving DecidableEq, Repr

structure Fanout where
  subs : List ℕ
  reader : ℕ
  deriving DecidableEq, Repr

inductive Fault
  | sendOnClosed (j : ℕ)
  | closeOfClosed (j : ℕ)
  deriving DecidableEq, Repr

/-- The events that a reader has got and not dispatched. -/
def Pc.pending : Pc → List ℕ
  | .reading queue => queue
  | .holding event queue => event :: queue
  | _ => []

def Subscriber.received (sub : Subscriber) : List ℕ := sub.sent.take sub.taken

structure State where
  subscribers : List Subscriber
  readers : List Reader
  builds : ℕ → Option Fanout
  published : ℕ → ℕ
  faults : List Fault

/-- The send does not block; a full buffer drops the event. -/
def Subscriber.send (sub : Subscriber) (event : ℕ) : Subscriber :=
  if sub.sent.length - sub.taken < buildSubBuffer then { sub with sent := sub.sent ++ [event] } else sub

def State.subscribe (s : State) (build : ℕ) : State :=
  match s.builds build with
  | some fan =>
    { s with subscribers := s.subscribers ++ [⟨build, fan.reader, .unused, false, [], 0⟩]
             builds := Function.update s.builds build (some { fan with subs := fan.subs ++ [s.subscribers.length] }) }
  | none =>
    { s with subscribers := s.subscribers ++ [⟨build, s.readers.length, .unused, false, [], 0⟩]
             readers := s.readers ++ [⟨build, false, .loop⟩]
             builds := Function.update s.builds build (some ⟨[s.subscribers.length], s.readers.length⟩) }

def Reader.cancel (r : Reader) : Reader := { r with cancelled := true }

/-- `close(ch)`, at the end of the release. -/
def State.close (s : State) (ch : ℕ) (sub : Subscriber) : State :=
  { s with subscribers := s.subscribers.set ch { sub with once := .done, closed := true }
           faults := if sub.closed then .closeOfClosed ch :: s.faults else s.faults }

/-- The body of the release of the subscriber `ch`. -/
def State.release (s : State) (ch : ℕ) (sub : Subscriber) : State :=
  match s.builds sub.build with
  | none => { s with subscribers := s.subscribers.set ch { sub with once := .done } }
  | some fan =>
    if ch ∈ fan.subs then
      if fan.subs.erase ch = [] then
        { s.close ch sub with readers := s.readers.modify fan.reader Reader.cancel
                              builds := Function.update s.builds sub.build none }
      else
        { s.close ch sub with
          builds := Function.update s.builds sub.build (some { fan with subs := fan.subs.erase ch }) }
    else { s with subscribers := s.subscribers.set ch { sub with once := .done } }

def State.closedSubs (s : State) (fan : Fanout) : List ℕ :=
  fan.subs.filter fun j => (s.subscribers[j]?).any fun sub => sub.closed

def State.dispatch (s : State) (build event : ℕ) : State :=
  match s.builds build with
  | none => s
  | some fan =>
    { s with subscribers := s.subscribers.mapIdx fun j sub => if j ∈ fan.subs then sub.send event else sub
             faults := (s.closedSubs fan).map .sendOnClosed ++ s.faults }

/-- What a reader meets: its context is done, a message, a closed subscription or the timer; a bad payload. -/
inductive Choice
  | done
  | message
  | lost
  | timer
  | bad
  | go
  deriving DecidableEq, Repr

/-- The next point of a reader, and the event that it dispatches. -/
def Reader.advance (r : Reader) (c : Choice) : Option (Pc × Option ℕ) :=
  match r.pc, c with
  | .loop, .go => some (if r.cancelled then .ended else .connecting, none)
  | .connecting, .go => some (.reading [], none)
  | .reading _, .done | .backoff, .done => if r.cancelled then some (.ended, none) else none
  | .reading (e :: queue), .message => some (.holding e queue, none)
  | .reading _, .lost => some (if r.cancelled then .ended else .backoff, none)
  | .holding _ queue, .bad => some (.reading queue, none)
  | .holding e queue, .go => some (.reading queue, some e)
  | .backoff, .timer => some (.loop, none)
  | _, _ => none

/-- The subscription of a reader gets an event. -/
def Reader.deliver (build event : ℕ) (r : Reader) : Reader :=
  if r.build = build then
    match r.pc with
    | .reading queue => { r with pc := .reading (queue ++ [event]) }
    | .holding e queue => { r with pc := .holding e (queue ++ [event]) }
    | _ => r
  else r

inductive Act
  | subscribe (build : ℕ)
  /-- a call of the release of a subscriber -/
  | release (ch : ℕ)
  /-- its body -/
  | finish (ch : ℕ)
  | receive (ch : ℕ)
  | publish (build : ℕ)
  | reader (k : ℕ) (c : Choice)
  deriving DecidableEq, Repr

def step (s : State) : Act → Option State
  | .subscribe build => some (s.subscribe build)
  | .release ch => (s.subscribers[ch]?).map fun sub =>
    if sub.once = .unused then { s with subscribers := s.subscribers.set ch { sub with once := .entered } } else s
  | .finish ch => (s.subscribers[ch]?).bind fun sub => if sub.once = .entered then some (s.release ch sub) else none
  | .receive ch => (s.subscribers[ch]?).bind fun sub =>
    if sub.taken < sub.sent.length then
      some { s with subscribers := s.subscribers.set ch { sub with taken := sub.taken + 1 } }
    else none
  | .publish build =>
    some { s with published := Function.update s.published build (s.published build + 1)
                  readers := s.readers.map (Reader.deliver build (s.published build)) }
  | .reader k c => (s.readers[k]?).bind fun r => (r.advance c).map fun x =>
    let s' := { s with readers := s.readers.set k { r with pc := x.1 } }
    x.2.elim s' (s'.dispatch r.build)

def newBuildBroker : State := ⟨[], [], fun _ => none, fun _ => 0, []⟩

def Initial (s : State) : Prop := s = newBuildBroker

/-! ### Fan-outs, subscribers and readers -/

/-- What a fan-out has. -/
structure Entry (s : State) (build : ℕ) (fan : Fanout) : Prop where
  nonempty : fan.subs ≠ []
  nodup : fan.subs.Nodup
  subs : ∀ j ∈ fan.subs, ∃ sub, s.subscribers[j]? = some sub ∧ sub.build = build ∧ sub.reader = fan.reader ∧
    sub.once ≠ .done ∧ sub.closed = false
  reader : ∃ r, s.readers[fan.reader]? = some r ∧ r.build = build ∧ r.cancelled = false

structure Fanned (s : State) : Prop where
  entry : ∀ build fan, s.builds build = some fan → Entry s build fan
  sub : ∀ (j : ℕ) (sub : Subscriber), s.subscribers[j]? = some sub → sub.once ≠ .done →
    ∃ fan, s.builds sub.build = some fan ∧ j ∈ fan.subs
  reader : ∀ (k : ℕ) (r : Reader), s.readers[k]? = some r → r.cancelled = false →
    ∃ fan, s.builds r.build = some fan ∧ fan.reader = k
  faults : s.faults = []

/-- What the fan-out knows of a subscriber. -/
def Subscriber.face (q : Subscriber) : ℕ × ℕ × Bool × Bool := (q.build, q.reader, decide (q.once = .done), q.closed)

def Reader.face (r : Reader) : ℕ × Bool := (r.build, r.cancelled)

section Fanned

variable {s s' : State}

/-- A step that leaves the fan-outs alone: each subscriber and each reader stays what it was to them. -/
theorem Fanned.frame (h : Fanned s) (hbuilds : s'.builds = s.builds) (hfaults : s'.faults = [])
    (hsubs : ∀ j : ℕ, (s'.subscribers[j]?).map Subscriber.face = (s.subscribers[j]?).map Subscriber.face)
    (hreaders : ∀ k : ℕ, (s'.readers[k]?).map Reader.face = (s.readers[k]?).map Reader.face) : Fanned s' := by
  -- The fields of an entry of one list are those of the entry of the other.
  have hsub : ∀ {l l' : List Subscriber} {j : ℕ} {q : Subscriber}, l'[j]? = some q →
      (l'[j]?).map Subscriber.face = (l[j]?).map Subscriber.face →
      ∃ q', l[j]? = some q' ∧ q'.build = q.build ∧ q'.reader = q.reader ∧ (q'.once = .done ↔ q.once = .done) ∧
        q'.closed = q.closed := by
    intro l l' j q hq heq
    rw [hq] at heq
    obtain ⟨q', hq', hfields⟩ := Option.map_eq_some_iff.mp heq.symm
    simp only [Subscriber.face, Prod.mk.injEq, decide_eq_decide] at hfields
    exact ⟨q', hq', hfields.1, hfields.2.1, hfields.2.2.1, hfields.2.2.2⟩
  have hreader : ∀ {l l' : List Reader} {k : ℕ} {r : Reader}, l'[k]? = some r →
      (l'[k]?).map Reader.face = (l[k]?).map Reader.face →
      ∃ r', l[k]? = some r' ∧ r'.build = r.build ∧ r'.cancelled = r.cancelled := by
    intro l l' k r hr heq
    rw [hr] at heq
    obtain ⟨r', hr', hfields⟩ := Option.map_eq_some_iff.mp heq.symm
    exact ⟨r', hr', (Prod.mk.inj hfields).1, (Prod.mk.inj hfields).2⟩
  refine ⟨fun build fan hfan => ?_, fun j q hq hopen => ?_, fun k r hr hc => ?_, hfaults⟩
  · rw [hbuilds] at hfan
    have hentry := h.entry build fan hfan
    refine ⟨hentry.nonempty, hentry.nodup, fun j hj => ?_, ?_⟩
    · obtain ⟨q, hq, hb, hr, ho, hcl⟩ := hentry.subs j hj
      obtain ⟨q', hq', hb', hr', ho', hcl'⟩ := hsub hq (hsubs j).symm
      exact ⟨q', hq', hb'.trans hb, hr'.trans hr, fun hd => ho (ho'.mp hd), hcl'.trans hcl⟩
    · obtain ⟨r, hr, hb, hc⟩ := hentry.reader
      obtain ⟨r', hr', hb', hc'⟩ := hreader hr (hreaders _).symm
      exact ⟨r', hr', hb'.trans hb, hc'.trans hc⟩
  · obtain ⟨q', hq', hb', -, ho', -⟩ := hsub hq (hsubs j)
    rw [hbuilds, ← hb']
    exact h.sub j q' hq' fun hd => hopen (ho'.mp hd)
  · obtain ⟨r', hr', hb', hc'⟩ := hreader hr (hreaders k)
    rw [hbuilds, ← hb']
    exact h.reader k r' hr' (hc'.trans hc)

/-- No subscriber of a fan-out has a closed channel. -/
theorem Fanned.closedSubs (h : Fanned s) {build : ℕ} {fan : Fanout} (hfan : s.builds build = some fan) :
    s.closedSubs fan = [] := by
  refine List.filter_eq_nil_iff.mpr fun j hj hclosed => ?_
  obtain ⟨q, hq, -, -, -, hopen⟩ := (h.entry build fan hfan).subs j hj
  rw [hq] at hclosed
  change q.closed = true at hclosed
  rw [hopen] at hclosed
  cases hclosed

theorem Fanned.dispatch (h : Fanned s) (build event : ℕ) : Fanned (s.dispatch build event) := by
  unfold State.dispatch
  split
  · exact h
  · rename_i fan hfan
    refine h.frame rfl ?_ (fun j => ?_) fun k => rfl
    · show (s.closedSubs fan).map Fault.sendOnClosed ++ s.faults = []
      rw [h.closedSubs hfan, h.faults]
      rfl
    · show ((s.subscribers.mapIdx _)[j]?).map Subscriber.face = _
      rw [List.getElem?_mapIdx, Option.map_map]
      congr 1
      funext q
      show (if j ∈ fan.subs then q.send event else q).face = q.face
      split_ifs
      · unfold Subscriber.send
        split_ifs <;> rfl
      · rfl

/-- The fan-out of a build after one of them was replaced. -/
theorem fan_update {builds : ℕ → Option Fanout} {b build : ℕ} {fan : Fanout} {new : Option Fanout} {P : Fanout → Prop}
    (hf : builds b = some fan) (hP : P fan) (hnew : b = build → ∃ f, new = some f ∧ P f) :
    ∃ f, update builds build new b = some f ∧ P f := by
  by_cases hb : b = build
  · rw [hb, update_self]
    exact hnew hb
  · rw [update_of_ne hb]
    exact ⟨fan, hf, hP⟩

theorem Fanned.subscribe (h : Fanned s) (build : ℕ) : Fanned (s.subscribe build) := by
  have hnew : ∀ {q : Subscriber} {l : List Subscriber}, (l ++ [q])[l.length]? = some q := by
    intro q l
    rw [List.getElem?_append_right (Nat.le_refl _), Nat.sub_self]
    rfl
  unfold State.subscribe
  split
  · rename_i fan hfan
    have hentry := h.entry build fan hfan
    refine ⟨fun b f hf => ?_, fun j q hq hopen => ?_, fun k r hr hc => ?_, h.faults⟩
    · rcases of_update hf with ⟨rfl, ⟨⟩⟩ | ⟨hb, hf⟩
      · refine ⟨by simp, List.Nodup.append hentry.nodup (List.nodup_singleton _) ?_, fun j hj => ?_, hentry.reader⟩
        · rw [List.disjoint_singleton]
          intro hmem
          obtain ⟨q, hq, -⟩ := hentry.subs _ hmem
          have := (List.getElem?_eq_some_iff.mp hq).1
          omega
        · rcases List.mem_append.mp hj with hj | hj
          · obtain ⟨q, hq, hrest⟩ := hentry.subs j hj
            exact ⟨q, get_append_old hq, hrest⟩
          · rw [List.mem_singleton.mp hj]
            exact ⟨_, hnew, rfl, rfl, by rintro ⟨⟩, rfl⟩
      · have he := h.entry b f hf
        refine ⟨he.nonempty, he.nodup, fun j hj => ?_, he.reader⟩
        obtain ⟨q, hq, hrest⟩ := he.subs j hj
        exact ⟨q, get_append_old hq, hrest⟩
    · rcases get_append_new hq with hq | ⟨rfl, rfl⟩
      · obtain ⟨f, hf, hj⟩ := h.sub j q hq hopen
        refine fan_update hf hj fun hb => ?_
        cases (hb ▸ hf).symm.trans hfan
        exact ⟨_, rfl, List.mem_append_left _ hj⟩
      · exact ⟨_, update_self .., List.mem_append_right _ (List.mem_singleton.mpr rfl)⟩
    · obtain ⟨f, hf, hk⟩ := h.reader k r hr hc
      refine fan_update hf hk fun hb => ?_
      cases (hb ▸ hf).symm.trans hfan
      exact ⟨_, rfl, hk⟩
  · rename_i hfan
    refine ⟨fun b f hf => ?_, fun j q hq hopen => ?_, fun k r hr hc => ?_, h.faults⟩
    · rcases of_update hf with ⟨rfl, ⟨⟩⟩ | ⟨hb, hf⟩
      · refine ⟨by rintro ⟨⟩, List.nodup_singleton _, fun j hj => ?_, ?_⟩
        · rw [List.mem_singleton.mp hj]
          exact ⟨_, hnew, rfl, rfl, by rintro ⟨⟩, rfl⟩
        · refine ⟨⟨b, false, .loop⟩, ?_, rfl, rfl⟩
          show (s.readers ++ [_])[s.readers.length]? = _
          rw [List.getElem?_append_right (Nat.le_refl _), Nat.sub_self]
          rfl
      · have he := h.entry b f hf
        refine ⟨he.nonempty, he.nodup, fun j hj => ?_, ?_⟩
        · obtain ⟨q, hq, hrest⟩ := he.subs j hj
          exact ⟨q, get_append_old hq, hrest⟩
        · obtain ⟨r, hr, hrest⟩ := he.reader
          exact ⟨r, get_append_old hr, hrest⟩
    · rcases get_append_new hq with hq | ⟨rfl, rfl⟩
      · obtain ⟨f, hf, hj⟩ := h.sub j q hq hopen
        exact fan_update hf hj fun hb => absurd ((hb ▸ hf).symm.trans hfan) nofun
      · exact ⟨_, update_self .., List.mem_singleton.mpr rfl⟩
    · rcases get_append_new hr with hr | ⟨rfl, rfl⟩
      · obtain ⟨f, hf, hk⟩ := h.reader k r hr hc
        exact fan_update hf hk fun hb => absurd ((hb ▸ hf).symm.trans hfan) nofun
      · exact ⟨_, update_self .., rfl⟩

/-- Entries of other builds, when a subscriber of `fan` is closed and its reader may be cancelled. -/
theorem Entry.other {ch b : ℕ} {q q' : Subscriber} {fan f : Fanout} {rs : List Reader} {builds : ℕ → Option Fanout}
    {faults : List Fault} (he : Entry s b f) (hq : s.subscribers[ch]? = some q) (hb : b ≠ q.build)
    (hrs : ∀ k, k ≠ fan.reader → rs[k]? = s.readers[k]?)
    (hfan : ∃ r, s.readers[fan.reader]? = some r ∧ r.build = q.build) :
    Entry { s with subscribers := s.subscribers.set ch q', readers := rs, builds := builds, faults := faults } b f := by
  refine ⟨he.nonempty, he.nodup, fun j hj => ?_, ?_⟩
  · obtain ⟨p, hp, hpb, hrest⟩ := he.subs j hj
    have hne : j ≠ ch := by
      rintro rfl
      cases hp.symm.trans hq
      exact hb hpb.symm
    refine ⟨p, ?_, hpb, hrest⟩
    show (s.subscribers.set ch q')[j]? = _
    rw [List.getElem?_set_ne (Ne.symm hne)]
    exact hp
  · obtain ⟨r, hr, hrb, hrc⟩ := he.reader
    obtain ⟨r0, hr0, hr0b⟩ := hfan
    refine ⟨r, ?_, hrb, hrc⟩
    rw [← hr]
    refine hrs _ fun heq => ?_
    rw [heq] at hr
    cases hr.symm.trans hr0
    exact hb (hrb.symm.trans hr0b)

theorem Fanned.release (h : Fanned s) {ch : ℕ} {q : Subscriber} (hq : s.subscribers[ch]? = some q)
    (honce : q.once = .entered) : Fanned (s.release ch q) := by
  obtain ⟨fan, hfan, hmem⟩ := h.sub ch q hq (by rw [honce]; rintro ⟨⟩)
  have hentry := h.entry _ fan hfan
  obtain ⟨p, hp, -, -, -, hopen⟩ := hentry.subs ch hmem
  cases hp.symm.trans hq
  obtain ⟨r0, hr0, hr0b, -⟩ := hentry.reader
  have hfaults : (s.close ch q).faults = [] := by
    show (if q.closed then _ else _) = []
    rw [hopen]
    exact h.faults
  unfold State.release
  rw [hfan]
  dsimp only
  rw [if_pos hmem]
  split_ifs with hlast
  · -- The last subscriber: its fan-out goes, and the reader is cancelled.
    have hsole : ∀ j ∈ fan.subs, j = ch := by
      intro j hj
      by_contra hne
      have := (List.mem_erase_of_ne hne).mpr hj
      rw [hlast] at this
      exact absurd this List.not_mem_nil
    refine ⟨fun b f hf => ?_, fun j p hp hopen' => ?_, fun k r hr hc => ?_, hfaults⟩
    · rcases of_update hf with ⟨-, ⟨⟩⟩ | ⟨hb, hf⟩
      exact (h.entry b f hf).other hq hb (fun k hk => get_modify_of_ne hk) ⟨r0, hr0, hr0b⟩
    · rcases get_set hq hp with ⟨-, rfl⟩ | ⟨hj, hp⟩
      · exact absurd rfl hopen'
      · obtain ⟨f, hf, hjf⟩ := h.sub j p hp hopen'
        refine fan_update hf hjf fun hb => ?_
        cases (hb ▸ hf).symm.trans hfan
        exact absurd (hsole j hjf) hj
    · rcases get_modify hr with ⟨-, r, -, rfl⟩ | ⟨hk, hr⟩
      · cases hc
      · obtain ⟨f, hf, hkf⟩ := h.reader k r hr hc
        refine fan_update hf hkf fun hb => ?_
        cases (hb ▸ hf).symm.trans hfan
        exact absurd hkf.symm hk
  · refine ⟨fun b f hf => ?_, fun j p hp hopen' => ?_, fun k r hr hc => ?_, hfaults⟩
    · rcases of_update hf with ⟨rfl, ⟨⟩⟩ | ⟨hb, hf⟩
      · refine ⟨hlast, hentry.nodup.erase ch, fun j hj => ?_, hentry.reader⟩
        obtain ⟨hne, hj⟩ := (hentry.nodup.mem_erase_iff).mp hj
        obtain ⟨p, hp, hrest⟩ := hentry.subs j hj
        refine ⟨p, ?_, hrest⟩
        show (s.subscribers.set ch _)[j]? = _
        rw [List.getElem?_set_ne (Ne.symm hne)]
        exact hp
      · exact (h.entry b f hf).other hq hb (fun k _ => rfl) ⟨r0, hr0, hr0b⟩
    · rcases get_set hq hp with ⟨-, rfl⟩ | ⟨hj, hp⟩
      · exact absurd rfl hopen'
      · obtain ⟨f, hf, hjf⟩ := h.sub j p hp hopen'
        refine fan_update hf hjf fun hb => ?_
        cases (hb ▸ hf).symm.trans hfan
        exact ⟨_, rfl, (List.mem_erase_of_ne hj).mpr hjf⟩
    · obtain ⟨f, hf, hkf⟩ := h.reader k r hr hc
      refine fan_update hf hkf fun hb => ?_
      cases (hb ▸ hf).symm.trans hfan
      exact ⟨_, rfl, hkf⟩

theorem fanned_step {a : Act} (h : Fanned s) (hs : step s a = some s') : Fanned s' := by
  cases a with
  | subscribe build =>
    cases hs
    exact h.subscribe build
  | release ch =>
    obtain ⟨q, hq, rfl⟩ := Option.map_eq_some_iff.mp hs
    split_ifs with honce
    · exact h.frame rfl h.faults (fun j => get_set_map hq (by simp [Subscriber.face, honce]) j) fun k => rfl
    · exact h
  | finish ch =>
    obtain ⟨q, hq, hs⟩ := Option.bind_eq_some_iff.mp hs
    obtain ⟨honce, hs⟩ := Option.ite_none_right_eq_some.mp hs
    cases hs
    exact h.release hq honce
  | receive ch =>
    obtain ⟨q, hq, hs⟩ := Option.bind_eq_some_iff.mp hs
    obtain ⟨-, hs⟩ := Option.ite_none_right_eq_some.mp hs
    cases hs
    exact h.frame rfl h.faults (fun j => get_set_map hq (by rfl) j) fun k => rfl
  | publish build =>
    cases hs
    refine h.frame rfl h.faults (fun j => rfl) fun k => ?_
    show ((s.readers.map _)[k]?).map Reader.face = _
    rw [List.getElem?_map, Option.map_map]
    congr 1
    funext r
    show (Reader.deliver _ _ r).face = r.face
    unfold Reader.deliver
    split_ifs
    · split <;> rfl
    · rfl
  | reader k c =>
    obtain ⟨r, hr, hs⟩ := Option.bind_eq_some_iff.mp hs
    obtain ⟨⟨pc, event⟩, hadv, rfl⟩ := Option.map_eq_some_iff.mp hs
    have hmoved : Fanned { s with readers := s.readers.set k { r with pc := pc } } :=
      h.frame rfl h.faults (fun j => rfl) fun j => get_set_map hr (by rfl) j
    cases event with
    | none => exact hmoved
    | some e => exact hmoved.dispatch r.build e

theorem fanned_initial : Fanned newBuildBroker := by
  refine ⟨by rintro _ _ ⟨⟩, fun j q hq => ?_, fun k r hr => ?_, rfl⟩
  · cases hq
  · cases hr

end Fanned

/-- No event is sent on a closed channel and none is closed twice; a build has a fan-out exactly while it
has a subscriber that has not been released; a reader is cancelled once all of its subscribers have been
released. -/
theorem reach_broker_safe {s : State} (h : Reach step (fun _ _ => True) Initial s) :
    s.faults = [] ∧
      (∀ build, (s.builds build).isSome = true ↔ ∃ sub ∈ s.subscribers, sub.build = build ∧ sub.once ≠ .done) ∧
      ∀ (k : ℕ) (r : Reader), s.readers[k]? = some r →
        (∀ sub ∈ s.subscribers, sub.reader = k → sub.once = .done) → r.cancelled = true := by
  have hf : Fanned s := by
    refine h.invariant ?_ fun s a s' hi _ hs => fanned_step hi hs
    rintro s rfl
    exact fanned_initial
  refine ⟨hf.faults, fun build => ⟨fun hsome => ?_, ?_⟩, fun k r hr hall => ?_⟩
  · obtain ⟨fan, hfan⟩ := Option.isSome_iff_exists.mp hsome
    obtain ⟨j, hj⟩ := List.exists_mem_of_ne_nil _ (hf.entry build fan hfan).nonempty
    obtain ⟨sub, hsub, hb, -, hopen, -⟩ := (hf.entry build fan hfan).subs j hj
    exact ⟨sub, List.mem_of_getElem? hsub, hb, hopen⟩
  · rintro ⟨sub, hmem, rfl, hopen⟩
    obtain ⟨j, hj⟩ := List.mem_iff_getElem?.mp hmem
    obtain ⟨fan, hfan, -⟩ := hf.sub j sub hj hopen
    rw [hfan]
    rfl
  · by_contra hc
    -- An uncancelled reader has a fan-out, and the fan-out a subscriber.
    obtain ⟨fan, hfan, hk⟩ := hf.reader k r hr (by simpa using hc)
    obtain ⟨j, hj⟩ := List.exists_mem_of_ne_nil _ (hf.entry _ fan hfan).nonempty
    obtain ⟨sub, hsub, -, hreader, hopen, -⟩ := (hf.entry _ fan hfan).subs j hj
    exact hopen (hall sub (List.mem_of_getElem? hsub) (hreader.trans hk))

/-- Two subscribers get an event and are released, the first of them by two calls; a third one makes a new fan-out. -/
def sharedRun : List Act :=
  [.subscribe 0, .subscribe 0, .reader 0 .go, .reader 0 .go, .publish 0, .reader 0 .message, .reader 0 .go, .release 0,
    .release 0, .finish 0, .release 1, .finish 1, .subscribe 0]

theorem sharedRun_safe :
    (last step newBuildBroker sharedRun).faults = [] ∧ ((last step newBuildBroker sharedRun).builds 0).isSome = true ∧
      ∃ r, (last step newBuildBroker sharedRun).readers[0]? = some r ∧ r.cancelled = true := by
  have hadm : Admits step (fun _ _ => True) newBuildBroker sharedRun := by decide +kernel
  obtain ⟨hfaults, hentry, hreader⟩ := reach_broker_safe (.last rfl hadm)
  refine ⟨hfaults, (hentry 0).mpr (by decide +kernel), ⟨0, true, .reading []⟩, by decide +kernel, ?_⟩
  exact hreader 0 _ (by decide +kernel) (by decide +kernel)

end Wrenn.Builds.Broker
