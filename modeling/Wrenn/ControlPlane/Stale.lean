import Wrenn.ControlPlane.Steps

/-!
# Events that come late

The consumer of lifecycle events writes by the status it finds: a `capsule.pause` sets a `running` row to
`paused`, whenever it was published and whatever has happened since.  To say so, a run is traced: every row
counts its transitions (`moved`), and every report of a change on a host carries the count at the time of the
change.  A report is dated by the call of the agent that it follows; what the monitor infers is dated by its
decision, and what an agent does by itself by that.

A traced run is a run of `Model` with notes (`world_of_step`), and every run can be traced
(`trace_of_step`).  `Calm` is the condition: an event is handled once, and no statement moves a row into a
status from which the handler of an open report on it writes.
-/

namespace Wrenn.ControlPlane.Stale

open Lib.Runs Lib.Tables Database Model Steps

def statusOf (k : Core) (c : ℕ) : Option Status := (k.rows.select c).map Row.status

/-- The event that a statement publishes. -/
def pubs : Stmt → Option Event
  | .publish e => some e
  | .onHit s => pubs s
  | _ => none

/-- The statuses from which a statement of the consumer writes. -/
def olds : Stmt → List Status
  | .updateIf _ olds _ => olds
  | _ => []

/-- The statuses from which the consumer writes upon an event. -/
def sources (e : Event) : List Status := (handleMessage e).flatMap olds

def statuses : List Status :=
  [.pending, .starting, .running, .pausing, .paused, .resuming, .snapshotting, .stopping, .stopped, .error, .missing]

/-- The same for a notice, which the status of the row makes one event or another. -/
def noticeSources (n : Notice) : List Status := statuses.flatMap fun st => sources (translate n st)

/-! ### Traced runs -/

/-- The notes on a thread: the events that it has still to publish, and the one that it handles. -/
structure Mark where
  due : List (Event × ℕ)
  handling : Option (Event × ℕ)

structure Traced where
  core : Core
  threads : List (Thread × Mark)
  /-- the number of transitions of each row -/
  moved : ℕ → ℕ
  /-- the published events, each with the count at the change that it reports -/
  events : List (Event × ℕ)
  notices : List (Notice × ℕ)
  posted : List ℕ
  delivered : List ℕ

def Traced.world (x : Traced) : World := ⟨x.core, x.threads.map Prod.fst⟩

inductive TAct
  | start (s : Start)
  /-- the consumer gets an event of the stream -/
  | deliver (i : ℕ)
  | act (t : ℕ) (ch : Reply)
  | crash (t : ℕ)
  | agent (b : Box) (tell : Bool)
  | vanish (c : ℕ) (tell : Option Notice)
  | post (j : ℕ)
  | tick (d : ℕ)

/-- The counts after a step. -/
def count (k k' : Core) (moved : ℕ → ℕ) : ℕ → ℕ := fun c =>
  if statusOf k' c = statusOf k c then moved c else moved c + 1

/-- The notes on a thread after the statement `s`: what it has put into the script is dated now. -/
def Mark.after (m : Mark) (s : Stmt) (next : List Stmt) (moved : ℕ → ℕ) : Mark where
  due := (next.filterMap pubs).map (fun e => (e, moved e.capsule)) ++
    if (pubs s).isSome then m.due.tail else m.due
  handling := m.handling

def tstep (x : Traced) : TAct → Option Traced
  | .start (.deliver _) => none
  | .start s => some { x with
      core := s.core x.core
      threads := x.threads ++ [(⟨s.script x.core, false⟩, ⟨[], none⟩)] }
  | .deliver i => (x.events[i]?).map fun p => { x with
      threads := x.threads ++ [(⟨handleMessage p.1, false⟩, ⟨[], some p⟩)]
      delivered := i :: x.delivered }
  | .act t ch =>
    match x.threads[t]? with
    | some (⟨s :: rest, hit⟩, m) => (execute x.core hit ch s).map fun r => { x with
        core := r.core
        threads := x.threads.set t (⟨r.next ++ rest, r.hit⟩, m.after s r.next (count x.core r.core x.moved))
        moved := count x.core r.core x.moved
        events := x.events ++ if r.core.events.length = x.core.events.length then [] else m.due.head?.toList }
    | _ => none
  | .crash t =>
    match x.threads[t]? with
    | some (_, m) => some { x with threads := x.threads.set t (⟨[], false⟩, ⟨[], m.handling⟩) }
    | none => some x
  | .agent b tell => (step x.world (.agent b tell)).map fun w => { x with
      core := w.core
      notices := x.notices ++ if tell then [(.autoPaused b.id, x.moved b.id)] else [] }
  | .vanish c tell => (step x.world (.vanish c tell)).map fun w => { x with
      core := w.core
      notices := x.notices ++ tell.toList.map fun n => (n, x.moved c) }
  | .post j =>
    match x.notices[j]? with
    | some (n, k) => (step x.world (.post n)).map fun w => { x with
        core := w.core
        events := x.events ++ w.core.events.head?.toList.map fun e => (e, k)
        posted := j :: x.posted }
    | none => none
  | .tick d => some { x with core := { x.core with now := x.core.now + d } }

/-! ### Reports -/

/-- A report on a capsule, with the statuses from which its handling would write and the count at the change
that it reports. -/
structure Report where
  capsule : ℕ
  sources : List Status
  stamp : ℕ
  deriving DecidableEq, Repr

/-- A report that has not been dealt with: it has still to be sent, to be delivered or to be handled. -/
inductive Open (x : Traced) : Report → Prop
  | event {i n : ℕ} {e : Event} (h : x.events[i]? = some (e, n)) (hd : i ∉ x.delivered) :
    Open x ⟨e.capsule, sources e, n⟩
  | notice {j n : ℕ} {nt : Notice} (h : x.notices[j]? = some (nt, n)) (hp : j ∉ x.posted) :
    Open x ⟨nt.capsule, noticeSources nt, n⟩
  | due {p : Thread × Mark} {e : Event} {n : ℕ} (hp : p ∈ x.threads) (h : (e, n) ∈ p.2.due) :
    Open x ⟨e.capsule, sources e, n⟩
  | handled {p : Thread × Mark} {e : Event} {n : ℕ} (hp : p ∈ x.threads) (h : p.2.handling = some (e, n)) :
    Open x ⟨e.capsule, p.1.script.flatMap olds, n⟩

/-- The open reports. -/
def opens (x : Traced) : List Report :=
  (x.events.zipIdx.filter fun p => decide (p.2 ∉ x.delivered)).map
      (fun p => ⟨p.1.1.capsule, sources p.1.1, p.1.2⟩) ++
    (x.notices.zipIdx.filter fun p => decide (p.2 ∉ x.posted)).map
      (fun p => ⟨p.1.1.capsule, noticeSources p.1.1, p.1.2⟩) ++
    x.threads.flatMap fun p =>
      p.2.due.map (fun d => ⟨d.1.capsule, sources d.1, d.2⟩) ++
        p.2.handling.toList.map fun d => ⟨d.1.capsule, p.1.script.flatMap olds, d.2⟩

variable {x x' : Traced} {a : TAct}

theorem mem_opens {o : Report} : o ∈ opens x ↔ Open x o := by
  unfold opens
  simp only [List.mem_append, List.mem_map, List.mem_filter, List.mem_flatMap, decide_eq_true_eq]
  constructor
  · rintro ((⟨⟨⟨e, n⟩, i⟩, ⟨hi, hd⟩, rfl⟩ | ⟨⟨⟨nt, n⟩, j⟩, ⟨hj, hp⟩, rfl⟩) | ⟨p, hp, h | h⟩)
    · exact .event (List.mem_zipIdx_iff_getElem?.mp hi) hd
    · exact .notice (List.mem_zipIdx_iff_getElem?.mp hj) hp
    · obtain ⟨⟨e, n⟩, hd, rfl⟩ := h
      exact .due hp hd
    · obtain ⟨⟨e, n⟩, hd, rfl⟩ := h
      exact .handled hp (Option.mem_toList.mp hd)
  · intro h
    cases h with
    | @event i n e h hd => exact .inl (.inl ⟨((e, n), i), ⟨List.mem_zipIdx_iff_getElem?.mpr h, hd⟩, rfl⟩)
    | @notice j n nt h hp => exact .inl (.inr ⟨((nt, n), j), ⟨List.mem_zipIdx_iff_getElem?.mpr h, hp⟩, rfl⟩)
    | @due p e n hp h => exact .inr ⟨p, hp, .inl ⟨(e, n), h, rfl⟩⟩
    | @handled p e n hp h => exact .inr ⟨p, hp, .inr ⟨(e, n), Option.mem_toList.mpr h, rfl⟩⟩

/-- The condition of the development. -/
def Calm (x : Traced) (a : TAct) : Prop :=
  (match a with
    | .deliver i => i ∉ x.delivered
    | .post j => j ∉ x.posted
    | _ => True) ∧
  ∀ x' ∈ tstep x a, ∀ r ∈ x'.core.rows.rows, statusOf x.core r.id ≠ some r.status →
    ∀ o ∈ opens x, o.capsule = r.id → r.status ∉ o.sources

/-! ### Steps of a traced run -/

inductive TMoves (x : Traced) : TAct → Traced → Prop
  | start {s : Start} (hs : ∀ e, s ≠ .deliver e) :
    TMoves x (.start s) { x with
      core := s.core x.core
      threads := x.threads ++ [(⟨s.script x.core, false⟩, ⟨[], none⟩)] }
  | deliver {i : ℕ} {p : Event × ℕ} (hp : x.events[i]? = some p) :
    TMoves x (.deliver i) { x with
      threads := x.threads ++ [(⟨handleMessage p.1, false⟩, ⟨[], some p⟩)]
      delivered := i :: x.delivered }
  | act {t : ℕ} {ch : Reply} {s : Stmt} {rest : List Stmt} {hit : Bool} {m : Mark} {r : Result}
    (hth : x.threads[t]? = some (⟨s :: rest, hit⟩, m)) (hr : execute x.core hit ch s = some r) :
    TMoves x (.act t ch) { x with
      core := r.core
      threads := x.threads.set t (⟨r.next ++ rest, r.hit⟩, m.after s r.next (count x.core r.core x.moved))
      moved := count x.core r.core x.moved
      events := x.events ++ if r.core.events.length = x.core.events.length then [] else m.due.head?.toList }
  | crash {t : ℕ} {th : Thread} {m : Mark} (hth : x.threads[t]? = some (th, m)) :
    TMoves x (.crash t) { x with threads := x.threads.set t (⟨[], false⟩, ⟨[], m.handling⟩) }
  | noCrash {t : ℕ} (hth : x.threads[t]? = none) : TMoves x (.crash t) x
  | agent {b : Box} {tell : Bool} {w : World} (hw : step x.world (.agent b tell) = some w) :
    TMoves x (.agent b tell) { x with
      core := w.core
      notices := x.notices ++ if tell then [(.autoPaused b.id, x.moved b.id)] else [] }
  | vanish {c : ℕ} {tell : Option Notice} {w : World} (hw : step x.world (.vanish c tell) = some w) :
    TMoves x (.vanish c tell) { x with
      core := w.core
      notices := x.notices ++ tell.toList.map fun n => (n, x.moved c) }
  | post {j k : ℕ} {n : Notice} {w : World} (hn : x.notices[j]? = some (n, k))
    (hw : step x.world (.post n) = some w) :
    TMoves x (.post j) { x with
      core := w.core
      events := x.events ++ w.core.events.head?.toList.map fun e => (e, k)
      posted := j :: x.posted }
  | tick (d : ℕ) : TMoves x (.tick d) { x with core := { x.core with now := x.core.now + d } }

theorem tmoves_of_step (h : tstep x a = some x') : TMoves x a x' := by
  cases a with
  | start s =>
    cases s with
    | deliver e => cases h
    | _ =>
      cases h
      exact .start (by simp)
  | deliver i =>
    obtain ⟨p, hp, rfl⟩ := Option.map_eq_some_iff.mp h
    exact .deliver hp
  | act t ch =>
    simp only [tstep] at h
    split at h
    · rename_i s rest hit m hth
      obtain ⟨r, hr, rfl⟩ := Option.map_eq_some_iff.mp h
      exact .act hth hr
    · cases h
  | crash t =>
    simp only [tstep] at h
    split at h <;> cases h
    · exact .crash ‹_›
    · exact .noCrash ‹_›
  | agent b tell =>
    obtain ⟨w, hw, rfl⟩ := Option.map_eq_some_iff.mp h
    exact .agent hw
  | vanish c tell =>
    obtain ⟨w, hw, rfl⟩ := Option.map_eq_some_iff.mp h
    exact .vanish hw
  | post j =>
    simp only [tstep] at h
    split at h
    · obtain ⟨w, hw, rfl⟩ := Option.map_eq_some_iff.mp h
      exact .post ‹_› hw
    · cases h
  | tick d =>
    cases h
    exact .tick d

variable {w w' : World} {c : ℕ} {k : Core} {s : Stmt} {hit : Bool} {ch : Reply} {r : Result}

/-- What agents do by themselves. -/
theorem agent_frame {b : Box} {tell : Bool} (h : step w (.agent b tell) = some w') :
    w'.threads = w.threads ∧ w'.core.rows = w.core.rows ∧ w'.core.events = w.core.events ∧
      w'.core.notices = if tell then .autoPaused b.id :: w.core.notices else w.core.notices := by
  simp only [step] at h
  split at h
  · cases h
  · split_ifs at h <;> (cases h; exact ⟨rfl, rfl, rfl, by simp_all⟩)

theorem vanish_frame {tell : Option Notice} (h : step w (.vanish c tell) = some w') :
    w'.threads = w.threads ∧ w'.core.rows = w.core.rows ∧ w'.core.events = w.core.events ∧
      w'.core.notices = tell.toList ++ w.core.notices ∧ ∀ n ∈ tell, n.capsule = c := by
  simp only [step] at h
  split_ifs at h with hc
  cases h
  refine ⟨rfl, rfl, rfl, rfl, fun n hn => ?_⟩
  rcases hc.2 n hn with rfl | rfl <;> rfl

theorem post_frame {n : Notice} (h : step w (.post n) = some w') :
    w'.threads = w.threads ∧ w'.core.rows = w.core.rows ∧ w'.core.notices = w.core.notices ∧
      ∃ st, w'.core.events = translate n st :: w.core.events := by
  cases moves_of_step h with
  | @post _ r hr hn => exact ⟨rfl, rfl, rfl, r.status, rfl⟩

/-- Only a statement moves a row, and then the move is counted. -/
theorem moved_step (h : tstep x a = some x') (hc : statusOf x'.core c = statusOf x.core c) :
    x'.moved c = x.moved c := by
  cases tmoves_of_step h with
  | act hth hr => exact if_pos hc
  | _ => rfl

/-! ### The notes are about the run -/

theorem events_changes {k' : Core} (h : Changes k s k') :
    k'.events = k.events ∨ ∃ e, pubs s = some e ∧ k'.events = e :: k.events := by
  induction h with
  | publish e => exact .inr ⟨e, rfl, rfl⟩
  | onHit _ ih => exact ih
  | _ => exact .inl rfl

theorem notices_changes {k' : Core} (h : Changes k s k') : k'.notices = k.notices := by
  induction h with
  | onHit _ ih => exact ih
  | _ => rfl

theorem pubs_start {s : Start} : (s.script k).filterMap pubs = [] := by
  refine List.filterMap_eq_nil_iff.mpr fun s' hs' => ?_
  cases starts_of_mem hs' with
  | @deliver e _ hs =>
    have hall : ∀ s ∈ handleMessage e, pubs s = none := by
      unfold handleMessage
      split <;> simp [handleStarted, handleFailed, handleAutoPaused, handleStopped, pubs]
    exact hall s' hs
  | _ => rfl

/-- The statements of the consumer. -/
inductive Handles (c : ℕ) : Stmt → Prop
  | detach : Handles c (.detach c)
  | updateIf (olds : List Status) (new : Status) : Handles c (.updateIf c olds new)

theorem handles_of_mem {e : Event} (h : s ∈ handleMessage e) : Handles e.capsule s := by
  unfold handleMessage at h
  split at h <;>
    simp only [handleStarted, handleFailed, handleAutoPaused, handleStopped, List.mem_cons, List.not_mem_nil,
      or_false] at h
  · exact h ▸ .updateIf _ _
  · rcases h with rfl | rfl
    · exact .detach
    · exact .updateIf _ _
  · exact h ▸ .updateIf _ _
  · rcases h with rfl | rfl
    · exact .detach
    · exact .updateIf _ _
  · exact h ▸ .updateIf _ _
  · rcases h with rfl | rfl
    · exact .detach
    · exact .updateIf _ _

/-- A statement of the consumer is followed by such statements, which write from fewer statuses. -/
theorem Handles.next {s' : Stmt} (hs : Handles c s)
    (h : execute k hit ch s = some r) (hs' : s' ∈ r.next) : Handles c s' ∧ olds s' ⊆ olds s := by
  cases hs with
  | detach =>
    cases h
    cases hs'
  | updateIf sts new =>
    cases follows_of_execute h hs' with
    | updateIf => exact ⟨.updateIf _ new, List.subset_cons_self ..⟩

structure Aligned (x : Traced) : Prop where
  due : ∀ p ∈ x.threads, p.2.due.map Prod.fst = p.1.script.filterMap pubs
  events : ∀ e, e ∈ x.core.events ↔ ∃ n, (e, n) ∈ x.events
  notices : ∀ nt, nt ∈ x.core.notices ↔ ∃ n, (nt, n) ∈ x.notices
  handles : ∀ p ∈ x.threads, ∀ d, p.2.handling = some d → ∀ s ∈ p.1.script, Handles d.1.capsule s

structure TInitial (x : Traced) : Prop where
  world : Initial x.world
  events : x.events = []
  notices : x.notices = []

theorem TInitial.threads (h : TInitial x) : x.threads = [] := List.map_eq_nil_iff.mp h.world.threads

theorem aligned_of_initial (h : TInitial x) : Aligned x where
  due p hp := by
    rw [h.threads] at hp
    cases hp
  events e := by
    rw [show x.core.events = [] from h.world.events, h.events]
    simp
  notices n := by
    rw [show x.core.notices = [] from h.world.notices, h.notices]
    simp
  handles p hp := by
    rw [h.threads] at hp
    cases hp

/-- What a statement adds to the events is the first that was due. -/
theorem Aligned.published (hx : Aligned x) {t : ℕ} {rest : List Stmt} {m : Mark}
    (hth : x.threads[t]? = some (⟨s :: rest, hit⟩, m)) (hr : execute x.core hit ch s = some r) :
    (r.core.events = x.core.events ∧
        (if r.core.events.length = x.core.events.length then [] else m.due.head?.toList) = []) ∨
      ∃ e n, (e, n) ∈ m.due ∧ r.core.events = e :: x.core.events ∧
        (if r.core.events.length = x.core.events.length then [] else m.due.head?.toList) = [(e, n)] := by
  rcases events_changes (changes_of_execute hr) with hev | ⟨e, he, hev⟩
  · exact .inl ⟨hev, if_pos (by rw [hev])⟩
  · have hdue := hx.due _ (List.mem_of_getElem? hth)
    rw [List.filterMap_cons_some he] at hdue
    obtain ⟨⟨e', n⟩, due, hm, rfl, -⟩ := List.map_eq_cons_iff.mp hdue
    refine .inr ⟨e', n, ?_, hev, ?_⟩
    · rw [hm]
      exact List.mem_cons_self ..
    · rw [if_neg (by rw [hev]; simp), hm]
      rfl

theorem Mark.due_after {m : Mark} {rest next : List Stmt} {moved : ℕ → ℕ}
    (h : m.due.map Prod.fst = (s :: rest).filterMap pubs) :
    (m.after s next moved).due.map Prod.fst = (next ++ rest).filterMap pubs := by
  rw [Mark.after, List.map_append, List.map_map, List.filterMap_append]
  congr 1
  · exact List.map_id _
  · cases hs : pubs s with
    | none => rw [if_neg (by simp), h, List.filterMap_cons_none hs]
    | some e => rw [if_pos (by simp), List.map_tail, h, List.filterMap_cons_some hs, List.tail_cons]

theorem aligned_step (hx : Aligned x) (h : tstep x a = some x') : Aligned x' := by
  cases tmoves_of_step h with
  | @start s hs =>
    refine ⟨fun p hp => ?_, fun e => ?_, fun n => ?_, fun p hp d hd => ?_⟩
    · rcases List.mem_append.mp hp with hp | hp
      · exact hx.due p hp
      · rw [List.mem_singleton.mp hp]
        exact pubs_start.symm
    · rw [start_events]
      exact hx.events e
    · rw [start_notices]
      exact hx.notices n
    · rcases List.mem_append.mp hp with hp | hp
      · exact hx.handles p hp d hd
      · rw [List.mem_singleton.mp hp] at hd
        cases hd
  | @deliver i q hq =>
    refine ⟨fun p hp => ?_, hx.events, hx.notices, fun p hp d hd => ?_⟩
    · rcases List.mem_append.mp hp with hp | hp
      · exact hx.due p hp
      · rw [List.mem_singleton.mp hp]
        exact (pubs_start (s := .deliver q.1) (k := x.core)).symm
    · rcases List.mem_append.mp hp with hp | hp
      · exact hx.handles p hp d hd
      · rw [List.mem_singleton.mp hp] at hd ⊢
        cases hd
        exact fun s hs => handles_of_mem hs
  | @act t ch s rest hit m r hth hr =>
    have hmem := List.mem_of_getElem? hth
    refine ⟨fun p hp => ?_, fun e => ?_, fun n => ?_, fun p hp d hd => ?_⟩
    · rcases List.mem_or_eq_of_mem_set hp with hp | rfl
      · exact hx.due p hp
      · exact Mark.due_after (hx.due _ hmem)
    · rcases hx.published hth hr with ⟨hev, hnew⟩ | ⟨e', n', -, hev, hnew⟩
      · rw [hnew, List.append_nil, hev]
        exact hx.events e
      · rw [hnew, hev]
        simp [hx.events e, exists_or, or_comm]
    · rw [notices_changes (changes_of_execute hr)]
      exact hx.notices n
    · rcases List.mem_or_eq_of_mem_set hp with hp | rfl
      · exact hx.handles p hp d hd
      · intro s' hs'
        have hold := hx.handles _ hmem d hd
        rcases List.mem_append.mp hs' with hs' | hs'
        · exact ((hold s List.mem_cons_self).next hr hs').1
        · exact hold s' (List.mem_cons_of_mem _ hs')
  | @crash t th m hth =>
    refine ⟨fun p hp => ?_, hx.events, hx.notices, fun p hp d hd => ?_⟩
    · rcases List.mem_or_eq_of_mem_set hp with hp | rfl
      · exact hx.due p hp
      · rfl
    · rcases List.mem_or_eq_of_mem_set hp with hp | rfl
      · exact hx.handles p hp d hd
      · exact List.forall_mem_nil _
  | noCrash => exact hx
  | @agent b tell w hw =>
    obtain ⟨-, -, hev, hns⟩ := agent_frame hw
    refine ⟨hx.due, fun e => ?_, fun n => ?_, hx.handles⟩
    · rw [hev]
      exact hx.events e
    · rw [hns]
      cases tell with
      | false => simpa [Traced.world] using hx.notices n
      | true => simp [Traced.world, hx.notices n, exists_or, or_comm]
  | @vanish c tell w hw =>
    obtain ⟨-, -, hev, hns, -⟩ := vanish_frame hw
    refine ⟨hx.due, fun e => ?_, fun n => ?_, hx.handles⟩
    · rw [hev]
      exact hx.events e
    · rw [hns]
      simp [Traced.world, hx.notices n, exists_or, or_comm]
  | @post j k n w hn hw =>
    obtain ⟨-, -, hns, st, hev⟩ := post_frame hw
    refine ⟨hx.due, fun e => ?_, fun n => ?_, hx.handles⟩
    · rw [hev]
      simp [Traced.world, hx.events e, exists_or, or_comm]
    · rw [hns]
      exact hx.notices n
  | tick d => exact ⟨hx.due, hx.events, hx.notices, hx.handles⟩

/-- **A traced run is a run.** -/
theorem world_of_step (hx : Aligned x) (h : tstep x a = some x') : ∃ a', step x.world a' = some x'.world := by
  cases tmoves_of_step h with
  | @start s hs =>
    refine ⟨.start s, ?_⟩
    have hen : s.enabled x.core = true := by
      cases s with
      | deliver e => exact absurd rfl (hs e)
      | _ => rfl
    simp [step, Traced.world, hen]
  | @deliver i q hq =>
    have hen : q.1 ∈ x.core.events := (hx.events q.1).mpr ⟨q.2, List.mem_of_getElem? hq⟩
    exact ⟨.start (.deliver q.1), by simp [step, Traced.world, Start.enabled, Start.core, Start.script, hen]⟩
  | @act t ch s rest hit m r hth hr =>
    exact ⟨.act t ch, by simp [step, Traced.world, List.getElem?_map, hth, hr, List.map_set]⟩
  | @crash t th m hth => exact ⟨.crash t, by simp [step, Traced.world, List.map_set]⟩
  | @noCrash t hth =>
    refine ⟨.crash t, ?_⟩
    have hlen := List.getElem?_eq_none_iff.mp hth
    simp [step, Traced.world, List.set_eq_of_length_le, hlen]
  | @agent b tell w hw =>
    refine ⟨.agent b tell, hw.trans (congrArg some ?_)⟩
    exact congrArg (World.mk w.core) (agent_frame hw).1
  | @vanish c tell w hw =>
    refine ⟨.vanish c tell, hw.trans (congrArg some ?_)⟩
    exact congrArg (World.mk w.core) (vanish_frame hw).1
  | @post j k n w hn hw =>
    refine ⟨.post n, hw.trans (congrArg some ?_)⟩
    exact congrArg (World.mk w.core) (post_frame hw).1
  | tick d => exact ⟨.tick d, rfl⟩

/-- **Every run can be traced.** -/
theorem trace_of_step {a : Act} (hx : Aligned x) (h : step x.world a = some w) :
    ∃ a' x', tstep x a' = some x' ∧ x'.world = w := by
  cases a with
  | start s =>
    simp only [step] at h
    split_ifs at h with hen
    cases h
    cases s with
    | deliver e =>
      obtain ⟨n, hn⟩ := (hx.events e).mp (of_decide_eq_true hen)
      obtain ⟨i, hi⟩ := List.getElem?_of_mem hn
      exact ⟨.deliver i, _, by rw [tstep, hi, Option.map_some], by simp [Traced.world, Start.core, Start.script]⟩
    | create h refs => exact ⟨.start (.create h refs), _, rfl, by simp [Traced.world]⟩
    | op q c => exact ⟨.start (.op q c), _, rfl, by simp [Traced.world]⟩
    | destroy c => exact ⟨.start (.destroy c), _, rfl, by simp [Traced.world]⟩
    | checkHost h => exact ⟨.start (.checkHost h), _, rfl, by simp [Traced.world]⟩
    | hostDown h => exact ⟨.start (.hostDown h), _, rfl, by simp [Traced.world]⟩
    | reapVolumes => exact ⟨.start .reapVolumes, _, rfl, by simp [Traced.world]⟩
  | act t ch =>
    simp only [step, Traced.world, List.getElem?_map] at h
    split at h
    · rename_i s rest hit hth
      obtain ⟨⟨th, m⟩, hth, rfl⟩ := Option.map_eq_some_iff.mp hth
      obtain ⟨r, hr, rfl⟩ := Option.map_eq_some_iff.mp h
      refine ⟨.act t ch, _, by simp only [tstep, hth]; rw [hr, Option.map_some], ?_⟩
      simp [Traced.world, List.map_set]
    · cases h
  | crash t =>
    cases h
    cases hth : x.threads[t]? with
    | none =>
      refine ⟨.crash t, x, by simp only [tstep, hth], ?_⟩
      have hlen := List.getElem?_eq_none_iff.mp hth
      simp [Traced.world, List.set_eq_of_length_le, hlen]
    | some p => exact ⟨.crash t, _, by simp only [tstep, hth]; rfl, by simp [Traced.world, List.map_set]⟩
  | agent b tell =>
    refine ⟨.agent b tell, _, by rw [tstep, h, Option.map_some], ?_⟩
    exact congrArg (World.mk w.core) (agent_frame h).1.symm
  | vanish c tell =>
    refine ⟨.vanish c tell, _, by rw [tstep, h, Option.map_some], ?_⟩
    exact congrArg (World.mk w.core) (vanish_frame h).1.symm
  | post n =>
    have hn : n ∈ x.core.notices := by
      cases moves_of_step h with
      | post hr hn => exact hn
    obtain ⟨k, hk⟩ := (hx.notices n).mp hn
    obtain ⟨j, hj⟩ := List.getElem?_of_mem hk
    refine ⟨.post j, _, by simp only [tstep, hj]; rw [h, Option.map_some], ?_⟩
    exact congrArg (World.mk w.core) (post_frame h).1.symm
  | tick d =>
    cases h
    exact ⟨.tick d, _, rfl, rfl⟩

/-! ### Open reports -/

/-- The report continues one that was open, or tells of what has just happened. -/
def Continues (x x' : Traced) (o' : Report) : Prop :=
  (∃ o, Open x o ∧ o.capsule = o'.capsule ∧ o.stamp = o'.stamp ∧ o'.sources ⊆ o.sources) ∨
    o'.stamp = x'.moved o'.capsule

theorem Open.continues {o : Report} (h : Open x o) : Continues x x' o :=
  .inl ⟨o, h, rfl, rfl, List.Subset.refl _⟩

theorem mem_statuses (st : Status) : st ∈ statuses := by cases st <;> decide

theorem translate_capsule (n : Notice) (st : Status) : (translate n st).capsule = n.capsule := by cases n <;> rfl

theorem sources_translate (n : Notice) (st : Status) : sources (translate n st) ⊆ noticeSources n :=
  fun _ h => List.mem_flatMap.mpr ⟨st, mem_statuses st, h⟩

section

variable {x x' : Traced} {a : TAct}

variable {n : ℕ} {e : Event}

theorem event_step (hx : Aligned x) (ha : Calm x a) (h : tstep x a = some x') {i : ℕ}
    (he : x'.events[i]? = some (e, n)) (hd : i ∉ x'.delivered) : Continues x x' ⟨e.capsule, sources e, n⟩ := by
  cases tmoves_of_step h with
  | deliver hq => exact Open.continues (x := x) (.event he fun hi => hd (List.mem_cons_of_mem _ hi))
  | @act t ch s rest hit m r hth hr =>
    by_cases hi : i < x.events.length
    · rw [List.getElem?_append_left hi] at he
      exact Open.continues (x := x) (.event he hd)
    · -- the event was due in the script
      rw [List.getElem?_append_right (Nat.le_of_not_lt hi)] at he
      rcases hx.published hth hr with ⟨-, hnew⟩ | ⟨e', n', hdue, -, hnew⟩ <;> rw [hnew] at he
      · cases he
      · obtain ⟨rfl, rfl⟩ := Prod.mk.inj (List.mem_singleton.mp (List.mem_of_getElem? he))
        exact Open.continues (x := x) (.due (List.mem_of_getElem? hth) hdue)
  | @post j k nt w hn hw =>
    by_cases hi : i < x.events.length
    · rw [List.getElem?_append_left hi] at he
      exact Open.continues (x := x) (.event he hd)
    · rw [List.getElem?_append_right (Nat.le_of_not_lt hi)] at he
      obtain ⟨-, -, -, st, hev⟩ := post_frame hw
      rw [hev] at he
      obtain ⟨rfl, rfl⟩ := Prod.mk.inj (List.mem_singleton.mp (List.mem_of_getElem? he))
      exact .inl ⟨_, .notice hn ha.1, (translate_capsule nt st).symm, rfl, sources_translate nt st⟩
  | _ => exact Open.continues (x := x) (.event he hd)

theorem notice_step (h : tstep x a = some x') {j : ℕ} {nt : Notice} (hn : x'.notices[j]? = some (nt, n))
    (hp : j ∉ x'.posted) : Continues x x' ⟨nt.capsule, noticeSources nt, n⟩ := by
  cases tmoves_of_step h with
  | post hq hw => exact Open.continues (x := x) (.notice hn fun hj => hp (List.mem_cons_of_mem _ hj))
  | @agent b tell w hw =>
    by_cases hj : j < x.notices.length
    · rw [List.getElem?_append_left hj] at hn
      exact Open.continues (x := x) (.notice hn hp)
    · rw [List.getElem?_append_right (Nat.le_of_not_lt hj)] at hn
      have hmem := List.mem_of_getElem? hn
      split_ifs at hmem
      · obtain ⟨rfl, rfl⟩ := Prod.mk.inj (List.mem_singleton.mp hmem)
        exact .inr rfl
      · cases hmem
  | @vanish c tell w hw =>
    by_cases hj : j < x.notices.length
    · rw [List.getElem?_append_left hj] at hn
      exact Open.continues (x := x) (.notice hn hp)
    · rw [List.getElem?_append_right (Nat.le_of_not_lt hj)] at hn
      obtain ⟨nt', hnt', heq⟩ := List.mem_map.mp (List.mem_of_getElem? hn)
      obtain ⟨rfl, rfl⟩ := Prod.mk.inj heq
      obtain ⟨-, -, -, -, hcap⟩ := vanish_frame hw
      exact .inr (congrArg x.moved (hcap nt' (Option.mem_toList.mp hnt')).symm)
  | _ => exact Open.continues (x := x) (.notice hn hp)

theorem due_step (h : tstep x a = some x') {p : Thread × Mark} (hp : p ∈ x'.threads) (hdue : (e, n) ∈ p.2.due) :
    Continues x x' ⟨e.capsule, sources e, n⟩ := by
  cases tmoves_of_step h with
  | @start s hs | @deliver i q hq =>
    rcases List.mem_append.mp hp with hp | hp
    · exact Open.continues (x := x) (.due hp hdue)
    · rw [List.mem_singleton.mp hp] at hdue
      cases hdue
  | @act t ch s rest hit m r hth hr =>
    rcases List.mem_or_eq_of_mem_set hp with hp | rfl
    · exact Open.continues (x := x) (.due hp hdue)
    · rcases List.mem_append.mp hdue with hdue | hdue
      · obtain ⟨e', -, heq⟩ := List.mem_map.mp hdue
        obtain ⟨rfl, rfl⟩ := Prod.mk.inj heq
        exact .inr rfl
      · have hold : (e, n) ∈ m.due := by
          split_ifs at hdue
          · exact List.mem_of_mem_tail hdue
          · exact hdue
        exact Open.continues (x := x) (.due (List.mem_of_getElem? hth) hold)
  | @crash t th m hth =>
    rcases List.mem_or_eq_of_mem_set hp with hp | rfl
    · exact Open.continues (x := x) (.due hp hdue)
    · cases hdue
  | _ => exact Open.continues (x := x) (.due hp hdue)

theorem handled_step (hx : Aligned x) (ha : Calm x a) (h : tstep x a = some x') {p : Thread × Mark}
    (hp : p ∈ x'.threads) (hh : p.2.handling = some (e, n)) :
    Continues x x' ⟨e.capsule, p.1.script.flatMap olds, n⟩ := by
  cases tmoves_of_step h with
  | @start s hs =>
    rcases List.mem_append.mp hp with hp | hp
    · exact Open.continues (x := x) (.handled hp hh)
    · rw [List.mem_singleton.mp hp] at hh
      cases hh
  | @deliver i q hq =>
    rcases List.mem_append.mp hp with hp | hp
    · exact Open.continues (x := x) (.handled hp hh)
    · rw [List.mem_singleton.mp hp] at hh ⊢
      cases hh
      exact Open.continues (x := x) (.event hq ha.1)
  | @act t ch s rest hit m r hth hr =>
    rcases List.mem_or_eq_of_mem_set hp with hp | rfl
    · exact Open.continues (x := x) (.handled hp hh)
    · have hmem := List.mem_of_getElem? hth
      refine .inl ⟨_, .handled hmem hh, rfl, rfl, fun st hst => ?_⟩
      have hs := hx.handles _ hmem _ hh s List.mem_cons_self
      obtain ⟨s', hs', hst⟩ := List.mem_flatMap.mp hst
      rcases List.mem_append.mp hs' with hs' | hs'
      · exact List.mem_flatMap.mpr ⟨s, List.mem_cons_self .., (hs.next hr hs').2 hst⟩
      · exact List.mem_flatMap.mpr ⟨s', List.mem_cons_of_mem _ hs', hst⟩
  | @crash t th m hth =>
    rcases List.mem_or_eq_of_mem_set hp with hp | rfl
    · exact Open.continues (x := x) (.handled hp hh)
    · exact .inl ⟨_, .handled (List.mem_of_getElem? hth) hh, rfl, rfl, List.nil_subset _⟩
  | _ => exact Open.continues (x := x) (.handled hp hh)

theorem open_step (hx : Aligned x) (ha : Calm x a) (h : tstep x a = some x') {o : Report} (ho : Open x' o) :
    Continues x x' o := by
  cases ho with
  | event he hd => exact event_step hx ha h he hd
  | notice hn hp => exact notice_step h hn hp
  | due hp hdue => exact due_step h hp hdue
  | handled hp hh => exact handled_step hx ha h hp hh

/-- Where the handling of an open report would write, nothing has moved since. -/
structure Current (x : Traced) : Prop where
  aligned : Aligned x
  reports : ∀ o, Open x o → ∀ st, statusOf x.core o.capsule = some st → st ∈ o.sources →
    x.moved o.capsule = o.stamp

theorem current_of_initial (hi : TInitial x) : Current x where
  aligned := aligned_of_initial hi
  reports o _ st hst := by
    rw [statusOf, show x.core.rows = Table.empty from hi.world.rows] at hst
    cases hst

/-- **A step.** -/
theorem current_step (hx : Current x) (ha : Calm x a) (h : tstep x a = some x') : Current x' := by
  refine ⟨aligned_step hx.aligned h, fun o' ho' st hst hmem => ?_⟩
  rcases open_step hx.aligned ha h ho' with ⟨o, ho, hcap, hstamp, hsub⟩ | hnew
  · rw [← hcap] at hst ⊢
    by_cases hsame : statusOf x'.core o.capsule = statusOf x.core o.capsule
    · rw [moved_step h hsame, ← hstamp]
      exact hx.reports o ho st (hsame.symm.trans hst) (hsub hmem)
    · -- the row has moved into a status from which the handler would write
      obtain ⟨r, hr, rfl⟩ := Option.map_eq_some_iff.mp hst
      obtain ⟨hrow, hid⟩ := Table.select_eq_some.mp hr
      refine absurd (hsub hmem) (ha.2 x' h r hrow ?_ o (mem_opens.mpr ho) hid.symm)
      rw [hid, ← hst]
      exact Ne.symm hsame
  · exact hnew.symm

end

/-- A status write of the consumer is from one of the statuses that its statement names. -/
theorem Handles.writes {c' : ℕ} (hs : Handles c s)
    (h : execute k hit ch s = some r) (hc : statusOf r.core c' ≠ statusOf k c') :
    c' = c ∧ ∃ st ∈ olds s, statusOf k c = some st := by
  cases hs with
  | detach =>
    cases h
    exact absurd rfl hc
  | updateIf sts new =>
    cases sts with
    | nil =>
      cases h
      exact absurd rfl hc
    | cons old sts =>
      simp only [execute] at h
      split_ifs at h with hold <;> cases h
      · have heq : c' = c := by
          by_contra hne
          refine hc (setStatus_status.trans ?_)
          refine Option.map_congr fun r hr => if_neg ?_
          rw [Table.select_key hr]
          exact fun hp => hne (of_decide_eq_true hp).1
        obtain ⟨r, hr, hst⟩ := statusIs_iff.mp hold
        exact ⟨heq, old, List.mem_cons_self .., by rw [statusOf, hr, Option.map_some, hst]⟩
      · exact absurd rfl hc

/-- **Late events.**  In a calm run a statement of the consumer moves a row only if nothing has moved it since
the change that the event reports. -/
theorem reach_handler_current {x x' : Traced} {t : ℕ} {ch : Reply} {th : Thread} {m : Mark} {e : Event} {n c : ℕ}
    (hx : Reach tstep Calm TInitial x) (hth : x.threads[t]? = some (th, m)) (hm : m.handling = some (e, n))
    (h : tstep x (.act t ch) = some x') (hc : statusOf x'.core c ≠ statusOf x.core c) :
    c = e.capsule ∧ x.moved c = n := by
  have hcur : Current x :=
    hx.invariant (fun _ hi => current_of_initial hi) fun _ _ _ hi ha hs => current_step hi ha hs
  cases tmoves_of_step h with
  | @act _ _ s rest hit m' r hth' hr =>
    obtain ⟨rfl, rfl⟩ := Prod.mk.inj (Option.some.inj (hth.symm.trans hth'))
    have hmem := List.mem_of_getElem? hth
    have hs := hcur.aligned.handles _ hmem _ hm s List.mem_cons_self
    obtain ⟨rfl, st, hst, hold⟩ := hs.writes hr hc
    refine ⟨rfl, hcur.reports _ (.handled hmem hm) st hold ?_⟩
    exact List.mem_flatMap.mpr ⟨s, List.mem_cons_self .., hst⟩

/-! ### Schedules -/

instance decidableCalm (x : Traced) (a : TAct) : Decidable (Calm x a) := by
  refine @instDecidableAnd _ _ ?_ inferInstance
  cases a with
  | deliver i => exact inferInstanceAs (Decidable (i ∉ x.delivered))
  | post j => exact inferInstanceAs (Decidable (j ∉ x.posted))
  | _ => exact isTrue trivial

def fresh : Traced where
  core := (idle Table.empty).core
  threads := []
  moved := fun _ => 0
  events := []
  notices := []
  posted := []
  delivered := []

theorem fresh_initial : TInitial fresh := ⟨idle_initial (List.forall_mem_nil _), rfl, rfl⟩

/-- A capsule is created and its row is `running`. -/
def createRun : List TAct := .start (.create 0 []) :: List.replicate 7 (.act 0 .ok)

/-- `Pause` and `pauseInBackground`, with the event that it publishes. -/
def pauseRun : List TAct := .start (.op .pause 0) :: List.replicate 6 (.act 1 .ok)

/-- `Resume` and `resumeInBackground`. -/
def resumeRun : List TAct := .start (.op .resume 0) :: List.replicate 6 (.act 2 .ok)

/-- The status of the row, its transitions, and what the thread `t` handles. -/
def view (t : ℕ) (x : Traced) : Option Status × ℕ × Option (Event × ℕ) :=
  (statusOf x.core 0, x.moved 0, (x.threads[t]?).bind fun p => p.2.handling)

/-- The capsule has paused by itself, and the row follows the agent's notice. -/
def noticeRun : List TAct :=
  createRun ++ ([.agent ⟨0, 0, some .paused, false, true, [], false⟩ true, .post 0, .deliver 1] : List TAct)

theorem notice_handled_in_time :
    ∃ x', tstep (last tstep fresh noticeRun) (.act 1 .ok) = some x' ∧ statusOf x'.core 0 = some .paused ∧
      (last tstep fresh noticeRun).moved 0 = 2 := by
  have hadm : Admits tstep Calm fresh noticeRun := by decide +kernel
  obtain ⟨x', hx'⟩ : ∃ x', tstep (last tstep fresh noticeRun) (.act 1 .ok) = some x' :=
    Option.isSome_iff_exists.mp (by decide +kernel)
  have hpaused : statusOf x'.core 0 = some .paused := by
    have hmap : (tstep (last tstep fresh noticeRun) (.act 1 .ok)).map (fun x => statusOf x.core 0) =
        some (some .paused) := by decide +kernel
    rw [hx', Option.map_some, Option.some.injEq] at hmap
    exact hmap
  have hrunning : statusOf (last tstep fresh noticeRun).core 0 = some .running := by decide +kernel
  obtain ⟨⟨th, m⟩, hth⟩ : ∃ p, (last tstep fresh noticeRun).threads[1]? = some p :=
    Option.isSome_iff_exists.mp (by decide +kernel)
  have hm : m.handling = some (⟨.pause, true, 0, .ttlExpired⟩, 2) := by
    have hmap : ((last tstep fresh noticeRun).threads[1]?).map (fun p => p.2.handling) =
        some (some (⟨.pause, true, 0, .ttlExpired⟩, 2)) := by decide +kernel
    rw [hth, Option.map_some, Option.some.injEq] at hmap
    exact hmap
  have hmoved : statusOf x'.core 0 ≠ statusOf (last tstep fresh noticeRun).core 0 := by
    rw [hpaused, hrunning]
    nofun
  exact ⟨x', hx', hpaused, (reach_handler_current (.last fresh_initial hadm) hth hm hx' hmoved).2⟩

/-- The event of a pause is delivered after the resume: the row of the running capsule becomes `paused`. -/
theorem late_pause_overwrites_resume :
    (exec tstep fresh (createRun ++ pauseRun ++ resumeRun ++ ([.deliver 1] : List TAct))).map (view 3) =
        some (some .running, 6, some (⟨.pause, true, 0, .unspecified⟩, 3)) ∧
      (exec tstep fresh (createRun ++ pauseRun ++ resumeRun ++ ([.deliver 1, .act 3 .ok] : List TAct))).map (view 3) =
        some (some .paused, 7, some (⟨.pause, true, 0, .unspecified⟩, 3)) := by
  constructor <;> decide +kernel

/-- The event of a failed resume, likewise: the row of the running capsule becomes `error`, and what is
attached to it is detached. -/
theorem late_failure_overwrites_resume :
    (exec tstep fresh (createRun ++ pauseRun ++
      ([.start (.op .resume 0), .act 2 .ok, .act 2 .ok, .act 2 .ok, .act 2 .failed, .act 2 .ok, .act 2 .ok,
        .start (.op .resume 0), .act 3 .ok, .act 3 .ok, .act 3 .ok, .act 3 .ok, .act 3 .ok, .act 3 .ok,
        .deliver 2, .act 4 .ok, .act 4 .ok] : List TAct))).map (view 4) =
      some (some .error, 9, some (⟨.resume, false, 0, .resumeFailed⟩, 5)) := by
  decide +kernel

end Wrenn.ControlPlane.Stale
