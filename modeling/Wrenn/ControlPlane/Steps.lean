import Mathlib.Data.List.Infix
import Wrenn.ControlPlane.Model

/-!
# What one statement does

`changes_of_execute` says once which statements write what; the proofs about rows, volumes and boxes go by
its cases.
-/

namespace Wrenn.ControlPlane.Steps

open Lib.Tables Database Model
open Sandbox.Startup (SandboxStatus)

/-- The statements with the RPC `DestroySandbox`. -/
def destroys : Stmt → Option ℕ
  | .confirmGone c _ | .destroyCall c _ | .redestroy c _ => some c
  | _ => none

/-- The statements with a conditional update of the status. -/
inductive Updates : Stmt → ℕ → Status → Status → Prop
  | claim (op : Op) (c : ℕ) : Updates (.claim op c) c op.old op.during
  | updateIf (c : ℕ) (old : Status) (olds : List Status) (new : Status) :
    Updates (.updateIf c (old :: olds) new) c old new
  | resolve (c : ℕ) (old new : Status) : Updates (.resolve c old new) c old new

inductive Changes (k : Core) : Stmt → Core → Prop
  | same (s : Stmt) : Changes k s k
  | reserve {c h v : ℕ} {refs reserved : List ℕ} (hn : v ∉ reserved)
    (hv : volumeIs k.volumes v .detached = true) :
    Changes k (.reserve c h (v :: refs) reserved) { k with volumes := reserveVolumeForAttach k.volumes v k.now }
  | insert {c h : ℕ} {reserved : List ℕ} {rows : Sandboxes} (hi : insertSandbox k.rows c h k.now = some rows) :
    Changes k (.insert c h reserved) { k with rows := rows }
  | link (c h v : ℕ) (todo reserved : List ℕ) :
    Changes k (.link c h (v :: todo) reserved) { k with volumes := linkVolumeReservation k.volumes v c k.now }
  | createCall {c h : ℕ} {reserved : List ℕ} {boxes : Boxes}
    (hi : k.boxes.insert ⟨c, h, none, false, false, reserved, false⟩ = some boxes) :
    Changes k (.createCall c h reserved) { k with boxes := boxes }
  | register (c h : ℕ) (reserved : List ℕ) :
    Changes k (.createReply c h reserved) { k with boxes := register k.boxes c }
  | release (c v : ℕ) : Changes k (.release c v) { k with volumes := releaseVolumeReservation k.volumes v k.now }
  | mark (c h v : ℕ) : Changes k (.mark c h v) { k with volumes := markVolumeAttached k.volumes v h c k.now }
  | updateIf {s : Stmt} {c : ℕ} {old new : Status} (hs : Updates s c old new) :
    Changes k s { k with rows := updateSandboxStatusIf k.rows c old new k.now }
  | onHost {op : Op} {c : ℕ} {boxes : Boxes} (hb : op.onHost k.boxes c = some boxes) :
    Changes k (.call op c) { k with boxes := boxes }
  | accept {c : ℕ} {r : Row} (hr : k.rows.select c = some r) (hst : r.status = .stopped ∨ r.status = .error) :
    Changes k (.destroyRead c) { k with accepted := c :: k.accepted }
  | destroyMark {c : ℕ} (hr : (k.rows.select c).isSome = true) :
    Changes k (.destroyMark c) { k with
      rows := updateSandboxStatus k.rows c .stopping k.now
      accepted := c :: k.accepted }
  | destroy {s : Stmt} {c : ℕ} (hs : destroys s = some c) :
    Changes k s { k with boxes := destroyBox k.boxes c }
  | spare {s : Stmt} {c : ℕ} {boxes : Boxes} (hs : destroys s = some c) (hb : spareBox k.boxes c = some boxes) :
    Changes k s { k with boxes := boxes }
  | detach (c : ℕ) : Changes k (.detach c) { k with volumes := detachVolumesBySandbox k.volumes c k.now }
  | publish (e : Event) : Changes k (.publish e) { k with events := e :: k.events }
  | markMissing (h : ℕ) :
    Changes k (.markMissing h) { k with rows := markSandboxesMissingByHost k.rows h k.now }
  | restore (ids : List ℕ) (st : Status) :
    Changes k (.restore ids st) { k with rows := bulkRestoreMissingToStatus k.rows ids st k.now }
  | bulkUpdate (ids : List ℕ) (st : Status) :
    Changes k (.bulkUpdate ids st) { k with rows := bulkUpdateStatusByIDs k.rows ids st k.now }
  | detachIDs (ids : List ℕ) :
    Changes k (.detachIDs ids) { k with volumes := detachVolumesBySandboxIDs k.volumes ids k.now }
  | releaseStale (cutoff : ℕ) :
    Changes k (.releaseStale cutoff) { k with
      volumes := releaseStaleVolumeReservations k.volumes cutoff k.now }
  | onHit {s : Stmt} {k' : Core} (h : Changes k s k') : Changes k (.onHit s) k'

variable {k : Core} {s s' : Stmt} {w : World}

/-- A `DestroySandbox` does nothing, destroys the capsule or comes back with the capsule still there. -/
theorem changes_of_destroy {hit : Bool} {ch : Reply} {r : Result} {c : ℕ} (hd : destroys s = some c)
    (h : execute k hit ch s = some r) : Changes k s r.core := by
  have hspare : ∀ next, (spareBox k.boxes c).map (fun boxes => Result.mk { k with boxes := boxes } hit next) = some r →
      Changes k s r.core := by
    intro next h
    obtain ⟨boxes, hb, rfl⟩ := Option.map_eq_some_iff.mp h
    exact .spare hd hb
  cases s with
  | confirmGone c0 reserved =>
    cases hd
    cases ch <;> first | exact hspare _ h | (cases h; first | exact .destroy rfl | exact .same _)
  | destroyCall c0 n =>
    cases hd
    cases n with
    | zero =>
      cases h
      exact .same _
    | succ n => cases ch <;> first | exact hspare _ h | (cases h; first | exact .destroy rfl | exact .same _)
  | redestroy c0 retry =>
    cases hd
    cases ch <;> first | exact hspare _ h | (cases h; first | exact .destroy rfl | exact .same _)
  | _ => cases hd

theorem changes_of_execute {hit : Bool} {ch : Reply} {r : Result} (h : execute k hit ch s = some r) :
    Changes k s r.core := by
  induction s generalizing r with
  | reserve c h0 refs reserved =>
    cases refs with
    | nil => exact Option.some.inj h ▸ .same _
    | cons v refs =>
      simp only [execute] at h
      split_ifs at h with hn hv <;> cases h
      · exact .same _
      · exact .reserve hn hv.2
      · exact .same _
  | insert c h0 reserved | createCall c h0 reserved =>
    simp only [execute] at h
    split at h <;> cases h
    · constructor
      assumption
    · exact .same _
  | createReply c h0 reserved =>
    simp only [execute] at h
    split at h <;> (try split_ifs at h) <;> cases h
    any_goals exact .same _
    all_goals exact .register c h0 reserved
  | confirmGone c reserved | redestroy c retry => exact changes_of_destroy rfl h
  | claim op c =>
    simp only [execute] at h
    split_ifs at h <;> cases h
    · exact .updateIf (.claim op c)
    · exact .same _
  | call op c =>
    simp only [execute] at h
    split at h
    any_goals
      cases h
      exact .same _
    all_goals
      obtain ⟨boxes, hb, rfl⟩ := Option.map_eq_some_iff.mp h
      exact .onHost hb
  | destroyRead c =>
    simp only [execute] at h
    split at h <;> rename_i hst <;> cases h
    case h_1 | h_4 => exact .same _
    all_goals obtain ⟨r0, hr0, hst⟩ := Option.map_eq_some_iff.mp hst
    · exact .accept hr0 (.inl hst)
    · exact .accept hr0 (.inr hst)
  | destroyMark c =>
    simp only [execute] at h
    split_ifs at h with hr <;> cases h
    · exact .destroyMark hr
    · exact .same _
  | destroyCall c n => exact changes_of_destroy rfl h
  | updateIf c olds new =>
    cases olds with
    | nil => exact Option.some.inj h ▸ .same _
    | cons old olds =>
      simp only [execute] at h
      split_ifs at h <;> cases h
      · exact .updateIf (.updateIf c old olds new)
      · exact .same _
  | resolve c old new => exact Option.some.inj h ▸ .updateIf (.resolve c old new)
  | onHit s ih =>
    simp only [execute] at h
    split_ifs at h
    · exact .onHit (ih h)
    · exact Option.some.inj h ▸ .same _
  | link c h0 todo reserved => cases todo <;> (cases h; constructor)
  | read q c | listSandboxes h0 =>
    simp only [execute] at h
    repeat' split at h
    all_goals exact Option.some.inj h ▸ .same _
  | _ =>
    -- one statement with its own constructor, or no write
    cases h
    constructor

/-! ### What follows a statement -/

/-- The second statement can come after the first, which leads from the state `k` to `k'`. -/
inductive Follows (k k' : Core) : Stmt → Stmt → Prop
  | reserve {c h v : ℕ} {refs reserved reserved' : List ℕ} :
    Follows k k' (.reserve c h (v :: refs) reserved) (.reserve c h refs reserved')
  | insert {c h : ℕ} {reserved : List ℕ} : Follows k k' (.reserve c h [] reserved) (.insert c h reserved)
  | unreserve {c h v : ℕ} {refs reserved : List ℕ} :
    Follows k k' (.reserve c h refs reserved) (.release c v)
  | uninsert {c h v : ℕ} {reserved : List ℕ} : Follows k k' (.insert c h reserved) (.release c v)
  | link {c h : ℕ} {reserved : List ℕ} (hi : insertSandbox k.rows c h k.now = some k'.rows) :
    Follows k k' (.insert c h reserved) (.link c h reserved reserved)
  | relink {c h v : ℕ} {todo reserved : List ℕ}
    (hk : k'.volumes = linkVolumeReservation k.volumes v c k.now) :
    Follows k k' (.link c h (v :: todo) reserved) (.link c h todo reserved)
  | createCall {c h : ℕ} {reserved : List ℕ} (hk : k'.volumes = k.volumes) :
    Follows k k' (.link c h [] reserved) (.createCall c h reserved)
  | createReply {c h : ℕ} {reserved : List ℕ} :
    Follows k k' (.createCall c h reserved) (.createReply c h reserved)
  | notCalled {c h : ℕ} {reserved : List ℕ} :
    Follows k k' (.createCall c h reserved) (.confirmGone c reserved)
  | noReply {c h : ℕ} {reserved : List ℕ} : Follows k k' (.createReply c h reserved) (.confirmGone c reserved)
  | mark {c h v : ℕ} {reserved : List ℕ} : Follows k k' (.createReply c h reserved) (.mark c h v)
  | started {c h : ℕ} {reserved : List ℕ} :
    Follows k k' (.createReply c h reserved) (.updateIf c [.starting] .running)
  | startedEvent {c h : ℕ} {reserved : List ℕ} :
    Follows k k' (.createReply c h reserved) (.publish ⟨.create, true, c, .unspecified⟩)
  | unmake {c v : ℕ} {reserved : List ℕ} : Follows k k' (.confirmGone c reserved) (.release c v)
  | failed {c : ℕ} {reserved : List ℕ} :
    Follows k k' (.confirmGone c reserved) (.updateIf c [.starting] .error)
  | failedEvent {c : ℕ} {reserved : List ℕ} :
    Follows k k' (.confirmGone c reserved) (.publish ⟨.create, false, c, .createFailed⟩)
  | claim {q : Request} {c : ℕ} {op : Op} (ho : op.old = .running ∨ op.old = .paused) :
    Follows k k' (.read q c) (.claim op c)
  | agent {op : Op} {c : ℕ} : Follows k k' (.claim op c) (.agent op c)
  | call {op : Op} {c : ℕ} : Follows k k' (.agent op c) (.call op c)
  | rollback {op : Op} {c : ℕ} : Follows k k' (.agent op c) (.updateIf c [op.during] op.old)
  | finish {op : Op} {c : ℕ} {ok : Bool} {s : Stmt} (hs : s ∈ op.finish c ok) : Follows k k' (.call op c) s
  | destroyMark {c : ℕ} : Follows k k' (.destroyRead c) (.destroyMark c)
  | destroyCall {c n : ℕ} (hr : (k.rows.select c).isSome = true) :
    Follows k k' (.destroyMark c) (.destroyCall c n)
  | again {c n : ℕ} : Follows k k' (.destroyCall c (n + 1)) (.destroyCall c n)
  | destroyFailed {c : ℕ} :
    Follows k k' (.destroyCall c 0) (.publish ⟨.destroy, false, c, .destroyFailed⟩)
  | destroyed {c n : ℕ} {s : Stmt} (hs : s ∈ destroyed c) : Follows k k' (.destroyCall c (n + 1)) s
  | updateIf {c : ℕ} {old new : Status} {olds : List Status} :
    Follows k k' (.updateIf c (old :: olds) new) (.updateIf c olds new)
  | readMissing {h : ℕ} : Follows k k' (.listSandboxes h) (.readMissing h (report k.boxes h))
  | readRunning {h : ℕ} : Follows k k' (.listSandboxes h) (.readRunning h (report k.boxes h))
  | readStopped {h : ℕ} : Follows k k' (.listSandboxes h) (.readStopped h (report k.boxes h))
  | readTransient {h : ℕ} : Follows k k' (.listSandboxes h) (.readTransient h (report k.boxes h))
  | missing {h : ℕ} {rep : List (ℕ × SandboxStatus)} {s : Stmt}
    (hs : s ∈ missingPhase rep (listSandboxesByHostAndStatus k.rows h [.missing])) :
    Follows k k' (.readMissing h rep) s
  | running {h : ℕ} {rep : List (ℕ × SandboxStatus)} {s : Stmt}
    (hs : s ∈ runningPhase rep (listSandboxesByHostAndStatus k.rows h [.running])) :
    Follows k k' (.readRunning h rep) s
  | zombie {h c : ℕ} {rep : List (ℕ × SandboxStatus)}
    (hc : c ∈ reportedIDs rep (listSandboxesByHostAndStatus k.rows h [.stopped]) .paused) :
    Follows k k' (.readStopped h rep) (.redestroy c false)
  | settle {h : ℕ} {rep : List (ℕ × SandboxStatus)} {r : Row}
    (hr : r ∈ listSandboxesByHostAndStatus k.rows h
      [.starting, .resuming, .pausing, .stopping, .snapshotting]) :
    Follows k k' (.readTransient h rep) (.settle h rep r)
  | settles {h : ℕ} {rep : List (ℕ × SandboxStatus)} {r : Row} {s : Stmt}
    (hs : s ∈ transientStmts rep k.now r) : Follows k k' (.settle h rep r) s
  | redestroyed {c : ℕ} {retry : Bool} {s : Stmt} (hs : s ∈ redestroyed c retry) :
    Follows k k' (.redestroy c retry) s
  | onHit {s s' : Stmt} (h : Follows k k' s s') : Follows k k' (.onHit s) s'

theorem follows_of_execute {hit : Bool} {ch : Reply} {r : Result} (h : execute k hit ch s = some r)
    (hs' : s' ∈ r.next) : Follows k r.core s s' := by
  induction s generalizing r with
  | reserve c h0 refs reserved =>
    cases refs with
    | nil =>
      cases h
      rw [List.mem_singleton.mp hs']
      exact .insert
    | cons v refs =>
      simp only [execute] at h
      split_ifs at h <;> cases h
      case neg =>
        obtain ⟨v', -, rfl⟩ := List.mem_map.mp hs'
        exact .unreserve
      all_goals
        rw [List.mem_singleton.mp hs']
        exact .reserve
  | insert c h0 reserved =>
    simp only [execute] at h
    split at h <;> cases h
    · rw [List.mem_singleton.mp hs']
      exact .link ‹_›
    · obtain ⟨v', -, rfl⟩ := List.mem_map.mp hs'
      exact .uninsert
  | createReply c h0 reserved =>
    simp only [execute] at h
    repeat' split at h
    all_goals cases h
    case h_4.isTrue =>
      simp only [List.mem_append, List.mem_map, List.mem_cons, List.not_mem_nil, or_false] at hs'
      rcases hs' with ⟨v', -, rfl⟩ | rfl | rfl
      · exact .mark
      · exact .started
      · exact .startedEvent
    all_goals
      rw [List.mem_singleton.mp hs']
      exact .noReply
  | confirmGone c reserved =>
    have hgone : s' ∈ confirmedGone c reserved → Follows k r.core (.confirmGone c reserved) s' := by
      intro hs'
      simp only [confirmedGone, List.mem_append, List.mem_map, List.mem_cons, List.not_mem_nil, or_false] at hs'
      rcases hs' with ⟨v', hv', rfl⟩ | rfl | rfl <;> constructor
    cases ch with
    | failed | lost =>
      cases h
      cases hs'
    | ok =>
      cases h
      exact hgone hs'
    | spared =>
      obtain ⟨boxes, -, rfl⟩ := Option.map_eq_some_iff.mp h
      exact hgone hs'
  | call op c =>
    simp only [execute] at h
    split at h
    any_goals
      cases h
      exact .finish hs'
    all_goals
      obtain ⟨boxes, -, rfl⟩ := Option.map_eq_some_iff.mp h
      exact .finish hs'
  | destroyMark c =>
    simp only [execute] at h
    split_ifs at h with hr <;> cases h
    · rw [List.mem_singleton.mp hs']
      exact .destroyCall hr
    · cases hs'
  | destroyCall c n =>
    cases n with
    | zero =>
      cases h
      rw [List.mem_singleton.mp hs']
      exact .destroyFailed
    | succ n =>
      cases ch with
      | failed | lost =>
        cases h
        rw [List.mem_singleton.mp hs']
        exact .again
      | ok =>
        cases h
        exact .destroyed hs'
      | spared =>
        obtain ⟨boxes, -, rfl⟩ := Option.map_eq_some_iff.mp h
        exact .destroyed hs'
  | listSandboxes h0 =>
    simp only [execute] at h
    split_ifs at h <;> cases h
    · simp only [List.cons_append, List.nil_append, List.mem_cons, List.not_mem_nil, or_false] at hs'
      rcases hs' with rfl | rfl | rfl | rfl <;> constructor
    · simp only [List.cons_append, List.nil_append, List.mem_cons, List.not_mem_nil, or_false] at hs'
      rcases hs' with rfl | rfl | rfl <;> constructor
    · cases hs'
  | readMissing h0 rep | readRunning h0 rep | settle h0 rep r0 =>
    cases h
    constructor
    exact hs'
  | readStopped h0 rep =>
    cases h
    obtain ⟨c, hc, rfl⟩ := List.mem_map.mp hs'
    exact .zombie hc
  | readTransient h0 rep =>
    cases h
    obtain ⟨r0, hr0, rfl⟩ := List.mem_map.mp hs'
    exact .settle hr0
  | redestroy c retry =>
    cases ch with
    | failed | lost =>
      cases h
      cases hs'
    | ok =>
      cases h
      exact .redestroyed hs'
    | spared =>
      obtain ⟨boxes, -, rfl⟩ := Option.map_eq_some_iff.mp h
      exact .redestroyed hs'
  | onHit s ih =>
    simp only [execute] at h
    split_ifs at h
    · exact .onHit (ih h hs')
    · cases h
      cases hs'
  | updateIf c olds new =>
    cases olds with
    | nil =>
      cases h
      cases hs'
    | cons old olds =>
      simp only [execute] at h
      split_ifs at h <;> cases h
      · cases hs'
      · rw [List.mem_singleton.mp hs']
        exact .updateIf
  | link c h0 todo reserved =>
    cases todo <;> (cases h; rw [List.mem_singleton.mp hs']; exact by constructor; rfl)
  | _ =>
    -- at most one statement follows
    simp only [execute] at h
    repeat' split at h
    all_goals
      cases h
      first
      | (cases hs'; done)
      | (rw [List.mem_singleton.mp hs']; first | exact .claim (.inl rfl) | exact .claim (.inr rfl) | constructor)

/-! ### The statements of a pass -/

section Phases

variable {rep : List (ℕ × SandboxStatus)} {rows : List Row} {ids : List ℕ} {s : Stmt} {c : ℕ}

theorem mem_stopStmts (h : s ∈ stopStmts ids) :
    s = .bulkUpdate ids .stopped ∨ s = .detachIDs ids ∨
      ∃ c ∈ ids, s = .publish ⟨.destroy, true, c, .orphaned⟩ := by
  unfold stopStmts at h
  split_ifs at h
  · cases h
  · simp only [List.cons_append, List.nil_append, List.mem_cons, List.mem_map] at h
    rcases h with h | h | ⟨c, hc, h⟩
    · exact .inl h
    · exact .inr (.inl h)
    · exact .inr (.inr ⟨c, hc, h.symm⟩)

variable {st : SandboxStatus} {r : Row}

theorem mem_groupStmts {write : List ℕ → Status → Stmt} {why : Reason} (h : s ∈ groupStmts ids st write why) :
    s = write ids (label st) ∨ ∃ c, s = .publish ⟨.pause, true, c, why⟩ := by
  unfold groupStmts at h
  split_ifs at h
  · cases h
  · rcases List.mem_cons.mp h with h | h
    · exact .inl h
    · obtain ⟨c, -, rfl⟩ := List.mem_map.mp h
      exact .inr ⟨c, rfl⟩
  · exact .inl (List.mem_singleton.mp h)

/-- The statements of a comparison with the report. -/
inductive Compares (rep : List (ℕ × SandboxStatus)) (rows : List Row) : Stmt → Prop
  | restore (st : SandboxStatus) : Compares rep rows (.restore (reportedIDs rep rows st) (label st))
  | bulkUpdate (st : SandboxStatus) : Compares rep rows (.bulkUpdate (reportedIDs rep rows st) (label st))
  | paused (c : ℕ) (why : Reason) : Compares rep rows (.publish ⟨.pause, true, c, why⟩)
  | stopped : Compares rep rows (.bulkUpdate (absentIDs rep rows) .stopped)
  | detached : Compares rep rows (.detachIDs (absentIDs rep rows))
  | orphaned {c : ℕ} (hc : c ∈ absentIDs rep rows) : Compares rep rows (.publish ⟨.destroy, true, c, .orphaned⟩)

theorem compares_of_mem (h : s ∈ missingPhase rep rows ∨ s ∈ runningPhase rep rows) : Compares rep rows s := by
  have hstop (h : s ∈ stopStmts (absentIDs rep rows)) : Compares rep rows s := by
    rcases mem_stopStmts h with rfl | rfl | ⟨c, hc, rfl⟩
    · exact .stopped
    · exact .detached
    · exact .orphaned hc
  rcases h with h | h <;> rcases List.mem_append.mp h with h | h
  · obtain ⟨st, -, h⟩ := List.mem_flatMap.mp h
    rcases mem_groupStmts h with rfl | ⟨c, rfl⟩
    · exact .restore st
    · exact .paused c _
  · exact hstop h
  · exact hstop h
  · obtain ⟨st, -, h⟩ := List.mem_flatMap.mp h
    rcases mem_groupStmts h with rfl | ⟨c, rfl⟩
    · exact .bulkUpdate st
    · exact .paused c _

theorem mem_absentIDs (h : c ∈ absentIDs rep rows) : ∃ r ∈ rows, r.id = c ∧ aliveStatus rep c = none := by
  obtain ⟨r, hr, rfl⟩ := List.mem_map.mp h
  obtain ⟨hr, ha⟩ := List.mem_filter.mp hr
  exact ⟨r, hr, rfl, of_decide_eq_true ha⟩

theorem mem_reportedIDs (h : c ∈ reportedIDs rep rows st) :
    ∃ r ∈ rows, r.id = c ∧ aliveStatus rep c = some (some st) := by
  obtain ⟨r, hr, rfl⟩ := List.mem_map.mp h
  obtain ⟨hr, ha⟩ := List.mem_filter.mp hr
  exact ⟨r, hr, rfl, of_decide_eq_true ha⟩

theorem mem_listRows {t : Sandboxes} {h : ℕ} {sts : List Status} (hr : r ∈ listSandboxesByHostAndStatus t h sts) :
    t.select r.id = some r ∧ r.host = h ∧ r.status ∈ sts := by
  obtain ⟨hmem, hp⟩ := Table.mem_list.mp hr
  exact ⟨Table.select_mem hmem, of_decide_eq_true hp⟩

/-- The map of a report has the status of the last entry for a capsule, if there is one. -/
theorem aliveStatus_cases (rep : List (ℕ × SandboxStatus)) (c : ℕ) :
    (aliveStatus rep c = none ∧ ∀ sb ∈ rep, sb.1 ≠ c) ∨
      ∃ sb ∈ rep, sb.1 = c ∧ aliveStatus rep c = some (coerce sb.2) := by
  induction rep using List.reverseRecOn with
  | nil => exact .inl ⟨rfl, nofun⟩
  | append_singleton rep sb ih =>
    have hlast : aliveStatus (rep ++ [sb]) =
        Function.update (aliveStatus rep) sb.1 (some (coerce sb.2)) := by
      rw [aliveStatus, List.foldl_append]
      rfl
    rw [hlast]
    by_cases hc : sb.1 = c
    · exact .inr ⟨sb, by simp, hc, by rw [hc, Function.update_self]⟩
    · rw [Function.update_of_ne (Ne.symm hc)]
      rcases ih with ⟨hnone, hall⟩ | ⟨sb', hsb', hc', ha⟩
      · refine .inl ⟨hnone, fun sb' hsb' => ?_⟩
        rcases List.mem_append.mp hsb' with hsb' | hsb'
        · exact hall sb' hsb'
        · rw [List.mem_singleton.mp hsb']
          exact hc
      · exact .inr ⟨sb', List.mem_append_left _ hsb', hc', ha⟩

theorem mem_report {t : Boxes} {h : ℕ} :
    (c, st) ∈ report t h ↔ ∃ b, t.select c = some b ∧ (b.host = h ∧ ¬b.leaving) ∧ b.status = some st := by
  unfold report
  rw [List.mem_filterMap]
  constructor
  · rintro ⟨b, hb, hsb⟩
    split_ifs at hsb with hh
    obtain ⟨st', hst', heq⟩ := Option.map_eq_some_iff.mp hsb
    cases heq
    exact ⟨b, Table.select_mem hb, hh, hst'⟩
  · rintro ⟨b, hb, hh, hst⟩
    obtain ⟨hmem, rfl⟩ := Table.select_eq_some.mp hb
    exact ⟨b, hmem, by rw [if_pos hh, hst]; rfl⟩

/-- What the monitor does about one transient row. -/
inductive Settles (rep : List (ℕ × SandboxStatus)) (r : Row) : Stmt → Prop
  | promote {new : Status} (hst : r.status = .starting ∨ r.status = .resuming ∨ r.status = .snapshotting)
    (hnew : new = .running ∨ new = .paused) : Settles rep r (.resolve r.id r.status new)
  | redestroy (hst : r.status = .stopping) : Settles rep r (.redestroy r.id true)
  | final (ha : aliveStatus rep r.id = none) : Settles rep r (.resolve r.id r.status (finalStatus r.status))
  | freed (ha : aliveStatus rep r.id = none) : Settles rep r (.onHit (.detachIDs [r.id]))
  | told {e : Event} (ha : aliveStatus rep r.id = none) (he : e ∈ finalEvent r.id r.status) :
    Settles rep r (.onHit (.publish e))

theorem settles_of_mem {now : ℕ} (h : s ∈ transientStmts rep now r) : Settles rep r s := by
  unfold transientStmts at h
  split at h
  · split at h <;> rename_i hst <;> (try split_ifs at h) <;> first | (cases h; done) | rw [List.mem_singleton.mp h]
    · exact .promote (.inl hst) (.inl rfl)
    · exact .promote (.inr (.inl hst)) (.inl rfl)
    · exact .redestroy hst
    · rw [← hst]
      refine .promote (.inr (.inr hst)) ?_
      unfold recoverTo
      split
      · exact .inr rfl
      · exact .inl rfl
  · rename_i ha
    split_ifs at h
    · cases h
    all_goals
      simp only [List.cons_append, List.nil_append, List.mem_cons, List.mem_map] at h
    · rcases h with rfl | rfl | ⟨e, he, rfl⟩
      · exact .final ha
      · exact .freed ha
      · exact .told ha he
    · rcases h with rfl | ⟨e, he, rfl⟩
      · exact .final ha
      · exact .told ha he

end Phases

/-- What a script starts with. -/
inductive Starts (k k' : Core) : Stmt → Prop
  | deliver {e : Event} {s : Stmt} (hs : s ∈ handleMessage e) : Starts k k' s
  | reserve (hnext : k'.nextID = k.nextID + 1) (h : ℕ) (refs : List ℕ) : Starts k k' (.reserve k.nextID h refs [])
  | read (q : Request) (c : ℕ) : Starts k k' (.read q c)
  | destroyRead (c : ℕ) : Starts k k' (.destroyRead c)
  | listSandboxes (h : ℕ) : Starts k k' (.listSandboxes h)
  | markMissing (h : ℕ) : Starts k k' (.markMissing h)
  | releaseStale (cutoff : ℕ) : Starts k k' (.releaseStale cutoff)

theorem starts_of_mem {s0 : Start} (h : s ∈ s0.script k) : Starts k (s0.core k) s := by
  cases s0 with
  | create h0 refs =>
    simp only [Start.script] at h
    split_ifs at h
    · rw [List.mem_singleton.mp h]
      exact .reserve rfl h0 refs
    · cases h
  | deliver e => exact .deliver h
  | _ =>
    rw [List.mem_singleton.mp h]
    first
    | exact .read _ _ | exact .destroyRead _ | exact .listSandboxes _ | exact .markMissing _
    | exact .releaseStale _

/-! ### Steps -/

/-- A step of a script: `s` is the next statement of a thread, and is replaced by those that follow it. -/
structure Executes (w : World) (t : ℕ) (ch : Reply) (s : Stmt) (r : Result) (w' : World) : Prop where
  head : ((w.threads[t]?).bind fun th => th.script.head?) = some s
  exec : ∃ hit, execute w.core hit ch s = some r
  core : w'.core = r.core
  stmts : ∃ pre post, w.stmts = pre ++ s :: post ∧ w'.stmts = pre ++ (r.next ++ post)

theorem stmts_split {threads : List Thread} {t : ℕ} {th : Thread} (h : threads[t]? = some th) :
    ∃ pre post, threads.flatMap Thread.script = pre ++ (th.script ++ post) ∧
      ∀ th', (threads.set t th').flatMap Thread.script = pre ++ (th'.script ++ post) := by
  induction threads generalizing t with
  | nil => cases h
  | cons th0 threads ih =>
    cases t with
    | zero =>
      cases h
      exact ⟨[], threads.flatMap Thread.script, rfl, fun th' => rfl⟩
    | succ t =>
      obtain ⟨pre, post, heq, hset⟩ := ih h
      refine ⟨th0.script ++ pre, post, ?_, fun th' => ?_⟩
      · rw [List.flatMap_cons, heq, List.append_assoc]
      · rw [List.set_cons_succ, List.flatMap_cons, hset, List.append_assoc]

theorem sublist_of_crash (threads : List Thread) (t : ℕ) :
    ((threads.set t ⟨[], false⟩).flatMap Thread.script).Sublist (threads.flatMap Thread.script) := by
  cases hth : threads[t]? with
  | none => rw [List.set_eq_of_length_le (List.getElem?_eq_none_iff.mp hth)]
  | some th =>
    obtain ⟨pre, post, heq, hset⟩ := stmts_split hth
    rw [heq, hset]
    exact (List.sublist_append_right _ _).append_left pre

/-- The steps. -/
inductive Moves (w : World) : Act → World → Prop
  | start {s : Start} (he : s.enabled w.core = true) :
    Moves w (.start s) ⟨s.core w.core, w.threads ++ [⟨s.script w.core, false⟩]⟩
  | act {t : ℕ} {ch : Reply} {s : Stmt} {r : Result} {w' : World} (h : Executes w t ch s r w') :
    Moves w (.act t ch) w'
  | crash {t : ℕ} {threads : List Thread}
    (hs : (threads.flatMap Thread.script).Sublist (w.threads.flatMap Thread.script)) :
    Moves w (.crash t) { w with threads := threads }
  | agent {b0 b : Box} {tell : Bool} {ns : List Notice} (hb : w.core.boxes.select b.id = some b0)
    (hd : drifts b0 b = true) (hn : ∀ n ∈ ns, n ∈ w.core.notices ∨ n = .autoPaused b.id) :
    Moves w (.agent b tell) { w with core := { w.core with boxes := setBox w.core.boxes b, notices := ns } }
  | vanish {c : ℕ} {tell : Option Notice} (hb : (w.core.boxes.select c).isSome = true)
    (hn : ∀ n ∈ tell, n = .stopped c ∨ n = .error c) :
    Moves w (.vanish c tell) { w with core := { w.core with
      boxes := destroyBox w.core.boxes c, notices := tell.toList ++ w.core.notices } }
  | post {n : Notice} {r : Row} (hr : w.core.rows.select n.capsule = some r) (hn : n ∈ w.core.notices) :
    Moves w (.post n) { w with core := { w.core with events := translate n r.status :: w.core.events } }
  | tick (d : ℕ) : Moves w (.tick d) { w with core := { w.core with now := w.core.now + d } }

theorem moves_of_step {w' : World} {a : Act} (h : step w a = some w') : Moves w a w' := by
  cases a with
  | start s =>
    simp only [step] at h
    split_ifs at h with he
    cases h
    exact .start he
  | act t ch =>
    simp only [step] at h
    split at h
    · rename_i s rest hit hth
      obtain ⟨r, hr, rfl⟩ := Option.map_eq_some_iff.mp h
      obtain ⟨pre, post, heq, hset⟩ := stmts_split hth
      refine .act ⟨?_, ⟨hit, hr⟩, rfl, pre, rest ++ post, heq, ?_⟩
      · rw [hth]
        rfl
      · exact (hset _).trans (by rw [List.append_assoc])
    · cases h
  | crash t =>
    cases h
    exact .crash (sublist_of_crash w.threads t)
  | agent b tell =>
    simp only [step] at h
    split at h
    · cases h
    · rename_i b0 hb
      by_cases hc : drifts b0 b = true ∧ (tell = true → b.status = some .paused)
      · rw [if_pos hc] at h
        cases h
        refine .agent hb hc.1 fun n hn => ?_
        split_ifs at hn
        · exact (List.mem_cons.mp hn).symm
        · exact .inl hn
      · rw [if_neg hc] at h
        cases h
  | vanish c tell =>
    simp only [step] at h
    split_ifs at h with hc
    cases h
    exact .vanish hc.1 hc.2
  | post n =>
    simp only [step] at h
    split at h
    · cases h
    · rename_i r hr
      split_ifs at h with hn
      cases h
      exact .post hr hn
  | tick d =>
    cases h
    exact .tick d

theorem start_rows (s : Start) (k : Core) : (s.core k).rows = k.rows := by cases s <;> rfl

theorem start_events (s : Start) (k : Core) : (s.core k).events = k.events := by cases s <;> rfl

theorem start_notices (s : Start) (k : Core) : (s.core k).notices = k.notices := by cases s <;> rfl

theorem start_accepted (s : Start) (k : Core) : (s.core k).accepted = k.accepted := by cases s <;> rfl

theorem stmts_start {script : List Stmt} : World.stmts ⟨k, w.threads ++ [⟨script, false⟩]⟩ = w.stmts ++ script := by
  simp [World.stmts]

section

variable {w w' : World} {t : ℕ} {ch : Reply} {s s' : Stmt} {r : Result}
variable (h : Executes w t ch s r w')
include h

theorem Executes.head_mem : s ∈ w.stmts := by
  obtain ⟨pre, post, heq, -⟩ := h.stmts
  rw [heq]
  exact List.mem_append_right _ List.mem_cons_self

/-- A statement after a step is one of those the step has put there, or was there. -/
theorem Executes.mem_stmts (hs' : s' ∈ w'.stmts) : s' ∈ r.next ∨ s' ∈ w.stmts := by
  obtain ⟨pre, post, heq, heq'⟩ := h.stmts
  rw [heq'] at hs'
  rw [heq]
  rcases List.mem_append.mp hs' with hs' | hs'
  · exact .inr (List.mem_append_left _ hs')
  · rcases List.mem_append.mp hs' with hs' | hs'
    · exact .inl hs'
    · exact .inr (List.mem_append_right _ (List.mem_cons_of_mem _ hs'))

theorem Executes.changes : Changes w.core s w'.core := by
  obtain ⟨hit, hx⟩ := h.exec
  rw [h.core]
  exact changes_of_execute hx

theorem Executes.follows (hs' : s' ∈ r.next) : Follows w.core w'.core s s' := by
  obtain ⟨hit, hx⟩ := h.exec
  rw [h.core]
  exact follows_of_execute hx hs'

end

end Wrenn.ControlPlane.Steps
