import Wrenn.Lib.Scripts
import Wrenn.ControlPlane.Steps

/-!
# A pass that is alone

`checkHost` with no other writer, all its statements and RPCs succeeding; time may pass between them
(`Passes`).  Such a pass comes to its end (`exists_passes`), and what it does to a capsule is said phase by
phase, for the row and the box of that capsule only: `missing_turns`, `running_turns`, `stopped_destroys`
and `transient_turns`.
-/

namespace Wrenn.ControlPlane.Alone

open Lib.Runs Lib.Tables Lib.Scripts Database Model Steps
open Sandbox.Startup (SandboxStatus)

/-! ### Runs of one script -/

/-- The only thread goes on and nothing fails, or time passes. -/
def alone : Act → Bool
  | .act 0 .ok | .tick _ => true
  | _ => false

/-- One `checkHost` over the host `h`, from its start to its end. -/
def Passes (h : ℕ) (k k' : Core) : Prop :=
  ∃ as hit, (∀ a ∈ as, alone a = true) ∧
    exec step ⟨k, []⟩ (.start (.checkHost h) :: as) = some ⟨k', [⟨[], hit⟩]⟩

/-- The state of the thread: the tables, and whether the last `resolve` has found its row. -/
abbrev State := Core × Bool

def executeOk (s : State) (a : Stmt) : Option (State × List Stmt) :=
  (execute s.1 s.2 .ok a).map fun r => ((r.core, r.hit), r.next)

def Ticks (s s' : State) : Prop := ∃ d, s' = ({ s.1 with now := s.1.now + d }, s.2)

variable {k k' : Core} {s : State} {a : Stmt}

theorem runs_of_exec {as : List Act} {hit hit' : Bool} {script : List Stmt} (has : ∀ a ∈ as, alone a = true)
    (h : exec step ⟨k, [⟨script, hit⟩]⟩ as = some ⟨k', [⟨[], hit'⟩]⟩) :
    Runs executeOk Ticks (k, hit) script (k', hit') := by
  induction as generalizing k hit script with
  | nil =>
    cases h
    exact .done _
  | cons a as ih =>
    have hrest : ∀ b ∈ as, alone b = true := fun b hb => has b (List.mem_cons_of_mem _ hb)
    have ha : alone a = true := has a List.mem_cons_self
    unfold alone at ha
    split at ha
    · cases script with
      | nil => cases h
      | cons s rest =>
        cases hx : execute k hit .ok s with
        | none => simp [exec, step, hx] at h
        | some r =>
          have hok : executeOk (k, hit) s = some ((r.core, r.hit), r.next) := by simp [executeOk, hx]
          refine .stmt hok (ih hrest ?_)
          simpa [exec, step, hx] using h
    · rename_i d
      exact .env ⟨d, rfl⟩ (ih hrest h)
    · cases ha

theorem exec_of_runs {s' : State} {script : List Stmt} (h : Runs executeOk Ticks s script s') :
    ∃ as, (∀ a ∈ as, alone a = true) ∧
      exec step ⟨s.1, [⟨script, s.2⟩]⟩ as = some ⟨s'.1, [⟨[], s'.2⟩]⟩ := by
  induction h with
  | done => exact ⟨[], by simp, rfl⟩
  | env he _ ih =>
    obtain ⟨d, rfl⟩ := he
    obtain ⟨as, has, h⟩ := ih
    exact ⟨.tick d :: as, List.forall_mem_cons.mpr ⟨rfl, has⟩, h⟩
  | stmt hx _ ih =>
    obtain ⟨r, hr, heq⟩ := Option.map_eq_some_iff.mp hx
    cases heq
    obtain ⟨as, has, h⟩ := ih
    refine ⟨.act 0 .ok :: as, List.forall_mem_cons.mpr ⟨rfl, has⟩, ?_⟩
    simpa [exec, step, hr] using h

theorem passes_iff {h : ℕ} :
    Passes h k k' ↔ ∃ hit, Runs executeOk Ticks (k, false) [.listSandboxes h] (k', hit) := by
  constructor
  · rintro ⟨as, hit, has, hexec⟩
    exact ⟨hit, runs_of_exec has hexec⟩
  · rintro ⟨hit, hruns⟩
    obtain ⟨as, has, hexec⟩ := exec_of_runs hruns
    exact ⟨as, hit, has, hexec⟩

/-! ### The statements of a pass -/

/-- How much a statement of the pass can lead to; the statements of others are on top. -/
def height : Stmt → ℕ
  | .publish _ | .detachIDs _ | .onHit (.publish _) | .onHit (.detachIDs _) => 0
  | .restore _ _ | .bulkUpdate _ _ | .resolve _ _ _ => 0
  | .redestroy _ _ => 1
  | .settle _ _ _ => 2
  | .readMissing _ _ | .readRunning _ _ | .readStopped _ _ | .readTransient _ _ => 3
  | .listSandboxes _ => 4
  | _ => 5

section Heights

variable {rep : List (ℕ × SandboxStatus)} {rows : List Row} {s : Stmt}

theorem height_phase (h : s ∈ missingPhase rep rows ∨ s ∈ runningPhase rep rows) : height s = 0 := by
  cases compares_of_mem h <;> rfl

theorem height_transientStmts {now : ℕ} {r : Row} (h : s ∈ transientStmts rep now r) : height s ≤ 1 := by
  cases settles_of_mem h <;> simp [height]

theorem height_redestroyed {c : ℕ} {retry : Bool} (h : s ∈ redestroyed c retry) : height s = 0 := by
  have hall : ∀ s ∈ redestroyed c retry, height s = 0 := by cases retry <;> simp [redestroyed, height]
  exact hall s h

end Heights

/-- The status that a statement gives a row. -/
def writes : Stmt → Row → Option Status
  | .restore ids st, x => if x.id ∈ ids ∧ x.status = .missing then some st else none
  | .bulkUpdate ids st, x => if x.id ∈ ids then some st else none
  | .resolve c old new, x => if x.id = c ∧ x.status = old then some new else none
  | _, _ => none

/-- A row after an update at the time `t`, if there is one for it. -/
def moved (turn : Row → Option Status) (t : ℕ) (x : Row) : Row :=
  match turn x with
  | some st => { x with status := st, lastUpdated := t }
  | none => x

theorem moved_none {turn : Row → Option Status} {t : ℕ} {x : Row} (h : turn x = none) : moved turn t x = x := by
  simp [moved, h]

theorem moved_some {turn : Row → Option Status} {t : ℕ} {x : Row} {st : Status} (h : turn x = some st) :
    moved turn t x = { x with status := st, lastUpdated := t } := by
  simp [moved, h]

/-- What the statements that lead to nothing do. -/
structure Flat (k : Core) (a : Stmt) (k' : Core) (next : List Stmt) : Prop where
  rows : ∀ c, k'.rows.select c = (k.rows.select c).map (moved (writes a) k.now)
  boxes : k'.boxes = k.boxes
  now : k'.now = k.now
  next : next = []

theorem flat_of_rows (hw : writes a = fun _ => none) (hrows : k'.rows = k.rows) (hboxes : k'.boxes = k.boxes)
    (hnow : k'.now = k.now) : Flat k a k' [] where
  rows c := by
    have hid : moved (writes a) k.now = id := by
      funext x
      exact moved_none (by rw [hw])
    rw [hrows, hid, Option.map_id, id]
  boxes := hboxes
  now := hnow
  next := rfl

theorem flat_of_setStatus {p : Row → Bool} {st : Status} (hw : ∀ x, writes a x = if p x then some st else none) :
    Flat k a { k with rows := setStatus k.rows p st k.now } [] where
  rows c := by
    rw [select_setStatus]
    congr 1
    funext x
    by_cases hp : p x = true
    · rw [if_pos hp, moved_some (by rw [hw, if_pos hp])]
    · rw [if_neg hp, moved_none (by rw [hw, if_neg hp])]
  boxes := rfl
  now := rfl
  next := rfl

theorem flat_of_execute {s1 : State} {next : List Stmt} (ha : height a = 0) (hx : executeOk s a = some (s1, next)) :
    Flat s.1 a s1.1 next := by
  obtain ⟨r, hr, heq⟩ := Option.map_eq_some_iff.mp hx
  cases heq
  cases a with
  | publish e | detachIDs ids =>
    cases hr
    exact flat_of_rows rfl rfl rfl rfl
  | restore ids st | bulkUpdate ids st | resolve c old new =>
    cases hr
    exact flat_of_setStatus fun x => by simp [writes]
  | onHit a =>
    simp only [execute] at hr
    split_ifs at hr
    · cases a with
      | publish e | detachIDs ids =>
        cases hr
        exact flat_of_rows rfl rfl rfl rfl
      | _ => cases ha
    · cases hr
      exact flat_of_rows rfl rfl rfl rfl
  | _ => cases ha

/-- **A pass comes to its end.** -/
theorem exists_passes (h : ℕ) (k : Core) : ∃ k', Passes h k k' := by
  have hstmt : ∀ (s : State) (a : Stmt), height a < 5 → ∃ s1 next, executeOk s a = some (s1, next) ∧
      ∀ b ∈ next, height b < height a := by
    intro s a ha
    cases a with
    | listSandboxes h =>
      refine ⟨s, _, rfl, fun b hb => ?_⟩
      simp only [List.cons_append, List.nil_append, List.mem_cons, List.mem_append] at hb
      rcases hb with rfl | rfl | hb | rfl | hb
      · simp [height]
      · simp [height]
      · split_ifs at hb
        · rw [List.mem_singleton.mp hb]
          simp [height]
        · cases hb
      · simp [height]
      · cases hb
    | readMissing h rep => exact ⟨s, _, rfl, fun b hb => by rw [height_phase (.inl hb)]; simp [height]⟩
    | readRunning h rep => exact ⟨s, _, rfl, fun b hb => by rw [height_phase (.inr hb)]; simp [height]⟩
    | readStopped h rep =>
      refine ⟨s, _, rfl, fun b hb => ?_⟩
      obtain ⟨c, -, rfl⟩ := List.mem_map.mp hb
      simp [height]
    | readTransient h rep =>
      refine ⟨s, _, rfl, fun b hb => ?_⟩
      obtain ⟨r, -, rfl⟩ := List.mem_map.mp hb
      simp [height]
    | settle h rep r =>
      refine ⟨s, _, rfl, fun b hb => ?_⟩
      exact Nat.lt_succ_of_le (height_transientStmts hb)
    | redestroy c retry =>
      exact ⟨_, _, rfl, fun b hb => by rw [height_redestroyed hb]; simp [height]⟩
    | publish e | detachIDs ids | restore ids st | bulkUpdate ids st | resolve c old new =>
      exact ⟨_, _, rfl, nofun⟩
    | onHit a =>
      cases a with
      | publish e | detachIDs ids => cases hs : s.2 <;> simp [executeOk, execute, hs]
      | _ => exact absurd ha (by simp [height])
    | _ => exact absurd ha (by simp [height])
  obtain ⟨s', hs'⟩ : ∃ s', Runs executeOk Ticks (k, false) [.listSandboxes h] s' :=
    exists_runs hstmt (by simp [height])
  exact ⟨s'.1, passes_iff.mpr ⟨s'.2, hs'⟩⟩

/-! ### One capsule during a phase -/

theorem ticks_frame {s0 : State} (h : Relation.ReflTransGen Ticks s s0) :
    s0.1.rows = s.1.rows ∧ s0.1.boxes = s.1.boxes ∧ s.1.now ≤ s0.1.now := by
  induction h with
  | refl => exact ⟨rfl, rfl, le_rfl⟩
  | tail _ ht ih =>
    obtain ⟨d, rfl⟩ := ht
    obtain ⟨hrows, hboxes, hnow⟩ := ih
    exact ⟨hrows, hboxes, hnow.trans (Nat.le_add_right _ d)⟩

/-- The row of the capsule `c` gets the status that `turn` says, if any, and its box is left alone. -/
structure Turns (c : ℕ) (turn : Row → Option Status) (k k' : Core) : Prop where
  row : ∃ t, k.now ≤ t ∧ t ≤ k'.now ∧ k'.rows.select c = (k.rows.select c).map (moved turn t)
  box : k'.boxes.select c = k.boxes.select c

/-- The capsule is left alone. -/
structure Same (c : ℕ) (k k' : Core) : Prop where
  row : k'.rows.select c = k.rows.select c
  box : k'.boxes.select c = k.boxes.select c
  now : k.now ≤ k'.now

section

variable {c : ℕ} {k k1 k' : Core} {turn : Row → Option Status}

theorem Same.trans (h : Same c k k1) (h' : Same c k1 k') : Same c k k' :=
  ⟨h'.row.trans h.row, h'.box.trans h.box, h.now.trans h'.now⟩

theorem same_of_ticks {s s0 : State} (h : Relation.ReflTransGen Ticks s s0) : Same c s.1 s0.1 := by
  obtain ⟨hrows, hboxes, hnow⟩ := ticks_frame h
  exact ⟨by rw [hrows], by rw [hboxes], hnow⟩

theorem Turns.of_same (h : Same c k k1) (h' : Turns c turn k1 k') : Turns c turn k k' := by
  obtain ⟨t, ht, ht', hrow⟩ := h'.row
  exact ⟨⟨t, h.now.trans ht, ht', by rw [hrow, h.row]⟩, h'.box.trans h.box⟩

theorem Same.turns (h : Same c k k') (hnone : ∀ x, k.rows.select c = some x → turn x = none) :
    Turns c turn k k' := by
  refine ⟨⟨k.now, le_rfl, h.now, ?_⟩, h.box⟩
  rw [h.row]
  cases hx : k.rows.select c with
  | none => rfl
  | some x => rw [Option.map_some, moved_none (hnone x hx)]

theorem Turns.now_le (h : Turns c turn k k') : k.now ≤ k'.now := by
  obtain ⟨t, ht, ht', -⟩ := h.row
  exact ht.trans ht'

end

section Flat

variable {c : ℕ} {s s' : State} {script : List Stmt}

/-- Statements that do not write the row. -/
theorem same_of_silent (h : Runs executeOk Ticks s script s')
    (hall : ∀ a ∈ script, height a = 0 ∧ ∀ x, s.1.rows.select c = some x → writes a x = none) :
    Same c s.1 s'.1 := by
  refine h.invariant (P := fun a => height a = 0 ∧ ∀ x, s.1.rows.select c = some x → writes a x = none)
    (I := fun s1 => Same c s.1 s1.1) ?_ ?_ hall ⟨rfl, rfl, le_rfl⟩
  · rintro s1 _ ⟨d, rfl⟩ hs1
    exact ⟨hs1.row, hs1.box, hs1.now.trans (Nat.le_add_right _ d)⟩
  · intro s1 a s2 next ha hs1 hx
    have hflat := flat_of_execute ha.1 hx
    refine ⟨⟨?_, ?_, ?_⟩, ?_⟩
    · rw [hflat.rows, hs1.row]
      cases hrow : s.1.rows.select c with
      | none => rfl
      | some x => rw [Option.map_some, moved_none (ha.2 x hrow)]
    · rw [hflat.boxes, hs1.box]
    · rw [hflat.now]
      exact hs1.now
    · rw [hflat.next]
      nofun

/-- The row `x` of the capsule has got the status `st` at a time from `t0` on. -/
structure Marked (c : ℕ) (x : Row) (st : Status) (t0 : ℕ) (k : Core) : Prop where
  row : ∃ t, t0 ≤ t ∧ t ≤ k.now ∧ k.rows.select c = some { x with status := st, lastUpdated := t }

theorem marked_of_marked {x : Row} {st : Status} {t0 : ℕ} (hid : x.id = c)
    (h : Runs executeOk Ticks s script s')
    (hall : ∀ a ∈ script, height a = 0 ∧ ∀ y, y.id = c → writes a y = none ∨ writes a y = some st)
    (hs : Marked c x st t0 s.1) : Marked c x st t0 s'.1 := by
  refine h.invariant
    (P := fun a => height a = 0 ∧ ∀ y : Row, y.id = c → writes a y = none ∨ writes a y = some st)
    (I := fun s1 => Marked c x st t0 s1.1) ?_ ?_ hall hs
  · rintro s1 _ ⟨d, rfl⟩ ⟨t, ht, ht', hrow⟩
    exact ⟨t, ht, ht'.trans (Nat.le_add_right _ d), hrow⟩
  · rintro s1 a s2 next ⟨ha, hw⟩ ⟨t, ht, ht', hrow⟩ hx
    have hflat := flat_of_execute ha hx
    refine ⟨?_, by rw [hflat.next]; nofun⟩
    rcases hw { x with status := st, lastUpdated := t } hid with hnone | hsome
    · exact ⟨t, ht, by rw [hflat.now]; exact ht', by rw [hflat.rows, hrow, Option.map_some, moved_none hnone]⟩
    · refine ⟨s1.1.now, ht.trans ht', by rw [hflat.now], ?_⟩
      rw [hflat.rows, hrow, Option.map_some, moved_some hsome]

/-- A row that one statement writes, and the others write alike or not at all. -/
theorem marked_of_writes {x : Row} {st : Status} (hid : x.id = c) (h : Runs executeOk Ticks s script s')
    (hall : ∀ a ∈ script, height a = 0 ∧ ∀ y, y.id = c → writes a y = none ∨ writes a y = some st)
    (hone : ∃ a ∈ script, writes a x = some st) (hx : s.1.rows.select c = some x) :
    Marked c x st s.1.now s'.1 := by
  induction h with
  | done =>
    obtain ⟨a, ha, -⟩ := hone
    cases ha
  | env he _ ih =>
    obtain ⟨d, rfl⟩ := he
    obtain ⟨t, ht, hrest⟩ := (ih hall hone hx).row
    exact ⟨t, (Nat.le_add_right _ d).trans ht, hrest⟩
  | @stmt s s1 _ a next rest hx1 hrun ih =>
    obtain ⟨ha, hw⟩ := hall a List.mem_cons_self
    have hrest : ∀ b ∈ rest, height b = 0 ∧ ∀ y, y.id = c → writes b y = none ∨ writes b y = some st :=
      fun b hb => hall b (List.mem_cons_of_mem _ hb)
    have hflat := flat_of_execute ha hx1
    rw [hflat.next, List.nil_append] at hrun ih
    rw [← hflat.now]
    rcases hw x hid with hnone | hsome
    · -- not this one: the row is as before, and one of the rest writes it
      refine ih hrest ?_ (by rw [hflat.rows, hx, Option.map_some, moved_none hnone])
      obtain ⟨b, hb, hwb⟩ := hone
      rcases List.mem_cons.mp hb with rfl | hb
      · rw [hnone] at hwb
        cases hwb
      · exact ⟨b, hb, hwb⟩
    · refine marked_of_marked hid hrun hrest ⟨s.1.now, by rw [hflat.now], by rw [hflat.now], ?_⟩
      rw [hflat.rows, hx, Option.map_some, moved_some hsome]

/-- A phase that writes rows only. -/
theorem turns_of_writes {turn : Row → Option Status} (h : Runs executeOk Ticks s script s')
    (hflat : ∀ a ∈ script, height a = 0)
    (hnone : ∀ x, s.1.rows.select c = some x → turn x = none → ∀ a ∈ script, writes a x = none)
    (hsome : ∀ x st, s.1.rows.select c = some x → turn x = some st →
      (∀ a ∈ script, ∀ y, y.id = c → writes a y = none ∨ writes a y = some st) ∧
        ∃ a ∈ script, writes a x = some st) : Turns c turn s.1 s'.1 := by
  have hbox : s'.1.boxes.select c = s.1.boxes.select c := by
    refine h.invariant (P := fun a => height a = 0) (I := fun s1 => s1.1.boxes.select c = s.1.boxes.select c)
      ?_ ?_ hflat rfl
    · rintro s1 _ ⟨d, rfl⟩ hs1
      exact hs1
    · intro s1 a s2 next ha hs1 hx
      have hfl := flat_of_execute ha hx
      exact ⟨by rw [hfl.boxes, hs1], by rw [hfl.next]; nofun⟩
  cases hx : s.1.rows.select c with
  | none =>
    have hsame : Same c s.1 s'.1 := same_of_silent h fun a ha => ⟨hflat a ha, by rw [hx]; nofun⟩
    exact hsame.turns (by rw [hx]; nofun)
  | some x =>
    cases hturn : turn x with
    | none =>
      have hsame : Same c s.1 s'.1 := by
        refine same_of_silent h fun a ha => ⟨hflat a ha, fun y hy => ?_⟩
        cases hx.symm.trans hy
        exact hnone x hx hturn a ha
      refine hsame.turns fun y hy => ?_
      cases hx.symm.trans hy
      exact hturn
    | some st =>
      obtain ⟨hall, hone⟩ := hsome x st hx hturn
      obtain ⟨t, ht, ht', hrow⟩ := (marked_of_writes (Table.select_key hx) h
        (fun a ha => ⟨hflat a ha, hall a ha⟩) hone hx).row
      exact ⟨⟨t, ht, ht', by rw [hrow, hx, Option.map_some, moved_some hturn]⟩, hbox⟩

end Flat

/-! ### Missing and running rows -/

/-- The new status of a row that is compared with the report. -/
def told : Option (Option SandboxStatus) → Option Status
  | none => some .stopped
  | some none => none
  | some (some st) => some (label st)

def missingTurn (h : ℕ) (alive : Option (Option SandboxStatus)) (x : Row) : Option Status :=
  if x.host = h ∧ x.status = .missing then told alive else none

def runningTurn (h : ℕ) (alive : Option (Option SandboxStatus)) (x : Row) : Option Status :=
  if x.host = h ∧ x.status = .running ∧ alive ≠ some (some .running) then told alive else none

section Compare

variable {t : Sandboxes} {h c : ℕ} {sts : List Status} {st : SandboxStatus} {rep : List (ℕ × SandboxStatus)}

variable {x : Row}

theorem mem_listRows_of_select (hx : t.select c = some x) (hh : x.host = h) (hst : x.status ∈ sts) :
    x ∈ listSandboxesByHostAndStatus t h sts :=
  Table.mem_list.mpr ⟨(Table.select_eq_some.mp hx).1, decide_eq_true ⟨hh, hst⟩⟩

theorem mem_ids_iff {P : ℕ → Prop} [DecidablePred P] :
    c ∈ ((listSandboxesByHostAndStatus t h sts).filter fun r => decide (P r.id)).map Row.id ↔
      ∃ x, t.select c = some x ∧ x.host = h ∧ x.status ∈ sts ∧ P c := by
  constructor
  · intro hc
    obtain ⟨x, hx, rfl⟩ := List.mem_map.mp hc
    obtain ⟨hx, ha⟩ := List.mem_filter.mp hx
    obtain ⟨hsel, hh, hst⟩ := mem_listRows hx
    exact ⟨x, hsel, hh, hst, of_decide_eq_true ha⟩
  · rintro ⟨x, hx, hh, hst, ha⟩
    obtain rfl := Table.select_key hx
    exact List.mem_map_of_mem (List.mem_filter.mpr ⟨mem_listRows_of_select hx hh hst, decide_eq_true ha⟩)

theorem mem_absentIDs_iff : c ∈ absentIDs rep (listSandboxesByHostAndStatus t h sts) ↔
    ∃ x, t.select c = some x ∧ x.host = h ∧ x.status ∈ sts ∧ aliveStatus rep c = none :=
  mem_ids_iff (P := fun c => aliveStatus rep c = none)

theorem mem_reportedIDs_iff : c ∈ reportedIDs rep (listSandboxesByHostAndStatus t h sts) st ↔
    ∃ x, t.select c = some x ∧ x.host = h ∧ x.status ∈ sts ∧ aliveStatus rep c = some (some st) :=
  mem_ids_iff (P := fun c => aliveStatus rep c = some (some st))

/-- No capsule is recorded as `pausing`. -/
theorem mem_groups_of_alive (ha : aliveStatus rep c = some (some st)) : st ∈ groups := by
  rcases aliveStatus_cases rep c with ⟨hnone, -⟩ | ⟨sb, -, -, hsb⟩
  · rw [ha] at hnone
    cases hnone
  · have hst : coerce sb.2 = some st := Option.some.inj (hsb.symm.trans ha)
    revert hst
    cases sb.2 <;> cases st <;> decide

theorem bulkUpdate_mem_stopStmts {ids : List ℕ} (hc : c ∈ ids) : Stmt.bulkUpdate ids .stopped ∈ stopStmts ids := by
  unfold stopStmts
  rw [if_neg (List.ne_nil_of_mem hc)]
  simp

theorem write_mem_groupStmts {ids : List ℕ} {write : List ℕ → Status → Stmt} {why : Reason} (hc : c ∈ ids) :
    write ids (label st) ∈ groupStmts ids st write why := by
  unfold groupStmts
  rw [if_neg (List.ne_nil_of_mem hc)]
  exact List.mem_cons_self ..

/-- The statements of the comparison write rows that have been read, with what the report says of them. -/
theorem told_of_writes {rows : List Row} {a : Stmt} {y : Row} {new : Status} (ha : Compares rep rows a)
    (hw : writes a y = some new) : told (aliveStatus rep y.id) = some new ∧ ∃ x ∈ rows, x.id = y.id := by
  cases ha with
  | restore | bulkUpdate =>
    simp only [writes, Option.ite_none_right_eq_some] at hw
    obtain ⟨x, hx, hid, halive⟩ := mem_reportedIDs (by tauto)
    exact ⟨by rw [halive, told, hw.2], x, hx, hid⟩
  | stopped =>
    simp only [writes, Option.ite_none_right_eq_some] at hw
    obtain ⟨x, hx, hid, halive⟩ := mem_absentIDs hw.1
    exact ⟨by rw [halive, told, hw.2], x, hx, hid⟩
  | paused | detached | orphaned => cases hw

/-- A running row that is reported as running is not written. -/
theorem not_running_of_writes {rows : List Row} {a : Stmt} {y : Row} {new : Status}
    (ha : a ∈ runningPhase rep rows) (hw : writes a y = some new) :
    aliveStatus rep y.id ≠ some (some .running) := by
  intro hrun
  rcases List.mem_append.mp ha with ha | ha
  · rcases mem_stopStmts ha with rfl | rfl | ⟨_, -, rfl⟩
    · simp only [writes, Option.ite_none_right_eq_some] at hw
      obtain ⟨_, -, -, halive⟩ := mem_absentIDs hw.1
      rw [halive] at hrun
      cases hrun
    all_goals cases hw
  · obtain ⟨st, hst, ha⟩ := List.mem_flatMap.mp ha
    rcases mem_groupStmts ha with rfl | ⟨_, rfl⟩
    · simp only [writes, Option.ite_none_right_eq_some] at hw
      obtain ⟨_, -, -, halive⟩ := mem_reportedIDs hw.1
      cases halive.symm.trans hrun
      exact absurd hst (by decide)
    · cases hw

/-- The group of a row that is written. -/
theorem exists_group {new : Status} (hx : t.select c = some x) (hh : x.host = h) (hst : x.status ∈ sts)
    (hnew : told (aliveStatus rep c) = some new) :
    (c ∈ absentIDs rep (listSandboxesByHostAndStatus t h sts) ∧ new = .stopped) ∨
      ∃ st ∈ groups, c ∈ reportedIDs rep (listSandboxesByHostAndStatus t h sts) st ∧ new = label st ∧
        aliveStatus rep c = some (some st) := by
  cases halive : aliveStatus rep c with
  | none =>
    rw [halive, told] at hnew
    exact .inl ⟨mem_absentIDs_iff.mpr ⟨x, hx, hh, hst, halive⟩, (Option.some.inj hnew).symm⟩
  | some o =>
    rw [halive] at hnew
    cases o with
    | none => cases hnew
    | some st =>
      exact .inr ⟨st, mem_groups_of_alive halive, mem_reportedIDs_iff.mpr ⟨x, hx, hh, hst, halive⟩,
        (Option.some.inj hnew).symm, rfl⟩

theorem exists_writes_missing {new : Status} (hx : t.select c = some x) (hh : x.host = h)
    (hst : x.status = .missing) (hnew : told (aliveStatus rep c) = some new) :
    ∃ a ∈ missingPhase rep (listSandboxesByHostAndStatus t h [.missing]), writes a x = some new := by
  obtain rfl := Table.select_key hx
  rcases exists_group hx hh (List.mem_singleton.mpr hst) hnew with ⟨hc, rfl⟩ | ⟨st, hg, hc, rfl, -⟩
  · exact ⟨_, List.mem_append_right _ (bulkUpdate_mem_stopStmts hc), if_pos hc⟩
  · exact ⟨_, List.mem_append_left _ (List.mem_flatMap.mpr ⟨st, hg, write_mem_groupStmts hc⟩), if_pos ⟨hc, hst⟩⟩

theorem exists_writes_running {new : Status} (hx : t.select c = some x) (hh : x.host = h)
    (hst : x.status = .running) (hne : aliveStatus rep c ≠ some (some .running))
    (hnew : told (aliveStatus rep c) = some new) :
    ∃ a ∈ runningPhase rep (listSandboxesByHostAndStatus t h [.running]), writes a x = some new := by
  obtain rfl := Table.select_key hx
  rcases exists_group hx hh (List.mem_singleton.mpr hst) hnew with ⟨hc, rfl⟩ | ⟨st, hg, hc, rfl, halive⟩
  · exact ⟨_, List.mem_append_left _ (bulkUpdate_mem_stopStmts hc), if_pos hc⟩
  · have hrun : st ≠ .running := fun he => hne (he ▸ halive)
    exact ⟨_, List.mem_append_right _ (List.mem_flatMap.mpr
      ⟨st, (List.mem_erase_of_ne hrun).mpr hg, write_mem_groupStmts hc⟩), if_pos hc⟩

end Compare

/-- A statement of a pass that only reads. -/
theorem runs_of_read {s' : State} (next : Core → List Stmt) (hx : ∀ s : State, executeOk s a = some (s, next s.1))
    (h : Runs executeOk Ticks s [a] s') :
    ∃ s0, Relation.ReflTransGen Ticks s s0 ∧ Runs executeOk Ticks s0 (next s0.1) s' := by
  obtain ⟨s0, s1, next', hs0, hx0, hrun⟩ := h.of_cons
  cases (hx s0).symm.trans hx0
  rw [List.append_nil] at hrun
  exact ⟨s0, hs0, hrun⟩

section Phases

variable {c h : ℕ} {rep : List (ℕ × SandboxStatus)} {s s' : State}

/-- A phase that compares the rows with one status. -/
theorem compared_turns {st : Status} {phase : List Row → List Stmt} {turn : Row → Option Status}
    (hphase : ∀ rows a, a ∈ phase rows → a ∈ missingPhase rep rows ∨ a ∈ runningPhase rep rows)
    (hwrite : ∀ rows a x new, a ∈ phase rows → writes a x = some new → x.id = c → x.host = h → x.status = st →
      turn x = told (aliveStatus rep c))
    (hturn : ∀ (t : Sandboxes) x new, t.select c = some x → turn x = some new → told (aliveStatus rep c) = some new ∧
      ∃ a ∈ phase (listSandboxesByHostAndStatus t h [st]), writes a x = some new)
    (hrun : Runs executeOk Ticks s (phase (listSandboxesByHostAndStatus s.1.rows h [st])) s') :
    Turns c turn s.1 s'.1 := by
  refine turns_of_writes hrun (fun a ha => height_phase (hphase _ a ha)) ?_ ?_
  · intro x hx hnone a ha
    have hxc := Table.select_key hx
    by_contra hw
    obtain ⟨new, hw⟩ := Option.ne_none_iff_exists'.mp hw
    obtain ⟨htold, x', hx', hid⟩ := told_of_writes (compares_of_mem (hphase _ a ha)) hw
    obtain ⟨hsel, hh, hst⟩ := mem_listRows hx'
    cases (hxc ▸ hid ▸ hsel).symm.trans hx
    rw [hwrite _ a _ new ha hw hxc hh (List.mem_singleton.mp hst), ← hxc, htold] at hnone
    cases hnone
  · intro x new hx hnew
    obtain ⟨hold, hex⟩ := hturn s.1.rows x new hx hnew
    refine ⟨fun a ha y hy => ?_, hex⟩
    cases hw : writes a y with
    | none => exact .inl rfl
    | some new' =>
      have htold := (told_of_writes (compares_of_mem (hphase _ a ha)) hw).1
      rw [hy] at htold
      exact .inr (htold.symm.trans hold)

theorem missing_turns (hrun : Runs executeOk Ticks s [.readMissing h rep] s') :
    Turns c (missingTurn h (aliveStatus rep c)) s.1 s'.1 := by
  obtain ⟨s0, hs0, hrun⟩ := runs_of_read
    (fun k => missingPhase rep (listSandboxesByHostAndStatus k.rows h [.missing])) (fun _ => rfl) hrun
  refine .of_same (same_of_ticks hs0) (compared_turns (fun _ _ ha => .inl ha) ?_ ?_ hrun)
  · exact fun _ _ x _ _ _ _ hh hst => if_pos ⟨hh, hst⟩
  · intro t x new hx hnew
    obtain ⟨⟨hh, hst⟩, hnew⟩ := Option.ite_none_right_eq_some.mp hnew
    exact ⟨hnew, exists_writes_missing hx hh hst hnew⟩

theorem running_turns (hrun : Runs executeOk Ticks s [.readRunning h rep] s') :
    Turns c (runningTurn h (aliveStatus rep c)) s.1 s'.1 := by
  obtain ⟨s0, hs0, hrun⟩ := runs_of_read
    (fun k => runningPhase rep (listSandboxesByHostAndStatus k.rows h [.running])) (fun _ => rfl) hrun
  refine .of_same (same_of_ticks hs0) (compared_turns (fun _ _ ha => .inr ha) ?_ ?_ hrun)
  · rintro _ a x _ ha hw rfl hh hst
    exact if_pos ⟨hh, hst, not_running_of_writes ha hw⟩
  · intro t x new hx hnew
    obtain ⟨⟨hh, hst, hne⟩, hnew⟩ := Option.ite_none_right_eq_some.mp hnew
    exact ⟨hnew, exists_writes_running hx hh hst hne hnew⟩

end Phases

/-! ### Zombies and transient rows -/

/-- The statement is about the capsule. -/
def about (c : ℕ) : Stmt → Bool
  | .restore ids _ | .bulkUpdate ids _ => decide (c ∈ ids)
  | .resolve c' _ _ | .redestroy c' _ => decide (c' = c)
  | .settle _ _ r => decide (r.id = c)
  | _ => false

/-- The statements below the reads. -/
theorem low_cases (h : height a ≤ 2) :
    height a = 0 ∨ (∃ c retry, a = .redestroy c retry) ∨ ∃ h rep r, a = .settle h rep r := by
  cases a with
  | redestroy c retry => exact .inr (.inl ⟨c, retry, rfl⟩)
  | settle h0 rep r => exact .inr (.inr ⟨h0, rep, r, rfl⟩)
  | onHit a => cases a <;> first | exact .inl rfl | simp [height] at h
  | _ => first | exact .inl rfl | simp [height] at h

section Elsewhere

variable {c : ℕ} {a : Stmt} {s s' : State} {script : List Stmt}

theorem writes_elsewhere {x : Row} (h : about c a = false) (hx : x.id = c) : writes a x = none := by
  cases a with
  | restore ids st | bulkUpdate ids st => simp_all [about, writes]
  | resolve c' old new =>
    have hne : x.id ≠ c' := by
      rw [hx]
      exact Ne.symm (of_decide_eq_false h)
    simp [writes, hne]
  | _ => rfl

theorem about_transientStmts {rep : List (ℕ × SandboxStatus)} {now : ℕ} {r : Row} (hr : r.id ≠ c)
    (h : a ∈ transientStmts rep now r) : about c a = false := by
  cases settles_of_mem h <;> simp [about, hr]

theorem about_redestroyed {c' : ℕ} {retry : Bool} (hc : c' ≠ c) (h : a ∈ redestroyed c' retry) :
    about c a = false := by
  have hall : ∀ a ∈ redestroyed c' retry, about c a = false := by
    cases retry <;> simp [redestroyed, about, hc]
  exact hall a h

theorem select_destroyBox {t : Boxes} {c c' : ℕ} :
    (destroyBox t c').select c = if c' = c then none else t.select c := by
  rw [destroyBox, Table.select_delete]
  cases hb : t.select c with
  | none => simp
  | some b =>
    have hid : b.id = c := Table.select_key hb
    by_cases hc : c' = c
    · simp [hid, hc]
    · simp [Option.filter, hid, Ne.symm hc, hc]

/-- What is done about other capsules. -/
theorem same_of_elsewhere (h : Runs executeOk Ticks s script s')
    (hall : ∀ a ∈ script, height a ≤ 2 ∧ about c a = false) : Same c s.1 s'.1 := by
  refine h.invariant (P := fun a => height a ≤ 2 ∧ about c a = false) (I := fun s1 => Same c s.1 s1.1)
    ?_ ?_ hall ⟨rfl, rfl, le_rfl⟩
  · rintro s1 _ ⟨d, rfl⟩ hs1
    exact ⟨hs1.row, hs1.box, hs1.now.trans (Nat.le_add_right _ d)⟩
  · rintro s1 a s2 next ⟨hlow, ha⟩ hs1 hx
    rcases low_cases hlow with hflat | ⟨c', retry, rfl⟩ | ⟨h, rep, r, rfl⟩
    · have hflat := flat_of_execute hflat hx
      refine ⟨hs1.trans ⟨?_, by rw [hflat.boxes], by rw [hflat.now]⟩, by rw [hflat.next]; nofun⟩
      rw [hflat.rows]
      cases hrow : s1.1.rows.select c with
      | none => rfl
      | some x => rw [Option.map_some, moved_none (writes_elsewhere ha (Table.select_key hrow))]
    · have hc : c' ≠ c := of_decide_eq_false ha
      cases hx
      refine ⟨hs1.trans ⟨rfl, by rw [select_destroyBox, if_neg hc], le_rfl⟩, fun b hb => ?_⟩
      exact ⟨by rw [height_redestroyed hb]; omega, about_redestroyed hc hb⟩
    · have hr : r.id ≠ c := of_decide_eq_false ha
      cases hx
      exact ⟨hs1, fun b hb => ⟨(height_transientStmts hb).trans (by omega), about_transientStmts hr hb⟩⟩

/-- The capsule is gone from its host, its row as before. -/
structure Razed (c : ℕ) (k k' : Core) : Prop where
  row : k'.rows.select c = k.rows.select c
  box : k'.boxes.select c = none
  now : k.now ≤ k'.now

theorem Razed.of_same {k k1 k' : Core} (h : Same c k k1) (h' : Razed c k1 k') : Razed c k k' :=
  ⟨h'.row.trans h.row, h'.box, h.now.trans h'.now⟩

/-- The zombies, with `c` among them. -/
theorem razed_of_zombies {ids : List ℕ} (hc : c ∈ ids)
    (h : Runs executeOk Ticks s (ids.map fun c => .redestroy c false) s') : Razed c s.1 s'.1 := by
  induction ids generalizing s with
  | nil => cases hc
  | cons c0 ids ih =>
    obtain ⟨s0, s1, next, hs0, hx, hrun⟩ := h.of_cons
    cases hx
    have hsame0 : Same c s.1 s0.1 := same_of_ticks hs0
    obtain ⟨s2, hpub, hrest⟩ := hrun.of_append
    have hsame1 : Same c _ s2.1 := same_of_elsewhere hpub fun a ha => by
      rw [List.mem_singleton.mp ha]
      exact ⟨Nat.zero_le _, rfl⟩
    by_cases hin : c ∈ ids
    · have hraz := ih hin hrest
      exact ⟨hraz.row.trans (hsame1.row.trans hsame0.row), hraz.box,
        hsame0.now.trans (hsame1.now.trans hraz.now)⟩
    · obtain rfl : c = c0 := (List.mem_cons.mp hc).resolve_right hin
      have hsame2 : Same c s2.1 s'.1 := same_of_elsewhere hrest fun a ha => by
        obtain ⟨c', hc', rfl⟩ := List.mem_map.mp ha
        exact ⟨Nat.le_succ _, decide_eq_false fun he => hin (he ▸ hc')⟩
      have hafter := hsame1.trans hsame2
      refine ⟨hafter.row.trans hsame0.row, ?_, hsame0.now.trans hafter.now⟩
      rw [hafter.box, select_destroyBox, if_pos rfl]

end Elsewhere

section Phases

variable {c h : ℕ} {rep : List (ℕ × SandboxStatus)} {s s' : State}

/-- A stopped row whose capsule is reported as paused. -/
def zombie (h : ℕ) (alive : Option (Option SandboxStatus)) (x : Row) : Bool :=
  decide (x.host = h ∧ x.status = .stopped ∧ alive = some (some .paused))

theorem stopped_razes (hrun : Runs executeOk Ticks s [.readStopped h rep] s') :
    if (s.1.rows.select c).any (zombie h (aliveStatus rep c)) then Razed c s.1 s'.1 else Same c s.1 s'.1 := by
  obtain ⟨s0, hs0, hrun⟩ := runs_of_read
    (fun k => zombiePhase rep (listSandboxesByHostAndStatus k.rows h [.stopped])) (fun _ => rfl) hrun
  have hsame : Same c s.1 s0.1 := same_of_ticks hs0
  rw [← hsame.row]
  split_ifs with hz
  · obtain ⟨x, hx, hz⟩ := (Option.any_eq_true _ _).mp hz
    obtain ⟨hh, hst, halive⟩ := of_decide_eq_true hz
    exact .of_same hsame (razed_of_zombies
      (mem_reportedIDs_iff.mpr ⟨x, hx, hh, List.mem_singleton.mpr hst, halive⟩) hrun)
  · refine hsame.trans (same_of_elsewhere hrun fun a ha => ?_)
    obtain ⟨c', hc', rfl⟩ := List.mem_map.mp ha
    refine ⟨Nat.le_succ _, decide_eq_false ?_⟩
    rintro rfl
    obtain ⟨x, hx, hh, hst, halive⟩ := mem_reportedIDs_iff.mp hc'
    exact hz ((Option.any_eq_true _ _).mpr
      ⟨x, hx, decide_eq_true ⟨hh, List.mem_singleton.mp hst, halive⟩⟩)

end Phases

/-- The new status of a row that is in a transient status at the time `now`. -/
def settledStatus (alive : Option (Option SandboxStatus)) (now : ℕ) (x : Row) : Option Status :=
  match alive with
  | some agentStatus =>
    match x.status with
    | .starting | .resuming => some .running
    | .stopping => if transientGracePeriod ≤ now - x.lastUpdated then some .stopped else none
    | .snapshotting =>
      if snapshotGracePeriod ≤ now - x.lastUpdated then some (recoverTo agentStatus) else none
    | _ => none
  | none => if now - x.lastUpdated < transientGracePeriod then none else some (finalStatus x.status)

def transientTurn (h : ℕ) (alive : Option (Option SandboxStatus)) (now : ℕ) (x : Row) : Option Status :=
  if x.host = h ∧ x.status ∈ [.starting, .resuming, .pausing, .stopping, .snapshotting] then
    settledStatus alive now x
  else none

/-- The capsule is destroyed again. -/
def redestroys (h : ℕ) (alive : Option (Option SandboxStatus)) (now : ℕ) (x : Row) : Bool :=
  decide (x.host = h ∧ x.status = .stopping ∧ alive ≠ none ∧ transientGracePeriod ≤ now - x.lastUpdated)

section Transient

variable {c h : ℕ} {rep : List (ℕ × SandboxStatus)} {s s' : State} {x : Row}

theorem resolve_turns {old new : Status} {tail : List Stmt} (hx : s.1.rows.select c = some x)
    (hst : x.status = old) (htail : ∀ a ∈ tail, height a = 0 ∧ ∃ b, a = .onHit b)
    (hrun : Runs executeOk Ticks s (.resolve c old new :: tail) s') : Turns c (fun _ => some new) s.1 s'.1 := by
  refine turns_of_writes hrun (fun a ha => ?_) (fun _ _ => nofun) fun y st hy hnew => ?_
  · rcases List.mem_cons.mp ha with rfl | ha
    · rfl
    · exact (htail a ha).1
  · cases hnew
    cases hx.symm.trans hy
    refine ⟨fun a ha y _ => ?_, _, List.mem_cons_self .., if_pos ⟨Table.select_key hx, hst⟩⟩
    rcases List.mem_cons.mp ha with rfl | ha
    · simp only [writes]
      split_ifs
      · exact .inr rfl
      · exact .inl rfl
    · obtain ⟨-, b, rfl⟩ := htail a ha
      exact .inl rfl

theorem redestroy_turns (hx : s.1.rows.select c = some x) (hst : x.status = .stopping)
    (hrun : Runs executeOk Ticks s [.redestroy c true] s') :
    ∃ t, s.1.now ≤ t ∧ t ≤ s'.1.now ∧
      s'.1.rows.select c = some { x with status := .stopped, lastUpdated := t } ∧
      s'.1.boxes.select c = none := by
  obtain ⟨s0, s1, next, hs0, hx0, hrest⟩ := hrun.of_cons
  cases hx0
  have hsame : Same c s.1 s0.1 := same_of_ticks hs0
  have hturns : Turns c (fun _ => some .stopped) { s0.1 with boxes := destroyBox s0.1.boxes c } s'.1 := by
    refine resolve_turns (s := ({ s0.1 with boxes := destroyBox s0.1.boxes c }, s0.2)) (hsame.row.trans hx) hst
      ?_ hrest
    intro a ha
    change a ∈ [.onHit (.detachIDs [c]), .onHit (.publish ⟨.destroy, true, c, .destroyRetry⟩)] at ha
    simp only [List.mem_cons, List.not_mem_nil, or_false] at ha
    rcases ha with rfl | rfl <;> exact ⟨rfl, _, rfl⟩
  obtain ⟨t, ht0, ht1, hrow⟩ := hturns.row
  refine ⟨t, hsame.now.trans ht0, ht1, ?_, ?_⟩
  · rw [hrow, hsame.row, hx, Option.map_some, moved_some rfl]
  · rw [hturns.box, select_destroyBox, if_pos rfl]

/-- The row has been given the status that `settledStatus` says at the time of `k`. -/
structure Settled (c h : ℕ) (alive : Option (Option SandboxStatus)) (x : Row) (k k' : Core) : Prop where
  row : ∃ t, k.now ≤ t ∧ t ≤ k'.now ∧
    k'.rows.select c = some (moved (settledStatus alive k.now) t x)
  box : k'.boxes.select c = if redestroys h alive k.now x then none else k.boxes.select c

theorem Turns.settled {alive : Option (Option SandboxStatus)} {k k' : Core} {new : Status}
    (ht : Turns c (fun _ => some new) k k') (hx : k.rows.select c = some x)
    (hnew : settledStatus alive k.now x = some new) (hno : redestroys h alive k.now x = false) :
    Settled c h alive x k k' := by
  obtain ⟨t, ht0, ht1, hrow⟩ := ht.row
  refine ⟨⟨t, ht0, ht1, ?_⟩, ?_⟩
  · rw [hrow, hx, Option.map_some, moved_some rfl, moved_some hnew]
  · rw [hno]
    exact ht.box

theorem Same.settled {alive : Option (Option SandboxStatus)} {k k' : Core} (hs : Same c k k')
    (hx : k.rows.select c = some x) (hnew : settledStatus alive k.now x = none)
    (hno : redestroys h alive k.now x = false) : Settled c h alive x k k' := by
  refine ⟨⟨k.now, le_rfl, hs.now, ?_⟩, ?_⟩
  · rw [hs.row, hx, moved_none hnew]
  · rw [hno]
    exact hs.box

theorem same_of_nil (hrun : Runs executeOk Ticks s [] s') : Same c s.1 s'.1 :=
  same_of_elsewhere hrun nofun

/-- One round of the monitor's loop over the transient rows. -/
theorem settled_of_runs (hx : s.1.rows.select c = some x) (hh : x.host = h)
    (hrun : Runs executeOk Ticks s (transientStmts rep s.1.now x) s') :
    Settled c h (aliveStatus rep c) x s.1 s'.1 := by
  obtain rfl := Table.select_key hx
  cases halive : aliveStatus rep x.id with
  | none =>
    by_cases hgrace : s.1.now - x.lastUpdated < transientGracePeriod
    · simp only [transientStmts, halive, if_pos hgrace] at hrun
      refine (same_of_nil hrun).settled hx ?_ ?_
      · simp only [settledStatus, if_pos hgrace]
      · simp [redestroys]
    · simp only [transientStmts, halive, if_neg hgrace] at hrun
      refine (resolve_turns hx rfl ?_ hrun).settled hx ?_ ?_
      · intro a ha
        rcases List.mem_append.mp ha with ha | ha
        · split_ifs at ha
          · rw [List.mem_singleton.mp ha]
            exact ⟨rfl, _, rfl⟩
          · cases ha
        · obtain ⟨e, -, rfl⟩ := List.mem_map.mp ha
          exact ⟨rfl, _, rfl⟩
      · simp only [settledStatus, if_neg hgrace]
      · simp [redestroys]
  | some st =>
    -- the source's three cases for a capsule that is alive, and none for a pause
    simp only [transientStmts, halive] at hrun
    split at hrun
    all_goals rename_i hst
    · exact (resolve_turns hx rfl (List.forall_mem_nil _) hrun).settled hx (by simp only [settledStatus, hst])
        (by simp [redestroys, hst])
    · exact (resolve_turns hx rfl (List.forall_mem_nil _) hrun).settled hx (by simp only [settledStatus, hst])
        (by simp [redestroys, hst])
    · split_ifs at hrun with hgrace
      · have hagain : redestroys h (some st) s.1.now x = true :=
          decide_eq_true ⟨hh, hst, nofun, hgrace⟩
        obtain ⟨t, ht0, ht1, hrow, hbox⟩ := redestroy_turns hx hst hrun
        refine ⟨⟨t, ht0, ht1, ?_⟩, by rw [hbox, hagain, if_pos rfl]⟩
        rw [hrow, moved_some]
        simp only [settledStatus, hst, if_pos hgrace]
      · exact (same_of_nil hrun).settled hx (by simp only [settledStatus, hst, if_neg hgrace])
          (by simp [redestroys, hgrace])
    · split_ifs at hrun with hgrace
      · exact (resolve_turns hx hst (List.forall_mem_nil _) hrun).settled hx
          (by simp only [settledStatus, hst, if_pos hgrace]) (by simp [redestroys, hst])
      · exact (same_of_nil hrun).settled hx (by simp only [settledStatus, hst, if_neg hgrace])
          (by simp [redestroys, hst])
    · refine (same_of_nil hrun).settled hx ?_ ?_
      · unfold settledStatus
        split <;> simp_all
      · simp_all [redestroys]

end Transient

/-! ### The whole pass -/

section Pass

variable {c h : ℕ} {rep : List (ℕ × SandboxStatus)} {s s' : State} {x : Row} {k k' : Core}

theorem transient_same (hrun : Runs executeOk Ticks s [.readTransient h rep] s')
    (hno : ∀ x, s.1.rows.select c = some x →
      ¬(x.host = h ∧ x.status ∈ [.starting, .resuming, .pausing, .stopping, .snapshotting])) :
    Same c s.1 s'.1 := by
  obtain ⟨s0, hs0, hrun⟩ := runs_of_read (fun k => (listSandboxesByHostAndStatus k.rows h
    [.starting, .resuming, .pausing, .stopping, .snapshotting]).map (.settle h rep)) (fun _ => rfl) hrun
  have hsame : Same c s.1 s0.1 := same_of_ticks hs0
  refine hsame.trans (same_of_elsewhere hrun fun a ha => ?_)
  obtain ⟨r, hr, rfl⟩ := List.mem_map.mp ha
  refine ⟨le_rfl, decide_eq_false ?_⟩
  rintro rfl
  obtain ⟨hsel, hlisted⟩ := mem_listRows hr
  exact hno r (hsame.row.symm.trans hsel) hlisted

theorem transient_settled (hrun : Runs executeOk Ticks s [.readTransient h rep] s')
    (hx : s.1.rows.select c = some x) (hh : x.host = h)
    (hst : x.status ∈ [.starting, .resuming, .pausing, .stopping, .snapshotting]) :
    ∃ k0 k1, Same c s.1 k0 ∧ Settled c h (aliveStatus rep c) x k0 k1 ∧ Same c k1 s'.1 := by
  obtain ⟨s0, hs0, hrun⟩ := runs_of_read (fun k => (listSandboxesByHostAndStatus k.rows h
    [.starting, .resuming, .pausing, .stopping, .snapshotting]).map (.settle h rep)) (fun _ => rfl) hrun
  have hsame0 : Same c s.1 s0.1 := same_of_ticks hs0
  have hx0 : s0.1.rows.select c = some x := hsame0.row.trans hx
  obtain ⟨pre, post, heq⟩ := List.append_of_mem (mem_listRows_of_select hx0 hh hst)
  have hid : x.id = c := Table.select_key hx
  -- the other rows of the list are of other capsules
  have hnodup : ((pre ++ x :: post).map Row.id).Nodup := by
    rw [← heq]
    exact (List.filter_sublist.map Row.id).nodup s0.1.rows.nodup
  have hother : ∀ r, r ∈ pre ∨ r ∈ post → r.id ≠ c := by
    rw [List.map_append, List.map_cons, List.nodup_append] at hnodup
    obtain ⟨-, hpost, hpre⟩ := hnodup
    rintro r (hr | hr) he
    · exact hpre r.id (List.mem_map_of_mem hr) x.id List.mem_cons_self (he.trans hid.symm)
    · refine (List.nodup_cons.mp hpost).1 ?_
      rw [hid, ← he]
      exact List.mem_map_of_mem hr
  have helse : ∀ l : List Row, (∀ r ∈ l, r ∈ pre ∨ r ∈ post) →
      ∀ a ∈ l.map (Stmt.settle h rep), height a ≤ 2 ∧ about c a = false := by
    intro l hl a ha
    obtain ⟨r, hr, rfl⟩ := List.mem_map.mp ha
    exact ⟨le_rfl, decide_eq_false (hother r (hl r hr))⟩
  rw [heq, List.map_append, List.map_cons] at hrun
  obtain ⟨s1, hpre, hrun⟩ := hrun.of_append
  have hsame1 : Same c s0.1 s1.1 := same_of_elsewhere hpre (helse pre fun _ hr => .inl hr)
  obtain ⟨s2, s2', next, hs2, hx2, hrun⟩ := hrun.of_cons
  have hsame2 : Same c s1.1 s2.1 := same_of_ticks hs2
  cases hx2
  obtain ⟨s3, hsettle, hpost⟩ := hrun.of_append
  have hsame3 : Same c s3.1 s'.1 := same_of_elsewhere hpost (helse post fun _ hr => .inr hr)
  have hsame := hsame1.trans hsame2
  exact ⟨s2.1, s3.1, hsame0.trans hsame, settled_of_runs (hsame.row.trans hx0) hh hsettle, hsame3⟩

/-- The report is read for zombies only if somebody in it is paused. -/
theorem stopped_razes_if (hrun : Runs executeOk Ticks s
    (if rep.any (fun sb => decide (sb.2 = .paused)) then [.readStopped h rep] else []) s') :
    if (s.1.rows.select c).any (zombie h (aliveStatus rep c)) then Razed c s.1 s'.1 else Same c s.1 s'.1 := by
  split_ifs at hrun with hpaused
  · exact stopped_razes hrun
  · have hno : (s.1.rows.select c).any (zombie h (aliveStatus rep c)) = false := by
      refine eq_false_of_ne_true fun hz => hpaused ?_
      obtain ⟨x, -, hz⟩ := (Option.any_eq_true _ _).mp hz
      obtain ⟨-, -, halive⟩ := of_decide_eq_true hz
      rcases aliveStatus_cases rep c with ⟨hnone, -⟩ | ⟨sb, hsb, -, hco⟩
      · rw [halive] at hnone
        cases hnone
      · refine List.any_eq_true.mpr ⟨sb, hsb, decide_eq_true ?_⟩
        have hst : coerce sb.2 = some .paused := Option.some.inj (hco.symm.trans halive)
        revert hst
        cases sb.2 <;> decide
    rw [hno]
    exact same_of_nil hrun

/-- The phases of a pass, all with the report at its start. -/
theorem phases_of_passes (hp : Passes h k k') : ∃ s0 s1 s2 s3 s' : State, (∀ c, Same c k s0.1) ∧
    Runs executeOk Ticks s0 [.readMissing h (report k.boxes h)] s1 ∧
    Runs executeOk Ticks s1 [.readRunning h (report k.boxes h)] s2 ∧
    Runs executeOk Ticks s2 (if (report k.boxes h).any (fun sb => decide (sb.2 = .paused)) then
      [.readStopped h (report k.boxes h)] else []) s3 ∧
    Runs executeOk Ticks s3 [.readTransient h (report k.boxes h)] s' ∧ s'.1 = k' := by
  obtain ⟨hit, hrun⟩ := passes_iff.mp hp
  obtain ⟨s0, s0', next, hs0, hx, hrun⟩ := hrun.of_cons
  have hboxes : s0.1.boxes = k.boxes := (ticks_frame hs0).2.1
  cases hx
  rw [← hboxes]
  obtain ⟨s3, hrun, htransient⟩ := (List.append_nil _ ▸ hrun).of_append
  obtain ⟨s2, hrun, hstopped⟩ := hrun.of_append
  have hrun : Runs executeOk Ticks s0
      ([.readMissing h (report s0.1.boxes h)] ++ [.readRunning h (report s0.1.boxes h)]) s2 := hrun
  obtain ⟨s1, hmissing, hrunning⟩ := hrun.of_append
  exact ⟨s0, s1, s2, s3, (k', hit), fun c => same_of_ticks hs0, hmissing, hrunning, hstopped, htransient, rfl⟩

theorem moved_congr {turn turn' : Row → Option Status} {t : ℕ} (h : turn x = turn' x) :
    moved turn t x = moved turn' t x := by
  simp only [moved, h]

theorem moved_host {turn : Row → Option Status} {t : ℕ} : (moved turn t x).host = x.host := by
  unfold moved
  split <;> rfl

/-- A row of the host after the zombies and the transient rows. -/
theorem last_phases {s3 : State} (hx : s.1.rows.select c = some x) (hh : x.host = h)
    (hstopped : Runs executeOk Ticks s
      (if rep.any (fun sb => decide (sb.2 = .paused)) then [.readStopped h rep] else []) s3)
    (htransient : Runs executeOk Ticks s3 [.readTransient h rep] s') :
    ∃ t t', s.1.now ≤ t ∧ t ≤ t' ∧ t' ≤ s'.1.now ∧
      s'.1.rows.select c = some (moved (transientTurn h (aliveStatus rep c) t) t' x) ∧
      s'.1.boxes.select c = if zombie h (aliveStatus rep c) x ∨ redestroys h (aliveStatus rep c) t x then none
        else s.1.boxes.select c := by
  have hrazes := stopped_razes_if (c := c) hstopped
  rw [hx, Option.any_some] at hrazes
  have h3 : s.1.now ≤ s3.1.now ∧ s3.1.rows.select c = some x ∧
      s3.1.boxes.select c = if zombie h (aliveStatus rep c) x then none else s.1.boxes.select c := by
    split_ifs at hrazes with hz
    · rw [if_pos hz]
      exact ⟨hrazes.now, hrazes.row.trans hx, hrazes.box⟩
    · rw [if_neg hz]
      exact ⟨hrazes.now, hrazes.row.trans hx, hrazes.box⟩
  obtain ⟨hnow3, hx3, hbox3⟩ := h3
  by_cases hlisted : x.status ∈ [.starting, .resuming, .pausing, .stopping, .snapshotting]
  · obtain ⟨k0, k1, hk0, hsettled, hk1⟩ := transient_settled htransient hx3 hh hlisted
    obtain ⟨t, ht, ht', hrow⟩ := hsettled.row
    refine ⟨k0.now, t, hnow3.trans hk0.now, ht, ht'.trans hk1.now, ?_, ?_⟩
    · rw [hk1.row, hrow, moved_congr]
      rw [transientTurn, if_pos ⟨hh, hlisted⟩]
    · rw [hk1.box, hsettled.box, hk0.box, hbox3]
      by_cases hr : redestroys h (aliveStatus rep c) k0.now x = true <;> simp [hr]
  · have hsame : Same c s3.1 s'.1 := by
      refine transient_same htransient fun x' hx' hl => hlisted ?_
      cases hx3.symm.trans hx'
      exact hl.2
    have hno : redestroys h (aliveStatus rep c) s3.1.now x = false := by
      refine decide_eq_false fun hr => hlisted ?_
      rw [hr.2.1]
      decide
    refine ⟨s3.1.now, s3.1.now, hnow3, le_rfl, hsame.now, ?_, ?_⟩
    · rw [hsame.row, hx3, moved_none (by rw [transientTurn, if_neg fun hl => hlisted hl.2])]
    · rw [hsame.box, hbox3, hno]
      simp

/-- A row after the comparison with the report. -/
def compared (h : ℕ) (alive : Option (Option SandboxStatus)) (t t' : ℕ) (x : Row) : Row :=
  moved (runningTurn h alive) t' (moved (missingTurn h alive) t x)

/-- **A row of the host during a pass.**  It is compared at `t1` and `t2`, and settled at `t4` by what is due
at `t3`. -/
theorem pass_row (hp : Passes h k k') (hx : k.rows.select c = some x) (hh : x.host = h) :
    ∃ t1 t2 t3 t4, k.now ≤ t1 ∧ t1 ≤ t2 ∧ t2 ≤ t3 ∧ t3 ≤ t4 ∧ t4 ≤ k'.now ∧
      k'.rows.select c = some (moved (transientTurn h (aliveStatus (report k.boxes h) c) t3) t4
        (compared h (aliveStatus (report k.boxes h) c) t1 t2 x)) ∧
      k'.boxes.select c =
        if zombie h (aliveStatus (report k.boxes h) c) (compared h (aliveStatus (report k.boxes h) c) t1 t2 x) ∨
          redestroys h (aliveStatus (report k.boxes h) c) t3
            (compared h (aliveStatus (report k.boxes h) c) t1 t2 x)
        then none else k.boxes.select c := by
  obtain ⟨s0, s1, s2, s3, s', hsame0, hmissing, hrunning, hstopped, htransient, rfl⟩ := phases_of_passes hp
  have hturn1 := Turns.of_same (hsame0 c) (missing_turns hmissing)
  have hturn2 := running_turns (c := c) hrunning
  obtain ⟨t1, ht1, ht1', hrow1⟩ := hturn1.row
  obtain ⟨t2, ht2, ht2', hrow2⟩ := hturn2.row
  rw [hrow1, hx, Option.map_some, Option.map_some] at hrow2
  obtain ⟨t3, t4, ht3, ht4, ht4', hrow, hbox⟩ :=
    last_phases hrow2 (by rw [moved_host, moved_host, hh]) hstopped htransient
  refine ⟨t1, t2, t3, t4, ht1, ht1'.trans ht2, ht2'.trans ht3, ht4, ht4', hrow, ?_⟩
  rw [hbox, hturn2.box, hturn1.box]
  rfl

/-- Other capsules. -/
theorem pass_other (hp : Passes h k k') (hno : ∀ x, k.rows.select c = some x → x.host ≠ h) : Same c k k' := by
  obtain ⟨s0, s1, s2, s3, s', hsame0, hmissing, hrunning, hstopped, htransient, rfl⟩ := phases_of_passes hp
  have hsame {k1 : Core} {turn : Row → Option Status} {k2 : Core} (hk : Same c k k1) (ht : Turns c turn k1 k2)
      (hturn : ∀ x, x.host ≠ h → turn x = none) : Same c k k2 := by
    obtain ⟨t, -, -, hrow⟩ := ht.row
    refine hk.trans ⟨?_, ht.box, ht.now_le⟩
    rw [hrow]
    cases hx : k1.rows.select c with
    | none => rfl
    | some x => rw [Option.map_some, moved_none (hturn x (hno x (hk.row.symm.trans hx)))]
  have h1 := hsame (hsame0 c) (missing_turns hmissing) fun x hx => if_neg fun hl => hx hl.1
  have h2 := hsame h1 (running_turns hrunning) fun x hx => if_neg fun hl => hx hl.1
  have hzombie : (s2.1.rows.select c).any (zombie h (aliveStatus (report k.boxes h) c)) = false := by
    refine eq_false_of_ne_true fun hz => ?_
    obtain ⟨x, hx, hz⟩ := (Option.any_eq_true _ _).mp hz
    exact hno x (h2.row.symm.trans hx) (of_decide_eq_true hz).1
  have hrazes := stopped_razes_if (c := c) hstopped
  rw [hzombie] at hrazes
  have h3 : Same c k s3.1 := h2.trans hrazes
  exact h3.trans (transient_same htransient fun x hx hl => hno x (h3.row.symm.trans hx) hl.1)

end Pass

end Wrenn.ControlPlane.Alone
