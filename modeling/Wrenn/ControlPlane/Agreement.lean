import Wrenn.ControlPlane.Alone

/-!
# Reconciliation in one pass

After a pass the rows of a host and what the host reports should agree (`Agrees`).  Whether they do depends
on the rows and the report before the pass only, capsule by capsule: `reconcilable` is the table of the
pairs of row status and reported status that one pass brings to agreement, and `agrees_iff` says that it is
exact.

A row in a transient status is decided by its age.  The rows before the pass are past the grace periods
(`Old`); a row that the pass itself turns `snapshotting` is not, so it either stays or is recovered, and is
in no agreement in both cases.
-/

namespace Wrenn.ControlPlane.Agreement

open Lib.Tables Database Model Steps Alone
open Sandbox.Startup (SandboxStatus)

/-- What the host `h` reports of a capsule. -/
def reported (t : Boxes) (h c : ℕ) : Option SandboxStatus :=
  (t.select c).bind fun b => if b.host = h ∧ ¬b.leaving then b.status else none

/-- The grace periods of the row are over. -/
structure Old (now : ℕ) (x : Row) : Prop where
  transient : x.status ∈ [.starting, .resuming, .pausing, .stopping, .snapshotting] →
    transientGracePeriod ≤ now - x.lastUpdated
  snapshot : x.status = .snapshotting → snapshotGracePeriod ≤ now - x.lastUpdated

/-- The row of a capsule and the report on it, after a pass.  A capsule that the pass has destroyed is not
reported any more. -/
structure Agrees (h c : ℕ) (k : Core) : Prop where
  row_of_report : ∀ st, st = .running ∨ st = .paused → reported k.boxes h c = some st →
    ∃ x, k.rows.select c = some x ∧ x.host = h ∧ x.status = label st
  report_of_row : ∀ st, st = .running ∨ st = .paused → ∀ x, k.rows.select c = some x → x.host = h →
    x.status = label st → reported k.boxes h c = some st
  alive : reported k.boxes h c ≠ none → ∀ x, k.rows.select c = some x → x.host = h →
    x.status ≠ .stopped ∧ x.status ≠ .error
  again : ∀ d k', Passes h { k with now := k.now + d } k' → k'.rows.select c = k.rows.select c

/-- The reports on a row of each status that one pass copes with. -/
def reconcilable : Status → Option SandboxStatus → Bool
  | .missing, rep => decide (rep ∈ [none, some .pending, some .running, some .pausing, some .paused])
  | .running, rep => decide (rep ∈ [none, some .pending, some .running, some .paused])
  | .paused, rep => decide (rep = some .paused)
  | .stopped, rep => decide (rep ∈ [none, some .paused])
  | .error, rep => decide (rep = none)
  | .starting, rep | .resuming, rep => decide (rep ∈ [none, some .running])
  | .pausing, rep => decide (rep ∉ [none, some .running, some .paused])
  | .stopping, _ => true
  | .snapshotting, rep => decide (rep ∈ [none, some .running, some .paused])
  | .pending, rep => decide (rep ∉ [some .running, some .paused])

/-- The rows of the host are such, and whatever it runs or keeps paused has a row. -/
structure Reconcilable (h : ℕ) (k : Core) : Prop where
  rows : ∀ c x, k.rows.select c = some x → x.host = h →
    reconcilable x.status (reported k.boxes h c) = true
  known : ∀ c st, st = .running ∨ st = .paused → reported k.boxes h c = some st →
    ∃ x, k.rows.select c = some x ∧ x.host = h

/-! ### One row -/

theorem mem_report_iff {t : Boxes} {h c : ℕ} {st : SandboxStatus} :
    (c, st) ∈ report t h ↔ reported t h c = some st := by
  rw [mem_report, reported, Option.bind_eq_some_iff]
  refine exists_congr fun b => and_congr_right fun _ => ?_
  by_cases hh : b.host = h ∧ ¬b.leaving = true
  · simp [hh]
  · simp

theorem aliveStatus_report {t : Boxes} {h c : ℕ} :
    aliveStatus (report t h) c = (reported t h c).map coerce := by
  rcases aliveStatus_cases (report t h) c with ⟨hnone, hall⟩ | ⟨⟨c', st⟩, hsb, rfl, ha⟩
  · cases hrep : reported t h c with
    | none => exact hnone
    | some st => exact absurd rfl (hall _ (mem_report_iff.mpr hrep))
  · rw [ha, mem_report_iff.mp hsb]
    rfl

/-- The status after a pass of a row whose grace periods are over. -/
def ends (alive : Option (Option SandboxStatus)) : Status → Status
  | .missing => (told alive).getD .missing
  | .running => (told alive).getD .running
  | .starting | .resuming => if alive = none then .error else .running
  | .pausing => if alive = none then .paused else .pausing
  | .stopping => .stopped
  | .snapshotting => (alive.map recoverTo).getD .error
  | st => st

/-- The pass destroys the capsule. -/
def razes (alive : Option (Option SandboxStatus)) (st : Status) : Bool :=
  decide ((st = .stopped ∧ alive = some (some .paused)) ∨ (st = .stopping ∧ alive ≠ none))

/-- A pass leaves such a row as it is, at whatever time it comes. -/
def stable (alive : Option (Option SandboxStatus)) : Status → Bool
  | .missing => decide (told alive = none)
  | .running => decide (alive = some (some .running) ∨ told alive = none)
  | .pausing => alive.isSome
  | .starting | .resuming | .stopping | .snapshotting => false
  | _ => true

section Row

variable {h t t' : ℕ} {alive : Option (Option SandboxStatus)} {x : Row}

/-- The comparison concerns missing and running rows. -/
theorem compared_eq (hm : x.status ≠ .missing) (hr : x.status ≠ .running) : compared h alive t t' x = x := by
  have hmiss : moved (missingTurn h alive) t x = x := moved_none (if_neg fun hl => hm hl.2)
  rw [compared, hmiss, moved_none (if_neg fun hl => hr hl.2.1)]

/-- Such a row gets the status of the report, unless the report has none. -/
theorem compared_status (hh : x.host = h) (hst : x.status = .missing ∨ x.status = .running) :
    (compared h alive t t' x).status = (told alive).getD x.status := by
  have hlabel : ∀ st : SandboxStatus, label st = .running → st = .running := by
    intro st
    cases st <;> decide
  rcases hst with hst | hst
  · have hturn : missingTurn h alive x = told alive := if_pos ⟨hh, hst⟩
    cases htold : told alive with
    | none =>
      rw [htold] at hturn
      rw [compared, moved_none hturn, moved_none (if_neg fun hl => by rw [hst] at hl; cases hl.2.1)]
      rfl
    | some new =>
      rw [htold] at hturn
      rw [compared, moved_some hturn, moved_none, Option.getD_some]
      refine if_neg fun hl => ?_
      obtain ⟨-, hrun, hne⟩ := hl
      cases alive with
      | none =>
        cases htold
        cases hrun
      | some st =>
        cases st with
        | none => cases htold
        | some st =>
          cases htold
          exact hne (by rw [hlabel st hrun])
  · have hmiss : missingTurn h alive x = none := if_neg fun hl => by rw [hst] at hl; cases hl.2
    rw [compared, moved_none hmiss]
    by_cases hrun : alive = some (some .running)
    · rw [moved_none (if_neg fun hl => hl.2.2 hrun), hst, hrun]
      rfl
    · have hturn : runningTurn h alive x = told alive := if_pos ⟨hh, hst, hrun⟩
      cases htold : told alive with
      | none =>
        rw [htold] at hturn
        rw [moved_none hturn]
        rfl
      | some new =>
        rw [htold] at hturn
        rw [moved_some hturn]
        rfl

end Row

/-! ### What a pass makes of a row -/

section Settle

variable {h t t' : ℕ} {alive : Option (Option SandboxStatus)} {x : Row}

theorem Old.later {now : ℕ} (hold : Old now x) (ht : now ≤ t) : Old t x :=
  ⟨fun hl => (hold.transient hl).trans (Nat.sub_le_sub_right ht _),
    fun hs => (hold.snapshot hs).trans (Nat.sub_le_sub_right ht _)⟩

/-- A row that is not compared, and whose grace periods are over. -/
theorem settled_ends (hh : x.host = h) (hold : Old t x) (hm : x.status ≠ .missing) (hr : x.status ≠ .running) :
    (moved (transientTurn h alive t) t' x).status = ends alive x.status := by
  by_cases hl : x.status ∈ [.starting, .resuming, .pausing, .stopping, .snapshotting]
  · have hturn : transientTurn h alive t x = settledStatus alive t x := if_pos ⟨hh, hl⟩
    have hgrace := hold.transient hl
    simp only [List.mem_cons, List.not_mem_nil, or_false] at hl
    cases alive with
    | none =>
      rw [moved_some (hturn.trans (if_neg (Nat.not_lt.mpr hgrace)))]
      rcases hl with hl | hl | hl | hl | hl <;> rw [hl] <;> rfl
    | some st =>
      rcases hl with hl | hl | hl | hl | hl <;> simp only [settledStatus, hl] at hturn
      · rw [moved_some hturn, hl]
        rfl
      · rw [moved_some hturn, hl]
        rfl
      · rw [moved_none hturn, hl]
        rfl
      · rw [if_pos hgrace] at hturn
        rw [moved_some hturn, hl]
        rfl
      · rw [if_pos (hold.snapshot hl)] at hturn
        rw [moved_some hturn, hl]
        rfl
  · rw [moved_none (if_neg fun hl' => hl hl'.2)]
    cases hst : x.status <;> simp_all [ends]

theorem razes_iff (hh : x.host = h) (hold : Old t x) :
    razes alive x.status = true ↔ zombie h alive x = true ∨ redestroys h alive t x = true := by
  simp only [razes, zombie, redestroys, decide_eq_true_eq, hh, true_and]
  refine or_congr_right (and_congr_right fun hst => ?_)
  have hgrace := hold.transient (by rw [hst]; decide)
  exact ⟨fun ha => ⟨ha, hgrace⟩, And.left⟩

theorem compared_of_stable (hs : stable alive x.status = true) : compared h alive t t' x = x := by
  by_cases hm : x.status = .missing
  · have htold : told alive = none := by simpa [stable, hm] using hs
    have hmiss : missingTurn h alive x = none := by simp [missingTurn, htold]
    rw [compared, moved_none hmiss, moved_none (by simp [runningTurn, htold])]
  · by_cases hr : x.status = .running
    · have hrun : alive = some (some .running) ∨ told alive = none := by simpa [stable, hr] using hs
      have hmiss : missingTurn h alive x = none := if_neg fun hl => hm hl.2
      have hturn : runningTurn h alive x = none := by
        rcases hrun with hrun | htold
        · exact if_neg fun hl => hl.2.2 hrun
        · simp [runningTurn, htold]
      rw [compared, moved_none hmiss, moved_none hturn]
    · exact compared_eq hm hr

theorem turn_of_stable (hs : stable alive x.status = true) : transientTurn h alive t x = none := by
  rw [transientTurn]
  split_ifs with hl
  · simp only [List.mem_cons, List.not_mem_nil, or_false] at hl
    rcases hl with ⟨-, hl | hl | hl | hl | hl⟩ <;> rw [hl] at hs
    · cases hs
    · cases hs
    · obtain ⟨st, rfl⟩ := Option.isSome_iff_exists.mp hs
      simp only [settledStatus, hl]
    all_goals cases hs
  · rfl

end Settle

/-- What the comparison makes of a row is never up to the rest of the pass, except for `snapshotting`. -/
theorem told_cases (rep : Option SandboxStatus) {st : Status} (hst : st = .missing ∨ st = .running) :
    ((told (rep.map coerce)).getD st = .snapshotting ∧ rep = some .snapshotting ∨
      (told (rep.map coerce)).getD st ∉ [.starting, .resuming, .pausing, .stopping, .snapshotting]) ∧
    ¬((told (rep.map coerce)).getD st = .stopped ∧ rep.map coerce = some (some .paused)) := by
  rcases hst with rfl | rfl <;> rcases rep with _ | rep
  · decide
  · cases rep <;> decide
  · decide
  · cases rep <;> decide

theorem compared_settled {h t1 t2 t3 t4 : ℕ} {rep : Option SandboxStatus} {x : Row} (hh : x.host = h)
    (hst : x.status = .missing ∨ x.status = .running) :
    ((moved (transientTurn h (rep.map coerce) t3) t4 (compared h (rep.map coerce) t1 t2 x)).status =
          ends (rep.map coerce) x.status ∨
        rep = some .snapshotting ∧
          (moved (transientTurn h (rep.map coerce) t3) t4 (compared h (rep.map coerce) t1 t2 x)).status = .running) ∧
      ¬(zombie h (rep.map coerce) (compared h (rep.map coerce) t1 t2 x) = true ∨
        redestroys h (rep.map coerce) t3 (compared h (rep.map coerce) t1 t2 x) = true) := by
  have hstatus : (compared h (rep.map coerce) t1 t2 x).status = (told (rep.map coerce)).getD x.status :=
    compared_status hh hst
  have hends : ends (rep.map coerce) x.status = (told (rep.map coerce)).getD x.status := by
    rcases hst with hst | hst <;> rw [hst] <;> rfl
  have hhost : (compared h (rep.map coerce) t1 t2 x).host = h := by
    rw [compared, moved_host, moved_host, hh]
  obtain ⟨hlate, hzombie⟩ := told_cases rep hst
  rw [← hstatus] at hlate hzombie hends
  generalize compared h (rep.map coerce) t1 t2 x = y at *
  refine ⟨?_, ?_⟩
  · rcases hlate with ⟨hsnap, rfl⟩ | hlate
    · have hturn : transientTurn h ((some SandboxStatus.snapshotting).map coerce) t3 y =
          if snapshotGracePeriod ≤ t3 - y.lastUpdated then some .running else none := by
        rw [transientTurn, if_pos ⟨hhost, by rw [hsnap]; decide⟩]
        simp only [settledStatus, hsnap, Option.map_some]
        rfl
      split_ifs at hturn
      · exact .inr ⟨rfl, by rw [moved_some hturn]⟩
      · exact .inl (by rw [moved_none hturn, hends])
    · exact .inl (by rw [moved_none (if_neg fun hl => hlate hl.2), hends])
  · rintro (hz | hr)
    · exact hzombie (of_decide_eq_true hz).2
    · have hstop : y.status = .stopping := (of_decide_eq_true hr).2.1
      rcases hlate with ⟨hsnap, -⟩ | hlate
      · rw [hsnap] at hstop
        cases hstop
      · exact hlate (by rw [hstop]; decide)

section Pass

variable {h c : ℕ} {k k' : Core} {x : Row}

/-- **A pass leaves a stable row alone.** -/
theorem pass_stable (hp : Passes h k k') (hx : k.rows.select c = some x) (hh : x.host = h)
    (hs : stable ((reported k.boxes h c).map coerce) x.status = true) : k'.rows.select c = some x := by
  obtain ⟨t1, t2, t3, t4, -, -, -, -, -, hrow, -⟩ := pass_row hp hx hh
  rw [aliveStatus_report, compared_of_stable hs, moved_none (turn_of_stable hs)] at hrow
  exact hrow

/-- **A pass over a row whose grace periods are over.**  A row that the pass has turned `snapshotting` may be
recovered by the same pass. -/
theorem pass_old (hp : Passes h k k') (hx : k.rows.select c = some x) (hh : x.host = h) (hold : Old k.now x) :
    ∃ x', k'.rows.select c = some x' ∧ x'.host = h ∧
      (x'.status = ends ((reported k.boxes h c).map coerce) x.status ∨
        (x.status = .missing ∨ x.status = .running) ∧ reported k.boxes h c = some .snapshotting ∧
          x'.status = .running) ∧
      reported k'.boxes h c =
        if razes ((reported k.boxes h c).map coerce) x.status then none else reported k.boxes h c := by
  obtain ⟨t1, t2, t3, t4, ht1, ht2, ht3, -, -, hrow, hbox⟩ := pass_row hp hx hh
  rw [aliveStatus_report] at hrow hbox
  have hnow : k.now ≤ t3 := (ht1.trans ht2).trans ht3
  by_cases hcmp : x.status = .missing ∨ x.status = .running
  · obtain ⟨hend, hno⟩ := compared_settled hh hcmp
    refine ⟨_, hrow, by rw [moved_host, compared, moved_host, moved_host, hh], ?_, ?_⟩
    · rcases hend with hend | ⟨hrep, hend⟩
      · exact .inl hend
      · exact .inr ⟨hcmp, hrep, hend⟩
    · have hrazes : razes ((reported k.boxes h c).map coerce) x.status = false := by
        rcases hcmp with hst | hst <;> simp [razes, hst]
      rw [reported, hbox, if_neg hno, hrazes]
      rfl
  · have hm : x.status ≠ .missing := fun he => hcmp (.inl he)
    have hr : x.status ≠ .running := fun he => hcmp (.inr he)
    rw [compared_eq hm hr] at hrow hbox
    refine ⟨_, hrow, by rw [moved_host, hh], .inl (settled_ends hh (hold.later hnow) hm hr), ?_⟩
    rw [reported, hbox, if_congr (razes_iff hh (hold.later hnow)).symm rfl rfl]
    split_ifs <;> rfl

end Pass

/-! ### Agreement -/

/-- The statuses of a row and its capsule that agree and stay. -/
def settledWell (st : Status) (rep : Option SandboxStatus) : Bool :=
  decide ((rep = some .running ↔ st = .running) ∧ (rep = some .paused ↔ st = .paused) ∧
    (rep ≠ none → st ≠ .stopped ∧ st ≠ .error) ∧ stable (rep.map coerce) st = true)

/-- The table, against what a pass does. -/
theorem reconcilable_eq (st : Status) (rep : Option SandboxStatus) :
    reconcilable st rep =
      settledWell (ends (rep.map coerce) st) (if razes (rep.map coerce) st then none else rep) := by
  rcases rep with _ | rep
  · cases st <;> decide
  · cases st <;> cases rep <;> decide

theorem ends_ne_of_unstable {st : Status} {rep : Option SandboxStatus} (hrun : st ≠ .running)
    (hs : stable (rep.map coerce) st = false) : ends (rep.map coerce) st ≠ st := by
  rcases rep with _ | rep
  · revert hrun hs
    cases st <;> decide
  · revert hrun hs
    cases st <;> cases rep <;> decide

section

variable {h c : ℕ} {k k' : Core} {x : Row}

/-- A row that later passes leave alone is stable: a pass at a time when it is old changes it otherwise. -/
theorem stable_of_again (hx : k.rows.select c = some x) (hh : x.host = h) (hrun : x.status ≠ .running)
    (hagain : ∀ d k', Passes h { k with now := k.now + d } k' → k'.rows.select c = k.rows.select c) :
    stable ((reported k.boxes h c).map coerce) x.status = true := by
  by_contra hs
  have hold : Old (k.now + (x.lastUpdated + snapshotGracePeriod)) x := by
    constructor <;> intro _ <;> simp only [transientGracePeriod, snapshotGracePeriod] <;> omega
  obtain ⟨k', hp⟩ := exists_passes h { k with now := k.now + (x.lastUpdated + snapshotGracePeriod) }
  obtain ⟨x', hx', -, hend, -⟩ := pass_old hp hx hh hold
  cases (hagain _ _ hp).symm.trans hx' |>.symm.trans hx
  rcases hend with hend | ⟨-, -, hend⟩
  · exact ends_ne_of_unstable hrun (eq_false_of_ne_true hs) hend.symm
  · exact hrun hend

theorem agrees_iff_settledWell (hx : k.rows.select c = some x) (hh : x.host = h) :
    Agrees h c k ↔ settledWell x.status (reported k.boxes h c) = true := by
  simp only [settledWell, decide_eq_true_eq]
  constructor
  · intro ha
    have hiff : ∀ st, st = .running ∨ st = .paused → (reported k.boxes h c = some st ↔ x.status = label st) := by
      intro st hst
      refine ⟨fun hrep => ?_, ha.report_of_row st hst x hx hh⟩
      obtain ⟨x', hx', -, hlabel⟩ := ha.row_of_report st hst hrep
      cases hx.symm.trans hx'
      exact hlabel
    have hrunning := hiff .running (.inl rfl)
    refine ⟨hrunning, hiff .paused (.inr rfl), fun hrep => ha.alive hrep x hx hh, ?_⟩
    by_cases hrun : x.status = .running
    · rw [hrunning.mpr hrun, hrun]
      rfl
    · exact stable_of_again hx hh hrun ha.again
  · rintro ⟨hrunning, hpaused, halive, hstable⟩
    have hiff : ∀ st, st = .running ∨ st = .paused → (reported k.boxes h c = some st ↔ x.status = label st) := by
      rintro st (rfl | rfl)
      · exact hrunning
      · exact hpaused
    refine ⟨fun st hst hrep => ⟨x, hx, hh, (hiff st hst).mp hrep⟩, fun st hst x' hx' _ hlabel => ?_,
      fun hrep x' hx' _ => ?_, fun d k' hp => ?_⟩
    · cases hx.symm.trans hx'
      exact (hiff st hst).mpr hlabel
    · cases hx.symm.trans hx'
      exact halive hrep
    · rw [hx]
      exact pass_stable hp hx hh hstable

/-- A capsule without a row on the host. -/
theorem agrees_iff_unknown (hno : ∀ x, k.rows.select c = some x → x.host ≠ h) :
    Agrees h c k ↔ ∀ st, st = .running ∨ st = .paused → reported k.boxes h c ≠ some st := by
  constructor
  · intro ha st hst hrep
    obtain ⟨x, hx, hh, -⟩ := ha.row_of_report st hst hrep
    exact hno x hx hh
  · intro hrep
    refine ⟨fun st hst hr => absurd hr (hrep st hst), fun _ _ x hx hh => absurd hh (hno x hx),
      fun _ x hx hh => absurd hh (hno x hx), fun d k' hp => ?_⟩
    exact (pass_other hp hno).row

theorem agrees_iff_of_row (hp : Passes h k k') (hx : k.rows.select c = some x) (hh : x.host = h)
    (hold : Old k.now x) : Agrees h c k' ↔ reconcilable x.status (reported k.boxes h c) = true := by
  obtain ⟨x', hx', hh', hend, hrep⟩ := pass_old hp hx hh hold
  rw [agrees_iff_settledWell hx' hh', reconcilable_eq, hrep]
  rcases hend with hend | ⟨hst, hsnap, hend⟩
  · rw [hend]
  · -- turned `snapshotting` and recovered by the same pass: the table has neither status
    rw [hsnap, hend]
    rcases hst with hst | hst <;> rw [hst] <;> decide

/-- **Reconciliation in one pass.**  With all transient rows past the grace periods, a pass that is alone comes
to its end, and leaves the rows and the host in agreement exactly if the rows and the report before it are
reconcilable. -/
theorem agrees_iff (hold : ∀ c x, k.rows.select c = some x → x.host = h → Old k.now x) :
    (∃ k', Passes h k k') ∧ ∀ k', Passes h k k' → ((∀ c, Agrees h c k') ↔ Reconcilable h k) := by
  refine ⟨exists_passes h k, fun k' hp => ?_⟩
  constructor
  · intro ha
    refine ⟨fun c x hx hh => (agrees_iff_of_row hp hx hh (hold c x hx hh)).mp (ha c), fun c st hst hrep => ?_⟩
    by_contra hno
    have hother : ∀ x, k.rows.select c = some x → x.host ≠ h := fun x hx hh => hno ⟨x, hx, hh⟩
    have hsame := pass_other hp hother
    refine (agrees_iff_unknown fun x hx => hother x (hsame.row.symm.trans hx)).mp (ha c) st hst ?_
    rw [reported, hsame.box]
    exact hrep
  · intro hr c
    by_cases hrow : ∃ x, k.rows.select c = some x ∧ x.host = h
    · obtain ⟨x, hx, hh⟩ := hrow
      exact (agrees_iff_of_row hp hx hh (hold c x hx hh)).mpr (hr.rows c x hx hh)
    · have hother : ∀ x, k.rows.select c = some x → x.host ≠ h := fun x hx hh => hrow ⟨x, hx, hh⟩
      have hsame := pass_other hp hother
      refine (agrees_iff_unknown fun x hx => hother x (hsame.row.symm.trans hx)).mpr fun st hst hrep => ?_
      rw [reported, hsame.box] at hrep
      exact hrow (hr.known c st hst hrep)

end

/-! ### Hosts -/

/-- A pause and a crash that the control plane has missed, and a destroy that has not landed. -/
def lagging : Core where
  now := 1000
  rows := ⟨[⟨5, 0, .running, 0⟩, ⟨6, 0, .stopping, 0⟩, ⟨7, 0, .missing, 0⟩], by decide⟩
  volumes := Table.empty
  boxes := ⟨[⟨5, 0, some .paused, false, true, [], false⟩, ⟨6, 0, some .running, true, false, [], false⟩], by decide⟩
  events := []
  notices := []
  nextID := 8
  accepted := []

theorem lagging_agrees : ∃ k', Passes 0 lagging k' ∧ ∀ c, Agrees 0 c k' := by
  have hrow : ∀ c x, lagging.rows.select c = some x →
      x = ⟨5, 0, .running, 0⟩ ∨ x = ⟨6, 0, .stopping, 0⟩ ∨ x = ⟨7, 0, .missing, 0⟩ := by
    intro c x hx
    simpa [lagging] using (Table.select_eq_some.mp hx).1
  have hold : ∀ c x, lagging.rows.select c = some x → x.host = 0 → Old lagging.now x := by
    intro c x hx _
    rcases hrow c x hx with rfl | rfl | rfl <;> exact ⟨by decide, by decide⟩
  have hrec : Reconcilable 0 lagging := by
    refine ⟨fun c x hx _ => ?_, fun c st _ hrep => ?_⟩
    · obtain rfl := Table.select_key hx
      rcases hrow _ x hx with rfl | rfl | rfl <;> decide
    · have hmem : (c, st) ∈ [(5, SandboxStatus.paused), (6, .running)] := mem_report_iff.mpr hrep
      simp only [List.mem_cons, Prod.mk.injEq, List.not_mem_nil, or_false] at hmem
      rcases hmem with ⟨rfl, -⟩ | ⟨rfl, -⟩
      · exact ⟨⟨5, 0, .running, 0⟩, by decide, rfl⟩
      · exact ⟨⟨6, 0, .stopping, 0⟩, by decide, rfl⟩
  obtain ⟨⟨k', hp⟩, hiff⟩ := agrees_iff hold
  exact ⟨k', hp, (hiff k' hp).mpr hrec⟩

/-- A resume that has not reached the host, which keeps the capsule paused. -/
def unresumed : Core where
  now := 1000
  rows := ⟨[⟨5, 0, .resuming, 0⟩], List.nodup_singleton _⟩
  volumes := Table.empty
  boxes := ⟨[⟨5, 0, some .paused, false, true, [], false⟩], List.nodup_singleton _⟩
  events := []
  notices := []
  nextID := 6
  accepted := []

/-- A resuming row whose capsule is there is taken for resumed, whatever its status.  The next pass finds a
running row that is reported as paused. -/
theorem unresumed_promoted : (∀ c x, unresumed.rows.select c = some x → x.host = 0 → Old unresumed.now x) ∧
    ∃ k', Passes 0 unresumed k' ∧ k'.rows.select 5 = some ⟨5, 0, .running, 1000⟩ ∧
      reported k'.boxes 0 5 = some .paused ∧ ¬∀ c, Agrees 0 c k' := by
  refine ⟨fun c x hx _ => ?_, { unresumed with rows := ⟨[⟨5, 0, .running, 1000⟩], List.nodup_singleton _⟩ },
    ⟨List.replicate 7 (.act 0 .ok), true, by decide, rfl⟩, rfl, rfl, fun ha => ?_⟩
  · obtain rfl : x = ⟨5, 0, .resuming, 0⟩ := by simpa [unresumed] using (Table.select_eq_some.mp hx).1
    exact ⟨by decide, by decide⟩
  · have hrep : reported unresumed.boxes 0 5 = some .running :=
      (ha 5).report_of_row .running (.inl rfl) ⟨5, 0, .running, 1000⟩ rfl rfl rfl
    cases hrep

end Wrenn.ControlPlane.Agreement
