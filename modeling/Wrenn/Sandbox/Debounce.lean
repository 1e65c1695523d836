import Wrenn.Sandbox.Startup

/-!
# Activity samples

`pollAndBump` refreshes the TTL of a sandbox once it has been busy for some samples in a row.  The CPU share is a
`float32`, of which only comparisons are used: `F` is any type with a comparison, lawful or not.
-/

namespace Wrenn.Sandbox.Debounce

open Startup Disk

variable {F : Type*} [LE F] [DecidableLE F] [OfNat F 0] [OfNat F 5]

structure Activity (F : Type*) where
  cpuUsedPct : F
  netBps : UInt64
  diskBps : UInt64

/-- The thresholds of the manager's `Config`. -/
structure Config (F : Type*) where
  cpuBusyPct : F
  netFloorBps : UInt64
  diskFloorBps : UInt64

def busyDebounceSamples : ℕ := 2

def isBusy (cfg : Config F) (act : Activity F) : Bool :=
  let cpuThreshold := if cfg.cpuBusyPct ≤ 0 then 5 else cfg.cpuBusyPct
  let netFloor := if cfg.netFloorBps = 0 then 16 * 1024 else cfg.netFloorBps
  let diskFloor := if cfg.diskFloorBps = 0 then 32 * 1024 else cfg.diskFloorBps
  cpuThreshold ≤ act.cpuUsedPct || netFloor ≤ act.netBps || diskFloor ≤ act.diskBps

def applyBusySample (streak : ℕ) (busy : Bool) : ℕ × Bool :=
  if !busy then (0, false)
  else if busyDebounceSamples ≤ streak + 1 then (busyDebounceSamples, true)
  else (streak + 1, false)

/-- What `pollAndBump` reads and writes of a sandbox. -/
structure Box where
  status : SandboxStatus
  activityBusyStreak : ℕ
  lastActiveAt : Time

/-- The answer of `FetchActivity`, and the time at which it is applied. -/
abbrev Sample (F : Type*) := Except String (Activity F) × Time

variable (cfg : Config F)

def busy : Sample F → Bool
  | (.error _, _) => false
  | (.ok act, _) => isBusy cfg act

/-- `sb` is the sandbox in `m.boxes`, if it is still there. -/
def pollAndBump (sample : Sample F) (sb : Option Box) : Option Box :=
  sb.map fun sb =>
    if sb.status ≠ .running then sb
    else
      let (streak, bump) := applyBusySample sb.activityBusyStreak (busy cfg sample)
      { sb with activityBusyStreak := streak, lastActiveAt := if bump then sample.2 else sb.lastActiveAt }

/-- A sandbox that runs, with no streak, after these samples; the latest comes first. -/
def polled (t : Time) (samples : List (Sample F)) : Option Box :=
  samples.foldr (pollAndBump cfg) (some ⟨.running, 0, t⟩)

/-- Length of the latest busy run. -/
def busyRun (samples : List (Sample F)) : ℕ := (samples.takeWhile (busy cfg)).length

/-- The latest `busyDebounceSamples` samples were successful and busy. -/
def LatestBusy (samples : List (Sample F)) : Prop :=
  ∀ i < busyDebounceSamples, ∃ act now, samples[i]? = some (.ok act, now) ∧ isBusy cfg act = true

theorem le_length_takeWhile {α : Type*} (p : α → Bool) (n : ℕ) (l : List α) :
    n ≤ (l.takeWhile p).length ↔ ∀ i < n, ∃ x, l[i]? = some x ∧ p x = true := by
  induction l generalizing n with
  | nil =>
    cases n with
    | zero => simp
    | succ n =>
      refine iff_of_false (by simp) fun h => ?_
      obtain ⟨x, hx, -⟩ := h 0 (Nat.succ_pos n)
      cases hx
  | cons x l ih =>
    cases n with
    | zero => simp
    | succ n =>
      rw [List.takeWhile_cons, Nat.forall_lt_succ_left]
      cases hx : p x with
      | false => simp [hx]
      | true => simpa [hx] using ih n

theorem latestBusy_iff (samples : List (Sample F)) :
    LatestBusy cfg samples ↔ busyDebounceSamples ≤ busyRun cfg samples := by
  rw [busyRun, le_length_takeWhile]
  refine forall₂_congr fun i _ => ⟨fun ⟨act, now, hi, hb⟩ => ⟨_, hi, hb⟩, ?_⟩
  rintro ⟨⟨_ | act, now⟩, hi, hb⟩
  · cases hb
  · exact ⟨act, now, hi, hb⟩

theorem applyBusySample_run (samples : List (Sample F)) (x : Sample F) :
    applyBusySample (min busyDebounceSamples (busyRun cfg samples)) (busy cfg x) =
      (min busyDebounceSamples (busyRun cfg (x :: samples)),
        decide (busyDebounceSamples ≤ busyRun cfg (x :: samples))) := by
  rw [busyRun, busyRun, List.takeWhile_cons]
  cases busy cfg x with
  | false => rfl
  | true =>
    rw [applyBusySample, if_neg (by decide), if_pos rfl, List.length_cons]
    by_cases h : busyDebounceSamples ≤ (samples.takeWhile (busy cfg)).length + 1
    · rw [if_pos (by omega), min_eq_left h, decide_eq_true h]
    · rw [if_neg (by omega), min_eq_right (by omega), min_eq_right (by omega), decide_eq_false h]

/-- **A sample refreshes `LastActiveAt` exactly when it and those just before it, `busyDebounceSamples` in all, were
successful and busy**; the streak is the length of the busy run, up to `busyDebounceSamples`. -/
theorem polled_samples (t : Time) (samples : List (Sample F)) (x : Sample F) :
    ∃ before after : Time,
      polled cfg t samples = some ⟨.running, min busyDebounceSamples (busyRun cfg samples), before⟩ ∧
      polled cfg t (x :: samples) = some ⟨.running, min busyDebounceSamples (busyRun cfg (x :: samples)), after⟩ ∧
      (LatestBusy cfg (x :: samples) → after = x.2) ∧ (¬ LatestBusy cfg (x :: samples) → after = before) := by
  have hstep : ∀ samples x before,
      polled cfg t samples = some ⟨.running, min busyDebounceSamples (busyRun cfg samples), before⟩ →
      polled cfg t (x :: samples) = some ⟨.running, min busyDebounceSamples (busyRun cfg (x :: samples)),
        if busyDebounceSamples ≤ busyRun cfg (x :: samples) then x.2 else before⟩ := by
    intro samples x before h
    rw [polled, List.foldr_cons, ← polled, h]
    simp [pollAndBump, applyBusySample_run]
  have hrun : ∃ before, polled cfg t samples =
      some ⟨.running, min busyDebounceSamples (busyRun cfg samples), before⟩ := by
    induction samples with
    | nil => exact ⟨t, rfl⟩
    | cons y samples ih => exact ih.elim fun before h => ⟨_, hstep samples y before h⟩
  obtain ⟨before, h⟩ := hrun
  rw [latestBusy_iff]
  exact ⟨before, _, h, hstep samples x before h, fun hl => if_pos hl, fun hl => if_neg hl⟩

end Wrenn.Sandbox.Debounce
