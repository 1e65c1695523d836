import Wrenn.Recipe.Healthcheck

/-!
# Running a healthcheck

`streamHealthcheck` starts a ticker with the interval and, if the number of retries is limited, a timer for the whole
check, and then waits: for the end of the build, for the timer, or for the next tick, on which it runs the command
once.  What it waits for and how an attempt ends is the environment's choice, a list of events.

The parser takes every duration and every number, and nothing else looks at them.

* `runs_iff`: the check can be run as it is meant exactly if the interval is positive and the time limit fits into
  64 bits.
-/

namespace Wrenn.Builds.Healthcheck

open Lib.Words
open Recipe.Healthcheck (Config parseHealthcheck wholeSeconds)

def wrap64 (x : ℤ) : ℤ := x.bmod (2 ^ 64)

/-- The timer, if there is one: `hc.StartPeriod + time.Duration(hc.Retries+1)*hc.Interval`. -/
def deadline (hc : Config) : Option ℤ :=
  if 0 < hc.retries then some (wrap64 (hc.startPeriod + wrap64 (wrap64 (hc.retries + 1) * hc.interval))) else none

inductive Event where
  | ctxDone
  | deadline
  /-- An attempt that ends `elapsed` after the start, without an exit code if it never completed. -/
  | tick (exit : Option ℤ) (elapsed : ℤ)
  deriving DecidableEq

inductive Ending where
  | success
  | cancelled
  | timedOut
  | retriesExhausted
  /-- The events are used up. -/
  | waiting
  deriving DecidableEq

structure Result where
  attempts : ℕ
  failCount : ℕ
  ending : Ending
  deriving DecidableEq

/-- The `for` loop, after some attempts of which `failCount` count. -/
def loop (hc : Config) (attempts failCount : ℕ) : List Event → Result
  | [] => ⟨attempts, failCount, .waiting⟩
  | .ctxDone :: _ => ⟨attempts, failCount, .cancelled⟩
  | .deadline :: evs =>
    if (deadline hc).isSome then ⟨attempts, failCount, .timedOut⟩ else loop hc attempts failCount evs
  | .tick exit elapsed :: evs =>
    if exit = some 0 then ⟨attempts + 1, failCount, .success⟩
    else if hc.startPeriod ≤ elapsed then
      if 0 < hc.retries ∧ hc.retries ≤ failCount + 1 then ⟨attempts + 1, failCount + 1, .retriesExhausted⟩
      else loop hc (attempts + 1) (failCount + 1) evs
    else loop hc (attempts + 1) failCount evs

/-- `time.NewTicker` panics for an interval that is not positive. -/
def streamHealthcheck (hc : Config) (evs : List Event) : Option Result :=
  if hc.interval ≤ 0 then none else some (loop hc 0 0 evs)

/-! ### The loop -/

/-- The attempts that count: they failed, and not before the start period was over. -/
def counts (hc : Config) : Event → Bool
  | .tick exit elapsed => decide (exit ≠ some 0) && decide (hc.startPeriod ≤ elapsed)
  | _ => false

/-- The loop has taken some of the events, has counted exactly the failures that count, and has succeeded only on an
exit code of zero. -/
structure Faithful (hc : Config) (n : ℕ) (evs : List Event) (res : Result) : Prop where
  counted : ∃ taken rest, evs = taken ++ rest ∧ res.failCount = n + taken.countP (counts hc)
  success : res.ending = .success → ∃ elapsed, .tick (some 0) elapsed ∈ evs

variable {hc : Config} {evs : List Event} {e : Event} {n m : ℕ} {res : Result}

theorem Faithful.cons (hm : m = n + if counts hc e then 1 else 0) (h : Faithful hc m evs res) :
    Faithful hc n (e :: evs) res := by
  obtain ⟨taken, rest, rfl, hcount⟩ := h.counted
  refine ⟨⟨e :: taken, rest, rfl, ?_⟩, fun hs => ?_⟩
  · rw [List.countP_cons, hcount, hm]
    omega
  · obtain ⟨elapsed, hmem⟩ := h.success hs
    exact ⟨elapsed, List.mem_cons_of_mem _ hmem⟩

/-- A loop that stops at an event. -/
theorem Faithful.stop (hm : res.failCount = n + if counts hc e then 1 else 0)
    (hs : res.ending = .success → ∃ elapsed, e = .tick (some 0) elapsed) : Faithful hc n (e :: evs) res := by
  refine ⟨⟨[e], evs, rfl, by rw [hm]; simp [List.countP_cons]⟩, fun h => ?_⟩
  obtain ⟨elapsed, rfl⟩ := hs h
  exact ⟨elapsed, List.mem_cons_self⟩

theorem loop_faithful (attempts : ℕ) : Faithful hc n evs (loop hc attempts n evs) := by
  induction evs generalizing attempts n with
  | nil => exact ⟨⟨[], [], rfl, rfl⟩, fun h => by cases h⟩
  | cons e evs ih =>
    cases e with
    | ctxDone => exact .stop rfl fun h => by cases h
    | deadline =>
      rw [loop]
      split_ifs
      · exact .stop rfl fun h => by cases h
      · exact .cons rfl (ih attempts)
    | tick exit elapsed =>
      rw [loop]
      split_ifs with hexit hstart hlast
      · exact .stop (by simp [counts, hexit]) fun _ => ⟨elapsed, by rw [hexit]⟩
      · exact .stop (by simp [counts, hexit, hstart]) fun h => by cases h
      · exact .cons (by simp [counts, hexit, hstart]) (ih (attempts + 1))
      · exact .cons (by simp [counts, hstart]) (ih (attempts + 1))

/-! ### The time limit -/

def limit (hc : Config) : ℤ := hc.startPeriod + (hc.retries + 1) * hc.interval

theorem deadline_eq (h : 0 < hc.retries) : deadline hc = some (wrap64 (limit hc)) := by
  rw [deadline, if_pos h, limit]
  unfold wrap64
  rw [Int.bmod_mul_bmod, Int.add_bmod_bmod]

theorem wrap64_eq_self_iff (x : ℤ) : wrap64 x = x ↔ -2 ^ 63 ≤ x ∧ x < 2 ^ 63 := by
  unfold wrap64
  rw [Int.bmod_eq_iff (by decide)]
  simp

/-- **A healthcheck that the parser accepts** can be run as it is meant exactly if its interval is positive and its
time limit, if it has one, is a number of 64 bits. -/
theorem runs_iff {parseDuration : Text → Option ℤ} {s : Text} (_ : parseHealthcheck parseDuration s = .ok hc) :
    (∀ evs, ∃ res, streamHealthcheck hc evs = some res ∧ (∀ d ∈ deadline hc, d = limit hc) ∧ Faithful hc 0 evs res) ↔
      0 < hc.interval ∧ (0 < hc.retries → -2 ^ 63 ≤ limit hc ∧ limit hc < 2 ^ 63) := by
  constructor
  · intro h
    obtain ⟨res, hres, hlimit, -⟩ := h []
    constructor
    · by_contra hint
      rw [streamHealthcheck, if_pos (Int.not_lt.mp hint)] at hres
      cases hres
    · intro hr
      exact (wrap64_eq_self_iff _).mp (hlimit _ (deadline_eq hr))
  · rintro ⟨hint, hlimit⟩ evs
    refine ⟨_, if_neg (Int.not_le.mpr hint), fun d hd => ?_, loop_faithful 0⟩
    by_cases hr : 0 < hc.retries
    · rw [deadline_eq hr] at hd
      cases hd
      exact (wrap64_eq_self_iff _).mpr (hlimit hr)
    · rw [deadline, if_neg hr] at hd
      cases hd

theorem limited_check_runs : ∃ hc, parseHealthcheck wholeSeconds "--interval=5s --retries=3 true".toList = .ok hc ∧
    ∀ evs, ∃ res, streamHealthcheck hc evs = some res ∧ (∀ d ∈ deadline hc, d = limit hc) ∧ Faithful hc 0 evs res := by
  have h : parseHealthcheck wholeSeconds "--interval=5s --retries=3 true".toList =
      .ok ⟨"true".toList, 5 * 10 ^ 9, 10 * 10 ^ 9, 0, 3⟩ := by
    decide +kernel
  exact ⟨_, h, (runs_iff h).mpr (by decide)⟩

/-- The parser accepts an interval of zero, for which there is no ticker. -/
theorem zero_interval_panics : ∃ hc, parseHealthcheck wholeSeconds "--interval=0s true".toList = .ok hc ∧
    streamHealthcheck hc [] = none :=
  ⟨⟨"true".toList, 0, 10 * 10 ^ 9, 0, 0⟩, by decide +kernel, by decide⟩

end Wrenn.Builds.Healthcheck
