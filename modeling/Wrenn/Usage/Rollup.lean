import Mathlib.Data.List.Nodup
import Mathlib.Data.List.Range
import Mathlib.Data.Int.Notation
import Wrenn.Lib.Runs

/-!
# Daily usage

The sampler takes a snapshot of what each team has reserved every ten seconds.  `DailyUsageRollup` adds up the
snapshots of yesterday and files the sums in `daily_usage`; `GetUsage` reads the days before today from there and
adds up the snapshots of today itself.  A day that was never yesterday when a rollup ran is not filed.

Times are in microseconds since 1970, and days are numbered.  Usage is in sixths of a minute, the ten seconds of a
snapshot; the rounding of the sums to four decimals, which both readers share, is left out.
-/

namespace Wrenn.Usage.Rollup

open Lib.Runs

/-! ### Snapshots and days -/

def dayOf (t : ℤ) : ℤ := t / 86400000000

structure Snapshot where
  team : ℕ
  sampledAt : ℤ
  vcpus : ℕ
  memory : ℕ
  deriving DecidableEq, Repr

structure Totals where
  cpu : ℕ
  ram : ℕ
  deriving DecidableEq, Repr

def ofDay (team : ℕ) (day : ℤ) (r : Snapshot) : Bool :=
  decide (r.team = team ∧ day * 86400000000 ≤ r.sampledAt ∧ r.sampledAt < (day + 1) * 86400000000)

def computeDailyUsageForDay (rows : List Snapshot) (team : ℕ) (day : ℤ) : Totals :=
  (rows.filter (ofDay team day)).foldl (fun u r => ⟨u.cpu + r.vcpus, u.ram + r.memory⟩) ⟨0, 0⟩

/-- The goroutine of the rollup: the teams that are left, and the sums of the first of them, once it has them.  A run
is `whole` if it listed the teams on the day after `day` and none of its statements has failed. -/
inductive Run
  | idle
  | listed (teams : List ℕ) (onDay : ℤ)
  | rolling (day : ℤ) (teams : List ℕ) (sums : Option Totals) (whole : Bool)
  deriving DecidableEq, Repr

structure State where
  now : ℤ
  /-- `sandbox_metrics_snapshots` -/
  snapshots : List Snapshot
  /-- `daily_usage` -/
  daily : ℕ → ℤ → Option Totals
  run : Run
  /-- the snapshots that were ever taken -/
  sampled : List Snapshot
  /-- the last day for which a whole run came to its end; to begin with, the day before the first -/
  rolled : ℤ

def getTeamsWithSnapshots (s : State) : List ℕ :=
  ((s.snapshots.filter fun r => decide (s.now - 93 * 86400000000 < r.sampledAt)).map Snapshot.team).eraseDups

def upsertDailyUsage (s : State) (team : ℕ) (day : ℤ) (u : Totals) : State :=
  { s with daily := fun t d => if t = team ∧ d = day then some u else s.daily t d }

/-- The next statement of `run`, which succeeds or fails. -/
def State.next (s : State) (ok : Bool) : State :=
  match s.run with
  | .idle => if ok then { s with run := .listed (getTeamsWithSnapshots s) (dayOf s.now) } else s
  | .listed teams onDay =>
    { s with run := .rolling (dayOf s.now - 1) teams none (decide (onDay = dayOf s.now)) }
  | .rolling day [] _ whole => { s with run := .idle, rolled := if whole then day else s.rolled }
  | .rolling day (team :: teams) sums whole =>
    match ok, sums with
    | false, _ => { s with run := .rolling day teams none false }
    | true, none =>
      { s with run := .rolling day (team :: teams) (some (computeDailyUsageForDay s.snapshots team day)) whole }
    | true, some u => { upsertDailyUsage s team day u with run := .rolling day teams none whole }

inductive Act
  | sample (team vcpus memory : ℕ)
  /-- `PruneOldMetrics` -/
  | prune
  | tick (d : ℕ)
  | run (ok : Bool)
  /-- the control plane goes down; it starts with a run when it comes back -/
  | down
  deriving DecidableEq, Repr

def step (s : State) : Act → Option State
  | .sample team vcpus memory =>
    some { s with
      snapshots := s.snapshots ++ [⟨team, s.now, vcpus, memory⟩]
      sampled := s.sampled ++ [⟨team, s.now, vcpus, memory⟩] }
  | .prune => some { s with
      snapshots := s.snapshots.filter fun r => decide (s.now - 60 * 86400000000 ≤ r.sampledAt) }
  | .tick d => some { s with now := s.now + d }
  | .run ok => some (s.next ok)
  | .down => some { s with run := .idle }

def start (now : ℤ) : State := ⟨now, [], fun _ _ => none, .idle, [], dayOf now - 1⟩

structure Point where
  day : ℤ
  usage : Totals
  deriving DecidableEq, Repr

/-- The rows of the days `a` to `b`, in their order. -/
def getDailyUsage (s : State) (team : ℕ) (a b : ℤ) : List Point :=
  (List.range (b - a + 1).toNat).filterMap fun (i : ℕ) => (s.daily team (a + i)).map (Point.mk (a + i))

/-- `GetUsage` for the days `a` to `b`. -/
def getUsage (s : State) (team : ℕ) (a b : ℤ) : List Point :=
  getDailyUsage s team a (if b < dayOf s.now then b else dayOf s.now - 1) ++
    if dayOf s.now ≤ b ∧ a ≤ dayOf s.now then
      [⟨dayOf s.now, computeDailyUsageForDay s.snapshots team (dayOf s.now)⟩]
    else []

/-! ### What holds in a run -/

/-- Midnight passes only when a whole run for the day before today has come to its end. -/
def rolledDaily (s : State) : Act → Bool
  | .tick d => decide (dayOf (s.now + d) = dayOf s.now ∨
      dayOf (s.now + d) = dayOf s.now + 1 ∧ s.rolled = dayOf s.now - 1)
  | _ => true

variable {s s' : State} {team : ℕ} {day a b : ℤ}

/-- What is left for the run: every team of a day's snapshots is ahead of it or filed. -/
def RunOk (s : State) : Run → Prop
  | .idle => True
  | .listed teams onDay => onDay ≤ dayOf s.now ∧
      ∀ team, s.sampled.filter (ofDay team (onDay - 1)) ≠ [] → team ∈ teams
  | .rolling day teams sums whole => (dayOf s.now - 2 ≤ day ∧ s.rolled ≤ day ∧ day < dayOf s.now) ∧
      (∀ u ∈ sums, ∀ team ∈ teams.head?, u = computeDailyUsageForDay s.sampled team day) ∧
      (whole = true → ∀ team, s.sampled.filter (ofDay team day) ≠ [] → team ∈ teams ∨ s.daily team day ≠ none)

structure Filed (s : State) : Prop where
  kept : ∀ team day, dayOf s.now - 2 ≤ day →
    s.snapshots.filter (ofDay team day) = s.sampled.filter (ofDay team day)
  sound : ∀ team day u, s.daily team day = some u →
    day < dayOf s.now ∧ u = computeDailyUsageForDay s.sampled team day
  complete : ∀ team day, day ≤ s.rolled → s.sampled.filter (ofDay team day) ≠ [] → s.daily team day ≠ none
  recent : dayOf s.now - 2 ≤ s.rolled ∧ s.rolled < dayOf s.now
  run : RunOk s s.run

theorem ofDay_iff {r : Snapshot} : ofDay team day r = true ↔ r.team = team ∧ dayOf r.sampledAt = day := by
  simp only [ofDay, dayOf, decide_eq_true_eq]
  omega

theorem computeDaily_congr {rows rows' : List Snapshot}
    (h : rows'.filter (ofDay team day) = rows.filter (ofDay team day)) :
    computeDailyUsageForDay rows' team day = computeDailyUsageForDay rows team day := by
  rw [computeDailyUsageForDay, h, ← computeDailyUsageForDay]

/-- The rollup is not disturbed by what leaves the past days alone.  When midnight passes, a run under way is for the
last day that is filed. -/
theorem Filed.frame (h : Filed s) (hday : dayOf s'.now = dayOf s.now ∨
      dayOf s'.now = dayOf s.now + 1 ∧ s.rolled = dayOf s.now - 1)
    (hdaily : s'.daily = s.daily) (hrun : s'.run = s.run) (hrolled : s'.rolled = s.rolled)
    (hpast : ∀ team day, day < dayOf s.now →
      s'.sampled.filter (ofDay team day) = s.sampled.filter (ofDay team day))
    (hkept : ∀ team day, dayOf s'.now - 2 ≤ day →
      s'.snapshots.filter (ofDay team day) = s'.sampled.filter (ofDay team day)) : Filed s' := by
  obtain ⟨-, hsound, hcomplete, hrecent, hok⟩ := h
  refine ⟨hkept, fun team day u hu => ?_, fun team day hle hrows => ?_, by omega, ?_⟩
  · obtain ⟨hlt, hu⟩ := hsound team day u (hdaily ▸ hu)
    exact ⟨by omega, hu.trans (computeDaily_congr (hpast team day hlt)).symm⟩
  · rw [hdaily]
    exact hcomplete team day (by omega) (hpast team day (by omega) ▸ hrows)
  · rw [hrun]
    cases hr : s.run with
    | idle => trivial
    | listed teams onDay =>
      rw [hr] at hok
      obtain ⟨hle, hall⟩ := hok
      exact ⟨by omega, fun team hrows => hall team (hpast team (onDay - 1) (by omega) ▸ hrows)⟩
    | rolling day teams sums whole =>
      rw [hr] at hok
      obtain ⟨hdays, hsums, hall⟩ := hok
      refine ⟨by omega, fun u hu team ht => ?_, fun hw team hrows => ?_⟩
      · rw [hsums u hu team ht]
        exact (computeDaily_congr (hpast team day hdays.2.2)).symm
      · rw [hdaily]
        exact hall hw team (hpast team day hdays.2.2 ▸ hrows)

/-- The teams of yesterday's snapshots are listed. -/
theorem mem_getTeams (h : Filed s) (hrows : s.sampled.filter (ofDay team (dayOf s.now - 1)) ≠ []) :
    team ∈ getTeamsWithSnapshots s := by
  rw [← h.kept team _ (by omega)] at hrows
  obtain ⟨r, hr⟩ := List.exists_mem_of_ne_nil _ hrows
  obtain ⟨hmem, hof⟩ := List.mem_filter.mp hr
  obtain ⟨rfl, hday⟩ := ofDay_iff.mp hof
  refine List.mem_eraseDups.mpr (List.mem_map.mpr ⟨r, List.mem_filter.mpr ⟨hmem, ?_⟩, rfl⟩)
  simp only [dayOf] at hday
  simp only [decide_eq_true_eq]
  omega

theorem filed_next (h : Filed s) (ok : Bool) : Filed (s.next ok) := by
  have hset : ∀ {ru}, RunOk s ru → Filed { s with run := ru } := fun hru =>
    ⟨h.kept, h.sound, h.complete, h.recent, hru⟩
  have hrun := h.run
  have hrecent := h.recent
  unfold State.next
  split <;> rename_i hr <;> rw [hr] at hrun
  · split_ifs
    · exact hset ⟨by omega, fun team => mem_getTeams h⟩
    · exact h
  · refine hset ⟨by omega, (by rintro _ ⟨⟩), fun hw team hrows => .inl (hrun.2 team ?_)⟩
    rwa [of_decide_eq_true hw]
  · -- the run ends, and with it every day up to its own is filed
    rename_i day sums whole
    obtain ⟨hdays, -, hall⟩ := hrun
    cases whole with
    | false => exact hset trivial
    | true =>
      refine ⟨h.kept, h.sound, fun team day' (hle : day' ≤ day) hrows => ?_, ⟨hdays.1, hdays.2.2⟩, trivial⟩
      by_cases hd : day' = day
      · rw [hd] at hrows ⊢
        exact (hall rfl team hrows).resolve_left List.not_mem_nil
      · exact h.complete team day' (by omega) hrows
  · rename_i day team teams sums whole
    obtain ⟨hdays, hsums, hall⟩ := hrun
    split
    · exact hset ⟨hdays, (by rintro _ ⟨⟩), (by rintro ⟨⟩)⟩
    · refine hset ⟨hdays, ?_, hall⟩
      rintro _ ⟨⟩ _ ⟨⟩
      exact computeDaily_congr (h.kept team day hdays.1)
    · rename_i u
      refine ⟨h.kept, fun t d u' hu' => ?_, fun t d hle hrows => ?_, hrecent, hdays, (by rintro _ ⟨⟩),
        fun hw t hrows => ?_⟩
      all_goals simp only [upsertDailyUsage] at *
      all_goals split_ifs at * with hc
      · cases hu'
        obtain ⟨rfl, rfl⟩ := hc
        exact ⟨hdays.2.2, hsums _ rfl _ rfl⟩
      · exact h.sound t d u' hu'
      · simp
      · exact h.complete t d hle hrows
      · simp
      · exact (hall hw t hrows).imp_left fun hm => (List.mem_cons.mp hm).resolve_left fun he => hc ⟨he, trivial⟩

theorem filed_step {act : Act} (h : Filed s) (hok : rolledDaily s act = true) (hs : step s act = some s') :
    Filed s' := by
  cases act with
  | sample team vcpus memory =>
    cases hs
    refine h.frame (.inl rfl) rfl rfl rfl (fun t d hd => ?_) fun t d hd => ?_
    · have hno : ofDay t d ⟨team, s.now, vcpus, memory⟩ = false :=
        Bool.eq_false_iff.mpr fun hr => Int.ne_of_gt hd (ofDay_iff.mp hr).2
      rw [List.filter_append, List.filter_singleton, hno, Bool.cond_false, List.append_nil]
    · rw [List.filter_append, List.filter_append, h.kept t d hd]
  | prune =>
    cases hs
    refine h.frame (.inl rfl) rfl rfl rfl (fun _ _ _ => rfl) fun t d (hd : dayOf s.now - 2 ≤ d) => ?_
    rw [← h.kept t d hd, List.filter_filter]
    refine List.filter_congr fun r _ => ?_
    cases hr : ofDay t d r with
    | false => rfl
    | true =>
      have hof := (ofDay_iff.mp hr).2
      simp only [dayOf] at hof hd
      simp only [Bool.true_and, decide_eq_true_eq]
      omega
  | tick d =>
    cases hs
    have hday := of_decide_eq_true hok
    refine h.frame hday rfl rfl rfl (fun _ _ _ => rfl) fun t d' (hd : dayOf (s.now + d) - 2 ≤ d') => ?_
    exact h.kept t d' (by omega)
  | run ok =>
    cases hs
    exact filed_next h ok
  | down =>
    cases hs
    exact ⟨h.kept, h.sound, h.complete, h.recent, trivial⟩

/-! ### What `GetUsage` returns -/

theorem mem_getDailyUsage {p : Point} :
    p ∈ getDailyUsage s team a b ↔ s.daily team p.day = some p.usage ∧ a ≤ p.day ∧ p.day ≤ b := by
  simp only [getDailyUsage, List.mem_filterMap, List.mem_range, Option.map_eq_some_iff]
  constructor
  · rintro ⟨i, hi, u, hu, rfl⟩
    exact ⟨hu, by simp only; omega, by simp only; omega⟩
  · rintro ⟨hu, ha, hb⟩
    have hi : a + ((p.day - a).toNat : ℤ) = p.day := by omega
    exact ⟨(p.day - a).toNat, by omega, p.usage, by rw [hi]; exact hu, by rw [hi]⟩

theorem nodup_getDailyUsage : ((getDailyUsage s team a b).map Point.day).Nodup := by
  rw [getDailyUsage, List.map_filterMap]
  refine List.Nodup.filterMap (fun i j d hi hj => ?_) List.nodup_range
  simp only [Option.map_map, Option.mem_def, Option.map_eq_some_iff, Function.comp_apply] at hi hj
  obtain ⟨-, -, rfl⟩ := hi
  obtain ⟨-, -, hj⟩ := hj
  omega

/-- **Usage is complete.**  In runs in which a whole rollup for yesterday comes to its end on every day, `GetUsage`
returns, once it has, one point for each requested day that has snapshots, with what they add up to. -/
theorem reach_usage_complete {now : ℤ}
    (h : Reach step (fun s act => rolledDaily s act = true) (fun s => s = start now) s)
    (hrolled : s.rolled = dayOf s.now - 1) :
    ((getUsage s team a b).map Point.day).Nodup ∧
      ∀ day, a ≤ day → day ≤ b → day ≤ dayOf s.now → s.sampled.filter (ofDay team day) ≠ [] →
        ⟨day, computeDailyUsageForDay s.sampled team day⟩ ∈ getUsage s team a b := by
  have hf : Filed s := by
    refine h.invariant (I := Filed) (fun s h0 => ?_) fun s act s' hi hok hs => filed_step hi hok hs
    rw [h0]
    refine ⟨fun _ _ _ => rfl, fun _ _ _ h => (by cases h), fun _ _ _ h => absurd rfl h, ?_, trivial⟩
    simp only [start]
    omega
  unfold getUsage
  constructor
  · rw [List.map_append, List.nodup_append]
    refine ⟨nodup_getDailyUsage, by split_ifs <;> simp, fun d hd d' hd' => ?_⟩
    obtain ⟨p, hp, rfl⟩ := List.mem_map.mp hd
    have hlt := (hf.sound _ _ _ (mem_getDailyUsage.mp hp).1).1
    split_ifs at hd'
    · rw [List.map_singleton] at hd'
      rw [List.mem_singleton.mp hd']
      exact Int.ne_of_lt hlt
    · cases hd'
  · intro day ha hb hle hrows
    rw [List.mem_append]
    by_cases hday : day = dayOf s.now
    · right
      rw [if_pos ⟨hday ▸ hb, hday ▸ ha⟩, hday, computeDaily_congr (hf.kept team _ (by omega))]
      exact List.mem_singleton_self _
    · left
      obtain ⟨u, hu⟩ := Option.ne_none_iff_exists'.mp (hf.complete team day (by omega) hrows)
      rw [(hf.sound team day u hu).2] at hu
      exact mem_getDailyUsage.mpr ⟨hu, ha, by split_ifs <;> (simp only; omega)⟩

/-- A whole run for one team: the list, the day, the sums, the upsert, the end. -/
def rollupRun : List Act := [.run true, .run true, .run true, .run true, .run true]

/-- Two snapshots on day 0 and one on day 1, with a run after midnight. -/
def dailyRun : List Act :=
  ([.sample 7 2 512, .tick 10000000, .sample 7 2 512, .tick 86400000000] : List Act) ++ rollupRun ++
    ([.sample 7 4 512] : List Act)

theorem dailyRun_complete :
    ⟨0, ⟨4, 1024⟩⟩ ∈ getUsage (last step (start 0) dailyRun) 7 0 1 ∧
      ⟨1, ⟨4, 512⟩⟩ ∈ getUsage (last step (start 0) dailyRun) 7 0 1 := by
  have hadm : Admits step (fun s act => rolledDaily s act = true) (start 0) dailyRun := by decide +kernel
  have hall := (@reach_usage_complete _ 7 0 1 _ (.last rfl hadm) (by decide +kernel)).2
  exact ⟨hall 0 (by decide) (by decide) (by decide +kernel) (by decide +kernel),
    hall 1 (by decide) (by decide) (by decide +kernel) (by decide +kernel)⟩

/-- **Days are missing.**  Of a snapshot on day 0, `GetUsage` knows nothing on day 1 before the first run, and nothing
from day 2 on if the control plane was down for the whole of day 1, however often the rollup runs. -/
theorem day_missing :
    (exec step (start 0) [.sample 7 2 512, .tick 86400000000]).map (fun s => (getUsage s 7 0 1).map Point.day) =
        some [1] ∧
      (exec step (start 0) (([.sample 7 2 512, .down, .tick 172800000000] : List Act) ++ rollupRun)).map
        (fun s => (s.rolled, getUsage s 7 0 2)) = some (1, [⟨1, ⟨0, 0⟩⟩, ⟨2, ⟨0, 0⟩⟩]) := by
  constructor <;> decide +kernel

end Wrenn.Usage.Rollup
