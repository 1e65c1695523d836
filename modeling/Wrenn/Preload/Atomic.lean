import Wrenn.Lib.Runs
import Wrenn.Lib.Threads
import Wrenn.Preload.Envd

/-!
# The preloader of a guest, step by step

`Envd` takes every request for one step.  Here each load and each store of an atomic is a step, and so is each
section under the error mutex: the start or restart of a run by `POST /memory/preload`, the reset by `/init`, and
the publication of a result.  A status is read flag by flag.  A loader thread is spawned after the section that
claims its run, and looks at the cancel flag and at the generation before every page.

A thread that a pause freezes is one that makes no step for a while.  The counters in the status, which do not
enter its state, are left out.

With nothing between its steps a handler does what its step in `Envd` does: `request_alone`,
`loader_alone` and `publish_alone`.  `one_loader` is what the sections guarantee: one loader of the current
generation, and none of another one that publishes or reads on.
-/

namespace Wrenn.Preload.Atomic

open Lib.Runs Lib.Threads
open Envd (Guest Io Lane Outcome Source)

/-! ### The flags -/

structure Core where
  iomem : List ℕ
  started : Bool
  done : Bool
  cancel : Bool
  generation : ℕ
  error : Option String
  lifecycleID : Option ℕ
  /-- the generations of the runs whose threads are about to come to life -/
  spawning : List ℕ
  /-- the generations in which a loader has walked all of its pages, and nobody had cancelled the run -/
  loaded : List ℕ
  deriving DecidableEq, Repr

/-- `AppState::new` -/
def Core.new (iomem : List ℕ) : Core := ⟨iomem, false, false, false, 0, none, none, [], []⟩

/-- `reset_preload_run` -/
def Core.resetPreloadRun (k : Core) : Core := { k with error := none, done := false }

/-- `fresh || retry` -/
def Core.startsRun (k : Core) : Bool := !k.started || (k.done && (k.error.isSome || k.cancel))

/-- The section of `post_memory_preload`, if it starts a run. -/
def Core.startRun (k : Core) : Core := { k.resetPreloadRun with started := true, cancel := false }

/-- The section of `post_init`. -/
def Core.newLifecycle (k : Core) : Core :=
  { k.resetPreloadRun with generation := k.generation + 1, cancel := false, started := false }

def Core.changesLifecycle (k : Core) (id : ℕ) : Bool := k.lifecycleID.any fun existing => decide (existing ≠ id)

/-- The section at the end of a loader thread. -/
def Core.publish (k : Core) (generation : ℕ) (o : Outcome) : Core :=
  if k.generation = generation then
    match o with
    | .ok _ _ _ full =>
      { k with error := none, done := true,
               loaded := if full && !k.cancel then generation :: k.loaded else k.loaded }
    | .err e => { k with error := some e, done := true }
  else k

/-! ### Requests and loaders -/

/-- A loader thread in one of its two walks. -/
structure Walk where
  generation : ℕ
  source : Source
  devmemErr : String
  left : ℕ
  pages : ℕ
  /-- the pages read when the generation was not the current one -/
  late : ℕ
  deriving DecidableEq, Repr

/-- The outcome of a walk that stops at a flag. -/
def Walk.stopped (w : Walk) (iomem : List ℕ) : Outcome := .ok w.source iomem.length w.pages false

/-- The outcome of a walk that has come to its end. -/
def Walk.finished (w : Walk) (iomem : List ℕ) : Outcome :=
  if w.source = .kcore ∧ w.pages = 0 then
    .err ("/dev/mem: " ++ w.devmemErr ++ "; /proc/kcore: kcore walk read no pages (" ++
      toString iomem.sum ++ " read errors)")
  else .ok w.source iomem.length w.pages true

/-- The number `e` of a status request is the generation in which it began. -/
inductive Proc
  | post (e : ℕ)
  | spawn (generation e : ℕ)
  | readStarted (e : ℕ)
  | readDone (started : Bool) (e : ℕ)
  | readCancel (started done : Bool) (e : ℕ)
  | readError (started done cancelled : Bool) (e : ℕ)
  | answered (lane : Lane) (e : ℕ)
  | cancel
  /-- `bump_lifecycle` -/
  | bump (id : ℕ)
  | reset
  | parse (generation : ℕ)
  | openDevMem (w : Walk)
  /-- the loop of a walk, about to load the cancel flag -/
  | check (w : Walk)
  /-- about to load the generation -/
  | checkGeneration (w : Walk)
  | read (w : Walk)
  | openKcore (w : Walk)
  | publish (generation late : ℕ) (o : Outcome)
  | ended
  deriving DecidableEq, Repr

/-- The state string of `read_status`. -/
def lane (started done cancelled failed : Bool) : Lane :=
  if !started then .idle
  else if !done then .running
  else if failed then .failed
  else if cancelled then .cancelled
  else .done

def Core.late (k : Core) (w : Walk) : ℕ := if k.generation = w.generation then w.late else w.late + 1

def run (k : Core) (io : Io) : Proc → Option (Core × Proc)
  | .post e => some (if k.startsRun then (k.startRun, .spawn k.generation e) else (k, .readStarted e))
  | .spawn generation e => some ({ k with spawning := generation :: k.spawning }, .readStarted e)
  | .readStarted e => some (k, .readDone k.started e)
  | .readDone started e => some (k, .readCancel started k.done e)
  | .readCancel started done e => some (k, .readError started done k.cancel e)
  | .readError started done cancelled e => some (k, .answered (lane started done cancelled k.error.isSome) e)
  | .cancel => some ({ k with cancel := true }, .ended)
  | .bump id => some ({ k with lifecycleID := some id }, if k.changesLifecycle id then .reset else .ended)
  | .reset => some (k.newLifecycle, .ended)
  | .parse generation =>
    match io with
    | .err e => some (k, .publish generation 0 (.err ("iomem: " ++ e)))
    | .ok =>
      some (k, if k.iomem.isEmpty then .publish generation 0 (.err "no System RAM ranges found in /proc/iomem")
        else .openDevMem ⟨generation, .devMem, "", k.iomem.sum, 0, 0⟩)
  | .openDevMem w =>
    match io with
    | .err e => some (k, .openKcore { w with devmemErr := e })
    | .ok => some (k, .check w)
  | .check w =>
    some (k, if w.left = 0 then .publish w.generation w.late (w.finished k.iomem)
      else if k.cancel then .publish w.generation w.late (w.stopped k.iomem)
      else .checkGeneration w)
  | .checkGeneration w =>
    some (k, if k.generation = w.generation then .read w else .publish w.generation w.late (w.stopped k.iomem))
  | .read w =>
    match io, w.source with
    | .ok, _ => some (k, .check { w with left := w.left - 1, pages := w.pages + 1, late := k.late w })
    -- an unreadable page ends the walk through /dev/mem and is skipped by the other
    | .err _, .kcore => some (k, .check { w with left := w.left - 1, late := k.late w })
    | .err e, _ => some (k, .openKcore { w with devmemErr := e, late := k.late w })
  | .openKcore w =>
    match io with
    | .err e => some (k, .publish w.generation w.late
        (.err ("/dev/mem: " ++ w.devmemErr ++ "; /proc/kcore: " ++ e)))
    | .ok => some (k, .check { w with source := .kcore, left := k.iomem.sum, pages := 0 })
  | .publish generation _ o => some (k.publish generation o, .ended)
  | .answered _ _ | .ended => none

inductive Call
  | getMemoryPreload
  | postMemoryPreload
  | postMemoryPreloadCancel
  | postInit (id : ℕ)
  /-- a spawned thread comes to life -/
  | loader
  deriving DecidableEq, Repr

def spawn (k : Core) : Call → Option (Core × Proc)
  | .getMemoryPreload => some (k, .readStarted k.generation)
  | .postMemoryPreload => some (k, .post k.generation)
  | .postMemoryPreloadCancel => some (k, .cancel)
  | .postInit id => some (k, .bump id)
  | .loader =>
    match k.spawning with
    | [] => none
    | generation :: rest => some ({ k with spawning := rest }, .parse generation)

def prog : Prog Core Proc Call Io Empty where
  spawn := spawn
  run := run
  halt := .ended
  env _ e := e.elim

abbrev State := Sys Core Proc

abbrev Act := Label Call Io Empty

def step : State → Act → Option State := prog.step

def Initial (s : State) : Prop := ∃ iomem, s = ⟨Core.new iomem, []⟩

/-! ### A handler that runs alone -/

/-- `n` steps of a process with nothing between them. -/
def alone : ℕ → Core → Io → Proc → Option (Core × Proc)
  | 0, k, _, p => some (k, p)
  | n + 1, k, io, p => (run k io p).bind fun r => alone n r.1 io r.2

/-- The flags of a guest. -/
structure Flags (k : Core) (g : Guest) : Prop where
  iomem : k.iomem = g.iomem
  started : k.started = g.started
  done : k.done = g.done
  cancel : k.cancel = g.cancel
  generation : k.generation = g.generation
  error : k.error = g.error
  lifecycleID : k.lifecycleID = g.lifecycleID

/-- Where the loader of a generation is. -/
inductive Walks (iomem : List ℕ) (generation : ℕ) : Envd.Pc → Proc → Prop
  | start : Walks iomem generation .start (.parse generation)
  | openDevMem : Walks iomem generation .openDevMem (.openDevMem ⟨generation, .devMem, "", iomem.sum, 0, 0⟩)
  | devMem (d : String) (left pages late : ℕ) :
    Walks iomem generation (.devMem left pages) (.check ⟨generation, .devMem, d, left, pages, late⟩)
  | openKcore (s : Source) (d : String) (left pages late : ℕ) :
    Walks iomem generation (.openKcore d) (.openKcore ⟨generation, s, d, left, pages, late⟩)
  | kcore (d : String) (left pages late : ℕ) :
    Walks iomem generation (.kcore d left pages) (.check ⟨generation, .kcore, d, left, pages, late⟩)
  | finished (late : ℕ) (o : Outcome) : Walks iomem generation (.finished o) (.publish generation late o)

section Alone

variable {k : Core} {g : Guest} {generation : ℕ} {pc : Envd.Pc} {p : Proc}

theorem Flags.startsRun (h : Flags k g) : k.startsRun = g.startsRun := by
  rw [Core.startsRun, Guest.startsRun, h.started, h.done, h.error, h.cancel]

theorem Flags.changesLifecycle (h : Flags k g) (id : ℕ) : k.changesLifecycle id = g.lifecycleChanged id := by
  rw [Core.changesLifecycle, Guest.lifecycleChanged, h.lifecycleID]
  cases g.lifecycleID with
  | none => rfl
  | some existing => by_cases he : existing = id <;> simp [he]

/-- **The requests.**  If nothing comes between its steps, a request leaves the flags as in `Envd`, starts a run when
it does so there, and gives the state that is read there. -/
theorem request_alone (h : Flags k g) (io : Io) (e vm id : ℕ) :
    (∃ n k', alone n k io (.post e) = some (k', .readStarted e) ∧ Flags k' (g.postMemoryPreload vm) ∧
      k'.spawning = if g.startsRun then g.generation :: k.spawning else k.spawning) ∧
    alone 4 k io (.readStarted e) = some (k, .answered g.readStatus.state e) ∧
    (∃ k', alone 1 k io .cancel = some (k', .ended) ∧ Flags k' g.postMemoryPreloadCancel) ∧
    ∃ n k', alone n k io (.bump id) = some (k', .ended) ∧ Flags k' (g.postInit id) := by
  refine ⟨?_, ?_, ⟨_, rfl, { h with cancel := rfl }⟩, ?_⟩
  · have hs := h.startsRun
    unfold Guest.postMemoryPreload
    cases hg : g.startsRun with
    | true =>
      rw [hg] at hs
      refine ⟨2, { k.startRun with spawning := k.generation :: k.spawning }, ?_, ?_, ?_⟩
      · simp only [alone, run, hs, if_true, Option.bind_some]
        rfl
      · exact ⟨h.iomem, rfl, rfl, rfl, h.generation, rfl, h.lifecycleID⟩
      · exact congrArg (· :: k.spawning) h.generation
    | false =>
      rw [hg] at hs
      exact ⟨1, k, by simp [alone, run, hs], h, rfl⟩
  · simp only [alone, run, Option.bind_some, lane, Guest.readStatus, h.started, h.done, h.cancel, h.error]
  · have hc := h.changesLifecycle id
    unfold Guest.postInit
    cases hg : g.lifecycleChanged id with
    | true =>
      rw [hg] at hc
      refine ⟨2, { k with lifecycleID := some id }.newLifecycle, ?_, ?_⟩
      · simp only [alone, run, hc, if_true, Option.bind_some]
      · exact ⟨h.iomem, rfl, rfl, rfl, congrArg (· + 1) h.generation, rfl, rfl⟩
    | false =>
      rw [hg] at hc
      refine ⟨1, { k with lifecycleID := some id }, by simp [alone, run, hc], ?_⟩
      exact ⟨h.iomem, h.started, h.done, h.cancel, h.generation, h.error, rfl⟩

theorem alone_succ {io : Io} {k' k'' : Core} {p' p'' : Proc} : ∀ {n : ℕ} {k : Core} {p : Proc},
    alone n k io p = some (k', p') → run k' io p' = some (k'', p'') → alone (n + 1) k io p = some (k'', p'')
  | 0, _, _, h, hr => by
    cases h
    rw [alone, hr]
    rfl
  | n + 1, k, p, h, hr => by
    rw [alone] at h ⊢
    obtain ⟨r, hs, h⟩ := Option.bind_eq_some_iff.mp h
    rw [hs]
    exact alone_succ h hr

/-- The looks at the two flags are `should_stop`. -/
theorem look_alone (h : Flags k g) (io : Io) (w : Walk) (hleft : w.left ≠ 0) :
    ∃ n, alone n k io (.check w) =
      some (k, if g.shouldStop w.generation then .publish w.generation w.late (w.stopped k.iomem) else .read w) := by
  rw [Guest.shouldStop, ← h.cancel, ← h.generation]
  by_cases hc : k.cancel = true
  · exact ⟨1, by simp [alone, run, hleft, hc]⟩
  · refine ⟨2, ?_⟩
    by_cases hgen : k.generation = w.generation <;> simp [alone, run, hleft, hc, hgen]

/-- **The loaders.**  If nothing comes between its looks at the flags and its read, a loader goes on as in `Envd`,
where the two looks and the read are one step. -/
theorem loader_alone (h : Flags k g) (io : Io) (hw : Walks k.iomem generation pc p)
    (hpc : ∀ o, pc ≠ .finished o) :
    ∃ n p', alone n k io p = some (k, p') ∧ Walks k.iomem generation (g.walk generation io pc) p' := by
  cases hw with
  | start =>
    cases io with
    | err e => exact ⟨1, _, rfl, .finished ..⟩
    | ok =>
      refine ⟨1, _, rfl, ?_⟩
      rw [Guest.walk, ← h.iomem]
      split_ifs
      · exact .finished ..
      · exact .openDevMem
  | openDevMem =>
    cases io with
    | err e => exact ⟨1, _, rfl, .openKcore ..⟩
    | ok =>
      refine ⟨1, _, rfl, ?_⟩
      rw [Guest.walk, ← h.iomem]
      exact .devMem ..
  | openKcore s d left pages late =>
    cases io with
    | err e => exact ⟨1, _, rfl, .finished ..⟩
    | ok =>
      refine ⟨1, _, rfl, ?_⟩
      rw [Guest.walk, ← h.iomem]
      exact .kcore ..
  | finished late o => exact absurd rfl (hpc o)
  | devMem d left pages late =>
    cases left with
    | zero =>
      refine ⟨1, _, rfl, ?_⟩
      rw [Guest.walk, ← h.iomem]
      exact .finished ..
    | succ left =>
      obtain ⟨n, hn⟩ := look_alone h io ⟨generation, .devMem, d, left + 1, pages, late⟩ (Nat.succ_ne_zero left)
      dsimp only [Guest.walk]
      rw [← h.iomem]
      split_ifs at hn ⊢
      · exact ⟨n, _, hn, .finished ..⟩
      · cases io with
        | err e => exact ⟨n + 1, _, alone_succ hn rfl, .openKcore ..⟩
        | ok => exact ⟨n + 1, _, alone_succ hn rfl, .devMem ..⟩
  | kcore d left pages late =>
    cases left with
    | zero =>
      refine ⟨1, _, rfl, ?_⟩
      rw [Guest.walk, ← h.iomem, if_pos rfl, Walk.finished]
      by_cases hp : pages = 0
      · simpa [hp] using .finished ..
      · simpa [hp] using .finished ..
    | succ left =>
      obtain ⟨n, hn⟩ := look_alone h io ⟨generation, .kcore, d, left + 1, pages, late⟩ (Nat.succ_ne_zero left)
      dsimp only [Guest.walk]
      rw [← h.iomem]
      split_ifs at hn ⊢
      · exact ⟨n, _, hn, .finished ..⟩
      · cases io with
        | err e => exact ⟨n + 1, _, alone_succ hn rfl, .kcore ..⟩
        | ok => exact ⟨n + 1, _, alone_succ hn rfl, .kcore ..⟩

/-- **The end of a loader**, one section here and one step in `Envd`. -/
theorem publish_alone (h : Flags k g) (io : Io) (late : ℕ) (o : Outcome) :
    ∃ k', alone 1 k io (.publish generation late o) = some (k', .ended) ∧ Flags k' (g.publish generation o) := by
  refine ⟨_, rfl, ?_⟩
  unfold Core.publish Guest.publish
  rw [h.generation]
  split_ifs
  · cases o <;> exact ⟨h.iomem, h.started, rfl, h.cancel, rfl, rfl, h.lifecycleID⟩
  · exact h

end Alone

/-! ### One loader -/

/-- The generation of a loader thread that has not published its result. -/
def loads : Proc → Option ℕ
  | .parse generation | .publish generation _ _ => some generation
  | .openDevMem w | .check w | .checkGeneration w | .read w | .openKcore w => some w.generation
  | _ => none

/-- The generation of a run that a request or a loader has in hand. -/
def claims : Proc → Option ℕ
  | .spawn generation _ => some generation
  | p => loads p

/-- The pages that a loader has read too late. -/
def lateness : Proc → ℕ
  | .publish _ late _ => late
  | .openDevMem w | .check w | .checkGeneration w | .read w | .openKcore w => w.late
  | _ => 0

/-- The number of runs of a generation. -/
def runs (k : Core) (threads : List Proc) (g : ℕ) : ℕ :=
  threads.countP (fun p => decide (claims p = some g)) + k.spawning.count g

structure Single (k : Core) (threads : List Proc) : Prop where
  known : ∀ p ∈ threads, ∀ g, claims p = some g → g ≤ k.generation
  spawning : ∀ g ∈ k.spawning, g ≤ k.generation
  one : runs k threads k.generation ≤ 1
  busy : runs k threads k.generation ≠ 0 → k.started = true ∧ k.done = false
  late : ∀ p ∈ threads, lateness p ≤ 1 ∧ (lateness p ≠ 0 → ∀ g, claims p = some g → g ≠ k.generation)
  /-- a loader that is about to read has seen the current generation -/
  onTime : ∀ p ∈ threads, ∀ w, p = .read w → w.late = 0

section Single

variable {k k' : Core} {p p' : Proc} {rest threads : List Proc} {io : Io}

theorem runs_cons (k : Core) (p : Proc) (rest : List Proc) (g : ℕ) :
    runs k (p :: rest) g = runs k rest g + if claims p = some g then 1 else 0 := by
  unfold runs
  rw [List.countP_cons]
  simp only [decide_eq_true_eq]
  omega

theorem runs_perm (hp : threads.Perm rest) (g : ℕ) : runs k threads g = runs k rest g := by
  unfold runs
  rw [hp.countP_eq]

theorem Single.perm (h : Single k threads) (hp : threads.Perm rest) : Single k rest := by
  have hsub : rest ⊆ threads := hp.symm.subset
  refine ⟨fun p hp => h.known p (hsub hp), h.spawning, ?_, ?_, fun p hp => h.late p (hsub hp),
    fun p hp => h.onTime p (hsub hp)⟩
  · rw [← runs_perm hp]
    exact h.one
  · rw [← runs_perm hp]
    exact h.busy

/-- The facts about a process alone. -/
structure Mild (k : Core) (p : Proc) : Prop where
  known : ∀ g, claims p = some g → g ≤ k.generation
  late : lateness p ≤ 1
  stale : lateness p ≠ 0 → ∀ g, claims p = some g → g ≠ k.generation
  onTime : ∀ w, p = .read w → w.late = 0

theorem Single.mild (h : Single k threads) (hp : p ∈ threads) : Mild k p :=
  ⟨h.known p hp, (h.late p hp).1, (h.late p hp).2, h.onTime p hp⟩

/-- The runs and the flags that go with them are to be looked at for the current generation only. -/
theorem single_cons (hmild : Mild k p) (hrest : ∀ q ∈ rest, Mild k q) (hspawning : ∀ g ∈ k.spawning, g ≤ k.generation)
    (hone : runs k (p :: rest) k.generation ≤ 1)
    (hbusy : runs k (p :: rest) k.generation ≠ 0 → k.started = true ∧ k.done = false) : Single k (p :: rest) := by
  refine ⟨fun q hq => ?_, hspawning, hone, hbusy, fun q hq => ?_, fun q hq => ?_⟩
  · rcases List.mem_cons.mp hq with rfl | hq
    · exact hmild.known
    · exact (hrest q hq).known
  · rcases List.mem_cons.mp hq with rfl | hq
    · exact ⟨hmild.late, hmild.stale⟩
    · exact ⟨(hrest q hq).late, (hrest q hq).stale⟩
  · rcases List.mem_cons.mp hq with rfl | hq
    · exact hmild.onTime
    · exact (hrest q hq).onTime

theorem Single.others (h : Single k (p :: rest)) : ∀ q ∈ rest, Mild k q :=
  fun _ hq => h.mild (List.mem_cons_of_mem _ hq)

theorem Single.one_cons (h : Single k (p :: rest)) :
    runs k rest k.generation + (if claims p = some k.generation then 1 else 0) ≤ 1 := runs_cons .. ▸ h.one

/-- A process moves on with its run, or lets go of it. -/
theorem Single.move (h : Single k (p :: rest)) (hc : claims p' = claims p ∨ claims p' = none) (hlate : lateness p' ≤ 1)
    (hstale : lateness p' ≠ 0 → ∀ g, claims p' = some g → g ≠ k.generation) (hon : ∀ w, p' = .read w → w.late = 0) :
    Single k (p' :: rest) := by
  have hle : runs k (p' :: rest) k.generation ≤ runs k (p :: rest) k.generation := by
    rw [runs_cons, runs_cons]
    rcases hc with hc | hc
    · rw [hc]
    · rw [hc]
      simp
  refine single_cons ⟨fun g hg => ?_, hlate, hstale, hon⟩ h.others h.spawning (hle.trans h.one)
    fun hne => h.busy (by omega)
  rcases hc with hc | hc
  · exact h.known p List.mem_cons_self g (hc ▸ hg)
  · rw [hc] at hg
    cases hg

theorem Single.release (h : Single k (p :: rest)) (hc : claims p' = none) (hl : lateness p' = 0)
    (hon : ∀ w, p' ≠ .read w) : Single k (p' :: rest) :=
  h.move (.inr hc) (by omega) (fun hne => absurd hl hne) fun w hw => absurd hw (hon w)

/-- The flags of the runs stay. -/
theorem Single.frame (h : Single k threads) (hg : k'.generation = k.generation) (hs : k'.spawning = k.spawning)
    (hst : k'.started = k.started) (hd : k'.done = k.done) : Single k' threads := by
  have hruns : runs k' threads k'.generation = runs k threads k.generation := by
    unfold runs
    rw [hg, hs]
  refine ⟨?_, ?_, ?_, ?_, ?_, h.onTime⟩
  · rw [hg]
    exact h.known
  · rw [hg, hs]
    exact h.spawning
  · rw [hruns]
    exact h.one
  · rw [hruns, hst, hd]
    exact h.busy
  · rw [hg]
    exact h.late

/-- A run is started only if there is none. -/
theorem Single.idle (h : Single k threads) (hs : k.startsRun = true) : runs k threads k.generation = 0 := by
  by_contra hne
  obtain ⟨hstarted, hdone⟩ := h.busy hne
  simp [Core.startsRun, hstarted, hdone] at hs

theorem single_post {e : ℕ} (h : Single k (.post e :: rest)) :
    Single (if k.startsRun then (k.startRun, Proc.spawn k.generation e) else (k, .readStarted e)).1
      ((if k.startsRun then (k.startRun, Proc.spawn k.generation e) else (k, .readStarted e)).2 :: rest) := by
  by_cases hs : k.startsRun = true
  · rw [if_pos hs]
    have hzero := h.idle hs
    rw [runs_cons] at hzero
    have hrest : runs k rest k.generation = 0 := by omega
    have hrun : runs k.startRun (.spawn k.generation e :: rest) k.generation = 1 := by
      rw [runs_cons, show runs k.startRun rest k.generation = 0 from hrest]
      simp [claims]
    refine single_cons ⟨?_, by simp [lateness], by simp [lateness], by simp⟩ (fun q hq => ?_) h.spawning hrun.le
      fun _ => ⟨rfl, rfl⟩
    · rintro g ⟨⟩
      exact le_rfl
    · obtain ⟨h1, h2, h3, h4⟩ := h.others q hq
      exact ⟨h1, h2, h3, h4⟩
  · rw [if_neg hs]
    exact h.release rfl rfl (by simp)

theorem single_spawn {g e : ℕ} (h : Single k (.spawn g e :: rest)) :
    Single { k with spawning := g :: k.spawning } (.readStarted e :: rest) := by
  have hg : g ≤ k.generation := h.known _ List.mem_cons_self g rfl
  have hruns : runs { k with spawning := g :: k.spawning } (.readStarted e :: rest) k.generation =
      runs k (.spawn g e :: rest) k.generation := by
    rw [runs_cons, runs_cons]
    simp only [runs, claims, loads, List.count_cons, Option.some.injEq, beq_iff_eq, reduceCtorEq, if_false]
    omega
  refine single_cons ⟨by simp [claims, loads], by simp [lateness], by simp [lateness], by simp⟩ (fun q hq => ?_)
    (fun g' hg' => ?_) (hruns.trans_le h.one) fun hne => h.busy (hruns ▸ hne)
  · obtain ⟨h1, h2, h3, h4⟩ := h.others q hq
    exact ⟨h1, h2, h3, h4⟩
  · rcases List.mem_cons.mp hg' with rfl | hg'
    · exact hg
    · exact h.spawning g' hg'

/-- A new generation has no runs. -/
theorem single_reset (h : Single k (.reset :: rest)) : Single k.newLifecycle (.ended :: rest) := by
  have hruns : runs k.newLifecycle (.ended :: rest) (k.generation + 1) = 0 := by
    refine Nat.add_eq_zero_iff.mpr ⟨List.countP_eq_zero.mpr fun q hq => ?_, List.count_eq_zero.mpr fun hmem => ?_⟩
    · rw [decide_eq_true_eq]
      intro hclaim
      rcases List.mem_cons.mp hq with rfl | hq
      · cases hclaim
      · have hle := (h.others q hq).known _ hclaim
        omega
    · have hle := h.spawning _ hmem
      omega
  have hgen : k.newLifecycle.generation = k.generation + 1 := rfl
  refine single_cons ⟨by simp [claims, loads], by simp [lateness], by simp [lateness], by simp⟩ (fun q hq => ?_)
    (fun g hg => (h.spawning g hg).trans (Nat.le_succ _)) (by rw [hgen, hruns]; omega)
    fun hne => absurd hruns hne
  obtain ⟨h1, h2, h3, h4⟩ := h.others q hq
  refine ⟨fun g hg => (h1 g hg).trans (Nat.le_succ _), h2, fun _ g hg heq => ?_, h4⟩
  have hle := h1 g hg
  omega

theorem publish_stale {g : ℕ} (hg : k.generation ≠ g) (o : Outcome) : k.publish g o = k := if_neg hg

theorem publish_frame (k : Core) (g : ℕ) (o : Outcome) :
    (k.publish g o).generation = k.generation ∧ (k.publish g o).spawning = k.spawning ∧
      (k.publish g o).started = k.started ∧ (k.publish g o).cancel = k.cancel := by
  unfold Core.publish
  split_ifs
  · cases o <;> exact ⟨rfl, rfl, rfl, rfl⟩
  · exact ⟨rfl, rfl, rfl, rfl⟩

theorem single_publish {g late : ℕ} {o : Outcome} (h : Single k (.publish g late o :: rest)) :
    Single (k.publish g o) (.ended :: rest) := by
  have hend : Single k (.ended :: rest) := h.release rfl rfl (by simp)
  by_cases hg : k.generation = g
  · obtain ⟨hgen, hspawning, hstarted, -⟩ := publish_frame k g o
    -- The run that is published was the only one.
    have hzero : runs k (.ended :: rest) k.generation = 0 := by
      have hone := h.one_cons
      rw [if_pos (show claims (.publish g late o) = some k.generation from congrArg some hg.symm)] at hone
      rw [runs_cons]
      simp only [claims, loads, reduceCtorEq, if_false]
      omega
    have hruns : runs (k.publish g o) (.ended :: rest) (k.publish g o).generation = 0 := by
      unfold runs at hzero ⊢
      rwa [hgen, hspawning]
    refine ⟨fun q hq g' hg' => ?_, fun g' hg' => ?_, by omega, fun hne => absurd hruns hne, fun q hq => ?_, hend.onTime⟩
    · rw [hgen]
      exact hend.known q hq g' hg'
    · rw [hgen]
      exact hend.spawning g' (hspawning ▸ hg')
    · rw [hgen]
      exact hend.late q hq
  · rw [publish_stale hg]
    exact hend

theorem single_read {w : Walk} (h : Single k (.read w :: rest)) : k.late w ≤ 1 ∧
    (k.late w ≠ 0 → w.generation ≠ k.generation) := by
  have hzero := h.onTime _ List.mem_cons_self w rfl
  unfold Core.late
  split_ifs with hg
  · exact ⟨by omega, fun hne => absurd hzero hne⟩
  · exact ⟨by omega, fun _ heq => hg heq.symm⟩

theorem single_run (h : Single k (p :: rest)) (hrun : run k io p = some (k', p')) : Single k' (p' :: rest) := by
  obtain ⟨-, hlate, hstale, -⟩ := h.mild List.mem_cons_self
  cases p with
  | post e =>
    have hs := single_post h
    rwa [Option.some.inj hrun] at hs
  | spawn g e =>
    cases hrun
    exact single_spawn h
  | readStarted e | readDone st e | readCancel st dn e | readError st dn cn e =>
    cases hrun
    exact h.release rfl rfl (by simp)
  | cancel =>
    cases hrun
    exact (h.release rfl rfl (by simp)).frame rfl rfl rfl rfl
  | bump id =>
    cases hrun
    refine Single.frame (k := k) (h.release ?_ ?_ ?_) rfl rfl rfl rfl <;> split_ifs <;> simp [claims, loads, lateness]
  | reset =>
    cases hrun
    exact single_reset h
  | parse g =>
    cases io with
    | err e =>
      cases hrun
      exact h.move (.inl rfl) (by simp [lateness]) (by simp [lateness]) (by simp)
    | ok =>
      cases hrun
      split_ifs <;> exact h.move (.inl rfl) (by simp [lateness]) (by simp [lateness]) (by simp)
  | openDevMem w | openKcore w =>
    cases io <;> cases hrun <;> exact h.move (.inl rfl) hlate hstale (by simp)
  | check w =>
    cases hrun
    split_ifs <;> exact h.move (.inl rfl) hlate hstale (by simp)
  | checkGeneration w =>
    cases hrun
    split_ifs with hg
    · refine h.move (.inl rfl) hlate hstale ?_
      rintro w' ⟨⟩
      by_contra hne
      exact hstale hne w.generation rfl hg.symm
    · exact h.move (.inl rfl) hlate hstale (by simp)
  | read w =>
    obtain ⟨hle, hne⟩ := single_read h
    have hmove : ∀ {p'}, claims p' = some w.generation → lateness p' = k.late w → (∀ w', p' ≠ .read w') →
        Single k (p' :: rest) := by
      intro p' hc hl hon
      refine h.move (.inl hc) (hl.trans_le hle) (fun hnz g hg => ?_) fun w' hw' => absurd hw' (hon w')
      rw [hc] at hg
      cases hg
      exact hne (hl ▸ hnz)
    cases io with
    | ok =>
      cases hrun
      exact hmove rfl rfl (by simp)
    | err e =>
      cases hsrc : w.source <;> simp only [run, hsrc] at hrun <;> cases hrun <;> exact hmove rfl rfl (by simp)
  | publish g late o =>
    cases hrun
    exact single_publish h
  | answered lane e | ended => cases hrun

theorem single_start {c : Call} (h : Single k threads) (hspawn : spawn k c = some (k', p)) :
    Single k' (p :: threads) := by
  have hall : ∀ q ∈ threads, Mild k q := fun q hq => h.mild hq
  have hplain : ∀ p, claims p = none → lateness p = 0 → (∀ w, p ≠ .read w) → Single k (p :: threads) := by
    intro p hc hl hon
    have hruns : runs k (p :: threads) k.generation = runs k threads k.generation := by
      rw [runs_cons, hc]
      simp
    refine single_cons ⟨fun g hg => ?_, by omega, fun hne => absurd hl hne, fun w hw => absurd hw (hon w)⟩ hall
      h.spawning (hruns.trans_le h.one) fun hne => h.busy (hruns ▸ hne)
    rw [hc] at hg
    cases hg
  cases c with
  | loader =>
    cases hsp : k.spawning with
    | nil =>
      simp only [spawn, hsp] at hspawn
      cases hspawn
    | cons g gs =>
      simp only [spawn, hsp] at hspawn
      cases hspawn
      have hruns : runs { k with spawning := gs } (.parse g :: threads) k.generation = runs k threads k.generation := by
        rw [runs_cons]
        simp only [runs, claims, loads, hsp, List.count_cons, Option.some.injEq, beq_iff_eq]
        omega
      refine single_cons ⟨?_, by simp [lateness], by simp [lateness], by simp⟩ (fun q hq => ?_) (fun g' hg' => ?_)
        (hruns.trans_le h.one) fun hne => h.busy (hruns ▸ hne)
      · rintro g' ⟨⟩
        exact h.spawning g (by simp [hsp])
      · obtain ⟨h1, h2, h3, h4⟩ := hall q hq
        exact ⟨h1, h2, h3, h4⟩
      · exact h.spawning g' (by simp [hsp, hg'])
  | getMemoryPreload | postMemoryPreload | postMemoryPreloadCancel | postInit id =>
    cases hspawn
    exact hplain _ rfl rfl (by simp)

end Single

theorem single_step {s s' : State} {a : Act} (h : Single s.core s.threads) (hs : step s a = some s') :
    Single s'.core s'.threads := by
  cases moves_of_step hs with
  | start hspawn hs' => exact (single_start h hspawn).perm hs'.symm
  | act hp hrun hthreads hs' => exact (single_run (h.perm hthreads) hrun).perm hs'.symm
  | crash hp hthreads hs' => exact ((h.perm hthreads).release rfl rfl (by simp [prog])).perm hs'.symm
  | noCrash => exact h
  | @env e k henv => exact e.elim

theorem reach_single {ok : State → Act → Prop} {s : State} (h : Reach step ok Initial s) : Single s.core s.threads := by
  refine h.invariant (I := fun s => Single s.core s.threads) ?_ fun s a s' hi _ hs => single_step hi hs
  rintro s ⟨iomem, rfl⟩
  refine ⟨List.forall_mem_nil _, List.forall_mem_nil _, Nat.zero_le _,
    fun hne => absurd rfl hne, List.forall_mem_nil _, List.forall_mem_nil _⟩

/-! ### The result -/

theorem claims_of_loads {p : Proc} {g : ℕ} (h : loads p = some g) : claims p = some g := by
  cases p with
  | spawn generation e => cases h
  | _ => exact h

/-- Two runs of one generation would be counted twice. -/
theorem eq_of_runs {k : Core} {threads : List Proc} {g i j : ℕ} {p q : Proc} (h : runs k threads g ≤ 1)
    (hi : threads[i]? = some p) (hj : threads[j]? = some q) (hp : claims p = some g)
    (hq : claims q = some g) : i = j := by
  by_contra hne
  obtain ⟨hlt, rfl⟩ := List.getElem?_eq_some_iff.mp hi
  have hmem : q ∈ threads.eraseIdx i := List.mem_eraseIdx_iff_getElem?.mpr ⟨j, fun heq => hne heq.symm, hj⟩
  rw [runs_perm (List.getElem_cons_eraseIdx_perm hlt).symm, runs_cons, if_pos hp] at h
  have hpos : 0 < (threads.eraseIdx i).countP fun p => decide (claims p = some g) :=
    List.countP_pos_iff.mpr ⟨q, hmem, by simp [hq]⟩
  unfold runs at h
  omega

/-- A loader of another generation leaves the result alone. -/
theorem run_stale {k k' : Core} {io : Io} {p p' : Proc} {g : ℕ} (hp : loads p = some g) (hg : g ≠ k.generation)
    (hrun : run k io p = some (k', p')) : k' = k := by
  cases p with
  | parse g | openDevMem w | openKcore w => cases io <;> cases hrun <;> rfl
  | check w | checkGeneration w => cases hrun; rfl
  | read w =>
    cases io with
    | ok => cases hrun; rfl
    | err e => cases hsrc : w.source <;> simp only [run, hsrc] at hrun <;> cases hrun <;> rfl
  | publish g' late o =>
    cases hp
    cases hrun
    exact publish_stale hg.symm o
  | _ => cases hp

/-- **One loader.**  At most one loader of the current generation has not published; a loader of another one changes
neither the done flag nor the error; and it reads at most one page. -/
theorem one_loader {s : State} (h : Reach step (fun _ _ => True) Initial s) :
    (∀ (i j : ℕ) p q, s.threads[i]? = some p → s.threads[j]? = some q → loads p = some s.core.generation →
      loads q = some s.core.generation → i = j) ∧
    (∀ (t : ℕ) io s' p g, s.threads[t]? = some p → loads p = some g → g ≠ s.core.generation →
      step s (.act t io) = some s' → s'.core.done = s.core.done ∧ s'.core.error = s.core.error) ∧
    ∀ p ∈ s.threads, lateness p ≤ 1 := by
  have hs := reach_single h
  refine ⟨fun i j p q hi hj hp hq => eq_of_runs hs.one hi hj (claims_of_loads hp) (claims_of_loads hq),
    fun t io s' p g ht hp hg hstep => ?_, fun p hp => (hs.late p hp).1⟩
  obtain ⟨p0, hp0, hmap⟩ := Option.bind_eq_some_iff.mp hstep
  obtain ⟨⟨k', p'⟩, hrun, heq⟩ := Option.map_eq_some_iff.mp hmap
  rw [ht] at hp0
  cases hp0
  cases heq
  obtain rfl : k' = s.core := run_stale hp hg hrun
  exact ⟨rfl, rfl⟩

/-! ### A run -/

/-- A guest with one range of three pages. -/
def guest : State := ⟨Core.new [3], []⟩

/-- The host names the first lifecycle and starts a loader, which is frozen when it is about to read its first page. -/
def frozenRun : List Act :=
  [.start (.postInit 0), .act 0 .ok, .start .postMemoryPreload, .act 1 .ok, .act 1 .ok, .start .loader,
    .act 2 .ok, .act 2 .ok,
    .act 2 .ok, .act 2 .ok]

/-- It is thawed in the next lifecycle, where it reads that page and comes back to its loop, next to a new loader. -/
def thawedRun : List Act :=
  frozenRun ++ ([.start (.postInit 1), .act 3 .ok, .act 3 .ok, .act 2 .ok, .start .postMemoryPreload, .act 4 .ok,
    .act 4 .ok, .start .loader] : List Act)

theorem thawed_one_loader :
    (∀ p ∈ (last step guest thawedRun).threads, lateness p ≤ 1) ∧
      (last step guest thawedRun).threads.map lateness = [0, 0, 1, 0, 0, 0] ∧
      (last step guest thawedRun).threads.map loads = [none, none, some 0, none, none, some 1] := by
  have hadm : Admits step (fun _ _ => True) guest thawedRun := by decide +kernel
  exact ⟨(one_loader (.last ⟨[3], rfl⟩ hadm)).2.2, by decide +kernel, by decide +kernel⟩

end Wrenn.Preload.Atomic
