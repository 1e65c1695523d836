import Mathlib
import Wrenn.Lib.Places

/-!
# The memory preloader inside a guest

`envd` runs inside the virtual machine.  Its preloader reads every page of physical memory, so that
a lazily restored machine holds all of its memory before the next snapshot.  The state is the
`mem_preload_*` part of `AppState`, together with the detached loader threads: all of it is guest
memory, so a snapshot freezes it and a restore thaws it, threads included, in another machine.

Each request handler is one step here, as is each page a loader thread visits.  A loader carries
the number of the machine whose `POST /memory/preload` spawned it, and a finished walk says whether
it visited all of its pages; no function reads either of the two.
-/

namespace Wrenn.Preload.Envd

open Lib.Places

/-- `mem_preload_source`. -/
inductive Source where
  | unset
  | devMem
  | kcore
  deriving DecidableEq, Repr

/-- What `preload_blocking` returns.  `full` records that the walk was not stopped early. -/
inductive Outcome where
  | ok (source : Source) (regions pages : ℕ) (full : Bool)
  | err (e : String)
  deriving DecidableEq, Repr

/-- How far a loader thread has come in `preload_blocking`; `left` pages are still to be visited. -/
inductive Pc where
  | start
  | openDevMem
  | devMem (left pages : ℕ)
  | openKcore (devmemErr : String)
  | kcore (devmemErr : String) (left pages : ℕ)
  | finished (o : Outcome)
  deriving DecidableEq, Repr

/-- A detached loader thread: the generation it captured and the machine that spawned it. -/
structure Loader where
  generation : ℕ
  vm : ℕ
  pc : Pc
  deriving DecidableEq, Repr

/-- The part of a guest's memory the preloader works on.  `iomem` lists the pages of each
`System RAM` range of `/proc/iomem`. -/
structure Guest where
  iomem : List ℕ
  started : Bool
  done : Bool
  cancel : Bool
  generation : ℕ
  error : Option String
  lifecycleID : Option ℕ
  regions : ℕ
  pages : ℕ
  bytes : ℕ
  source : Source
  threads : ℕ → Option Loader
  spawned : ℕ

def pageSize : ℕ := 4096

/-- `AppState::new`: a freshly booted guest. -/
def Guest.new (iomem : List ℕ) : Guest where
  iomem := iomem
  started := false
  done := false
  cancel := false
  generation := 0
  error := none
  lifecycleID := none
  regions := 0
  pages := 0
  bytes := 0
  source := .unset
  threads := fun _ => none
  spawned := 0

/-- `reset_preload_run`. -/
def Guest.resetPreloadRun (g : Guest) : Guest :=
  { g with error := none, done := false, regions := 0, pages := 0, bytes := 0, source := .unset }

/-- `bump_lifecycle`: the first identifier ever stored is not a change. -/
def Guest.lifecycleChanged (g : Guest) (newID : ℕ) : Bool :=
  match g.lifecycleID with
  | some existing => existing != newID
  | none => false

/-- `post_init`, its effect on the preloader. -/
def Guest.postInit (g : Guest) (newID : ℕ) : Guest :=
  let g' := { g with lifecycleID := some newID }
  if g.lifecycleChanged newID then
    { g' with generation := g.generation + 1, cancel := false, started := false }.resetPreloadRun
  else g'

/-- The `state` string of `PreloadStatus`. -/
inductive Lane where
  | idle
  | running
  | failed
  | cancelled
  | done
  deriving DecidableEq, Repr

structure PreloadStatus where
  state : Lane
  regions : ℕ
  pages : ℕ
  bytes : ℕ
  source : Source
  error : Option String
  deriving DecidableEq, Repr

/-- `read_status`. -/
def Guest.readStatus (g : Guest) : PreloadStatus where
  state :=
    if !g.started then .idle
    else if !g.done then .running
    else if g.error.isSome then .failed
    else if g.cancel then .cancelled
    else .done
  regions := g.regions
  pages := g.pages
  bytes := g.bytes
  source := g.source
  error := g.error

/-- `fresh || retry` of `post_memory_preload`: the first caller starts a run, and a run that
finished failed or cancelled may be started again. -/
def Guest.startsRun (g : Guest) : Bool :=
  !g.started || (g.done && (g.error.isSome || g.cancel))

/-- `post_memory_preload` in machine `vm`; the answer is `readStatus` of the result. -/
def Guest.postMemoryPreload (g : Guest) (vm : ℕ) : Guest :=
  if g.startsRun then
    { g.resetPreloadRun with
      started := true
      cancel := false
      threads := Function.update g.threads g.spawned
        (some { generation := g.generation, vm := vm, pc := .start })
      spawned := g.spawned + 1 }
  else g

/-- `post_memory_preload_cancel`. -/
def Guest.postMemoryPreloadCancel (g : Guest) : Guest := { g with cancel := true }

/-- `should_stop`. -/
def Guest.shouldStop (g : Guest) (generation : ℕ) : Bool :=
  g.cancel || g.generation != generation

/-- What the operating system answers to the next open, parse or read of a loader. -/
inductive Io where
  | ok
  | err (e : String)
  deriving DecidableEq, Repr

/-- One step of `preload_blocking`: `preload_via_devmem`, and `preload_via_kcore` once the first
has failed.  An unreadable page ends the first walk and is skipped by the second. -/
def Guest.walk (g : Guest) (generation : ℕ) (io : Io) : Pc → Pc
  | .start =>
    match io with
    | .err e => .finished (.err ("iomem: " ++ e))
    | .ok =>
      if g.iomem.isEmpty then .finished (.err "no System RAM ranges found in /proc/iomem")
      else .openDevMem
  | .openDevMem =>
    match io with
    | .err e => .openKcore e
    | .ok => .devMem g.iomem.sum 0
  | .devMem 0 pages => .finished (.ok .devMem g.iomem.length pages true)
  | .devMem (left + 1) pages =>
    if g.shouldStop generation then .finished (.ok .devMem g.iomem.length pages false)
    else
      match io with
      | .err e => .openKcore e
      | .ok => .devMem left (pages + 1)
  | .openKcore d =>
    match io with
    | .err e => .finished (.err ("/dev/mem: " ++ d ++ "; /proc/kcore: " ++ e))
    | .ok => .kcore d g.iomem.sum 0
  | .kcore d 0 pages =>
    if pages = 0 then
      .finished (.err ("/dev/mem: " ++ d ++ "; /proc/kcore: kcore walk read no pages (" ++
        toString g.iomem.sum ++ " read errors)"))
    else .finished (.ok .kcore g.iomem.length pages true)
  | .kcore d (left + 1) pages =>
    if g.shouldStop generation then .finished (.ok .kcore g.iomem.length pages false)
    else
      match io with
      | .err _ => .kcore d left pages
      | .ok => .kcore d left (pages + 1)
  | .finished o => .finished o

/-- The progress a walk stores for `GET /memory/preload` after a read, every 1024 or 256 pages.  The
store does not look at the generation. -/
def Guest.progress (g : Guest) : Io → Pc → Guest
  | .ok, .devMem _ pages =>
    if pages % 1024 = 0 ∧ pages ≠ 0 then { g with pages := pages, bytes := pages * pageSize } else g
  | .ok, .kcore _ _ pages =>
    if pages % 256 = 0 ∧ pages ≠ 0 then { g with pages := pages, bytes := pages * pageSize } else g
  | _, _ => g

/-- The end of a loader thread, under the error mutex: a result of another generation is
discarded. -/
def Guest.publish (g : Guest) (generation : ℕ) (o : Outcome) : Guest :=
  if g.generation = generation then
    match o with
    | .ok source regions pages _ =>
      { g with regions := regions, pages := pages, bytes := pages * pageSize, source := source,
               error := none, done := true }
    | .err e => { g with error := some e, done := true }
  else g

/-- Thread `i` publishes and ends. -/
def Guest.endThread (g : Guest) (i : ℕ) (l : Loader) (o : Outcome) : Guest :=
  { g.publish l.generation o with threads := Function.update g.threads i none }

/-- Thread `i` moves its walk on. -/
def Guest.moveThread (g : Guest) (i : ℕ) (l : Loader) (io : Io) : Guest :=
  { g.progress io (g.walk l.generation io l.pc) with
    threads := Function.update g.threads i (some { l with pc := g.walk l.generation io l.pc }) }

/-- One step of loader thread `i`. -/
def Guest.thread (g : Guest) (i : ℕ) (io : Io) : Option Guest :=
  match g.threads i with
  | none => none
  | some l =>
    match l.pc with
    | .finished o => some (g.endThread i l o)
    | _ => some (g.moveThread i l io)

/-- Thread `i` of machine `v`, spawned there, has just visited all of its pages. -/
def Guest.walksAll (g : Guest) (v i : ℕ) (io : Io) : Bool :=
  match g.threads i with
  | none => false
  | some l =>
    l.vm == v &&
      match g.walk l.generation io l.pc with
      | .finished (.ok _ _ _ true) => true
      | _ => false

/-! ### What the flags say about the loader threads -/

/-- A loader of the current generation. -/
def Guest.Current (g : Guest) (i : ℕ) (l : Loader) : Prop :=
  g.threads i = some l ∧ l.generation = g.generation

/-- The flags of a guest: a current loader is the only one and has a run it will still publish, and
one that stopped early did so because of a cancel that still stands. -/
structure GuestOk (g : Guest) : Prop where
  le : ∀ i l, g.threads i = some l → l.generation ≤ g.generation
  runs : ∀ i l, g.Current i l → g.started = true ∧ g.done = false
  one : ∀ i j l l', g.Current i l → g.Current j l' → i = j
  early : ∀ i l s r p, g.Current i l → l.pc = .finished (.ok s r p false) → g.cancel = true

theorem guestOk_new (iomem : List ℕ) : GuestOk (Guest.new iomem) where
  le := nofun
  runs := fun _ _ h => nomatch h.1
  one := fun _ _ _ _ h => nomatch h.1
  early := fun _ _ _ _ _ h => nomatch h.1

variable {g g' : Guest} {i n v j : ℕ} {l l' : Loader} {io : Io} {o : Outcome} {walked : Bool}

/-- A run only starts when no loader of this generation is left. -/
theorem GuestOk.not_current (h : GuestOk g) (hs : g.startsRun = true) (i : ℕ)
    (l : Loader) : ¬ g.Current i l := by
  intro hc
  obtain ⟨h1, h2⟩ := h.runs i l hc
  simp [Guest.startsRun, h1, h2] at hs

/-- After an `/init` with a changed identifier no loader is current. -/
theorem GuestOk.not_current_bump (h : GuestOk g)
    (hl : g.threads i = some l) : l.generation ≠ g.generation + 1 := by
  have := h.le i l hl
  omega

theorem postInit_of_changed (h : g.lifecycleChanged n = true) :
    g.postInit n =
      { g with
        lifecycleID := some n
        generation := g.generation + 1
        cancel := false
        started := false
        error := none
        done := false
        regions := 0
        pages := 0
        bytes := 0
        source := .unset } := by
  simp only [Guest.postInit, if_pos h, Guest.resetPreloadRun]

theorem postInit_of_not_changed (h : ¬ g.lifecycleChanged n = true) :
    g.postInit n = { g with lifecycleID := some n } := by
  simp only [Guest.postInit, if_neg h]

theorem GuestOk.postInit (h : GuestOk g) (n : ℕ) : GuestOk (g.postInit n) := by
  by_cases hc : g.lifecycleChanged n = true
  · rw [postInit_of_changed hc]
    have hno : ∀ i l, g.threads i = some l → l.generation ≠ g.generation + 1 :=
      fun i l hl => h.not_current_bump hl
    exact { le := fun i l hl => Nat.le_succ_of_le (h.le i l hl)
            runs := fun i l hl => absurd hl.2 (hno i l hl.1)
            one := fun i _ l _ hl => absurd hl.2 (hno i l hl.1)
            early := fun i l _ _ _ hl => absurd hl.2 (hno i l hl.1) }
  · rw [postInit_of_not_changed hc]
    exact ⟨h.le, h.runs, h.one, h.early⟩

theorem GuestOk.postMemoryPreloadCancel (h : GuestOk g) :
    GuestOk g.postMemoryPreloadCancel :=
  ⟨h.le, h.runs, h.one, fun _ _ _ _ _ _ _ => rfl⟩

/-- The loaders after a `POST /memory/preload` that starts a run. -/
theorem postMemoryPreload_threads (hs : g.startsRun = true)
    (hl : (g.postMemoryPreload v).threads i = some l) :
    (i = g.spawned ∧ l = { generation := g.generation, vm := v, pc := .start }) ∨
      g.threads i = some l := by
  simp only [Guest.postMemoryPreload, if_pos hs] at hl
  rcases of_update hl with ⟨hi, ⟨⟩⟩ | ⟨-, hl⟩
  · exact .inl ⟨hi, rfl⟩
  · exact .inr hl

theorem postMemoryPreload_generation (g : Guest) (v : ℕ) :
    (g.postMemoryPreload v).generation = g.generation := by
  unfold Guest.postMemoryPreload
  split_ifs <;> rfl

theorem postMemoryPreload_lifecycleID (g : Guest) (v : ℕ) :
    (g.postMemoryPreload v).lifecycleID = g.lifecycleID := by
  unfold Guest.postMemoryPreload
  split_ifs <;> rfl

/-- The only current loader after a `POST /memory/preload` that starts a run is the new one. -/
theorem GuestOk.current_post (h : GuestOk g)
    (hs : g.startsRun = true) (hc : (g.postMemoryPreload v).Current i l) :
    i = g.spawned ∧ l = { generation := g.generation, vm := v, pc := .start } := by
  rcases postMemoryPreload_threads hs hc.1 with h1 | h1
  · exact h1
  · exact absurd ⟨h1, hc.2.trans (postMemoryPreload_generation g v)⟩ (h.not_current hs i l)

theorem GuestOk.postMemoryPreload (h : GuestOk g) (v : ℕ) :
    GuestOk (g.postMemoryPreload v) := by
  by_cases hs : g.startsRun = true
  · refine ⟨fun i l hl => ?_, fun i l hl => ?_, fun i j l l' hl hl' => ?_,
      fun i l s r p hl hp => ?_⟩
    · rw [postMemoryPreload_generation]
      rcases postMemoryPreload_threads hs hl with ⟨-, rfl⟩ | h1
      · exact Nat.le_refl _
      · exact h.le i l h1
    · simp only [Guest.postMemoryPreload, if_pos hs, Guest.resetPreloadRun, and_self]
    · rw [(h.current_post hs hl).1, (h.current_post hs hl').1]
    · rw [(h.current_post hs hl).2] at hp
      cases hp
  · rw [Guest.postMemoryPreload, if_neg hs]
    exact h

/-! ### One step of a loader -/

/-- A walk stops early only when asked to. -/
theorem walk_early {pc : Pc} {s : Source} {r p : ℕ}
    (h : g.walk n io pc = .finished (.ok s r p false)) :
    pc = .finished (.ok s r p false) ∨ g.shouldStop n = true := by
  unfold Guest.walk at h
  split at h
  all_goals first | (left; exact h) | skip
  all_goals right; revert h; (repeat' split) <;> simp_all

/-- The progress of a walk shows in two counters only. -/
theorem progress_eq (g : Guest) (io : Io) (pc : Pc) :
    ∃ p b, g.progress io pc = { g with pages := p, bytes := b } := by
  unfold Guest.progress
  split
  · split_ifs
    exacts [⟨_, _, rfl⟩, ⟨g.pages, g.bytes, rfl⟩]
  · split_ifs
    exacts [⟨_, _, rfl⟩, ⟨g.pages, g.bytes, rfl⟩]
  · exact ⟨g.pages, g.bytes, rfl⟩

theorem moveThread_eq (g : Guest) (i : ℕ) (l : Loader) (io : Io) :
    ∃ p b, g.moveThread i l io =
      { g with
        pages := p
        bytes := b
        threads := Function.update g.threads i
          (some { l with pc := g.walk l.generation io l.pc }) } := by
  obtain ⟨p, b, he⟩ := progress_eq g io (g.walk l.generation io l.pc)
  exact ⟨p, b, by rw [Guest.moveThread, he]⟩

/-- A step of loader `i` either publishes its result and ends the thread, or moves its walk on. -/
theorem thread_cases (h : g.thread i io = some g') :
    ∃ l, g.threads i = some l ∧
      ((∃ o, l.pc = .finished o ∧ g' = g.endThread i l o) ∨
        ((∀ o, l.pc ≠ .finished o) ∧ g' = g.moveThread i l io)) := by
  unfold Guest.thread at h
  split at h
  · cases h
  · rename_i l hl
    refine ⟨l, hl, ?_⟩
    split at h
    · rename_i o ho
      exact .inl ⟨o, ho, (Option.some.inj h).symm⟩
    · rename_i hno
      exact .inr ⟨hno, (Option.some.inj h).symm⟩

theorem publish_stale (h : g.generation ≠ n) (o : Outcome) :
    g.publish n o = g := if_neg h

/-- A published result leaves the generation, the lifecycle and a cancel alone. -/
theorem publish_kept (g : Guest) (n : ℕ) (o : Outcome) :
    (g.publish n o).generation = g.generation ∧ (g.publish n o).lifecycleID = g.lifecycleID ∧
      (g.publish n o).cancel = g.cancel ∧ (g.publish n o).started = g.started := by
  unfold Guest.publish
  split_ifs
  · split <;> exact ⟨rfl, rfl, rfl, rfl⟩
  · exact ⟨rfl, rfl, rfl, rfl⟩

/-- The loaders after a thread has ended are the other ones. -/
theorem endThread_threads
    (h : (g.endThread i l o).threads j = some l') : j ≠ i ∧ g.threads j = some l' := by
  simp only [Guest.endThread] at h
  rcases of_update h with ⟨-, ⟨⟩⟩ | hother
  exact hother

theorem current_endThread
    (h : (g.endThread i l o).Current j l') : j ≠ i ∧ g.Current j l' := by
  obtain ⟨h1, h2⟩ := endThread_threads h.1
  exact ⟨h1, h2, h.2.trans (publish_kept g _ o).1⟩

/-- Once a current thread has ended no loader is current. -/
theorem GuestOk.stale_of_current (hok : GuestOk g)
    (hl : g.threads i = some l) (h : (g.endThread i l o).Current j l') :
    g.generation ≠ l.generation := by
  intro he
  obtain ⟨h1, h2⟩ := current_endThread h
  exact h1 (hok.one j i l' l h2 ⟨hl, he.symm⟩)

theorem moveThread_generation (g : Guest) (i : ℕ) (l : Loader) (io : Io) :
    (g.moveThread i l io).generation = g.generation := by
  obtain ⟨p, b, he⟩ := moveThread_eq g i l io
  rw [he]

/-- The loaders after a thread has moved on. -/
theorem moveThread_threads
    (h : (g.moveThread i l io).threads j = some l') :
    (j = i ∧ l' = { l with pc := g.walk l.generation io l.pc }) ∨ g.threads j = some l' := by
  simp only [Guest.moveThread] at h
  rcases of_update h with ⟨hj, ⟨⟩⟩ | ⟨-, h⟩
  · exact .inl ⟨hj, rfl⟩
  · exact .inr h

theorem current_moveThread
    (hl : g.threads i = some l) (h : (g.moveThread i l io).Current j l') :
    (j = i ∧ g.Current i l ∧ l' = { l with pc := g.walk l.generation io l.pc }) ∨
      g.Current j l' := by
  have hg : l'.generation = g.generation := h.2.trans (moveThread_generation g i l io)
  rcases moveThread_threads h.1 with ⟨h1, h2⟩ | h1
  · rw [h2] at hg
    exact .inl ⟨h1, ⟨hl, hg⟩, h2⟩
  · exact .inr ⟨h1, hg⟩

theorem GuestOk.endThread (h : GuestOk g)
    (hl : g.threads i = some l) (o : Outcome) : GuestOk (g.endThread i l o) := by
  refine ⟨fun j l' hl' => ?_, fun j l' hc => ?_, fun j k l1 l2 h1 h2 => ?_,
    fun j l' s r q hc hp => ?_⟩
  · exact (h.le j l' (endThread_threads hl').2).trans_eq (publish_kept g _ o).1.symm
  · rw [Guest.endThread, publish_stale (h.stale_of_current hl hc)]
    exact h.runs j l' (current_endThread hc).2
  · exact h.one j k l1 l2 (current_endThread h1).2 (current_endThread h2).2
  · exact (publish_kept g _ o).2.2.1.trans (h.early j l' s r q (current_endThread hc).2 hp)

theorem GuestOk.moveThread (h : GuestOk g)
    (hl : g.threads i = some l) (hno : ∀ o, l.pc ≠ .finished o) (io : Io) :
    GuestOk (g.moveThread i l io) := by
  have hcur : ∀ j l', (g.moveThread i l io).Current j l' → ∃ l0, g.Current j l0 := by
    intro j l' hc
    rcases current_moveThread hl hc with ⟨rfl, h1, -⟩ | h1
    exacts [⟨l, h1⟩, ⟨l', h1⟩]
  obtain ⟨p, b, he⟩ := moveThread_eq g i l io
  refine ⟨fun j l' hl' => ?_, fun j l' hc => ?_, fun j k l1 l2 h1 h2 => ?_,
    fun j l' s r q hc hp => ?_⟩
  · rw [moveThread_generation]
    rcases moveThread_threads hl' with ⟨-, rfl⟩ | h1
    exacts [h.le i l hl, h.le j l' h1]
  · obtain ⟨l0, h0⟩ := hcur j l' hc
    rw [he]
    exact h.runs j l0 h0
  · obtain ⟨l0, h0⟩ := hcur j l1 h1
    obtain ⟨l0', h0'⟩ := hcur k l2 h2
    exact h.one j k l0 l0' h0 h0'
  · have hkept : (g.moveThread i l io).cancel = g.cancel := by rw [he]
    rw [hkept]
    rcases current_moveThread hl hc with ⟨-, hci, rfl⟩ | h1
    · rcases walk_early hp with h2 | h2
      · exact absurd h2 (hno _)
      · simpa [Guest.shouldStop, hci.2] using h2
    · exact h.early j l' s r q h1 hp

theorem GuestOk.thread (h : GuestOk g)
    (ht : g.thread i io = some g') : GuestOk g' := by
  obtain ⟨l, hl, ⟨o, -, rfl⟩ | ⟨hno, rfl⟩⟩ := thread_cases ht
  · exact h.endThread hl o
  · exact h.moveThread hl hno io

theorem thread_lifecycleID (ht : g.thread i io = some g') :
    g'.lifecycleID = g.lifecycleID := by
  obtain ⟨l, -, ⟨o, -, rfl⟩ | ⟨-, rfl⟩⟩ := thread_cases ht
  · exact (publish_kept g _ o).2.1
  · obtain ⟨p, b, he⟩ := moveThread_eq g i l io
    rw [he]

/-! ### What the answer `done` is worth -/

theorem readStatus_done :
    g.readStatus.state = .done ↔
      g.started = true ∧ g.done = true ∧ g.error = none ∧ g.cancel = false := by
  unfold Guest.readStatus
  cases g.started <;> cases g.done <;> cases g.error <;> cases g.cancel <;> simp

/-- The preloader's account of machine `v` itself: its current loaders were spawned there, and
both a finished walk and the answer `done` mean that the memory of `v` has been walked. -/
structure Own (v : ℕ) (g : Guest) (walked : Bool) : Prop where
  here : ∀ i l, g.Current i l → l.vm = v
  full : ∀ i l s r p, g.Current i l → l.pc = .finished (.ok s r p true) → walked = true
  told : g.readStatus.state = .done → walked = true

/-- An `/init` with a changed identifier leaves nothing of an earlier machine behind. -/
theorem own_of_changed (h : GuestOk g) (hc : g.lifecycleChanged n = true)
    (v : ℕ) (walked : Bool) : Own v (g.postInit n) walked := by
  rw [postInit_of_changed hc]
  have hno : ∀ i l, g.threads i = some l → l.generation ≠ g.generation + 1 :=
    fun i l hl => h.not_current_bump hl
  refine ⟨fun i l hl => absurd hl.2 (hno i l hl.1), fun i l _ _ _ hl => absurd hl.2 (hno i l hl.1),
    fun hd => ?_⟩
  exact nomatch (readStatus_done.mp hd).1

theorem Own.postMemoryPreloadCancel (ho : Own v g walked) :
    Own v g.postMemoryPreloadCancel walked :=
  ⟨ho.here, ho.full, fun hd => nomatch (readStatus_done.mp hd).2.2.2⟩

theorem Own.postMemoryPreload (ho : Own v g walked)
    (h : GuestOk g) : Own v (g.postMemoryPreload v) walked := by
  by_cases hs : g.startsRun = true
  · refine ⟨fun i l hc => ?_, fun i l _ _ _ hc hp => ?_, fun hd => ?_⟩
    · rw [(h.current_post hs hc).2]
    · rw [(h.current_post hs hc).2] at hp
      cases hp
    · have hdone := (readStatus_done.mp hd).2.1
      rw [Guest.postMemoryPreload, if_pos hs] at hdone
      cases hdone
  · rw [Guest.postMemoryPreload, if_neg hs]
    exact ho

/-- What a loader publishes with the answer `done` is a full walk of its own. -/
theorem Own.endThread (ho : Own v g walked) (h : GuestOk g)
    (hl : g.threads i = some l) (hp : l.pc = .finished o) :
    Own v (g.endThread i l o) walked := by
  refine ⟨fun j l' hc => ho.here j l' (current_endThread hc).2,
    fun j l' s r p hc => ho.full j l' s r p (current_endThread hc).2, fun hd => ?_⟩
  obtain ⟨h1, h2, h3, h4⟩ := readStatus_done.mp hd
  simp only [Guest.endThread] at h1 h2 h3 h4
  rw [(publish_kept g _ o).2.2.2] at h1
  rw [(publish_kept g _ o).2.2.1] at h4
  by_cases hg : g.generation = l.generation
  · match o with
    | .err e =>
      rw [Guest.publish, if_pos hg] at h3
      cases h3
    | .ok s r p true => exact ho.full i l s r p ⟨hl, hg.symm⟩ hp
    | .ok s r p false =>
      have := h.early i l s r p ⟨hl, hg.symm⟩ hp
      rw [h4] at this
      cases this
  · rw [publish_stale hg] at h2 h3
    exact ho.told (readStatus_done.mpr ⟨h1, h2, h3, h4⟩)

theorem walksAll_of_full {s : Source} {r p : ℕ}
    (hl : g.threads i = some l) (hv : l.vm = v)
    (hw : g.walk l.generation io l.pc = .finished (.ok s r p true)) :
    g.walksAll v i io = true := by
  simp [Guest.walksAll, hl, hv, hw]

theorem Own.moveThread (ho : Own v g walked)
    (hl : g.threads i = some l) (io : Io) :
    Own v (g.moveThread i l io) (walked || g.walksAll v i io) := by
  refine ⟨fun j l' hc => ?_, fun j l' s r p hc hp => ?_, fun hd => ?_⟩
  · rcases current_moveThread hl hc with ⟨-, h1, rfl⟩ | h1
    exacts [ho.here i l h1, ho.here j l' h1]
  · rcases current_moveThread hl hc with ⟨-, h1, rfl⟩ | h1
    · rw [walksAll_of_full hl (ho.here i l h1) hp, Bool.or_true]
    · rw [ho.full j l' s r p h1 hp, Bool.true_or]
  · obtain ⟨p, b, he⟩ := moveThread_eq g i l io
    rw [he] at hd
    rw [ho.told (readStatus_done.mpr (readStatus_done.mp hd)), Bool.true_or]

theorem Own.mono (ho : Own v g walked) (b : Bool) :
    Own v g (walked || b) :=
  ⟨ho.here, fun i l s r p hc hp => by rw [ho.full i l s r p hc hp, Bool.true_or],
    fun hd => by rw [ho.told hd, Bool.true_or]⟩

theorem Own.thread (ho : Own v g walked) (h : GuestOk g)
    (ht : g.thread i io = some g') :
    Own v g' (walked || g.walksAll v i io) := by
  obtain ⟨l, hl, ⟨o, hp, rfl⟩ | ⟨-, rfl⟩⟩ := thread_cases ht
  · exact (ho.endThread h hl hp).mono _
  · exact ho.moveThread hl io

end Wrenn.Preload.Envd
