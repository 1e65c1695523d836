import Wrenn.Lib.Runs
import Wrenn.Preload.Envd

/-!
# The gate before a snapshot

Two programs meet here.  The agent launches machines, cold or lazily from a snapshot, sends `/init`
to the guest's `envd`, starts a goroutine that asks `envd` to preload, and before every
`vm.Snapshot` runs `ensureMemoryMaterialized`, which trusts the status `envd` answers.  The status
is guest memory: a snapshot taken after a finished preload restores to a guest that says `done`
before anything has been read.

A machine number is never used twice.  `inited` and `walked` are recorded for the statements only:
an `/init` has been applied in this machine since its launch, and a loader spawned in this machine
has visited all of its pages.
-/

namespace Wrenn.Preload.Gate

open Envd Lib.Places Lib.Runs

/-- The operation that launches a machine, up to its `/init` and `startMemoryLoader`. -/
inductive Launch where
  /-- `Create` from a base image: registered only after `/init`. -/
  | create
  /-- `createFromSnapshotTemplate`: registered at once, `lifecycleMu` is not held. -/
  | template
  /-- `Resume`, under `lifecycleMu`. -/
  | resume
  deriving DecidableEq, Repr

/-- The goroutine of `startMemoryLoader`. -/
inductive LoadPc where
  | post
  | poll
  | closed
  deriving DecidableEq, Repr

/-- The operation that takes a snapshot: `Pause`, or `snapshotRunningToTemplate`. -/
inductive OpKind where
  | pause
  | live
  deriving DecidableEq, Repr

/-- Where the operation stands in `ensureMemoryMaterialized` and after it. -/
inductive GatePc where
  | wait
  | post
  | poll
  | passed
  | snapped
  deriving DecidableEq, Repr

structure Op where
  kind : OpKind
  pc : GatePc
  deriving DecidableEq, Repr

/-- A machine with the agent's record of it.  `recorded` says that the running-state file is
written, so a restarted agent attaches to the machine again. -/
structure Vm where
  guest : Guest
  lazyRestore : Bool
  recorded : Bool
  launch : Option Launch
  memLoad : Option LoadPc
  op : Option Op
  inited : Bool
  walked : Bool

/-- `uuid` is the next lifecycle identifier, `launched` the next machine number. -/
structure World where
  vms : ℕ → Option Vm
  snaps : ℕ → Option Guest
  uuid : ℕ
  launched : ℕ

/-- What becomes of a request to `envd`. -/
inductive Reply where
  | lost
  | unanswered
  | answered
  deriving DecidableEq, Repr

inductive Act where
  | boot (iomem : List ℕ)
  | restore (s : ℕ) (resume : Bool)
  | launch (v : ℕ) (delivered : Bool)
  | init (v : ℕ)
  | preload (v : ℕ)
  | cancel (v : ℕ)
  | thread (v i : ℕ) (io : Io)
  | loader (v : ℕ) (r : Reply)
  | ask (v : ℕ) (kind : OpKind)
  | gate (v : ℕ) (r : Reply)
  | snapshot (v s : ℕ)
  | fail (v : ℕ)
  | finish (v : ℕ) (good : Bool)
  | destroy (v : ℕ)
  | restart

/-! ### Steps of one machine -/

/-- An `/init` that reaches `envd`. -/
def Vm.init (vm : Vm) (uuid : ℕ) : Vm :=
  { vm with guest := vm.guest.postInit uuid, inited := true }

/-- `POST /memory/preload` that reaches `envd` of machine `v`. -/
def Vm.preload (vm : Vm) (v : ℕ) : Vm :=
  { vm with guest := vm.guest.postMemoryPreload v }

/-- A freshly launched machine. -/
def Vm.launched (guest : Guest) (l : Launch) : Vm where
  guest := guest
  lazyRestore := l != .create
  recorded := l == .resume
  launch := some l
  memLoad := none
  op := none
  inited := false
  walked := false

/-- `initAndStartMemoryLoader`, or the `/init` of `Create`: a failed `/init` is only logged. -/
def Vm.launchStep (vm : Vm) (uuid : ℕ) (delivered : Bool) : Option Vm :=
  match vm.launch with
  | none => none
  | some l =>
    let vm := if delivered then vm.init uuid else vm
    some { vm with
      launch := none
      recorded := true
      memLoad := if l = .create then none else some .post }

/-- The goroutine of `startMemoryLoader`. -/
def Vm.loaderStep (vm : Vm) (v : ℕ) (r : Reply) : Option Vm :=
  match vm.memLoad, r with
  | some .post, .lost => some { vm with memLoad := some .closed }
  | some .post, .unanswered => some { vm.preload v with memLoad := some .closed }
  | some .post, .answered => some { vm.preload v with memLoad := some .poll }
  | some .poll, .answered =>
    if vm.guest.readStatus.state = .running then some vm
    else some { vm with memLoad := some .closed }
  | some .poll, _ => some { vm with memLoad := some .closed }
  | _, _ => none

/-- `Pause` or `CreateSnapshot` takes `lifecycleMu` and enters `ensureMemoryMaterialized`. -/
def Vm.ask (vm : Vm) (kind : OpKind) : Option Vm :=
  if vm.op = none ∧ (vm.launch = none ∨ vm.launch = some .template) then
    let pc : GatePc :=
      if !vm.lazyRestore then .passed else if vm.memLoad = none then .post else .wait
    some { vm with op := some ⟨kind, pc⟩ }
  else none

/-- The next step of `ensureMemoryMaterialized`; any error ends the operation. -/
def Vm.gateStep (vm : Vm) (v : ℕ) (r : Reply) : Option Vm :=
  match vm.op with
  | some ⟨kind, .wait⟩ =>
    if vm.memLoad = some .closed then some { vm with op := some ⟨kind, .post⟩ } else none
  | some ⟨kind, .post⟩ =>
    match r with
    | .lost => some { vm with op := none }
    | .unanswered => some { vm.preload v with op := none }
    | .answered =>
      let vm := vm.preload v
      let pc : GatePc := if vm.guest.readStatus.state = .done then .passed else .poll
      some { vm with op := some ⟨kind, pc⟩ }
  | some ⟨kind, .poll⟩ =>
    if r = .answered then
      match vm.guest.readStatus.state with
      | .running => some vm
      | .done => some { vm with op := some ⟨kind, .passed⟩ }
      | _ => some { vm with op := none }
    else some { vm with op := none }
  | _ => none

/-- The end of the operation after its snapshot: a pause destroys the machine or, if a later stage
fails, leaves it running; a live snapshot sends a last `/init`, which may be lost. -/
def Vm.finish (vm : Vm) (uuid : ℕ) (good : Bool) : Option (Option Vm) :=
  match vm.op with
  | some ⟨.pause, .snapped⟩ => some (if good then none else some { vm with op := none })
  | some ⟨.live, .snapped⟩ =>
    let vm := if good then vm.init uuid else vm
    some (some { vm with op := none })
  | _ => none

/-- What a restarted agent makes of a machine: it forgets every operation and goroutine, attaches
again to a recorded machine, re-arming the loader of a lazy one, and kills any other. -/
def Vm.restart (vm : Vm) : Option Vm :=
  if vm.recorded then
    some { vm with
      launch := none
      op := none
      memLoad := if vm.lazyRestore then some .post else none }
  else none

/-! ### Steps of the system -/

def World.setVm (w : World) (v : ℕ) (vm : Option Vm) : World :=
  { w with vms := Function.update w.vms v vm }

/-- A step of machine `v`, with the next lifecycle identifier at hand. -/
def World.onVm (w : World) (v : ℕ) (f : Vm → Option (Option Vm)) : Option World :=
  match w.vms v with
  | none => none
  | some vm => (f vm).map fun vm' => { w.setVm v vm' with uuid := w.uuid + 1 }

/-- A new machine under the next number. -/
def World.start (w : World) (vm : Vm) : World :=
  { w.setVm w.launched (some vm) with launched := w.launched + 1 }

def step (w : World) : Act → Option World
  | .boot iomem => some (w.start (.launched (.new iomem) .create))
  | .restore s resume =>
    (w.snaps s).map fun g => w.start (.launched g (if resume then .resume else .template))
  | .launch v delivered => w.onVm v fun vm => (vm.launchStep w.uuid delivered).map some
  | .init v => w.onVm v fun vm => some (some (vm.init w.uuid))
  | .preload v => w.onVm v fun vm => some (some (vm.preload v))
  | .cancel v => w.onVm v fun vm =>
      some (some { vm with guest := vm.guest.postMemoryPreloadCancel })
  | .thread v i io => w.onVm v fun vm =>
      (vm.guest.thread i io).map fun g =>
        some { vm with guest := g, walked := vm.walked || vm.guest.walksAll v i io }
  | .loader v r => w.onVm v fun vm => (vm.loaderStep v r).map some
  | .ask v kind => w.onVm v fun vm => (vm.ask kind).map some
  | .gate v r => w.onVm v fun vm => (vm.gateStep v r).map some
  | .snapshot v s =>
    match w.vms v with
    | none => none
    | some vm =>
      match vm.op with
      | some ⟨kind, .passed⟩ =>
        some { w.setVm v (some { vm with op := some ⟨kind, .snapped⟩ }) with
          snaps := Function.update w.snaps s (some vm.guest) }
      | _ => none
  | .fail v => w.onVm v fun vm => some (some { vm with op := none })
  | .finish v good => w.onVm v fun vm => vm.finish w.uuid good
  | .destroy v => w.onVm v fun _ => some none
  | .restart => some { w with vms := fun v => (w.vms v).bind Vm.restart }

/-- No machine and no snapshot yet. -/
def Init (w : World) : Prop := (∀ v, w.vms v = none) ∧ ∀ s, w.snaps s = none

/-! ### The invariant of one machine -/

/-- The guest of machine `v` is sound; once an `/init` has been applied in a lazily restored
machine, what its preloader says is about this machine. -/
structure Told (uuid v : ℕ) (vm : Vm) : Prop where
  guest : GuestOk vm.guest
  ids : ∀ n, vm.guest.lifecycleID = some n → n < uuid
  known : vm.lazyRestore = true ∨ vm.inited = true → vm.guest.lifecycleID ≠ none
  own : vm.lazyRestore = true → vm.inited = true → Own v vm.guest vm.walked

/-- An operation past the gate has seen a walked machine, and one that polls has an initialised
guest before it. -/
structure Gated (vm : Vm) : Prop where
  polls : ∀ k, vm.op = some ⟨k, .poll⟩ → vm.inited = true
  past : ∀ k pc, vm.op = some ⟨k, pc⟩ → pc = .passed ∨ pc = .snapped → vm.walked = true

structure VmOk (uuid v : ℕ) (vm : Vm) : Prop where
  told : Told uuid v vm
  gated : vm.lazyRestore = true → Gated vm

variable {vm vm' : Vm} {uuid v : ℕ} {g : Guest} {w w' : World}

theorem gated_of_no_op (h : vm.op = none) : Gated vm :=
  ⟨fun _ hk => absurd (h.symm.trans hk) (Option.some_ne_none _).symm,
    fun _ _ hk => absurd (h.symm.trans hk) (Option.some_ne_none _).symm⟩

theorem Told.mono {uuid' : ℕ} (h : Told uuid v vm) (hu : uuid ≤ uuid') :
    Told uuid' v vm :=
  ⟨h.guest, fun n hn => Nat.lt_of_lt_of_le (h.ids n hn) hu, h.known, h.own⟩

theorem VmOk.mono {uuid' : ℕ} (h : VmOk uuid v vm) (hu : uuid ≤ uuid') :
    VmOk uuid' v vm :=
  ⟨h.told.mono hu, h.gated⟩

theorem postInit_lifecycleID (g : Guest) (n : ℕ) : (g.postInit n).lifecycleID = some n := by
  by_cases hc : g.lifecycleChanged n = true
  · rw [postInit_of_changed hc]
  · rw [postInit_of_not_changed hc]

/-- A fresh identifier differs from the stored one, so an `/init` in a machine that has been
initialised before, or comes from one that has, starts a new generation. -/
theorem lifecycleChanged_of_known (hk : g.lifecycleID ≠ none)
    (hi : ∀ n, g.lifecycleID = some n → n < uuid) : g.lifecycleChanged uuid = true := by
  unfold Guest.lifecycleChanged
  split
  · rename_i n hn
    simpa using Nat.ne_of_lt (hi n hn)
  · rename_i hn
    exact absurd hn hk

theorem Told.init (h : Told uuid v vm) :
    Told (uuid + 1) v (vm.init uuid) where
  guest := h.guest.postInit uuid
  ids := fun n hn => by
    rw [Vm.init, postInit_lifecycleID, Option.some.injEq] at hn
    omega
  known := fun _ => by
    rw [Vm.init, postInit_lifecycleID]
    exact Option.some_ne_none _
  own := fun hl _ =>
    own_of_changed h.guest (lifecycleChanged_of_known (h.known (.inl hl)) h.ids) v vm.walked

theorem Told.preload (h : Told uuid v vm) :
    Told uuid v (vm.preload v) where
  guest := h.guest.postMemoryPreload v
  ids := fun n hn => h.ids n (by rwa [Vm.preload, postMemoryPreload_lifecycleID] at hn)
  known := fun hk => by
    rw [Vm.preload, postMemoryPreload_lifecycleID]
    exact h.known hk
  own := fun hl hi => (h.own hl hi).postMemoryPreload h.guest

theorem Gated.init (h : Gated vm) (uuid : ℕ) : Gated (vm.init uuid) :=
  ⟨fun _ _ => rfl, h.past⟩

section

variable (h : VmOk uuid v vm)
include h

theorem VmOk.init : VmOk (uuid + 1) v (vm.init uuid) :=
  ⟨h.told.init, fun hl => (h.gated hl).init uuid⟩

theorem VmOk.preload : VmOk uuid v (vm.preload v) :=
  ⟨h.told.preload, fun hl => ⟨(h.gated hl).polls, (h.gated hl).past⟩⟩

/-- The agent's own bookkeeping of a machine does not matter to the invariant. -/
theorem VmOk.bookkeeping (rec : Bool) (l : Option Launch) (m : Option LoadPc) :
    VmOk uuid v { vm with recorded := rec, launch := l, memLoad := m } :=
  ⟨⟨h.told.guest, h.told.ids, h.told.known, h.told.own⟩,
    fun hl => ⟨(h.gated hl).polls, (h.gated hl).past⟩⟩

/-- An operation may end at any time. -/
theorem VmOk.no_op : VmOk uuid v { vm with op := none } :=
  ⟨⟨h.told.guest, h.told.ids, h.told.known, h.told.own⟩, fun _ => gated_of_no_op rfl⟩

/-- An operation moves to `pc`. -/
theorem VmOk.with_op (kind : OpKind) (pc : GatePc) (hpoll : pc = .poll → vm.lazyRestore = true → vm.inited = true)
    (hpast : pc = .passed ∨ pc = .snapped → vm.lazyRestore = true → vm.walked = true) :
    VmOk uuid v { vm with op := some ⟨kind, pc⟩ } := by
  refine ⟨⟨h.told.guest, h.told.ids, h.told.known, h.told.own⟩, fun hl => ⟨?_, ?_⟩⟩
  · intro k hk
    cases hk
    exact hpoll rfl hl
  · intro k pc' hk hp
    cases hk
    exact hpast hp hl

/-- The answer `done` of an initialised guest tells the truth. -/
theorem VmOk.walked_of_done (hi : vm.inited = true)
    (hd : vm.guest.readStatus.state = .done) (hl : vm.lazyRestore = true) : vm.walked = true :=
  (h.told.own hl hi).told hd

/-! ### Every step keeps it -/

theorem VmOk.launchStep {d : Bool} (hs : vm.launchStep uuid d = some vm') : VmOk (uuid + 1) v vm' := by
  unfold Vm.launchStep at hs
  split at hs
  · cases hs
  · cases hs
    cases d
    · exact (h.mono (Nat.le_succ _)).bookkeeping _ _ _
    · exact h.init.bookkeeping _ _ _

theorem VmOk.loaderStep {r : Reply} (hs : vm.loaderStep v r = some vm') : VmOk uuid v vm' := by
  unfold Vm.loaderStep at hs
  split at hs
  · cases hs
    exact h.bookkeeping _ _ _
  · cases hs
    exact h.preload.bookkeeping _ _ _
  · cases hs
    exact h.preload.bookkeeping _ _ _
  · split_ifs at hs
    · cases hs
      exact h
    · cases hs
      exact h.bookkeeping _ _ _
  · cases hs
    exact h.bookkeeping _ _ _
  · cases hs

theorem VmOk.ask {kind : OpKind} (hs : vm.ask kind = some vm') : VmOk uuid v vm' := by
  unfold Vm.ask at hs
  split_ifs at hs with hc hl hm
  · cases hs
    refine h.with_op kind _ nofun fun _ he => ?_
    simp [he] at hl
  all_goals
    cases hs
    exact h.with_op kind _ nofun fun he => by simp at he

/-- The gate, when its `POST` only reaches an initialised guest. -/
theorem VmOk.gateStep {r : Reply} (hg : ∀ k, vm.op = some ⟨k, .post⟩ → r ≠ .lost → vm.inited = true)
    (hs : vm.gateStep v r = some vm') : VmOk uuid v vm' := by
  unfold Vm.gateStep at hs
  split at hs
  · split_ifs at hs
    cases hs
    exact h.with_op _ _ nofun fun he => by simp at he
  · rename_i kind hop
    split at hs
    · cases hs
      exact h.no_op
    · cases hs
      exact h.preload.no_op
    · cases hs
      have hi : (vm.preload v).inited = true := hg kind hop (by decide)
      refine h.preload.with_op kind _ (fun _ _ => hi) fun hp hl => ?_
      split_ifs at hp with hd
      · exact h.preload.walked_of_done hi hd hl
      · simp at hp
  · rename_i kind hop
    split_ifs at hs
    · split at hs
      · cases hs
        exact h
      · rename_i hd
        cases hs
        exact h.with_op _ _ nofun fun _ hl =>
          h.walked_of_done ((h.gated hl).polls kind hop) hd hl
      · cases hs
        exact h.no_op
    · cases hs
      exact h.no_op
  · cases hs

theorem VmOk.finish {good : Bool} (hs : vm.finish uuid good = some (some vm')) : VmOk (uuid + 1) v vm' := by
  unfold Vm.finish at hs
  split at hs
  · cases good
    · rw [← Option.some.inj (Option.some.inj hs)]
      exact (h.mono (Nat.le_succ _)).no_op
    · exact nomatch Option.some.inj hs
  · rw [← Option.some.inj (Option.some.inj hs)]
    cases good
    · exact (h.mono (Nat.le_succ _)).no_op
    · exact h.init.no_op
  · cases hs

theorem VmOk.cancel : VmOk uuid v { vm with guest := vm.guest.postMemoryPreloadCancel } :=
  ⟨⟨h.told.guest.postMemoryPreloadCancel, h.told.ids, h.told.known,
    fun hl hi => (h.told.own hl hi).postMemoryPreloadCancel⟩,
    fun hl => ⟨(h.gated hl).polls, (h.gated hl).past⟩⟩

theorem VmOk.thread {i : ℕ} {io : Io} (ht : vm.guest.thread i io = some g) :
    VmOk uuid v { vm with guest := g, walked := vm.walked || vm.guest.walksAll v i io } := by
  refine ⟨⟨h.told.guest.thread ht, fun n hn => ?_, fun hk => ?_, fun hl hi => ?_⟩,
    fun hl => ⟨(h.gated hl).polls, fun k pc hk hp => ?_⟩⟩
  · exact h.told.ids n ((thread_lifecycleID ht).symm.trans hn)
  · exact fun he => h.told.known hk ((thread_lifecycleID ht).symm.trans he)
  · exact (h.told.own hl hi).thread h.told.guest ht
  · exact Bool.or_eq_true_iff.mpr (.inl ((h.gated hl).past k pc hk hp))

theorem VmOk.restart (hs : vm.restart = some vm') : VmOk uuid v vm' := by
  unfold Vm.restart at hs
  by_cases hr : vm.recorded = true
  · rw [if_pos hr, Option.some.injEq] at hs
    rw [← hs]
    exact h.no_op.bookkeeping _ _ _
  · rw [if_neg hr] at hs
    cases hs

end

/-! ### Whole runs -/

structure WorldOk (w : World) : Prop where
  vms : ∀ v vm, w.vms v = some vm → VmOk w.uuid v vm
  snaps : ∀ s g, w.snaps s = some g → GuestOk g ∧ ∃ n < w.uuid, g.lifecycleID = some n

theorem worldOk_of_init (h : Init w) : WorldOk w :=
  ⟨fun v _ hv => absurd ((h.1 v).symm.trans hv) (Option.some_ne_none _).symm,
    fun s _ hs => absurd ((h.2 s).symm.trans hs) (Option.some_ne_none _).symm⟩

theorem WorldOk.setVm (h : WorldOk w) (vm : Option Vm)
    (hu : w.uuid ≤ uuid) (hv : ∀ vm', vm = some vm' → VmOk uuid v vm') :
    WorldOk { w.setVm v vm with uuid := uuid } := by
  refine ⟨fun u vm' hu' => ?_, fun s g hs => ?_⟩
  · simp only [World.setVm] at hu'
    rcases of_update hu' with ⟨rfl, heq⟩ | ⟨-, hu'⟩
    · exact hv vm' heq
    · exact (h.vms u vm' hu').mono hu
  · obtain ⟨h1, n, hn, h2⟩ := h.snaps s g hs
    exact ⟨h1, n, Nat.lt_of_lt_of_le hn hu, h2⟩

theorem WorldOk.onVm (h : WorldOk w) {f : Vm → Option (Option Vm)}
    (hf : ∀ vm vm', w.vms v = some vm → VmOk w.uuid v vm → f vm = some (some vm') →
      VmOk (w.uuid + 1) v vm')
    (hs : w.onVm v f = some w') : WorldOk w' := by
  unfold World.onVm at hs
  split at hs
  · cases hs
  · rename_i vm hv
    obtain ⟨o, ho, rfl⟩ := Option.map_eq_some_iff.mp hs
    refine h.setVm o (Nat.le_succ _) fun vm' he => ?_
    rw [he] at ho
    exact hf vm vm' hv (h.vms v vm hv) ho

/-- A step that leaves the machine there. -/
theorem WorldOk.onVm_map {α : Type*} (h : WorldOk w) {f : Vm → Option α} {g : Vm → α → Vm}
    (hf : ∀ vm x, w.vms v = some vm → VmOk w.uuid v vm → f vm = some x → VmOk (w.uuid + 1) v (g vm x))
    (hs : w.onVm v (fun vm => (f vm).map fun x => some (g vm x)) = some w') : WorldOk w' := by
  refine h.onVm (fun vm vm' hv hvm he => ?_) hs
  obtain ⟨x, hx, he⟩ := Option.map_eq_some_iff.mp he
  cases he
  exact hf vm x hv hvm hx

theorem vmOk_launched {l : Launch} (hg : GuestOk g)
    (hi : ∀ n, g.lifecycleID = some n → n < uuid) (hk : l ≠ .create → g.lifecycleID ≠ none) :
    VmOk uuid v (.launched g l) where
  told :=
    { guest := hg
      ids := hi
      known := fun h => by
        rcases h with h | h
        · exact hk (by simpa [Vm.launched] using h)
        · cases h
      own := nofun }
  gated := fun _ => gated_of_no_op rfl

/-- The moves a run may make: the gate's `POST /memory/preload` reaches a machine only after an
`/init` has been applied there since its launch, and a cold machine is snapshotted only after its
`/init`. -/
def Inited (w : World) : Act → Prop
  | .gate v r => ∀ vm k, w.vms v = some vm → vm.op = some ⟨k, .post⟩ → r ≠ .lost → vm.inited = true
  | .snapshot v _ => ∀ vm, w.vms v = some vm → vm.lazyRestore = false → vm.inited = true
  | _ => True

theorem WorldOk.snapshot (h : WorldOk w) {s : ℕ} (hg : Inited w (.snapshot v s))
    (hs : step w (.snapshot v s) = some w') : WorldOk w' := by
  simp only [step] at hs
  split at hs
  · cases hs
  · rename_i vm hv
    split at hs
    · rename_i kind hop
      have hvm := h.vms v vm hv
      have hset := h.setVm (some { vm with op := some ⟨kind, .snapped⟩ }) (Nat.le_refl w.uuid)
        fun vm' he => by
          cases he
          exact hvm.with_op kind _ nofun fun _ hl =>
            (hvm.gated hl).past kind _ hop (.inl rfl)
      have hknown : vm.guest.lifecycleID ≠ none := by
        refine hvm.told.known ?_
        cases hl : vm.lazyRestore with
        | true => exact .inl rfl
        | false => exact .inr (hg vm hv hl)
      obtain ⟨n, hn⟩ := Option.ne_none_iff_exists'.mp hknown
      cases hs
      refine ⟨hset.vms, fun t g ht => ?_⟩
      rcases of_update ht with ⟨-, ⟨⟩⟩ | ⟨-, ht⟩
      · exact ⟨hvm.told.guest, n, hvm.told.ids n hn, hn⟩
      · exact h.snaps t g ht
    · cases hs

theorem WorldOk.start (h : WorldOk w) (hv : VmOk w.uuid w.launched vm) :
    WorldOk (w.start vm) := by
  have hset := h.setVm (some vm) (Nat.le_refl w.uuid) fun vm' he => by
    cases he
    exact hv
  exact ⟨hset.vms, hset.snaps⟩

theorem WorldOk.step {a : Act} (h : WorldOk w) (hg : Inited w a)
    (hs : step w a = some w') : WorldOk w' := by
  have hup : ∀ {v : ℕ} {vm : Vm}, VmOk w.uuid v vm → VmOk (w.uuid + 1) v vm :=
    fun h => h.mono (Nat.le_succ _)
  match a with
  | .boot iomem =>
    cases hs
    exact h.start (vmOk_launched (guestOk_new iomem) nofun
      fun hc => absurd rfl hc)
  | .restore s resume =>
    obtain ⟨g, hsg, rfl⟩ := Option.map_eq_some_iff.mp hs
    obtain ⟨h1, n, hn, h2⟩ := h.snaps s g hsg
    refine h.start (vmOk_launched h1 (fun m hm => ?_) fun _ he => ?_)
    · rw [h2, Option.some.injEq] at hm
      omega
    · rw [h2] at he
      cases he
  | .launch v delivered => exact h.onVm_map (fun _ _ _ hvm h1 => hvm.launchStep h1) hs
  | .init v =>
    refine h.onVm (fun vm vm' _ hvm he => ?_) hs
    rw [← Option.some.inj (Option.some.inj he)]
    exact hvm.init
  | .preload v =>
    refine h.onVm (fun vm vm' _ hvm he => ?_) hs
    rw [← Option.some.inj (Option.some.inj he)]
    exact hup hvm.preload
  | .cancel v =>
    refine h.onVm (fun vm vm' _ hvm he => ?_) hs
    rw [← Option.some.inj (Option.some.inj he)]
    exact hup hvm.cancel
  | .thread v i io => exact h.onVm_map (fun _ _ _ hvm h1 => hup (hvm.thread h1)) hs
  | .loader v r => exact h.onVm_map (fun _ _ _ hvm h1 => hup (hvm.loaderStep h1)) hs
  | .ask v kind => exact h.onVm_map (fun _ _ _ hvm h1 => hup (hvm.ask h1)) hs
  | .gate v r =>
    exact h.onVm_map (fun vm _ hv hvm h1 => hup (hvm.gateStep (fun k hk hr => hg vm k hv hk hr) h1)) hs
  | .snapshot v s => exact h.snapshot hg hs
  | .fail v =>
    refine h.onVm (fun vm vm' _ hvm he => ?_) hs
    rw [← Option.some.inj (Option.some.inj he)]
    exact hup hvm.no_op
  | .finish v good =>
    refine h.onVm (fun vm vm' _ hvm he => ?_) hs
    exact hvm.finish he
  | .destroy v =>
    refine h.onVm (fun vm vm' _ hvm he => ?_) hs
    exact nomatch Option.some.inj he
  | .restart =>
    cases hs
    refine ⟨fun v vm hv => ?_, h.snaps⟩
    obtain ⟨vm0, h0, h1⟩ := Option.bind_eq_some_iff.mp hv
    exact (h.vms v vm0 h0).restart h1

/-- **Lazy memory is materialised before every snapshot**, in every run in which the gate only asks
machines that an `/init` has reached since their launch: when `vm.Snapshot` runs on a lazily
restored machine, a loader spawned in that machine has walked all of its memory. -/
theorem reach_snapshot_walked {w w' : World} {v s : ℕ} {vm : Vm} (h : Reach step Inited Init w)
    (hv : w.vms v = some vm) (hl : vm.lazyRestore = true)
    (hs : step w (.snapshot v s) = some w') : vm.walked = true := by
  have hok : WorldOk w := h.invariant (fun _ => worldOk_of_init) fun _ _ _ hw hg ht => hw.step hg ht
  simp only [step, hv] at hs
  split at hs
  · rename_i kind hop
    exact ((hok.vms v vm hv).gated hl).past kind _ hop (.inl rfl)
  · cases hs

/-! ### Runs -/

/-- No machine, no snapshot. -/
def emptyHost : World where
  vms := fun _ => none
  snaps := fun _ => none
  uuid := 0
  launched := 0

/-- Machine 0 is created and paused into snapshot 0. -/
def coldPaused : List Act :=
  [.boot [1], .launch 0 true, .ask 0 .pause, .snapshot 0 0, .finish 0 true]

/-- Machine `v`, in which `/init` has been applied, loads its memory, page by page, by thread `i`,
and passes the gate. -/
def loaded (v i : ℕ) : List Act :=
  [.loader v .answered, .thread v i .ok, .thread v i .ok, .thread v i .ok, .thread v i .ok,
    .thread v i .ok, .loader v .answered, .ask v .pause, .gate v .answered, .gate v .answered]

theorem resumedRun_admits : Admits step Inited emptyHost
    (coldPaused ++ ([.restore 0 true, .launch 1 true] : List Act) ++ loaded 1 0) := by
  refine ⟨trivial, trivial, trivial, ?_, trivial, trivial, trivial, trivial, trivial, trivial,
    trivial, trivial, trivial, trivial, trivial, ?_, ?_, trivial⟩
  · intro vm hv _
    cases hv
    rfl
  all_goals
    intro vm k hv _ _
    cases hv
    rfl

theorem resumedRun_walked :
    ∃ w w' vm, exec step emptyHost (coldPaused ++ ([.restore 0 true, .launch 1 true] : List Act) ++
      loaded 1 0) = some w ∧ w.vms 1 = some vm ∧ vm.lazyRestore = true ∧
      step w (.snapshot 1 1) = some w' ∧ vm.walked = true := by
  refine ⟨_, _, _, rfl, rfl, rfl, rfl, ?_⟩
  exact reach_snapshot_walked (v := 1) (s := 1)
    (.of_admits ⟨fun _ => rfl, fun _ => rfl⟩ resumedRun_admits rfl)
    rfl rfl rfl

/-- The first resume of the sandbox goes as intended.  The `/init` of its second resume is lost, and
`done` of the first one, frozen into the snapshot, lets the next pause through the gate. -/
theorem frozen_done_passes :
    ∃ w w' vm, exec step emptyHost (coldPaused ++ ([.restore 0 true, .launch 1 true] : List Act) ++ loaded 1 0 ++
      ([.snapshot 1 1, .finish 1 true, .restore 1 true, .launch 2 false, .loader 2 .answered,
        .loader 2 .answered, .ask 2 .pause, .gate 2 .answered, .gate 2 .answered] : List Act)) = some w ∧
      w.vms 2 = some vm ∧ vm.lazyRestore = true ∧ step w (.snapshot 2 2) = some w' ∧
      vm.walked = false := by
  refine ⟨_, _, _, rfl, rfl, rfl, rfl, rfl⟩

end Wrenn.Preload.Gate
