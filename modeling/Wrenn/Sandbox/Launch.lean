import Mathlib.Data.Int.Order.Basic
import Wrenn.Network.Processes

/-!
# Failed launches

`Manager.Create`, `createFromSnapshotTemplate` and `resumeFromMeta` acquire a loop device, a dm-snapshot, a slot, a
network and a VM, one after the other; whatever fails, what has been acquired is given back.  Any step may fail, for
instance because the context is cancelled; what gives a resource back succeeds.  The scan of `Allocate` iterates the
`look` of `Network.Processes`, where closing a new claim file is a step of its own.

* `failed_launch_gives_back_iff`: a launch that fails leaves everything as it was, unless it comes to a claim file that
  fails to close, to a VM under an id that has one already or, for a resume, to a dm device of its name;
* `close_keeps_claim`: a claim file that fails to close stays, and its slot with it.
-/

namespace Wrenn.Sandbox.Launch

open Network.Slots Network.Processes Function

/-- The steps of `CreateNetwork`. -/
inductive NetStep
  | getHostNS | newNamed
  | addVeth | findPeer | peerAddr | peerUp | findVeth | moveVeth
  | addTap | findTap | tapAddr | tapUp | findLo | loUp | defaultRoute | ipForward | snat | dnat | setHostNS
  | findHostVeth | vethAddr | vethUp | hostRoute | defaultInterface | forwardOut | forwardIn | masquerade
  deriving DecidableEq, Repr

inductive Step
  | statRootfs | readSnapshotMeta | losetup | originSize | mkdirSandbox | createFile | truncate
  | dmsetupRemove | losetupCow | dmsetupCreate | net (s : NetStep) | provisionVolumes
  | validate | startProcess | waitForSocket | createVM | bootVM | vmInfo | vmResume
  | waitUntilReady | mountVolumes
  deriving DecidableEq, Repr

structure Env where
  fails : Step → Bool
  /-- the creation of the claim file of a slot -/
  fault : ℤ → Fault

/-- The devices of a slot: its namespace, and the end of its veth pair that is in the namespace of the host. -/
structure Net where
  ns : Bool
  veth : Bool
  deriving DecidableEq, Repr

structure World where
  slots : SlotAllocator
  claims : ClaimFiles
  /-- the reference counts of the loop registry, by image; without an entry, 0 -/
  loops : ℕ → ℕ
  /-- the device `wrenn-{id}` exists -/
  dm : ℕ → Bool
  net : ℤ → Net
  vms : ℕ → Bool
  boxes : ℕ → Bool
  creates : ℕ → Bool
  /-- CoW files, by what they hold -/
  cow : ℕ → Option ℕ
  pauseDir : ℕ → Option ℕ

/-! ### Resources -/

section Code

variable (env : Env)

/-- `LoopRegistry.Acquire`; a device is only made for the first reference. -/
def acquire (image : ℕ) (w : World) : World × Bool :=
  if w.loops image = 0 ∧ env.fails .losetup then (w, false)
  else ({ w with loops := Function.update w.loops image (w.loops image + 1) }, true)

def releaseLoop (image : ℕ) (w : World) : World :=
  { w with loops := Function.update w.loops image (w.loops image - 1) }

/-- `attachCowAndCreate`: the name of a device can be taken once. -/
def attachCowAndCreate (id : ℕ) (w : World) : World × Bool :=
  if env.fails .losetupCow ∨ env.fails .dmsetupCreate ∨ w.dm id then (w, false)
  else ({ w with dm := Function.update w.dm id true }, true)

/-- `devicemapper.CreateSnapshot`; a failure removes the CoW file that it has made. -/
def createSnapshot (id : ℕ) (w : World) : World × Bool :=
  if env.fails .createFile then (w, false)
  else if env.fails .truncate then ({ w with cow := Function.update w.cow id none }, false)
  else match attachCowAndCreate env id { w with cow := Function.update w.cow id (some 0) } with
    | (w', true) => (w', true)
    | (w', false) => ({ w' with cow := Function.update w'.cow id none }, false)

def removeSnapshot (id : ℕ) (w : World) : World := { w with dm := Function.update w.dm id false }

/-- `devicemapper.RestoreSnapshot`, which removes a stale device first -/
def restoreSnapshot (id : ℕ) (w : World) : World × Bool :=
  if w.dm id then
    if env.fails .dmsetupRemove then (w, false)
    else attachCowAndCreate env id (removeSnapshot id w)
  else attachCowAndCreate env id w

/-- `SlotAllocator.Allocate` -/
def allocateFrom (fault : ℤ → Fault) :
    ℕ → ℤ → SlotAllocator → ClaimFiles → SlotAllocator × ClaimFiles × Except SlotError ℤ
  | 0, _, a, files => (a, files, .error .noFreeSlots)
  | n + 1, i, a, files =>
    match look a files (fault i) i with
    | (a', files', some res) => (a', files', res)
    | (a', files', none) => allocateFrom fault n (i + 1) a' files'

def allocateSlot (w : World) : World × Option ℤ :=
  match allocateFrom env.fault 32767 1 w.slots w.claims with
  | (a, files, .ok i) => ({ w with slots := a, claims := files }, some i)
  | (a, files, .error _) => ({ w with slots := a, claims := files }, none)

def releaseSlot (i : ℤ) (w : World) : World :=
  { w with slots := (release w.slots w.claims i).1, claims := (release w.slots w.claims i).2 }

/-- The steps between the creation of the namespace and the move of the veth to the host. -/
def inside : List NetStep := [.addVeth, .findPeer, .peerAddr, .peerUp, .findVeth, .moveVeth]

/-- The steps that follow in the namespace, where a rollback does not find the veth. -/
def moved : List NetStep :=
  [.addTap, .findTap, .tapAddr, .tapUp, .findLo, .loUp, .defaultRoute, .ipForward, .snat, .dnat, .setHostNS]

def onHost : List NetStep :=
  [.findHostVeth, .vethAddr, .vethUp, .hostRoute, .defaultInterface, .forwardOut, .forwardIn, .masquerade]

/-- The end of the pair in the namespace goes with it, and with one end the other. -/
def deleteNamed (n : Net) : Net := { n with ns := false }

def deletePair (_ : Net) : Net := ⟨false, false⟩

/-- `CreateNetwork`; an error runs the rollbacks. -/
def createNetwork (n : Net) : Net × Bool :=
  if env.fails (.net .getHostNS) ∨ env.fails (.net .newNamed) ∨ n.ns then (n, false)
  else if inside.any (fun s => env.fails (.net s)) ∨ n.veth then (deleteNamed { n with ns := true }, false)
  else if (moved ++ onHost).any fun s => env.fails (.net s) then (deletePair ⟨true, true⟩, false)
  else (⟨true, true⟩, true)

def createNetworkOf (i : ℤ) (w : World) : World × Bool :=
  ({ w with net := Function.update w.net i (createNetwork env (w.net i)).1 }, (createNetwork env (w.net i)).2)

def removeNetwork (i : ℤ) (w : World) : World := { w with net := Function.update w.net i ⟨false, false⟩ }

/-- `vm.Manager.Create` and `CreateFromSnapshot` register a VM at their end. -/
def startVM (steps : List Step) (id : ℕ) (w : World) : World × Bool :=
  if steps.any env.fails then (w, false) else ({ w with vms := Function.update w.vms id true }, true)

def destroyVM (id : ℕ) (w : World) : World := { w with vms := Function.update w.vms id false }

/-! ### Launches -/

/-- `createResources`; the loop, the device and the CoW file are there when it is made. -/
structure Resources where
  id : ℕ
  image : ℕ
  slotIdx : Option ℤ
  slot : Bool
  vm : Bool

def rollback (r : Resources) (w : World) : World :=
  let w := if r.vm then destroyVM r.id w else w
  let w := match r.slotIdx with
    | none => w
    | some i => releaseSlot i (if r.slot then removeNetwork i w else w)
  let w := removeSnapshot r.id w
  releaseLoop r.image { w with cow := Function.update w.cow r.id none }

/-- The loop and the dm-snapshot, the same for the two ways to create a sandbox. -/
def createRootfs (id image : ℕ) (w : World) : World × Bool :=
  match acquire env image w with
  | (w, false) => (w, false)
  | (w, true) =>
    if env.fails .originSize ∨ env.fails .mkdirSandbox then (releaseLoop image w, false)
    else match createSnapshot env id w with
      | (w, false) => (releaseLoop image w, false)
      | (w, true) => (w, true)

/-- The slot and the network, which need a rollback of the rootfs. -/
def createSlot (id image : ℕ) (w : World) : World × Option ℤ :=
  match allocateSlot env w with
  | (w, none) => (rollback ⟨id, image, none, false, false⟩ w, none)
  | (w, some i) =>
    match createNetworkOf env i w with
    | (w, false) => (rollback ⟨id, image, some i, false, false⟩ w, none)
    | (w, true) => (w, some i)

def bootSteps : List Step := [.validate, .startProcess, .waitForSocket, .createVM, .bootVM]

def restoreSteps : List Step := [.validate, .startProcess, .waitForSocket, .vmInfo]

def launchRestoredVM (id : ℕ) (w : World) : World × Bool :=
  match startVM env restoreSteps id w with
  | (w, false) => (w, false)
  | (w, true) => if env.fails .vmResume ∨ env.fails .waitUntilReady then (destroyVM id w, false) else (w, true)

def register (id : ℕ) (w : World) : World := { w with boxes := Function.update w.boxes id true }

/-- The rootfs, the slot and the network of a sandbox that is created, and what follows them. -/
def createUpTo (rest : ℤ → World → World × Bool) (id image : ℕ) (w : World) : World × Bool :=
  match createRootfs env id image w with
  | (w, false) => (w, false)
  | (w, true) =>
    match createSlot env id image w with
    | (w, none) => (w, false)
    | (w, some i) => rest i w

def restoreFromTemplate (id image : ℕ) (i : ℤ) (w : World) : World × Bool :=
  match launchRestoredVM env id w with
  | (w, false) => (rollback ⟨id, image, some i, true, false⟩ w, false)
  | (w, true) => (register id w, true)

/-- `createFromSnapshotTemplate`; the metadata name a sandbox directory or do not. -/
def createFromSnapshotTemplate (id image : ℕ) (sandboxDir : Bool) (w : World) : World × Bool :=
  if env.fails .readSnapshotMeta ∨ !sandboxDir then (w, false)
  else createUpTo env (restoreFromTemplate env id image) id image w

def bootFresh (id image : ℕ) (i : ℤ) (w : World) : World × Bool :=
  if env.fails .provisionVolumes then (rollback ⟨id, image, some i, true, false⟩ w, false)
  else match startVM env bootSteps id w with
    | (w, false) => (rollback ⟨id, image, some i, true, false⟩ w, false)
    | (w, true) =>
      if env.fails .waitUntilReady ∨ env.fails .mountVolumes then
        (rollback ⟨id, image, some i, true, true⟩ w, false)
      else (register id w, true)

/-- The rest of `Create`, for a template without a snapshot. -/
def createFresh (id image : ℕ) (w : World) : World × Bool :=
  if env.fails .statRootfs then (w, false) else createUpTo env (bootFresh env id image) id image w

structure Request where
  id : ℕ
  image : ℕ
  volumes : ℕ
  /-- a snapshot template, not a system template; whether its metadata name a sandbox directory -/
  snapshot : Option Bool
  draining : Bool

/-- `Manager.Create`; the handle goes when it returns. -/
def create (q : Request) (w : World) : World × Bool :=
  if q.draining ∨ w.boxes q.id ∨ w.creates q.id then (w, false)
  else
    let w := { w with creates := Function.update w.creates q.id true }
    let r := match q.snapshot with
      | some sandboxDir =>
        if 0 < q.volumes then (w, false) else createFromSnapshotTemplate env q.id q.image sandboxDir w
      | none => createFresh env q.id q.image w
    ({ r.1 with creates := Function.update r.1.creates q.id false }, r.2)

/-- `resumeFromMeta` of a sandbox whose slot is `i`. -/
def resumeFromMeta (id image : ℕ) (i : ℤ) (w : World) : World × Bool :=
  match acquire env image w with
  | (w, false) => (w, false)
  | (w, true) =>
    if env.fails .originSize then (releaseLoop image w, false)
    else match restoreSnapshot env id w with
      | (w, false) => (releaseLoop image w, false)
      | (w, true) =>
        match createNetworkOf env i w with
        | (w, false) => (releaseLoop image (removeSnapshot id w), false)
        | (w, true) =>
          match launchRestoredVM env id w with
          | (w, false) => (releaseLoop image (removeSnapshot id (removeNetwork i w)), false)
          | (w, true) => (w, true)

end Code

/-! ### What a launch comes to -/

/-- The index at which a scan from `j` on ends: those before it are in use, or have the claim file of another
process. -/
structure FirstFree (fault : ℤ → Fault) (a : SlotAllocator) (files : ClaimFiles) (j i : ℤ) : Prop where
  le : j ≤ i
  passed : ∀ m, j ≤ m → m < i → a.inUse m = true ∨ (a.slotsDir = true ∧ files m = true ∧ fault m ≠ .io)
  free : a.inUse i = false
  unclaimed : a.slotsDir = true → files i = false

/-- The steps up to the dm-snapshot go through. -/
def MakesRootfs (env : Env) (id image : ℕ) (w : World) : Prop :=
  (w.loops image = 0 → env.fails .losetup = false) ∧ env.fails .originSize = false ∧
    env.fails .mkdirSandbox = false ∧ env.fails .createFile = false ∧ env.fails .truncate = false ∧
    env.fails .losetupCow = false ∧ env.fails .dmsetupCreate = false ∧ w.dm id = false

/-- The network of a slot can be made. -/
structure MakesNetwork (env : Env) (n : Net) : Prop where
  steps : ∀ s ∈ [NetStep.getHostNS, .newNamed] ++ inside ++ moved ++ onHost, env.fails (.net s) = false
  free : n = ⟨false, false⟩

/-- The scan comes to an index whose claim file is created and fails to close. -/
def FailsToClose (env : Env) (w : World) : Prop :=
  ∃ i ≤ 32767, FirstFree env.fault w.slots w.claims 1 i ∧ w.slots.slotsDir = true ∧ env.fault i = .close

/-- There are a slot and a network. -/
def MakesSlot (env : Env) (w : World) : Prop :=
  ∃ i ≤ 32767, FirstFree env.fault w.slots w.claims 1 i ∧ (w.slots.slotsDir = true → env.fault i = .none) ∧
    MakesNetwork env (w.net i)

/-- A VM comes up under an id that has one already. -/
def Replaces (env : Env) (steps : List Step) (id : ℕ) (w : World) : Prop :=
  w.vms id = true ∧ ∀ s ∈ steps, env.fails s = false

/-- A create comes to a claim file that fails to close, or to a VM that replaces another. -/
def CreateLoses (env : Env) (steps : List Step) (id image : ℕ) (w : World) : Prop :=
  MakesRootfs env id image w ∧ (FailsToClose env w ∨ MakesSlot env w ∧ Replaces env steps id w)

def TemplateLoses (env : Env) (id image : ℕ) (sandboxDir : Bool) (w : World) : Prop :=
  env.fails .readSnapshotMeta = false ∧ sandboxDir = true ∧ CreateLoses env restoreSteps id image w

def Loses (env : Env) (q : Request) (w : World) : Prop :=
  q.draining = false ∧ w.boxes q.id = false ∧ w.creates q.id = false ∧
    match q.snapshot with
    | some sandboxDir => q.volumes = 0 ∧ TemplateLoses env q.id q.image sandboxDir w
    | none => env.fails .statRootfs = false ∧ CreateLoses env (.provisionVolumes :: bootSteps) q.id q.image w

/-- A resume removes a stale device, or comes to a VM that replaces another. -/
def ResumeLoses (env : Env) (id image : ℕ) (i : ℤ) (w : World) : Prop :=
  (w.loops image = 0 → env.fails .losetup = false) ∧ env.fails .originSize = false ∧
    if w.dm id then env.fails .dmsetupRemove = false
    else env.fails .losetupCow = false ∧ env.fails .dmsetupCreate = false ∧ MakesNetwork env (w.net i) ∧
      Replaces env restoreSteps id w

/-! ### What is given back -/

variable {env : Env} {w w' v v' : World} {id image : ℕ} {i : ℤ} {ok : Bool}

/-- A slot is in use if this process or a claim file says so. -/
def slotInUse (w : World) (i : ℤ) : Bool := w.slots.inUse i || w.claims i

/-- Nothing is left of a launch; the allocator may have found the claim files of other processes. -/
structure Same (w w' : World) : Prop where
  slots : ∀ i, slotInUse w' i = slotInUse w i
  claims : w'.claims = w.claims
  loops : w'.loops = w.loops
  dm : w'.dm = w.dm
  net : w'.net = w.net
  vms : w'.vms = w.vms
  boxes : w'.boxes = w.boxes
  creates : w'.creates = w.creates

theorem Same.refl (w : World) : Same w w := ⟨fun _ => rfl, rfl, rfl, rfl, rfl, rfl, rfl, rfl⟩

theorem update_back {α β : Type} [DecidableEq α] {f : α → β} {a : α} {b c : β} (h : f a = c) :
    update (update f a b) a c = f := by
  rw [update_idem, ← h, update_eq_self]

/-- What a failed launch leaves: nothing, unless `l` holds, and then a claim file or the loss of a VM. -/
structure Leaves (l : Prop) (w v : World) : Prop where
  same : ¬l → Same w v
  lost : l → v.claims ≠ w.claims ∨ v.vms ≠ w.vms

theorem Leaves.nothing {l : Prop} (h : ¬l) (hs : Same w v) : Leaves l w v := ⟨fun _ => hs, fun hl => absurd hl h⟩

theorem Leaves.iff {l : Prop} (h : Leaves l w v) : Same w v ↔ ¬l :=
  ⟨fun hs hl => (h.lost hl).elim (fun hc => hc hs.claims) fun hv => hv hs.vms, h.same⟩

theorem Leaves.congr {l l' : Prop} (h : Leaves l w v) (hl : l ↔ l') : Leaves l' w v :=
  ⟨fun hn => h.same (mt hl.mp hn), fun hl' => h.lost (hl.mpr hl')⟩

/-- What `Allocate` finds out in a scan without a result. -/
structure Learns (files : ClaimFiles) (a a' : SlotAllocator) : Prop where
  slotsDir : a'.slotsDir = a.slotsDir
  inUse : ∀ j, (a'.inUse j || files j) = (a.inUse j || files j)

theorem Learns.refl (files : ClaimFiles) (a : SlotAllocator) : Learns files a a := ⟨rfl, fun _ => rfl⟩

theorem Learns.trans {files : ClaimFiles} {a b c : SlotAllocator} (h : Learns files a b) (h' : Learns files b c) :
    Learns files a c :=
  ⟨h'.slotsDir.trans h.slotsDir, fun j => (h'.inUse j).trans (h.inUse j)⟩

/-- A result of `Allocate`: without a slot nothing is claimed, and a slot can be given back. -/
def Returned (files : ClaimFiles) (a : SlotAllocator) : SlotAllocator × ClaimFiles × Except SlotError ℤ → Prop
  | (a', files', .error _) => files' = files ∧ Learns files a a'
  | (a', files', .ok i) => (release a' files' i).2 = files ∧ Learns files a (release a' files' i).1

theorem Returned.of_learns {files : ClaimFiles} {a b : SlotAllocator} (h : Learns files a b) :
    ∀ {x : SlotAllocator × ClaimFiles × Except SlotError ℤ}, Returned files b x → Returned files a x
  | (_, _, .error _), hx => ⟨hx.1, h.trans hx.2⟩
  | (_, _, .ok _), hx => ⟨hx.1, h.trans hx.2⟩

section FirstFree

variable {fault : ℤ → Fault} {a b : SlotAllocator} {files : ClaimFiles} {j i i' : ℤ}

/-- The index is the first free one, or the scan goes on behind it. -/
theorem FirstFree.step (h : FirstFree fault a files (j + 1) i)
    (hj : a.inUse j = true ∨ (a.slotsDir = true ∧ files j = true ∧ fault j ≠ .io)) : FirstFree fault a files j i := by
  refine ⟨by have := h.le; omega, fun m hm hlt => ?_, h.free, h.unclaimed⟩
  by_cases hmj : m = j
  · exact hmj ▸ hj
  · exact h.passed m (by omega) hlt

theorem FirstFree.self (hu : a.inUse j = false) (hf : a.slotsDir = true → files j = false) :
    FirstFree fault a files j j :=
  ⟨le_rfl, fun m hm hlt => absurd hm (by omega), hu, hf⟩

theorem FirstFree.unique (h : FirstFree fault a files j i) (h' : FirstFree fault a files j i') : i = i' := by
  have hle : ∀ {i i' : ℤ}, FirstFree fault a files j i → FirstFree fault a files j i' → i' ≤ i := by
    intro i i' h h'
    by_contra hlt
    rcases h'.passed i h.le (by omega) with hu | ⟨hd, hf, -⟩
    · rw [h.free] at hu
      cases hu
    · rw [h.unclaimed hd] at hf
      cases hf
  exact le_antisymm (hle h' h) (hle h h')

/-- The scan reads the indices from `j` on only. -/
theorem FirstFree.of_agree (h : FirstFree fault a files j i) (hd : b.slotsDir = a.slotsDir)
    (hu : ∀ m, j ≤ m → b.inUse m = a.inUse m) : FirstFree fault b files j i := by
  refine ⟨h.le, fun m hm hlt => ?_, (hu i h.le).trans h.free, fun hb => h.unclaimed (hd.symm.trans hb)⟩
  rw [hu m hm, hd]
  exact h.passed m hm hlt

/-- A taken index. -/
theorem firstFree_behind (hj : a.inUse j = true ∨ (a.slotsDir = true ∧ files j = true ∧ fault j ≠ .io)) :
    FirstFree fault a files (j + 1) i ↔ FirstFree fault a files j i := by
  refine ⟨fun h => h.step hj, fun h => ⟨?_, fun m hm hlt => h.passed m (by omega) hlt, h.free, h.unclaimed⟩⟩
  by_contra hlt
  have hij : i = j := by
    have := h.le
    omega
  subst hij
  rcases hj with hu | ⟨hd, hf, -⟩
  · rw [h.free] at hu
    cases hu
  · rw [h.unclaimed hd] at hf
    cases hf

end FirstFree

/-- What comes of a scan of `n` indices from `j` on. -/
inductive Scanned (fault : ℤ → Fault) (a : SlotAllocator) (files : ClaimFiles) (j : ℤ) (n : ℕ) :
    SlotAllocator × ClaimFiles × Except SlotError ℤ → Prop
  | closed {i : ℤ} {a' : SlotAllocator} {e : SlotError} (hi : FirstFree fault a files j i) (hlt : i < j + n)
    (hd : a.slotsDir = true) (hf : fault i = .close) : Scanned fault a files j n (a', update files i true, .error e)
  | slot {i : ℤ} {a' : SlotAllocator} {files' : ClaimFiles} (hi : FirstFree fault a files j i) (hlt : i < j + n)
    (hf : a.slotsDir = true → fault i = .none) (hr : Returned files a (a', files', .ok i)) :
    Scanned fault a files j n (a', files', .ok i)
  | failed {a' : SlotAllocator} {e : SlotError} (hl : Learns files a a')
    (hno : ∀ i < j + n, FirstFree fault a files j i → a.slotsDir = true ∧ fault i = .io) :
    Scanned fault a files j n (a', files, .error e)

/-- The scan goes on behind an index that is taken. -/
theorem Scanned.behind {fault : ℤ → Fault} {a b : SlotAllocator} {files : ClaimFiles} {j : ℤ} {n : ℕ}
    {x : SlotAllocator × ClaimFiles × Except SlotError ℤ} (h : Scanned fault b files (j + 1) n x)
    (hl : Learns files a b) (hiff : ∀ i, FirstFree fault b files (j + 1) i ↔ FirstFree fault a files j i) :
    Scanned fault a files j (n + 1) x := by
  have hd : b.slotsDir = a.slotsDir := hl.slotsDir
  cases h with
  | closed hi hlt hdir hf => exact .closed ((hiff _).mp hi) (by push_cast; omega) (hd ▸ hdir) hf
  | slot hi hlt hf hr => exact .slot ((hiff _).mp hi) (by push_cast; omega) (hd ▸ hf) (hr.of_learns hl)
  | failed hl' hno =>
    refine .failed (hl.trans hl') fun i hlt hi => ?_
    rw [← hd]
    exact hno i (by push_cast at hlt; omega) ((hiff i).mpr hi)

/-- **Allocation.** -/
theorem allocateFrom_scanned (fault : ℤ → Fault) (files : ClaimFiles) :
    ∀ (n : ℕ) (j : ℤ) (a : SlotAllocator), Scanned fault a files j n (allocateFrom fault n j a files) := by
  intro n
  induction n with
  | zero => exact fun j a => .failed (Learns.refl _ _) fun i hlt hi => absurd hi.le (by push_cast at hlt; omega)
  | succ n ih =>
    intro j a
    have hnow : j < j + ((n + 1 : ℕ) : ℤ) := by push_cast; omega
    rw [allocateFrom]
    unfold look Wrenn.Network.Processes.create claimFile
    by_cases hu : a.inUse j = true
    · rw [if_pos hu]
      exact (ih (j + 1) a).behind (Learns.refl _ _) fun i => firstFree_behind (.inl hu)
    have hu' : a.inUse j = false := by simpa using hu
    -- marked, and given back
    have hback : update (update a.inUse j true) j false = a.inUse := update_back hu'
    rw [if_neg hu]
    cases hdir : a.slotsDir with
    | false =>
      refine .slot (.self hu' fun hd => ?_) hnow (fun hd => ?_) ?_
      · rw [hdir] at hd
        cases hd
      · rw [hdir] at hd
        cases hd
      · exact ⟨rfl, hdir.symm, fun k => congrArg (· || files k) (congrFun hback k)⟩
    | true =>
      by_cases hio : fault j = .io
      · simp only [hio, decide_true, Bool.not_true, Bool.false_eq_true, if_false, if_true]
        refine .failed (Learns.refl _ _) fun i hlt hi => ⟨hdir, ?_⟩
        -- the scan ends at `j`, whether or not its file is there
        have hij : i = j := by
          by_contra hne
          have hle := hi.le
          rcases hi.passed j le_rfl (by omega) with hu'' | ⟨-, -, hne⟩
          · exact hu hu''
          · exact hne hio
        rw [hij, hio]
      by_cases hf : files j = true
      · simp only [hio, hf, decide_false, Bool.not_true, Bool.false_eq_true, if_false, if_true]
        refine (ih (j + 1) _).behind ⟨hdir.symm, fun k => ?_⟩ fun i => ?_
        · by_cases hk : k = j
          · rw [hk, hf, Bool.or_true, Bool.or_true]
          · exact congrArg (· || files k) (update_of_ne hk ..)
        · rw [← firstFree_behind (.inr ⟨hdir, hf, hio⟩)]
          have hne : ∀ m, j + 1 ≤ m → update a.inUse j true m = a.inUse m := fun m hm => update_of_ne (by omega) ..
          exact ⟨fun h => h.of_agree hdir fun m hm => (hne m hm).symm, fun h => h.of_agree hdir.symm hne⟩
      have hf' : files j = false := by simpa using hf
      by_cases hclose : fault j = .close
      · simp only [hclose, hf', decide_false, Bool.not_true, Bool.false_eq_true, if_false, and_self, if_true,
          reduceCtorEq]
        exact .closed (.self hu' fun _ => hf') hnow hdir hclose
      · simp only [hio, hf', hclose, decide_false, Bool.not_true, Bool.false_eq_true, and_false, if_false]
        have hnone : fault j = .none := by
          cases hc : fault j with
          | none => rfl
          | io => exact absurd hc hio
          | close => exact absurd hc hclose
        exact .slot (.self hu' fun _ => hf') hnow (fun _ => hnone)
          ⟨update_back hf', hdir.symm, fun k => congrArg (· || files k) (congrFun hback k)⟩

/-- What is held at `v` can be given back. -/
structure Back (w : World) (r : Resources) (v : World) : Prop where
  loops : Function.update v.loops r.image (v.loops r.image - 1) = w.loops
  dm : Function.update v.dm r.id false = w.dm
  slots : Returned w.claims w.slots (v.slots, v.claims, r.slotIdx.elim (.error .noFreeSlots) .ok)
  net : (if r.slot then r.slotIdx.elim v.net fun i => Function.update v.net i ⟨false, false⟩ else v.net) = w.net
  vms : (if r.vm then Function.update v.vms r.id false else v.vms) = w.vms
  boxes : v.boxes = w.boxes
  creates : v.creates = w.creates

theorem slotInUse_eq (hc : v.claims = w.claims) (hl : Learns w.claims w.slots v.slots) (i : ℤ) :
    slotInUse v i = slotInUse w i := by
  rw [slotInUse, hc]
  exact hl.inUse i

theorem Back.undone {r : Resources} (h : Back w r v) : Same w (rollback r v) := by
  obtain ⟨id, image, slotIdx, slot, vm⟩ := r
  obtain ⟨loops, dm, slots, net, vms, boxes, creates⟩ := h
  cases slotIdx <;> cases slot <;> cases vm <;>
    exact ⟨slotInUse_eq slots.1 slots.2, slots.1, loops, dm, net, vms, boxes, creates⟩

/-- A step of a launch from `w`: an error leaves nothing, a success what `r` gives back. -/
def Step.Result (w : World) (r : Resources) : World × Bool → Prop
  | (v, false) => Same w v
  | (v, true) => Back w r v

theorem acquire_cases (h : acquire env image w = (v, ok)) :
    (ok = false ∧ v = w) ∨
      (ok = true ∧ v = { w with loops := update w.loops image (w.loops image + 1) }) := by
  unfold acquire at h
  split_ifs at h <;> cases h
  · exact .inl ⟨rfl, rfl⟩
  · exact .inr ⟨rfl, rfl⟩

theorem attachCowAndCreate_cases (h : attachCowAndCreate env id w = (v, ok)) :
    (ok = false ∧ v = w) ∨ (ok = true ∧ w.dm id = false ∧ v = { w with dm := update w.dm id true }) := by
  unfold attachCowAndCreate at h
  split_ifs at h with hc <;> cases h
  · exact .inl ⟨rfl, rfl⟩
  · refine .inr ⟨rfl, ?_, rfl⟩
    simpa using fun hd => hc (.inr (.inr hd))

theorem createSnapshot_cases (h : createSnapshot env id w = (v, ok)) :
    (ok = false ∧ ∃ c, v = { w with cow := c }) ∨
      (ok = true ∧ w.dm id = false ∧ ∃ c, v = { w with dm := update w.dm id true, cow := c }) := by
  unfold createSnapshot at h
  split_ifs at h
  · cases h
    exact .inl ⟨rfl, w.cow, rfl⟩
  · cases h
    exact .inl ⟨rfl, _, rfl⟩
  · split at h <;> rename_i ha <;> cases h
    all_goals rcases attachCowAndCreate_cases ha with ⟨hb, rfl⟩ | ⟨hb, hd, rfl⟩ <;> cases hb
    · exact .inr ⟨rfl, hd, _, rfl⟩
    · exact .inl ⟨rfl, _, rfl⟩

/-- The reference is given back. -/
theorem loops_back (loops : ℕ → ℕ) (image : ℕ) :
    update (update loops image (loops image + 1)) image
      (update loops image (loops image + 1) image - 1) = loops :=
  update_back (by rw [update_self, Nat.add_sub_cancel])

theorem createRootfs_result : Step.Result w ⟨id, image, none, false, false⟩ (createRootfs env id image w) := by
  unfold createRootfs
  split <;> rename_i ha
  all_goals rcases acquire_cases ha with ⟨hb, rfl⟩ | ⟨hb, rfl⟩ <;> cases hb
  · exact Same.refl _
  split_ifs
  · exact ⟨fun _ => rfl, rfl, loops_back .., rfl, rfl, rfl, rfl, rfl⟩
  split <;> rename_i hs
  all_goals rcases createSnapshot_cases hs with ⟨hb, c, rfl⟩ | ⟨hb, hd, c, rfl⟩ <;> cases hb
  · exact ⟨fun _ => rfl, rfl, loops_back .., rfl, rfl, rfl, rfl, rfl⟩
  · exact ⟨loops_back .., update_back hd, ⟨rfl, Learns.refl _ _⟩, rfl, rfl, rfl, rfl⟩

theorem createRootfs_frame (h : createRootfs env id image w = (v, true)) :
    v.claims = w.claims ∧ v.slots = w.slots ∧ v.net = w.net := by
  unfold createRootfs at h
  split at h <;> rename_i ha
  all_goals rcases acquire_cases ha with ⟨hb, rfl⟩ | ⟨hb, rfl⟩ <;> cases hb
  · cases h
  split at h
  · cases h
  split at h <;> rename_i hs <;> cases h
  rcases createSnapshot_cases hs with ⟨hb, -⟩ | ⟨-, -, c, rfl⟩
  · cases hb
  · exact ⟨rfl, rfl, rfl⟩

theorem acquire_ok (env : Env) (image : ℕ) (w : World) :
    (acquire env image w).2 = true ↔ (w.loops image = 0 → env.fails .losetup = false) := by
  unfold acquire
  split_ifs with h
  · refine iff_of_false nofun fun hl => ?_
    rw [hl h.1] at h
    exact absurd h.2 nofun
  · exact iff_of_true rfl fun h0 => by simpa [h0] using h

theorem attachCowAndCreate_ok (env : Env) (id : ℕ) (w : World) : (attachCowAndCreate env id w).2 = true ↔
    env.fails .losetupCow = false ∧ env.fails .dmsetupCreate = false ∧ w.dm id = false := by
  unfold attachCowAndCreate
  split_ifs with h
  · refine iff_of_false nofun ?_
    rintro ⟨h1, h2, h3⟩
    simp [h1, h2, h3] at h
  · exact iff_of_true rfl (by simpa only [not_or, Bool.not_eq_true] using h)

theorem createSnapshot_ok (env : Env) (id : ℕ) (w : World) : (createSnapshot env id w).2 = true ↔
    env.fails .createFile = false ∧ env.fails .truncate = false ∧ env.fails .losetupCow = false ∧
    env.fails .dmsetupCreate = false ∧
    w.dm id = false := by
  have ha := attachCowAndCreate_ok env id { w with cow := update w.cow id (some 0) }
  unfold createSnapshot
  split_ifs with hfile htrunc
  · exact iff_of_false nofun fun h => absurd (hfile.symm.trans h.1) nofun
  · exact iff_of_false nofun fun h => absurd (htrunc.symm.trans h.2.1) nofun
  rw [Bool.not_eq_true] at hfile htrunc
  split <;> rename_i hx <;> rw [hx] at ha
  · exact ⟨fun _ => ⟨hfile, htrunc, ha.mp rfl⟩, fun _ => rfl⟩
  · exact iff_of_false nofun fun h => absurd (ha.mpr h.2.2) nofun

theorem createRootfs_ok (env : Env) (id image : ℕ) (w : World) :
    (createRootfs env id image w).2 = true ↔ MakesRootfs env id image w := by
  have hl := acquire_ok env image w
  unfold createRootfs
  split <;> rename_i ha <;> rw [ha] at hl
  · exact iff_of_false nofun fun h => absurd (hl.mpr h.1) nofun
  split_ifs with hdirs
  · refine iff_of_false nofun ?_
    rintro ⟨-, h1, h2, -⟩
    simp [h1, h2] at hdirs
  simp only [not_or, Bool.not_eq_true] at hdirs
  rcases acquire_cases ha with ⟨hb, -⟩ | ⟨-, rfl⟩
  · cases hb
  have hs := createSnapshot_ok env id { w with loops := update w.loops image (w.loops image + 1) }
  split <;> rename_i hx <;> rw [hx] at hs
  · exact iff_of_false nofun fun h => absurd (hs.mpr h.2.2.2) nofun
  · exact ⟨fun _ => ⟨hl.mp rfl, hdirs.1, hdirs.2, hs.mp rfl⟩, fun _ => rfl⟩

theorem createNetwork_ok {n : Net} : (createNetwork env n).2 = true ↔ MakesNetwork env n := by
  obtain ⟨ns, veth⟩ := n
  unfold createNetwork
  split_ifs with hns hin hout
  · refine iff_of_false nofun ?_
    rintro ⟨hsteps, ⟨⟩⟩
    rcases hns with h | h | h
    · exact absurd ((hsteps .getHostNS (by decide)).symm.trans h) nofun
    · exact absurd ((hsteps .newNamed (by decide)).symm.trans h) nofun
    · cases h
  · refine iff_of_false nofun ?_
    rintro ⟨hsteps, ⟨⟩⟩
    rcases hin with h | h
    · obtain ⟨s, hs, hf⟩ := List.any_eq_true.mp h
      exact absurd ((hsteps s (by simp [hs])).symm.trans hf) nofun
    · cases h
  · refine iff_of_false nofun ?_
    rintro ⟨hsteps, -⟩
    obtain ⟨s, hs, hf⟩ := List.any_eq_true.mp hout
    rcases List.mem_append.mp hs with hs | hs
    · exact absurd ((hsteps s (by simp [hs])).symm.trans hf) nofun
    · exact absurd ((hsteps s (by simp [hs])).symm.trans hf) nofun
  · simp only [not_or, Bool.not_eq_true, List.any_eq_false] at hns hin hout
    refine iff_of_true rfl ⟨fun s hs => ?_, by rw [hns.2.2, hin.2]⟩
    simp only [List.append_assoc, List.mem_append, List.mem_cons, List.not_mem_nil, or_false] at hs hout
    rcases hs with (rfl | rfl) | hs | hs
    · exact hns.1
    · exact hns.2.1
    · exact hin.1 s hs
    · exact hout s hs

theorem createNetwork_cases {n n' : Net} (h : createNetwork env n = (n', ok)) :
    (ok = false ∧ n' = n) ∨ (ok = true ∧ n = ⟨false, false⟩ ∧ n' = ⟨true, true⟩) := by
  obtain ⟨ns, veth⟩ := n
  unfold createNetwork at h
  split_ifs at h with hns hveth <;> cases h
  · exact .inl ⟨rfl, rfl⟩
  all_goals
    simp only [not_or, Bool.not_eq_true] at hns
    rw [hns.2.2]
  · exact .inl ⟨rfl, rfl⟩
  all_goals
    simp only [not_or, Bool.not_eq_true] at hveth
    rw [hveth.2]
  · exact .inl ⟨rfl, rfl⟩
  · exact .inr ⟨rfl, rfl, rfl⟩

theorem createNetworkOf_cases (h : createNetworkOf env i w = (v, ok)) :
    (ok = false ∧ v = w) ∨
      (ok = true ∧ w.net i = ⟨false, false⟩ ∧ v = { w with net := update w.net i ⟨true, true⟩ }) := by
  cases h
  rcases createNetwork_cases (Prod.eta (createNetwork env (w.net i))).symm with ⟨hb, hn⟩ | ⟨hb, hw, hn⟩
  · refine .inl ⟨hb, ?_⟩
    rw [hn, update_eq_self]
  · exact .inr ⟨hb, hw, by rw [hn]⟩

/-- The slot and the network, after the rootfs. -/
inductive SlotResult (env : Env) (id image : ℕ) (w : World) : World × Option ℤ → Prop
  | closed {v : World} (h : FailsToClose env w) (hv : v.claims ≠ w.claims) : SlotResult env id image w (v, none)
  | made {i : ℤ} {v : World} (h : ¬FailsToClose env w) (hm : MakesSlot env w)
    (hb : Back w ⟨id, image, some i, true, false⟩ v) : SlotResult env id image w (v, some i)
  | failed {v : World} (h : ¬FailsToClose env w) (hm : ¬MakesSlot env w) (hv : Same w v) :
    SlotResult env id image w (v, none)

/-- What was acquired before does not matter to the scan. -/
theorem createSlot_result (env : Env) (h : Back w ⟨id, image, none, false, false⟩ v)
    (hclaims : v.claims = w.claims) (hslots : v.slots = w.slots) (hnet : v.net = w.net) :
    SlotResult env id image w (createSlot env id image v) := by
  have hscan := allocateFrom_scanned env.fault w.claims 32767 1 w.slots
  have hundo : ∀ {u : World} {o : Option ℤ},
      Returned w.claims w.slots (u.slots, u.claims, o.elim (.error .noFreeSlots) .ok) →
      u.loops = v.loops → u.dm = v.dm → u.net = v.net → u.vms = v.vms → u.boxes = v.boxes → u.creates = v.creates →
      Back w ⟨id, image, o, false, false⟩ u := by
    intro u o hr hl hd hn hv hb hc
    obtain ⟨hloops, hdm, -, hnet, hvms, hboxes, hcreates⟩ := h
    exact ⟨hl ▸ hloops, hd ▸ hdm, hr, hn ▸ hnet, hv ▸ hvms, hb ▸ hboxes, hc ▸ hcreates⟩
  unfold createSlot allocateSlot
  rw [hclaims, hslots]
  cases hx : allocateFrom env.fault 32767 1 w.slots w.claims with
  | mk a x =>
    obtain ⟨files, res⟩ := x
    rw [hx] at hscan
    cases hscan with
    | @closed i _ e hi hlt hd hf =>
      refine .closed ⟨i, by omega, hi, hd, hf⟩ fun hc => ?_
      replace hc := congrFun hc i
      change update w.claims i true i = w.claims i at hc
      rw [update_self, hi.unclaimed hd] at hc
      cases hc
    | failed hl hno =>
      have hstop : ∀ i ≤ 32767, FirstFree env.fault w.slots w.claims 1 i →
          w.slots.slotsDir = true ∧ env.fault i = .io :=
        fun i hi => hno i (by omega)
      refine .failed ?_ ?_ (Back.undone (hundo (o := none) ⟨rfl, hl⟩ rfl rfl rfl rfl rfl rfl))
      · rintro ⟨i, hle, hi, -, hf⟩
        exact absurd ((hstop i hle hi).2.symm.trans hf) nofun
      · rintro ⟨i, hle, hi, hf, -⟩
        obtain ⟨hd, hio⟩ := hstop i hle hi
        exact absurd (hio.symm.trans (hf hd)) nofun
    | @slot i _ _ hi hlt hf hr =>
      have hclose : ¬FailsToClose env w := by
        rintro ⟨i', -, hi', hd, hf'⟩
        rw [hi.unique hi', hf'] at hf
        exact absurd (hf hd) nofun
      dsimp only
      cases hn : createNetworkOf env i { v with slots := a, claims := files } with
      | mk u ok =>
        have hok : ok = (createNetwork env (w.net i)).2 := by
          rw [← hnet]
          exact (congrArg Prod.snd hn).symm
        rcases createNetworkOf_cases hn with ⟨rfl, rfl⟩ | ⟨rfl, hfree, rfl⟩
        · refine .failed hclose ?_ (Back.undone (hundo (o := some i) hr rfl rfl rfl rfl rfl rfl))
          rintro ⟨i', -, hi', -, hmake⟩
          rw [hi'.unique hi, ← createNetwork_ok, ← hok] at hmake
          cases hmake
        · refine .made hclose ⟨i, by omega, hi, hf, createNetwork_ok.mp hok.symm⟩ ?_
          exact ⟨h.loops, h.dm, hr, (update_back hfree).trans h.net, h.vms, h.boxes, h.creates⟩

theorem startVM_cases {steps : List Step} (h : startVM env steps id w = (v, ok)) :
    (ok = false ∧ v = w) ∨ (ok = true ∧ v = { w with vms := update w.vms id true }) := by
  unfold startVM at h
  split_ifs at h <;> cases h
  · exact .inl ⟨rfl, rfl⟩
  · exact .inr ⟨rfl, rfl⟩

theorem startVM_ok (env : Env) (steps : List Step) (id : ℕ) (w : World) :
    (startVM env steps id w).2 = true ↔ ∀ s ∈ steps, env.fails s = false := by
  unfold startVM
  split_ifs with hf <;> simp_all [List.any_eq_true]

/-- A machine that is given up takes the one that was registered before with it. -/
theorem update_vms_iff {vms : ℕ → Bool} : update (update vms id true) id false = vms ↔ vms id = false := by
  refine ⟨fun h => ?_, update_back⟩
  rw [← h, update_self]

theorem launchRestoredVM_fails (h : launchRestoredVM env id w = (v, false)) :
    v = { w with vms := v.vms } ∧ (v.vms = w.vms ↔ ¬Replaces env restoreSteps id w) := by
  unfold launchRestoredVM at h
  split at h <;> rename_i hs
  all_goals
    have hok := startVM_ok env restoreSteps id w
    rw [hs] at hok
    rcases startVM_cases hs with ⟨hb, rfl⟩ | ⟨hb, rfl⟩ <;> cases hb
  · cases h
    exact ⟨rfl, iff_of_true rfl fun hr => absurd (hok.mpr hr.2) nofun⟩
  · split_ifs at h <;> cases h
    refine ⟨rfl, update_vms_iff.trans ⟨fun hv hr => ?_, fun hr => ?_⟩⟩
    · exact absurd (hv.symm.trans hr.1) nofun
    · by_contra hv
      exact hr ⟨by simpa using hv, hok.mp rfl⟩

/-- A rollback that may have to do with a VM. -/
theorem Back.leaves {r : Resources} {u : World} {l : Prop} (h : Back w { r with vm := false } v)
    (hu : u = { v with vms := u.vms })
    (hl : (if r.vm then Function.update u.vms r.id false else u.vms) = w.vms ↔ ¬l) : Leaves l w (rollback r u) := by
  obtain ⟨id, image, slotIdx, slot, vm⟩ := r
  rw [hu]
  refine ⟨fun hn => Back.undone ⟨h.loops, h.dm, h.slots, h.net, hl.mpr hn, h.boxes, h.creates⟩, fun hl' => .inr ?_⟩
  intro hvms
  refine hl.mp ?_ hl'
  rw [← hvms]
  cases slotIdx <;> cases slot <;> cases vm <;> rfl

/-- A launch up to its network, and what follows. -/
theorem createUpTo_leaves {rest : ℤ → World → World × Bool} {steps : List Step}
    (hrest : ∀ v i, Back w ⟨id, image, some i, true, false⟩ v → ∀ v', rest i v = (v', false) →
      Leaves (Replaces env steps id w) w v')
    (h : createUpTo env rest id image w = (v, false)) : Leaves (CreateLoses env steps id image w) w v := by
  have hroot : Step.Result w ⟨id, image, none, false, false⟩ (createRootfs env id image w) := createRootfs_result
  have hok := createRootfs_ok env id image w
  unfold createUpTo at h
  split at h <;> rename_i hr <;> rw [hr] at hroot hok
  · cases h
    exact .nothing (fun hl => absurd (hok.mpr hl.1) nofun) hroot
  obtain ⟨hclaims, hslots, hnet⟩ := createRootfs_frame hr
  have hslot := createSlot_result env hroot hclaims hslots hnet
  have hmakes := hok.mp rfl
  split at h <;> rename_i hs <;> rw [hs] at hslot
  · cases h
    cases hslot with
    | closed hclose hv => exact ⟨fun hl => absurd ⟨hmakes, .inl hclose⟩ hl, fun _ => .inl hv⟩
    | failed hclose hm hv =>
      refine .nothing ?_ hv
      rintro ⟨-, hl | ⟨hl, -⟩⟩
      · exact hclose hl
      · exact hm hl
  · cases hslot with
    | made hclose hm hb =>
      refine (hrest _ _ hb _ h).congr ⟨fun hl => ⟨hmakes, .inr ⟨hm, hl⟩⟩, ?_⟩
      rintro ⟨-, hl | ⟨-, hl⟩⟩
      · exact absurd hl hclose
      · exact hl

theorem restoreFromTemplate_leaves (hb : Back w ⟨id, image, some i, true, false⟩ v)
    (h : restoreFromTemplate env id image i v = (v', false)) : Leaves (Replaces env restoreSteps id w) w v' := by
  unfold restoreFromTemplate at h
  split at h <;> rename_i hl <;> cases h
  obtain ⟨hframe, hiff⟩ := launchRestoredVM_fails hl
  have hvms : v.vms = w.vms := hb.vms
  refine Back.leaves (r := ⟨id, image, some i, true, false⟩) hb hframe ?_
  unfold Replaces at hiff ⊢
  rw [← hvms]
  exact hiff

theorem createFromSnapshotTemplate_leaves {sandboxDir : Bool}
    (h : createFromSnapshotTemplate env id image sandboxDir w = (v, false)) :
    Leaves (TemplateLoses env id image sandboxDir w) w v := by
  unfold createFromSnapshotTemplate at h
  split at h <;> rename_i hc
  · cases h
    refine .nothing ?_ (Same.refl w)
    rintro ⟨hmeta, hdir, -⟩
    simp [hmeta, hdir] at hc
  · simp only [not_or, Bool.not_eq_true, Bool.not_eq_true', Bool.not_eq_false] at hc
    refine (createUpTo_leaves (fun v i hb v' hv' => restoreFromTemplate_leaves hb hv') h).congr ?_
    exact ⟨fun hl => ⟨hc.1, hc.2, hl⟩, fun hl => hl.2.2⟩

theorem bootFresh_leaves (hb : Back w ⟨id, image, some i, true, false⟩ v)
    (h : bootFresh env id image i v = (v', false)) :
    Leaves (Replaces env (.provisionVolumes :: bootSteps) id w) w v' := by
  have hvms : v.vms = w.vms := hb.vms
  unfold bootFresh at h
  split at h <;> rename_i hp
  · cases h
    refine .nothing (fun hr => ?_) hb.undone
    rw [hr.2 _ List.mem_cons_self] at hp
    cases hp
  split at h <;> rename_i hs
  all_goals
    have hok := startVM_ok env bootSteps id v
    rw [hs] at hok
    rcases startVM_cases hs with ⟨ho, rfl⟩ | ⟨ho, rfl⟩ <;> cases ho
  · cases h
    exact .nothing (fun hr => absurd (hok.mpr fun s hs => hr.2 s (List.mem_cons_of_mem _ hs)) nofun) hb.undone
  split_ifs at h <;> cases h
  refine Back.leaves (r := ⟨id, image, some i, true, true⟩) (u := { v with vms := _ }) hb rfl ?_
  rw [if_pos rfl, ← hvms, update_vms_iff]
  refine ⟨fun hv hr => absurd ((hvms ▸ hv : w.vms id = false).symm.trans hr.1) nofun, fun hr => ?_⟩
  by_contra hv
  refine hr ⟨by rw [← hvms]; simpa using hv, fun s hs => ?_⟩
  rcases List.mem_cons.mp hs with rfl | hs
  · simpa using hp
  · exact hok.mp rfl s hs

theorem createFresh_leaves (h : createFresh env id image w = (v, false)) :
    Leaves (env.fails .statRootfs = false ∧ CreateLoses env (.provisionVolumes :: bootSteps) id image w) w v := by
  unfold createFresh at h
  split at h <;> rename_i hc
  · cases h
    refine .nothing (fun hl => ?_) (Same.refl w)
    rw [hl.1] at hc
    cases hc
  · refine (createUpTo_leaves (fun v i hb v' hv' => bootFresh_leaves hb hv') h).congr ?_
    exact ⟨fun hl => ⟨by simpa using hc, hl⟩, fun hl => hl.2⟩

theorem create_leaves {q : Request} (h : create env q w = (v, false)) : Leaves (Loses env q w) w v := by
  unfold create at h
  split at h <;> rename_i hq
  · cases h
    refine .nothing ?_ (Same.refl w)
    rintro ⟨hd, hb, hc, -⟩
    simp [hd, hb, hc] at hq
  simp only [not_or, Bool.not_eq_true] at hq
  obtain ⟨hdrain, hbox, hcreates⟩ := hq
  -- the handle is there during the call
  have hdone : ∀ {l : Prop} {u : World}, Leaves l { w with creates := update w.creates q.id true } u →
      Leaves l w { u with creates := update u.creates q.id false } := by
    intro l u hu
    refine ⟨fun hn => ?_, hu.lost⟩
    have hs := hu.same hn
    refine ⟨hs.slots, hs.claims, hs.loops, hs.dm, hs.net, hs.vms, hs.boxes, ?_⟩
    rw [hs.creates]
    exact update_back hcreates
  obtain ⟨rfl, hok⟩ := Prod.mk.inj h
  unfold Loses
  cases hs : q.snapshot with
  | none =>
    rw [hs] at hok
    refine hdone ((createFresh_leaves (w := { w with creates := _ }) (Prod.ext rfl hok)).congr ?_)
    exact ⟨fun hl => ⟨hdrain, hbox, hcreates, hl⟩, fun hl => hl.2.2.2⟩
  | some sandboxDir =>
    rw [hs] at hok
    dsimp only at hok ⊢
    refine hdone ?_
    split_ifs at hok ⊢ with hvol
    · exact .nothing (fun hl => absurd hl.2.2.2.1 (by omega)) (Same.refl _)
    · refine (createFromSnapshotTemplate_leaves (w := { w with creates := _ }) (Prod.ext rfl hok)).congr ?_
      exact ⟨fun hl => ⟨hdrain, hbox, hcreates, by omega, hl⟩, fun hl => hl.2.2.2.2⟩

/-- **A failed resume** leaves the slots, the CoW file and the directory of the sandbox, or loses a device or a VM. -/
theorem resumeFromMeta_leaves (h : resumeFromMeta env id image i w = (v, false)) :
    (¬ResumeLoses env id image i w → v = w) ∧ (ResumeLoses env id image i w → v.dm ≠ w.dm ∨ v.vms ≠ w.vms) := by
  have hl := acquire_ok env image w
  unfold resumeFromMeta at h
  split at h <;> rename_i ha <;> rw [ha] at hl
  all_goals rcases acquire_cases ha with ⟨hb, rfl⟩ | ⟨hb, rfl⟩ <;> cases hb
  · cases h
    exact ⟨fun _ => rfl, fun hr => absurd (hl.mpr hr.1) nofun⟩
  split at h <;> rename_i horigin
  · cases h
    refine ⟨fun _ => by simp only [releaseLoop, loops_back], fun hr => ?_⟩
    exact absurd (horigin.symm.trans hr.2.1) nofun
  rw [Bool.not_eq_true] at horigin
  have hloses : ResumeLoses env id image i w ↔ if w.dm id then env.fails .dmsetupRemove = false
      else env.fails .losetupCow = false ∧ env.fails .dmsetupCreate = false ∧ MakesNetwork env (w.net i) ∧
        Replaces env restoreSteps id w := ⟨fun hr => hr.2.2, fun hr => ⟨hl.mp rfl, horigin, hr⟩⟩
  rw [hloses]
  cases hdm : w.dm id with
  | true =>
    by_cases hrem : env.fails .dmsetupRemove = true
    · have hs : restoreSnapshot env id { w with loops := update w.loops image (w.loops image + 1) } =
          ({ w with loops := update w.loops image (w.loops image + 1) }, false) := by
        rw [restoreSnapshot, if_pos hdm, if_pos hrem]
      rw [hs] at h
      cases h
      refine ⟨fun _ => by simp only [releaseLoop, loops_back], fun hr => ?_⟩
      exact absurd (hrem.symm.trans hr) nofun
    · refine ⟨fun hn => absurd (by simpa using hrem) hn, fun _ => .inl fun hd => ?_⟩
      -- the stale device is gone, however the resume ends
      have hgone : v.dm id = false := by
        rw [restoreSnapshot, if_pos hdm, if_neg hrem] at h
        split at h <;> rename_i hs
        · cases h
          rcases attachCowAndCreate_cases hs with ⟨-, rfl⟩ | ⟨hb, -⟩
          · exact update_self ..
          · cases hb
        split at h
        · cases h
          exact update_self ..
        split at h <;> cases h
        exact update_self ..
      rw [hd, hdm] at hgone
      cases hgone
  | false =>
    have hattach := attachCowAndCreate_ok env id { w with loops := update w.loops image (w.loops image + 1) }
    rw [restoreSnapshot, if_neg (by rw [hdm]; exact Bool.false_ne_true)] at h
    rw [if_neg Bool.false_ne_true]
    split at h <;> rename_i hs <;> rw [hs] at hattach
    all_goals rcases attachCowAndCreate_cases hs with ⟨hb, rfl⟩ | ⟨hb, -, rfl⟩ <;> cases hb
    · cases h
      refine ⟨fun _ => by simp only [releaseLoop, loops_back], fun hr => ?_⟩
      exact absurd (hattach.mpr ⟨hr.1, hr.2.1, hdm⟩) nofun
    have hnet : (createNetwork env (w.net i)).2 = true ↔ MakesNetwork env (w.net i) := createNetwork_ok
    split at h <;> rename_i hn
    all_goals
      have hok := congrArg Prod.snd hn
      rcases createNetworkOf_cases hn with ⟨hb, rfl⟩ | ⟨hb, hi, rfl⟩ <;> cases hb
    · cases h
      refine ⟨fun _ => by simp only [releaseLoop, removeSnapshot, loops_back, update_back hdm], fun hr => ?_⟩
      exact absurd ((hnet.mpr hr.2.2.1).symm.trans hok) nofun
    split at h <;> rename_i hl <;> cases h
    obtain ⟨hframe, hiff⟩ := launchRestoredVM_fails hl
    obtain ⟨hcow, hcreate, -⟩ := hattach.mp rfl
    refine ⟨fun hr => ?_, fun hr => .inr (mt hiff.mp (not_not_intro hr.2.2.2))⟩
    have hvms := hiff.mpr fun hrep => hr ⟨hcow, hcreate, hnet.mp hok, hrep⟩
    rw [hframe, hvms]
    simp only [releaseLoop, removeSnapshot, removeNetwork, loops_back, update_back hdm, update_back hi]

/-- **What a failed launch gives back.**  It leaves everything as it was, except where a create comes to a claim file
that fails to close or to a VM that replaces one of the same id, or a resume to a stale device or to such a VM. -/
theorem failed_launch_gives_back_iff (env : Env) (w : World) :
    (∀ q : Request, (create env q w).2 = false → (Same w (create env q w).1 ↔ ¬Loses env q w)) ∧
      (∀ id image sandboxDir, (createFromSnapshotTemplate env id image sandboxDir w).2 = false →
        (Same w (createFromSnapshotTemplate env id image sandboxDir w).1 ↔
          ¬TemplateLoses env id image sandboxDir w)) ∧
      ∀ id image i, (resumeFromMeta env id image i w).2 = false →
        ((Same w (resumeFromMeta env id image i w).1 ∧
          (resumeFromMeta env id image i w).1.slots = w.slots ∧
          (resumeFromMeta env id image i w).1.cow = w.cow ∧
          (resumeFromMeta env id image i w).1.pauseDir = w.pauseDir) ↔ ¬ResumeLoses env id image i w) := by
  refine ⟨fun q h => (create_leaves (Prod.ext rfl h)).iff,
    fun id image sandboxDir h => (createFromSnapshotTemplate_leaves (Prod.ext rfl h)).iff, fun id image i h => ?_⟩
  have hv : resumeFromMeta env id image i w = (_, false) := Prod.ext rfl h
  obtain ⟨hsame, hlost⟩ := resumeFromMeta_leaves hv
  refine ⟨fun hs hl => (hlost hl).elim (fun hd => hd hs.1.dm) fun hv => hv hs.1.vms, fun hn => ?_⟩
  have hw : (resumeFromMeta env id image i w).1 = w := hsame hn
  rw [hw]
  exact ⟨Same.refl w, rfl, rfl, rfl⟩

/-- An agent with no sandbox. -/
def idle : World where
  slots := newSlotAllocator true
  claims := fun _ => false
  loops := fun _ => 0
  dm := fun _ => false
  net := fun _ => ⟨false, false⟩
  vms := fun _ => false
  boxes := fun _ => false
  creates := fun _ => false
  cow := fun _ => none
  pauseDir := fun _ => none

/-- The VM does not boot. -/
theorem boot_fails : (create ⟨fun s => s = .bootVM, fun _ => .none⟩ ⟨1, 1, 0, none, false⟩ idle).2 = false ∧
    Same idle (create ⟨fun s => s = .bootVM, fun _ => .none⟩ ⟨1, 1, 0, none, false⟩ idle).1 := by
  have hf : (create ⟨fun s => s = .bootVM, fun _ => .none⟩ ⟨1, 1, 0, none, false⟩ idle).2 = false := by decide +kernel
  refine ⟨hf, ((failed_launch_gives_back_iff _ idle).1 _ hf).mpr ?_⟩
  rintro ⟨-, -, -, -, -, ⟨i, -, -, -, hclose⟩ | ⟨-, hvm, -⟩⟩
  · cases hclose
  · cases hvm

/-- The claim file of slot 1 is created, but fails to close: the launch fails, and the slot stays claimed. -/
theorem close_keeps_claim :
    (create ⟨fun _ => false, fun _ => .close⟩ ⟨1, 1, 0, none, false⟩ idle).2 = false ∧
      slotInUse idle 1 = false ∧
      slotInUse (create ⟨fun _ => false, fun _ => .close⟩ ⟨1, 1, 0, none, false⟩ idle).1 1 = true := by
  decide +kernel

end Wrenn.Sandbox.Launch
