import Wrenn.Lib.Places
import Wrenn.Lib.Runs
import Wrenn.Network.Slots

/-!
# Slots shared by processes

Every process has an allocator of its own; the claim files are common to all of them.  A mutex
serialises the calls inside one process, so a process is in at most one critical section, but the
creations and removals of claim files by different processes interleave freely, also in the middle
of an `Allocate` scan.  `SeedFromDir` reads the directory entry by entry before it takes the mutex.

* `look` is one iteration of the scan of `Allocate` (`allocateFrom_succ`);
* `reach_slots_exclusive`: with `Allocate` and `Release` alone, no slot has two holders;
* `reach_slots_available`: what `Allocate` and `Reserve` owe a process, as long as no claim file is
  removed that another process has recorded as taken.
-/

namespace Wrenn.Network.Processes

open Lib.Places Lib.Runs Slots Function

/-- What goes wrong at the creation of a claim file: the operating system refuses, or the file is
created and closing it fails. -/
inductive Fault where
  | none
  | io
  | close
  deriving DecidableEq, Repr

/-- `claimFile` with its last step, the closing of the new file. -/
def create (a : SlotAllocator) (files : ClaimFiles) (fault : Fault) (i : ℤ) :
    ClaimFiles × Except ClaimError Unit :=
  match claimFile a files (fault = .io) i with
  | .ok files' => (files', if a.slotsDir ∧ fault = .close then .error .other else .ok ())
  | .error e => (files, .error e)

/-- One iteration of the loop of `Allocate`; no result means that the scan goes on. -/
def look (a : SlotAllocator) (files : ClaimFiles) (fault : Fault) (i : ℤ) :
    SlotAllocator × ClaimFiles × Option (Except SlotError ℤ) :=
  if a.inUse i then (a, files, none)
  else
    let taken := { a with inUse := Function.update a.inUse i true }
    match create a files fault i with
    | (files', .ok ()) => (taken, files', some (.ok i))
    | (files', .error .exist) => (taken, files', none)
    | (files', .error .other) => (a, files', some (.error (.claim i)))

/-- `Reserve`, with the same faults. -/
def reserveWith (a : SlotAllocator) (files : ClaimFiles) (fault : Fault) (i : ℤ) :
    SlotAllocator × ClaimFiles × Except SlotError Unit :=
  match reserve a files (fault = .io) i with
  | .error e => (a, files, .error e)
  | .ok (a', files') =>
    if a.slotsDir ∧ fault = .close ∧ files i = false then (a, files', .error (.claim i))
    else (a', files', .ok ())

/-! ### The system -/

/-- A call inside the critical section of a process.  An `Allocate` under way is about to look at
`i`; `seen` records for which indices it found the claim file in place. -/
inductive Call where
  | allocating (i : ℤ) (seen : ℤ → Bool)
  | unlinking (i : ℤ)

/-- A process.  `listing k` holds the entries the `k`-th call of `SeedFromDir` has read so far and
`returned` the last result.  Recorded for the statements only: `held i` counts how often the
process has obtained `i` and not released it yet, and `met i` says that an `Allocate` has found the
claim file of `i` in place, which no `SeedFromDir` has listed since. -/
structure Proc where
  alloc : SlotAllocator
  busy : Option Call
  listing : ℕ → Option ClaimFiles
  returned : Option (Except SlotError ℤ)
  held : ℤ → ℕ
  met : ℤ → Bool

structure World where
  files : ClaimFiles
  procs : ℕ → Proc

def World.set (w : World) (p : ℕ) (pr : Proc) (files : ClaimFiles) : World :=
  ⟨files, Function.update w.procs p pr⟩

inductive Act where
  | readDir (p k : ℕ)
  | entry (p k : ℕ) (i : ℤ)
  | seed (p k : ℕ)
  | allocate (p : ℕ)
  | look (p : ℕ) (fault : Fault)
  | reserve (p : ℕ) (i : ℤ) (fault : Fault)
  | release (p : ℕ) (i : ℤ)
  | unlink (p : ℕ) (removed : Bool)

/-- The rest of a loop iteration of `Allocate` at `i`. -/
def Proc.looked (pr : Proc) (i : ℤ) (seen : ℤ → Bool) (file : Bool) :
    SlotAllocator × ClaimFiles × Option (Except SlotError ℤ) → Proc
  | (a, _, none) =>
    { pr with
      alloc := a
      busy := some (.allocating (i + 1) (Function.update seen i file))
      met := if pr.alloc.inUse i then pr.met else Function.update pr.met i true }
  | (a, _, some (.ok j)) =>
    { pr with
      alloc := a
      busy := none
      returned := some (.ok j)
      held := Function.update pr.held j (pr.held j + 1) }
  | (a, _, some (.error e)) => { pr with alloc := a, busy := none, returned := some (.error e) }

/-- The result of a `Reserve`. -/
def Proc.reserved (pr : Proc) (i : ℤ) : SlotAllocator × ClaimFiles × Except SlotError Unit → Proc
  | (a, _, .ok ()) =>
    { pr with
      alloc := a
      returned := some (.ok i)
      held := Function.update pr.held i (pr.held i + 1) }
  | (a, _, .error e) => { pr with alloc := a, returned := some (.error e) }

def step (w : World) : Act → Option World
  | .readDir p k =>
    let pr := w.procs p
    some (w.set p { pr with listing := Function.update pr.listing k (some fun _ => false) } w.files)
  | .entry p k i =>
    let pr := w.procs p
    match pr.listing k with
    | some l =>
      if w.files i then
        some (w.set p
          { pr with listing := Function.update pr.listing k (some (Function.update l i true)) }
          w.files)
      else none
    | none => none
  | .seed p k =>
    let pr := w.procs p
    match pr.busy, pr.listing k with
    | none, some l =>
      some (w.set p
        { pr with
          alloc := seedFromDir pr.alloc l
          listing := Function.update pr.listing k none
          met := fun i => pr.met i && !(decide (InRange i) && l i) } w.files)
    | _, _ => none
  | .allocate p =>
    let pr := w.procs p
    match pr.busy with
    | none =>
      some (w.set p { pr with busy := some (.allocating 1 fun _ => false), returned := none } w.files)
    | some _ => none
  | .look p fault =>
    let pr := w.procs p
    match pr.busy with
    | some (.allocating i seen) =>
      if i ≤ 32767 then
        let r := look pr.alloc w.files fault i
        some (w.set p (pr.looked i seen (w.files i) r) r.2.1)
      else some (w.set p { pr with busy := none, returned := some (.error .noFreeSlots) } w.files)
    | _ => none
  | .reserve p i fault =>
    let pr := w.procs p
    match pr.busy with
    | none =>
      let r := reserveWith pr.alloc w.files fault i
      some (w.set p (pr.reserved i r) r.2.1)
    | some _ => none
  | .release p i =>
    let pr := w.procs p
    match pr.busy with
    | none =>
      some (w.set p
        { pr with
          alloc := (release pr.alloc w.files i).1
          busy := some (.unlinking i)
          held := Function.update pr.held i (pr.held i - 1)
          met := Function.update pr.met i false } w.files)
    | some _ => none
  | .unlink p removed =>
    let pr := w.procs p
    match pr.busy with
    | some (.unlinking i) =>
      some (w.set p { pr with busy := none }
        (if removed then (release pr.alloc w.files i).2 else w.files))
    | _ => none

/-- A process that has just started. -/
def newProc : Proc where
  alloc := newSlotAllocator true
  busy := none
  listing := fun _ => none
  returned := none
  held := fun _ => 0
  met := fun _ => false

/-- Any claim files may be left over from before. -/
def Init (w : World) : Prop := ∀ p, w.procs p = newProc

/-! ### What one call does -/

variable {a : SlotAllocator}

/-- The claim files once that of `i` is there. -/
def claimed (files : ClaimFiles) (i : ℤ) : ClaimFiles := Function.update files i true

theorem claimed_self (files : ClaimFiles) (i : ℤ) : claimed files i i = true :=
  update_self ..

variable {files : ClaimFiles} {i j : ℤ} {w w' : World} {p : ℕ} {pr : Proc}

theorem le_claimed (h : files j = true) : claimed files i j = true := by
  by_cases hj : j = i
  · rw [hj, claimed_self]
  · rw [claimed, update_of_ne hj, h]

theorem create_cases (hd : a.slotsDir = true) (files : ClaimFiles) (fault : Fault) (i : ℤ) :
    (files i = false ∧ create a files fault i = (claimed files i, .ok ())) ∨
      (files i = true ∧ create a files fault i = (files, .error .exist)) ∨
      ∃ files', (files' = files ∨ files' = claimed files i) ∧
        create a files fault i = (files', .error .other) := by
  unfold create claimFile
  simp only [hd, Bool.not_true, Bool.false_eq_true, if_false, decide_eq_true_eq, true_and]
  by_cases hio : fault = .io
  · exact .inr (.inr ⟨files, .inl rfl, by rw [if_pos hio]⟩)
  · simp only [if_neg hio]
    cases hf : files i with
    | true => exact .inr (.inl ⟨rfl, rfl⟩)
    | false =>
      by_cases hc : fault = .close
      · exact .inr (.inr ⟨claimed files i, .inr rfl, by simp [hc, claimed]⟩)
      · exact .inl ⟨rfl, by simp [hc, claimed]⟩

/-- The allocator with `i` taken. -/
def take (a : SlotAllocator) (i : ℤ) : SlotAllocator :=
  { a with inUse := Function.update a.inUse i true }

theorem look_cases (hd : a.slotsDir = true) (files : ClaimFiles) (fault : Fault) (i : ℤ) :
    (a.inUse i = true ∧ look a files fault i = (a, files, none)) ∨
      (a.inUse i = false ∧ files i = true ∧ look a files fault i = (take a i, files, none)) ∨
      (a.inUse i = false ∧ files i = false ∧
        look a files fault i = (take a i, claimed files i, some (.ok i))) ∨
      ∃ files', (files' = files ∨ files' = claimed files i) ∧
        look a files fault i = (a, files', some (.error (.claim i))) := by
  unfold look
  cases hu : a.inUse i with
  | true => exact .inl ⟨rfl, rfl⟩
  | false =>
    rcases create_cases hd files fault i with ⟨hf, he⟩ | ⟨hf, he⟩ | ⟨files', hf, he⟩
    · exact .inr (.inr (.inl ⟨rfl, hf, by rw [he]; rfl⟩))
    · exact .inr (.inl ⟨rfl, hf, by rw [he]; rfl⟩)
    · exact .inr (.inr (.inr ⟨files', hf, by rw [he]; rfl⟩))

theorem reserveWith_cases (hd : a.slotsDir = true) (files : ClaimFiles) (fault : Fault) (i : ℤ) :
    (InRange i ∧ (a.inUse i = false ∨ a.seeded i = true) ∧
        reserveWith a files fault i = (adopt a i, claimed files i, .ok ())) ∨
      ∃ files' e, (files' = files ∨ files' = claimed files i) ∧
        reserveWith a files fault i = (a, files', .error e) := by
  unfold reserveWith
  rcases hr : reserve a files (fault = .io) i with e | ⟨a', files'⟩
  · exact .inr ⟨files, e, .inl rfl, rfl⟩
  · obtain ⟨hi, hfree, ha⟩ := reserve_spec hr
    have hf : files' = claimed files i := reserve_files hd hr
    simp only
    split_ifs
    · exact .inr ⟨files', _, .inr hf, rfl⟩
    · exact .inl ⟨hi, hfree, by rw [ha, hf]; rfl⟩

/-! ### No slot has two holders -/

/-- Process `p` still answers for the claim file of `i`. -/
def Owner (w : World) (p : ℕ) (i : ℤ) : Prop :=
  0 < (w.procs p).held i ∨ (w.procs p).busy = some (.unlinking i)

/-- What is true of one process and the claim files. -/
structure Sound (pr : Proc) : Prop where
  dir : pr.alloc.slotsDir = true
  once : ∀ i, pr.held i ≤ 1
  range : ∀ i, 0 < pr.held i → InRange i
  unlinks : ∀ i, pr.busy = some (.unlinking i) → pr.held i = 0
  returns : ∀ i, pr.returned = some (.ok i) → InRange i
  scans : ∀ i seen, pr.busy = some (.allocating i seen) → 1 ≤ i

structure Exclusive (w : World) : Prop where
  sound : ∀ p, Sound (w.procs p)
  file : ∀ p i, Owner w p i → w.files i = true
  one : ∀ p q i, Owner w p i → Owner w q i → p = q

theorem set_procs_self (w : World) (p : ℕ) (pr : Proc) (files : ClaimFiles) :
    (w.set p pr files).procs p = pr := update_self ..

theorem set_procs_of_ne {q : ℕ} (h : q ≠ p) (pr : Proc) (files : ClaimFiles) :
    (w.set p pr files).procs q = w.procs q := update_of_ne h ..

theorem owner_set_of_ne {q : ℕ} (h : q ≠ p) :
    Owner (w.set p pr files) q i ↔ Owner w q i := by
  rw [Owner, Owner, set_procs_of_ne h]

/-- A step of process `p` keeps slots exclusive if the process stays sound, owns nothing that
another process owns, and removes no claim file of another owner. -/
theorem Exclusive.set (h : Exclusive w)
    (hs : Sound pr)
    (hown : ∀ i, 0 < pr.held i ∨ pr.busy = some (.unlinking i) →
      files i = true ∧ ∀ q, q ≠ p → ¬ Owner w q i)
    (hkeep : ∀ q i, q ≠ p → Owner w q i → files i = true) : Exclusive (w.set p pr files) := by
  have hp : ∀ i, Owner (w.set p pr files) p i → files i = true ∧ ∀ q, q ≠ p → ¬ Owner w q i := by
    intro i ho
    rw [Owner, set_procs_self] at ho
    exact hown i ho
  refine ⟨fun q => ?_, fun q i ho => ?_, fun q r i hq hr => ?_⟩
  · by_cases hq : q = p
    · rw [hq, set_procs_self]
      exact hs
    · rw [set_procs_of_ne hq]
      exact h.sound q
  · by_cases hq : q = p
    · rw [hq] at ho
      exact (hp i ho).1
    · exact hkeep q i hq ((owner_set_of_ne hq).mp ho)
  · by_cases hqp : q = p
    · by_cases hrp : r = p
      · rw [hqp, hrp]
      · rw [hqp] at hq
        exact absurd ((owner_set_of_ne hrp).mp hr) ((hp i hq).2 r hrp)
    · by_cases hrp : r = p
      · rw [hrp] at hr
        exact absurd ((owner_set_of_ne hqp).mp hq) ((hp i hr).2 q hqp)
      · exact h.one q r i ((owner_set_of_ne hqp).mp hq) ((owner_set_of_ne hrp).mp hr)

/-- Steps that give the process nothing new and remove no file. -/
theorem Exclusive.quiet (h : Exclusive w)
    (hs : Sound pr)
    (hown : ∀ i, 0 < pr.held i ∨ pr.busy = some (.unlinking i) → Owner w p i)
    (hfiles : ∀ i, w.files i = true → files i = true) : Exclusive (w.set p pr files) :=
  h.set hs
    (fun i ho => ⟨hfiles i (h.file p i (hown i ho)), fun q hq hq' => hq (h.one q p i hq' (hown i ho))⟩)
    fun q i _ ho => hfiles i (h.file q i ho)

/-- Steps that neither obtain nor release a slot. -/
theorem Exclusive.same (h : Exclusive w)
    (hdir : pr.alloc.slotsDir = (w.procs p).alloc.slotsDir) (hheld : pr.held = (w.procs p).held)
    (hunl : ∀ i, pr.busy = some (.unlinking i) → (w.procs p).busy = some (.unlinking i))
    (hscan : ∀ i seen, pr.busy = some (.allocating i seen) → 1 ≤ i)
    (hret : ∀ i, pr.returned = some (.ok i) → (w.procs p).returned = some (.ok i))
    (hfiles : ∀ i, w.files i = true → files i = true) : Exclusive (w.set p pr files) := by
  have hs := h.sound p
  refine h.quiet ⟨hdir.trans hs.dir, ?_, ?_, fun i hi => ?_, fun i hi => hs.returns i (hret i hi),
    hscan⟩ (fun i ho => ?_) hfiles
  · rw [hheld]
    exact hs.once
  · rw [hheld]
    exact hs.range
  · rw [hheld]
    exact hs.unlinks i (hunl i hi)
  · rw [hheld] at ho
    exact ho.imp_right (hunl i)

/-- The moves of the property: slots are obtained from `Allocate` alone, and a process releases
only what it has obtained and not released yet. -/
def Disciplined (w : World) : Act → Prop
  | .reserve _ _ _ => False
  | .release p i => 0 < (w.procs p).held i
  | _ => True

theorem exclusive_of_init (h : Init w) : Exclusive w := by
  have hno : ∀ p i, ¬ Owner w p i := by
    intro p i ho
    rw [Owner, h p] at ho
    rcases ho with ho | ho
    · exact absurd ho (Nat.lt_irrefl 0)
    · cases ho
  refine ⟨fun p => ?_, fun p i ho => absurd ho (hno p i), fun p _ i ho => absurd ho (hno p i)⟩
  rw [h p]
  exact { dir := rfl
          once := fun _ => Nat.zero_le _
          range := fun _ hi => absurd hi (Nat.lt_irrefl 0)
          unlinks := nofun
          returns := nofun
          scans := nofun }

theorem mem_claimed {files' : ClaimFiles}
    (h : files' = files ∨ files' = claimed files i) (hj : files j = true) : files' j = true := by
  rcases h with rfl | rfl
  · exact hj
  · exact le_claimed hj

theorem seedFromDir_slotsDir (a : SlotAllocator) (l : ClaimFiles) :
    (seedFromDir a l).slotsDir = a.slotsDir := by
  unfold seedFromDir
  split_ifs <;> rfl

/-- A process that has created the claim file of `i` holds it, and nobody else does. -/
theorem Exclusive.obtain (h : Exclusive w) (hf : w.files i = false)
    (hi : InRange i) :
    Exclusive (w.set p
      { w.procs p with
        alloc := take (w.procs p).alloc i
        busy := none
        returned := some (.ok i)
        held := update (w.procs p).held i ((w.procs p).held i + 1) }
      (claimed w.files i)) := by
  have hs := h.sound p
  have hno : ∀ q, ¬ Owner w q i := fun q ho => by
    have := h.file q i ho
    rw [hf] at this
    cases this
  have hzero : (w.procs p).held i = 0 := Nat.eq_zero_of_not_pos fun hp => hno p (.inl hp)
  have hheld : ∀ j, 0 < update (w.procs p).held i ((w.procs p).held i + 1) j →
      j = i ∨ 0 < (w.procs p).held j := by
    intro j hj
    by_cases hji : j = i
    · exact .inl hji
    · rw [update_of_ne hji] at hj
      exact .inr hj
  refine h.set ⟨hs.dir, fun j => ?_, fun j hj => ?_, nofun, fun j hj => ?_,
    nofun⟩ (fun j ho => ?_) fun q j _ ho => le_claimed (h.file q j ho)
  · by_cases hji : j = i
    · simp only [hji, update_self, hzero, Nat.zero_add, Nat.le_refl]
    · simp only [update_of_ne hji]
      exact hs.once j
  · rcases hheld j hj with rfl | hj
    exacts [hi, hs.range j hj]
  · simp only [Option.some.injEq, Except.ok.injEq] at hj
    rw [← hj]
    exact hi
  · rcases hheld j (ho.resolve_right nofun) with rfl | hj
    · exact ⟨claimed_self w.files j, fun q _ => hno q⟩
    · exact ⟨le_claimed (h.file p j (.inl hj)), fun q hq hq' => hq (h.one q p j hq' (.inl hj))⟩

theorem Exclusive.look (h : Exclusive w) {seen : ℤ → Bool}
    (hb : (w.procs p).busy = some (.allocating i seen)) (hi : i ≤ 32767) (fault : Fault) :
    Exclusive (w.set p
      ((w.procs p).looked i seen (w.files i) (look (w.procs p).alloc w.files fault i))
      (look (w.procs p).alloc w.files fault i).2.1) := by
  have hs := h.sound p
  have hrange : InRange i := ⟨hs.scans i seen hb, hi⟩
  have hnext : ∀ (j : ℤ) (seen' : ℤ → Bool), (some (.allocating (i + 1) seen') : Option Call) =
      some (.allocating j seen') → 1 ≤ j := by
    intro j seen' hj
    cases hj
    have := hrange.1
    omega
  rcases look_cases hs.dir w.files fault i with
    ⟨-, he⟩ | ⟨-, -, he⟩ | ⟨-, hf, he⟩ | ⟨files', hf, he⟩
  · rw [he]
    exact h.same rfl rfl nofun
      (fun j seen' hj => hnext j seen' (by cases hj; rfl)) (fun _ hr => hr) fun _ hf => hf
  · rw [he]
    exact h.same rfl rfl nofun
      (fun j seen' hj => hnext j seen' (by cases hj; rfl)) (fun _ hr => hr) fun _ hf => hf
  · rw [he]
    exact h.obtain hf hrange
  · rw [he]
    exact h.same rfl rfl nofun nofun
      nofun fun _ hj => mem_claimed hf hj

theorem Exclusive.release (h : Exclusive w)
    (hheld : 0 < (w.procs p).held i) :
    Exclusive (w.set p
      { w.procs p with
        alloc := (Slots.release (w.procs p).alloc w.files i).1
        busy := some (.unlinking i)
        held := update (w.procs p).held i ((w.procs p).held i - 1)
        met := update (w.procs p).met i false } w.files) := by
  have hs := h.sound p
  have hle : ∀ j, update (w.procs p).held i ((w.procs p).held i - 1) j ≤
      (w.procs p).held j := by
    intro j
    by_cases hji : j = i
    · rw [hji, update_self]
      omega
    · exact Nat.le_of_eq (update_of_ne hji _ _)
  refine h.quiet ⟨hs.dir, fun j => Nat.le_trans (hle j) (hs.once j),
    fun j hj => hs.range j (Nat.lt_of_lt_of_le hj (hle j)), fun j hj => ?_, hs.returns,
    nofun⟩ (fun j ho => ?_) fun _ hf => hf
  · cases hj
    have := hs.once i
    simp only [update_self]
    omega
  · rcases ho with ho | ho
    · exact .inl (Nat.lt_of_lt_of_le ho (hle j))
    · cases ho
      exact .inl hheld

theorem Exclusive.unlink (h : Exclusive w)
    (hb : (w.procs p).busy = some (.unlinking i)) (removed : Bool) :
    Exclusive (w.set p { w.procs p with busy := none }
      (if removed then (Slots.release (w.procs p).alloc w.files i).2 else w.files)) := by
  have hs := h.sound p
  have hkept : ∀ j, j ≠ i → (if removed then (Slots.release (w.procs p).alloc w.files i).2
      else w.files) j = w.files j := by
    intro j hji
    simp only [Slots.release, hs.dir, if_true]
    split_ifs
    · rw [update_of_ne hji]
    · rfl
  refine h.set ⟨hs.dir, hs.once, hs.range, fun _ hu => (by cases hu), hs.returns,
    fun _ _ hj => (by cases hj)⟩ (fun j ho => ?_) fun q j hq ho => ?_
  · have ho' : 0 < (w.procs p).held j := ho.resolve_right fun hu => (by cases hu)
    have hji : j ≠ i := by
      intro he
      rw [he, hs.unlinks i hb] at ho'
      exact absurd ho' (Nat.lt_irrefl 0)
    rw [hkept j hji]
    exact ⟨h.file p j (.inl ho'), fun q hq hq' => hq (h.one q p j hq' (.inl ho'))⟩
  · have hji : j ≠ i := by
      intro he
      rw [he] at ho
      exact hq (h.one q p i ho (.inr hb))
    rw [hkept j hji]
    exact h.file q j ho

theorem Exclusive.step {a : Act} (h : Exclusive w) (hg : Disciplined w a)
    (hst : step w a = some w') : Exclusive w' := by
  have same : ∀ (p : ℕ) (pr : Proc), pr.alloc.slotsDir = (w.procs p).alloc.slotsDir →
      pr.held = (w.procs p).held → pr.busy = (w.procs p).busy →
      pr.returned = (w.procs p).returned → Exclusive (w.set p pr w.files) := by
    intro p pr h1 h2 h3 h4
    exact h.same h1 h2 (fun i hi => h3 ▸ hi) (fun i seen hi => (h.sound p).scans i seen (h3 ▸ hi))
      (fun i hi => h4 ▸ hi) fun _ hf => hf
  match a with
  | .readDir p k =>
    cases hst
    exact same p _ rfl rfl rfl rfl
  | .entry p k i =>
    simp only [Processes.step] at hst
    split at hst
    · split_ifs at hst
      cases hst
      exact same p _ rfl rfl rfl rfl
    · cases hst
  | .seed p k =>
    simp only [Processes.step] at hst
    split at hst
    · cases hst
      exact same p _ (seedFromDir_slotsDir _ _) rfl rfl rfl
    · cases hst
  | .allocate p =>
    simp only [Processes.step] at hst
    split at hst
    · cases hst
      refine h.same rfl rfl nofun (fun j _ hj => ?_) nofun
        fun _ hf => hf
      cases hj
      exact Int.le_refl 1
    · cases hst
  | .look p fault =>
    simp only [Processes.step] at hst
    split at hst
    · rename_i i seen hb
      split_ifs at hst with hi
      · cases hst
        exact h.look hb hi fault
      · cases hst
        exact h.same rfl rfl nofun nofun
          nofun fun _ hf => hf
    · cases hst
  | .reserve p i fault => exact hg.elim
  | .release p i =>
    simp only [Processes.step] at hst
    split at hst
    · cases hst
      exact h.release hg
    · cases hst
  | .unlink p removed =>
    simp only [Processes.step] at hst
    split at hst
    · rename_i i hb
      cases hst
      exact h.unlink hb removed
    · cases hst

/-- **Slots are exclusive across processes**: whatever claim files were there, and however the
calls of all processes interleave, no slot is held by two processes or twice by one, and every index
returned is of the range. -/
theorem reach_slots_exclusive {w : World} (h : Reach step Disciplined Init w) :
    (∀ p q i, 0 < (w.procs p).held i → 0 < (w.procs q).held i → p = q) ∧
      (∀ p i, (w.procs p).held i ≤ 1) ∧
      (∀ p i, 0 < (w.procs p).held i → InRange i) ∧
      ∀ p i, (w.procs p).returned = some (.ok i) → InRange i := by
  have hex : Exclusive w :=
    h.invariant (fun _ => exclusive_of_init) fun _ _ _ hw hg hs => hw.step hg hs
  exact ⟨fun p q i hp hq => hex.one p q i (.inl hp) (.inl hq), fun p => (hex.sound p).once,
    fun p => (hex.sound p).range, fun p => (hex.sound p).returns⟩

/-- No claim file, no call under way. -/
def freshHost : World := ⟨fun _ => false, fun _ => newProc⟩

/-- Process 0 allocates slot 1; process 1 finds its claim file and takes slot 2. -/
def twoAllocate : List Act :=
  [.allocate 0, .look 0 .none, .allocate 1, .look 1 .none, .look 1 .none]

theorem twoAllocate_exclusive :
    ∃ w, exec step freshHost twoAllocate = some w ∧ (w.procs 0).held 1 = 1 ∧
      (w.procs 1).held 2 = 1 ∧
      ∀ p q i, 0 < (w.procs p).held i → 0 < (w.procs q).held i → p = q := by
  have hadm : Admits step Disciplined freshHost twoAllocate :=
    ⟨trivial, trivial, trivial, trivial, trivial, trivial⟩
  refine ⟨_, rfl, rfl, rfl, ?_⟩
  exact (reach_slots_exclusive (.of_admits (fun _ => rfl) hadm rfl)).1

/-! ### A free slot is available -/

/-- The moves of the property below: a claim file is removed only while no other process has its
index in `inUse`, or in the listing of a `SeedFromDir` under way. -/
def Unrecorded (w : World) : Act → Prop
  | .unlink p _ => ∀ i, (w.procs p).busy = some (.unlinking i) →
      (∀ q, q ≠ p → (w.procs q).alloc.inUse i = false) ∧
        ∀ q k l, (w.procs q).listing k = some l → l i = false
  | _ => True

/-- What a process has recorded is true of the claim files. -/
structure Truthful (files : ClaimFiles) (pr : Proc) : Prop where
  dir : pr.alloc.slotsDir = true
  marked : ∀ i, pr.alloc.inUse i = true → files i = true
  listed : ∀ k l i, pr.listing k = some l → l i = true → files i = true
  taken : ∀ i, pr.alloc.inUse i = true → pr.alloc.seeded i = false → 0 < pr.held i ∨ pr.met i = true
  seen : ∀ i s, pr.busy = some (.allocating i s) →
    pr.returned = none ∧ ∀ j, 1 ≤ j → j < i → s j = true
  unlinks : ∀ i, pr.busy = some (.unlinking i) → pr.alloc.inUse i = false

theorem truthful_newProc (files : ClaimFiles) : Truthful files newProc where
  dir := rfl
  marked := nofun
  listed := nofun
  taken := nofun
  seen := nofun
  unlinks := nofun

theorem take_inUse {a : SlotAllocator} (h : (take a i).inUse j = true) :
    j = i ∨ a.inUse j = true := by
  by_cases hj : j = i
  · exact .inl hj
  · simp only [take] at h
    rw [update_of_ne hj] at h
    exact .inr h

section

variable (h : Truthful files pr)
include h

theorem Truthful.mono {files' : ClaimFiles} (hf : ∀ i, files i = true → files' i = true) : Truthful files' pr :=
  ⟨h.dir, fun i hi => hf i (h.marked i hi), fun k l i hl hi => hf i (h.listed k l i hl hi), h.taken,
    h.seen, h.unlinks⟩

/-- A process that ends its call with result `r`. -/
theorem Truthful.ends (r : Option (Except SlotError ℤ)) : Truthful files { pr with busy := none, returned := r } :=
  ⟨h.dir, h.marked, h.listed, h.taken, nofun, nofun⟩

/-- A process that enters `Allocate`. -/
theorem Truthful.begins : Truthful files
      { pr with busy := some (.allocating 1 fun _ => false), returned := none } := by
  refine ⟨h.dir, h.marked, h.listed, h.taken, fun i s hb => ?_, nofun⟩
  cases hb
  exact ⟨rfl, fun j hj hj' => absurd hj' (by omega)⟩

/-- The scan of `Allocate` passes an index whose claim file is there. -/
theorem Truthful.pass {s : ℤ → Bool} (hb : pr.busy = some (.allocating i s)) (hf : files i = true)
    {a : SlotAllocator} {met : ℤ → Bool} (hd : a.slotsDir = true)
    (ha : ∀ j, a.inUse j = true → j = i ∨ pr.alloc.inUse j = true)
    (ht : ∀ j, a.inUse j = true → a.seeded j = false → 0 < pr.held j ∨ met j = true) :
    Truthful files { pr with
      alloc := a
      busy := some (.allocating (i + 1) (update s i (files i)))
      met := met } := by
  refine ⟨hd, fun j hj => ?_, h.listed, ht, fun j s' hj => ?_, nofun⟩
  · rcases ha j hj with rfl | hj
    exacts [hf, h.marked j hj]
  · cases hj
    refine ⟨(h.seen i s hb).1, fun k hk hk' => ?_⟩
    by_cases hki : k = i
    · rw [hki, update_self, hf]
    · rw [update_of_ne hki]
      exact (h.seen i s hb).2 k hk (by omega)

theorem Truthful.look {s : ℤ → Bool} (hb : pr.busy = some (.allocating i s)) (fault : Fault) :
    (∀ j, files j = true → (look pr.alloc files fault i).2.1 j = true) ∧
      Truthful (look pr.alloc files fault i).2.1
        (pr.looked i s (files i) (look pr.alloc files fault i)) := by
  rcases look_cases h.dir files fault i with
    ⟨hu, he⟩ | ⟨hu, hf, he⟩ | ⟨hu, hf, he⟩ | ⟨files', hf, he⟩
  · rw [he]
    refine ⟨fun _ hj => hj, ?_⟩
    simp only [Proc.looked, hu, if_true]
    exact h.pass hb (h.marked i hu) h.dir (fun _ hj => .inr hj) h.taken
  · rw [he]
    refine ⟨fun _ hj => hj, ?_⟩
    simp only [Proc.looked, hu, Bool.false_eq_true, if_false]
    refine h.pass hb hf h.dir (fun _ hj => take_inUse hj) fun j hj hs => ?_
    by_cases hji : j = i
    · exact .inr (by rw [hji, update_self])
    · rw [update_of_ne hji]
      exact h.taken j ((take_inUse hj).resolve_left hji) hs
  · rw [he]
    refine ⟨fun _ hj => le_claimed hj, ?_⟩
    refine ⟨h.dir, fun j hj => ?_, fun k l j hl hj => le_claimed (h.listed k l j hl hj),
      fun j hj hs => ?_, nofun, nofun⟩
    · rcases take_inUse hj with rfl | hj
      exacts [claimed_self files j, le_claimed (h.marked j hj)]
    · simp only [Proc.looked]
      by_cases hji : j = i
      · rw [hji, update_self]
        exact .inl (Nat.succ_pos _)
      · rw [update_of_ne hji]
        exact h.taken j ((take_inUse hj).resolve_left hji) hs
  · rw [he]
    refine ⟨fun _ hj => mem_claimed hf hj, ?_⟩
    exact (h.mono fun _ hj => mem_claimed hf hj).ends _

theorem Truthful.reserve (hb : pr.busy = none) (i : ℤ) (fault : Fault) :
    (∀ j, files j = true → (reserveWith pr.alloc files fault i).2.1 j = true) ∧
      Truthful (reserveWith pr.alloc files fault i).2.1
        (pr.reserved i (reserveWith pr.alloc files fault i)) := by
  have hno : ∀ c, pr.busy ≠ some c := fun c hc => nomatch hb.symm.trans hc
  rcases reserveWith_cases h.dir files fault i with ⟨-, -, he⟩ | ⟨files', e, hf, he⟩
  · rw [he]
    refine ⟨fun _ hj => le_claimed hj, ?_⟩
    refine ⟨h.dir, fun j hj => ?_, fun k l j hl hj => le_claimed (h.listed k l j hl hj),
      fun j hj hs => ?_, fun j s hc => absurd hc (hno _), fun j hc => absurd hc (hno _)⟩
    · rcases take_inUse hj with rfl | hj
      exacts [claimed_self files j, le_claimed (h.marked j hj)]
    · simp only [Proc.reserved]
      by_cases hji : j = i
      · rw [hji, update_self]
        exact .inl (Nat.succ_pos _)
      · simp only [Proc.reserved, adopt] at hs
        rw [update_of_ne hji] at hs
        rw [update_of_ne hji]
        exact h.taken j ((take_inUse hj).resolve_left hji) hs
  · rw [he]
    refine ⟨fun _ hj => mem_claimed hf hj, ?_⟩
    have hm := h.mono fun _ hj => mem_claimed hf hj
    exact ⟨hm.dir, hm.marked, hm.listed, hm.taken, fun j s hc => absurd hc (hno _),
      fun j hc => absurd hc (hno _)⟩

theorem Truthful.release (i : ℤ) :
    Truthful files { pr with
      alloc := (Slots.release pr.alloc files i).1
      busy := some (.unlinking i)
      held := update pr.held i (pr.held i - 1)
      met := update pr.met i false } := by
  have hne : ∀ j, (Slots.release pr.alloc files i).1.inUse j = true →
      j ≠ i ∧ pr.alloc.inUse j = true := by
    intro j hj
    simp only [Slots.release] at hj
    rcases of_update hj with ⟨-, ⟨⟩⟩ | hother
    exact hother
  refine ⟨h.dir, fun j hj => h.marked j (hne j hj).2, h.listed, fun j hj hs => ?_,
    fun _ _ hb => (by cases hb), fun j hb => ?_⟩
  · simp only [Slots.release] at hs
    simp only [update_of_ne (hne j hj).1] at hs ⊢
    exact h.taken j (hne j hj).2 hs
  · cases hb
    simp only [Slots.release, update_self]

theorem Truthful.seed {k : ℕ}
    {l : ClaimFiles} (hb : pr.busy = none) (hl : pr.listing k = some l) :
    Truthful files { pr with
      alloc := seedFromDir pr.alloc l
      listing := update pr.listing k none
      met := fun i => pr.met i && !(decide (InRange i) && l i) } := by
  have hno : ∀ c, pr.busy ≠ some c := fun c hc => nomatch hb.symm.trans hc
  refine ⟨(seedFromDir_slotsDir _ _).trans h.dir, fun i hi => ?_, fun k' l' i hl' hi => ?_,
    fun i hi hs => ?_, fun i s hc => absurd hc (hno _), fun i hc => absurd hc (hno _)⟩
  · simp only [seedFromDir, h.dir, if_true, Bool.or_eq_true, Bool.and_eq_true] at hi
    rcases hi with ⟨-, hi⟩ | hi
    exacts [h.listed k l i hl hi, h.marked i hi]
  · rcases of_update hl' with ⟨-, ⟨⟩⟩ | ⟨-, hl'⟩
    exact h.listed k' l' i hl' hi
  · simp only [seedFromDir, h.dir, if_true, Bool.or_eq_false_iff] at hi hs
    rw [hs.1, Bool.false_or] at hi
    simp only [hs.1, Bool.not_false, Bool.and_true]
    exact h.taken i hi hs.2

/-- Reading the directory: entries are added while their files are there. -/
theorem Truthful.list (k : ℕ) {l : ClaimFiles} (hl : ∀ i, l i = true → files i = true) :
    Truthful files { pr with listing := update pr.listing k (some l) } := by
  refine ⟨h.dir, h.marked, fun k' l' i hl' hi => ?_, h.taken, h.seen, h.unlinks⟩
  rcases of_update hl' with ⟨-, ⟨⟩⟩ | ⟨-, hl'⟩
  · exact hl i hi
  · exact h.listed k' l' i hl' hi

/-- A process in which `i` is neither marked nor listed does not miss the claim file of `i`. -/
theorem Truthful.removed (hu : pr.alloc.inUse i = false) (hl : ∀ k l, pr.listing k = some l → l i = false) :
    Truthful (update files i false) pr := by
  have hkept : ∀ j, j ≠ i → files j = true → update files i false j = true :=
    fun j hj hf => by rwa [update_of_ne hj]
  refine ⟨h.dir, fun j hj => hkept j ?_ (h.marked j hj), fun k l j hlk hj =>
    hkept j ?_ (h.listed k l j hlk hj), h.taken, h.seen, h.unlinks⟩
  · intro he
    rw [he, hu] at hj
    cases hj
  · intro he
    rw [he, hl k l hlk] at hj
    cases hj

end

theorem truthful_set (h : ∀ p, Truthful w.files (w.procs p))
    (hf : ∀ i, w.files i = true → files i = true) (hp : Truthful files pr)
    (q : ℕ) : Truthful (w.set p pr files).files ((w.set p pr files).procs q) := by
  by_cases hq : q = p
  · rw [hq, set_procs_self]
    exact hp
  · rw [set_procs_of_ne hq]
    exact (h q).mono hf

theorem truthful_step {a : Act} (h : ∀ p, Truthful w.files (w.procs p))
    (hg : Unrecorded w a) (hst : step w a = some w') (q : ℕ) : Truthful w'.files (w'.procs q) := by
  have hid : ∀ i, w.files i = true → w.files i = true := fun _ hi => hi
  match a with
  | .readDir p k =>
    cases hst
    have hnone : ∀ i, (fun _ => false : ClaimFiles) i = true → w.files i = true :=
      nofun
    exact truthful_set h hid ((h p).list k hnone) q
  | .entry p k i =>
    simp only [step] at hst
    split at hst
    · rename_i l hl
      split_ifs at hst with hf
      cases hst
      refine truthful_set h hid ((h p).list k fun j hj => ?_) q
      by_cases hji : j = i
      · rw [hji, hf]
      · rw [update_of_ne hji] at hj
        exact (h p).listed k l j hl hj
    · cases hst
  | .seed p k =>
    simp only [step] at hst
    split at hst
    · rename_i l hb hl
      cases hst
      exact truthful_set h hid ((h p).seed hb hl) q
    · cases hst
  | .allocate p =>
    simp only [step] at hst
    split at hst
    · cases hst
      exact truthful_set h hid (h p).begins q
    · cases hst
  | .look p fault =>
    simp only [step] at hst
    split at hst
    · rename_i i s hb
      split_ifs at hst
      · cases hst
        exact truthful_set h ((h p).look hb fault).1 ((h p).look hb fault).2 q
      · cases hst
        exact truthful_set h hid ((h p).ends _) q
    · cases hst
  | .reserve p i fault =>
    simp only [step] at hst
    split at hst
    · rename_i hb
      cases hst
      exact truthful_set h ((h p).reserve hb i fault).1 ((h p).reserve hb i fault).2 q
    · cases hst
  | .release p i =>
    simp only [step] at hst
    split at hst
    · cases hst
      exact truthful_set h hid ((h p).release i) q
    · cases hst
  | .unlink p removed =>
    simp only [step] at hst
    split at hst
    · rename_i i hb
      obtain ⟨hothers, hlists⟩ := hg i hb
      cases hst
      have hends := (h p).ends (w.procs p).returned
      cases removed with
      | false => exact truthful_set h hid hends q
      | true =>
        simp only [if_true, Slots.release, (h p).dir]
        by_cases hq : q = p
        · rw [hq, set_procs_self]
          exact hends.removed ((h p).unlinks i hb) (hlists p)
        · rw [set_procs_of_ne hq]
          exact (h q).removed (hothers q hq) (hlists q)
    · cases hst

/-- A process whose map does not have `i`, or has it only as seeded, adopts it. -/
theorem Truthful.reserves (h : Truthful files pr)
    (hi : InRange i) (hheld : pr.held i = 0) (hmet : pr.met i = false) :
    (pr.reserved i (reserveWith pr.alloc files .none i)).returned = some (.ok i) := by
  have hfree : pr.alloc.inUse i = true → pr.alloc.seeded i = true := by
    intro hu
    by_contra hs
    rcases h.taken i hu (by simpa using hs) with hp | hp
    · omega
    · rw [hmet] at hp
      cases hp
  have hr : ∃ r, Slots.reserve pr.alloc files false i = .ok r := reserve_ok hi hfree
  obtain ⟨⟨a', files'⟩, hr⟩ := hr
  simp [reserveWith, hr, Proc.reserved]

/-- `Allocate` gives out the index it is looking at if the claim file is not there. -/
theorem Truthful.allocates (h : Truthful files pr)
    (hf : files i = false) (s : ℤ → Bool) :
    (pr.looked i s (files i) (Processes.look pr.alloc files .none i)).returned = some (.ok i) := by
  have hu : pr.alloc.inUse i = false := by
    cases hu : pr.alloc.inUse i with
    | false => rfl
    | true => exact absurd (h.marked i hu) (by rw [hf]; decide)
  simp [Processes.look, create, claimFile, h.dir, hf, hu, Proc.looked]

/-- An `Allocate` that finds no slot has found every claim file of the range in place. -/
theorem Truthful.exhausted {fault : Fault}
    (h : Truthful w.files (w.procs p)) (hst : step w (.look p fault) = some w')
    (hr : (w'.procs p).returned = some (.error .noFreeSlots)) :
    ∃ i s, (w.procs p).busy = some (.allocating i s) ∧ ∀ j, InRange j → s j = true := by
  simp only [step] at hst
  split at hst
  · rename_i i s hb
    refine ⟨i, s, hb, ?_⟩
    obtain ⟨hret, hseen⟩ := h.seen i s hb
    split_ifs at hst with hi
    · rw [← Option.some.inj hst, set_procs_self] at hr
      rcases look_cases h.dir w.files fault i with
        ⟨-, he⟩ | ⟨-, -, he⟩ | ⟨-, -, he⟩ | ⟨files', -, he⟩
      · rw [he, Proc.looked, hret] at hr
        cases hr
      · rw [he, Proc.looked, hret] at hr
        cases hr
      all_goals
        rw [he, Proc.looked] at hr
        cases hr
    · intro j hj
      exact hseen j hj.1 (by have := hj.2; omega)
  · cases hst

/-- **Slots are available**, as long as no claim file is removed that another process has recorded:
`Allocate` reports that no slot is free only if it has found the claim file of every index in place,
`Reserve` adopts an index that nobody in the process holds and whose claim file no `Allocate` of the
process has run into, and a slot without a claim file is given out by the scan that reaches it. -/
theorem reach_slots_available {w : World} (h : Reach step Unrecorded Init w) (p : ℕ) :
    (∀ fault w', step w (.look p fault) = some w' →
        (w'.procs p).returned = some (.error .noFreeSlots) →
        ∃ i s, (w.procs p).busy = some (.allocating i s) ∧ ∀ j, InRange j → s j = true) ∧
      (∀ i, InRange i → (w.procs p).busy = none → (w.procs p).held i = 0 →
        (w.procs p).met i = false → ∃ w', step w (.reserve p i .none) = some w' ∧
          (w'.procs p).returned = some (.ok i)) ∧
      ∀ i s, InRange i → w.files i = false → (w.procs p).busy = some (.allocating i s) →
        ∃ w', step w (.look p .none) = some w' ∧ (w'.procs p).returned = some (.ok i) := by
  have htrue : ∀ q, Truthful w.files (w.procs q) := by
    refine h.invariant (I := fun w => ∀ q, Truthful w.files (w.procs q)) (fun w hw q => ?_)
      fun _ _ _ hw hg hs => truthful_step hw hg hs
    rw [hw q]
    exact truthful_newProc w.files
  refine ⟨fun fault w' hst hr => (htrue p).exhausted hst hr, fun i hi hb hheld hmet => ?_,
    fun i s hi hf hb => ?_⟩
  · refine ⟨_, by simp only [step, hb]; rfl, ?_⟩
    rw [set_procs_self]
    exact (htrue p).reserves hi hheld hmet
  · refine ⟨_, by simp only [step, hb, if_pos hi.2]; rfl, ?_⟩
    rw [set_procs_self]
    exact (htrue p).allocates hf s

theorem twoAllocate_available :
    ∃ w, exec step freshHost twoAllocate = some w ∧ (w.procs 1).held 3 = 0 ∧
      ∃ w', step w (.reserve 1 3 .none) = some w' ∧ (w'.procs 1).returned = some (.ok 3) := by
  have hadm : Admits step Unrecorded freshHost twoAllocate :=
    ⟨trivial, trivial, trivial, trivial, trivial, trivial⟩
  refine ⟨_, rfl, rfl, ?_⟩
  exact (reach_slots_available (.of_admits (fun _ => rfl) hadm rfl) 1).2.1 3 (by decide) rfl rfl rfl

/-- Process 0 releases slot 1, of which process 1 had found the claim file.  The slot is free, and
process 1 refuses to reserve it for good. -/
theorem released_slot_refused :
    ∃ w w', exec step freshHost (twoAllocate ++ ([.release 0 1, .unlink 0 true] : List Act)) = some w ∧
      w.files 1 = false ∧ (w.procs 0).held 1 = 0 ∧ (w.procs 1).held 1 = 0 ∧
      step w (.reserve 1 1 .none) = some w' ∧
      (w'.procs 1).returned = some (.error (.alreadyInUse 1)) := by
  refine ⟨_, _, rfl, rfl, rfl, rfl, rfl, rfl⟩

end Wrenn.Network.Processes
