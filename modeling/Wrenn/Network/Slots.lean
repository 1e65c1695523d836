import Mathlib.Order.Nat

/-!
# Network slots

Every sandbox owns one slot index, from which `newSlot` derives its addresses.  `newSlot` panics
outside `[1, 32767]` (`newSlot_panics_iff`); the allocator hands out and adopts only indices of that
range (`allocate_spec`, `reserve_spec`), so a slot built right after a successful `reserve` exists
(`newSlot_of_reserve`).

When the allocator is configured with a claim directory, every claim is recorded as a file created
with `O_CREAT|O_EXCL`.  The files are shared by all processes of the host, hence they are not a field
of the allocator but an argument and a result of its operations.
-/

namespace Wrenn.Network.Slots

open Function

/-- A run-time panic of the agent, with its message. -/
structure Panic where
  msg : String
  deriving DecidableEq, Repr

structure IPv4 where
  (a b c d : UInt8)
  deriving DecidableEq, Repr

structure Slot where
  index : ℤ
  hostIP : IPv4
  vethIP : IPv4
  vpeerIP : IPv4
  namespaceID : String
  vethName : String
  deriving DecidableEq, Repr

/-- The indices for which `index * 2 + 1` fits in sixteen bits. -/
def InRange (index : ℤ) : Prop := 1 ≤ index ∧ index ≤ 32767

instance (index : ℤ) : Decidable (InRange index) := inferInstanceAs (Decidable (_ ∧ _))

/-- The address `offset` places above `10.net.0.0`, byte by byte, with wrap-around. -/
def addrAt (net : UInt8) (offset : ℕ) : IPv4 :=
  ⟨10, net, UInt8.ofNat (offset / 256), UInt8.ofNat (offset % 256)⟩

def newSlot (index : ℤ) : Except Panic Slot :=
  if index < 1 ∨ index > 32767 then
    .error ⟨"slot index " ++ toString index ++ " out of range [1, 32767]"⟩
  else
    let vethOffset := index.toNat * 2
    .ok {
      index := index
      hostIP := addrAt 11 index.toNat
      vethIP := addrAt 12 vethOffset
      vpeerIP := addrAt 12 (vethOffset + 1)
      namespaceID := "wrenn-ns-" ++ toString index
      vethName := "wrenn-veth-" ++ toString index }

variable {index : ℤ}

theorem newSlot_ok (h : InRange index) :
    ∃ slot, newSlot index = .ok slot ∧ slot.index = index := by
  unfold newSlot
  rw [if_neg (by unfold InRange at h; omega)]
  exact ⟨_, rfl, rfl⟩

theorem newSlot_panics (h : ¬ InRange index) : ∃ p, newSlot index = .error p := by
  unfold newSlot
  rw [if_pos (by unfold InRange at h; omega)]
  exact ⟨_, rfl⟩

theorem newSlot_panics_iff (index : ℤ) : (∃ p, newSlot index = .error p) ↔ ¬ InRange index := by
  refine ⟨fun ⟨p, hp⟩ h => ?_, newSlot_panics⟩
  obtain ⟨slot, hs, -⟩ := newSlot_ok h
  rw [hs] at hp; cases hp

/-! ### The allocator -/

/-- The claim files of the host: `files i` says that `{slotsDir}/i` exists. -/
abbrev ClaimFiles := ℤ → Bool

structure SlotAllocator where
  inUse : ℤ → Bool
  /-- slots with a claim file on disk but no owner in this process yet -/
  seeded : ℤ → Bool
  /-- whether a claim directory is configured -/
  slotsDir : Bool

def newSlotAllocator (slotsDir : Bool) : SlotAllocator :=
  ⟨fun _ => false, fun _ => false, slotsDir⟩

/-- `SeedFromDir`: every claim file of the range marks its slot, without an owner in this process. -/
def seedFromDir (a : SlotAllocator) (files : ClaimFiles) : SlotAllocator :=
  if a.slotsDir then
    { a with
      inUse := fun i => (decide (InRange i) && files i) || a.inUse i
      seeded := fun i => (decide (InRange i) && files i) || a.seeded i }
  else a

inductive ClaimError
  | exist
  | other
  deriving DecidableEq, Repr

/-- Creation of a claim file; `ioErr` is any failure other than `EEXIST`. -/
def claimFile (a : SlotAllocator) (files : ClaimFiles) (ioErr : Bool) (index : ℤ) :
    Except ClaimError ClaimFiles :=
  if !a.slotsDir then .ok files
  else if ioErr then .error .other
  else if files index then .error .exist
  else .ok (Function.update files index true)

inductive SlotError
  | outOfRange (index : ℤ)
  | alreadyInUse (index : ℤ)
  | claim (index : ℤ)
  | noFreeSlots
  deriving DecidableEq, Repr

/-- Adoption of one index; an existing claim file is no error here. -/
def reserve (a : SlotAllocator) (files : ClaimFiles) (ioErr : Bool) (index : ℤ) :
    Except SlotError (SlotAllocator × ClaimFiles) :=
  if index < 1 ∨ index > 32767 then .error (.outOfRange index)
  else if a.inUse index && !a.seeded index then .error (.alreadyInUse index)
  else
    let adopt := { a with
      inUse := Function.update a.inUse index true
      seeded := Function.update a.seeded index false }
    match claimFile a files ioErr index with
    | .ok files' => .ok (adopt, files')
    | .error .exist => .ok (adopt, files)
    | .error .other => .error (.claim index)

def release (a : SlotAllocator) (files : ClaimFiles) (index : ℤ) : SlotAllocator × ClaimFiles :=
  ({ a with
      inUse := Function.update a.inUse index false
      seeded := Function.update a.seeded index false },
    if a.slotsDir then Function.update files index false else files)

/-- The allocator once `index` has been adopted. -/
def adopt (a : SlotAllocator) (index : ℤ) : SlotAllocator :=
  { a with
    inUse := Function.update a.inUse index true
    seeded := Function.update a.seeded index false }

/-- This process has an owner for the slot. -/
def Owned (a : SlotAllocator) (index : ℤ) : Prop :=
  a.inUse index = true ∧ a.seeded index = false

variable {i : ℤ} {a a' : SlotAllocator} {files files' : ClaimFiles} {ioErr : Bool}

theorem seedFromDir_seeded (slotsDir : Bool) (files : ClaimFiles) (i : ℤ)
    (h : (seedFromDir (newSlotAllocator slotsDir) files).inUse i = true) :
    (seedFromDir (newSlotAllocator slotsDir) files).seeded i = true := by
  unfold seedFromDir newSlotAllocator at *
  split_ifs at * with hd
  exact h

theorem reserve_spec
    (h : reserve a files ioErr index = .ok (a', files')) :
    InRange index ∧ (a.inUse index = false ∨ a.seeded index = true) ∧
      a' = { a with
        inUse := update a.inUse index true
        seeded := update a.seeded index false } := by
  unfold reserve at h
  split_ifs at h with h1 h2
  have hfree : a.inUse index = false ∨ a.seeded index = true := by
    cases hu : a.inUse index <;> cases hs : a.seeded index <;> simp_all
  refine ⟨⟨by omega, by omega⟩, hfree, ?_⟩
  rcases hc : claimFile a files ioErr index with (_ | _) | files1 <;> rw [hc] at h <;> cases h <;> rfl

/-- After a successful `reserve` the claim file is there. -/
theorem reserve_files
    (hd : a.slotsDir = true) (h : reserve a files ioErr index = .ok (a', files')) :
    files' = update files index true := by
  unfold reserve at h
  split_ifs at h with h1 h2
  unfold claimFile at h
  simp only [hd, Bool.not_true, Bool.false_eq_true, if_false] at h
  cases hio : ioErr with
  | true => simp [hio] at h
  | false =>
    simp only [hio, Bool.false_eq_true, if_false] at h
    cases hf : files index with
    | true =>
      simp only [hf, if_true, Except.ok.injEq, Prod.mk.injEq] at h
      rw [← h.2, ← hf, update_eq_self]
    | false =>
      simp only [hf, Bool.false_eq_true, if_false, Except.ok.injEq, Prod.mk.injEq] at h
      exact h.2.symm

theorem reserve_ok (hr : InRange index)
    (hfree : a.inUse index = true → a.seeded index = true) :
    ∃ r, reserve a files false index = .ok r := by
  unfold reserve
  rw [if_neg (by unfold InRange at hr; omega)]
  have hne : ¬ (a.inUse index && !a.seeded index) = true := by
    cases hu : a.inUse index <;> simp_all
  rw [if_neg hne]
  rcases hc : claimFile a files false index with (_ | _) | files'
  · exact ⟨_, rfl⟩
  · unfold claimFile at hc
    split_ifs at hc with h1 h2 h3
    · exact absurd h2 (by simp)
    · cases hc
  · exact ⟨_, rfl⟩

/-- **When a reservation succeeds.** -/
theorem reserve_ok_iff
    (hd : a.slotsDir = true) :
    (∃ r, reserve a files ioErr index = .ok r) ↔
      InRange index ∧ ¬ Owned a index ∧ ioErr = false := by
  constructor
  · rintro ⟨⟨a', files'⟩, h⟩
    obtain ⟨hr, hfree, -⟩ := reserve_spec h
    refine ⟨hr, fun ho => ?_, ?_⟩
    · rcases hfree with hf | hf
      · rw [ho.1] at hf
        cases hf
      · rw [ho.2] at hf
        cases hf
    · cases hio : ioErr with
      | false => rfl
      | true =>
        unfold reserve claimFile at h
        simp [hio, hd] at h
        split_ifs at h
  · rintro ⟨hr, hno, rfl⟩
    refine reserve_ok hr fun hu => ?_
    cases hs : a.seeded index with
    | true => rfl
    | false => exact absurd ⟨hu, hs⟩ hno

theorem owned_adopt (a : SlotAllocator) (index : ℤ) : Owned (adopt a index) index :=
  ⟨update_self .., update_self ..⟩

theorem owned_adopt_of_ne (h : i ≠ index) :
    Owned (adopt a index) i ↔ Owned a i := by
  unfold Owned adopt
  simp only [update_of_ne h]

theorem owned_adopt_iff :
    Owned (adopt a index) i ↔ Owned a i ∨ i = index := by
  by_cases h : i = index
  · rw [h]
    exact iff_of_true (owned_adopt a index) (.inr rfl)
  · rw [owned_adopt_of_ne h, or_iff_left h]

theorem not_owned_release (a : SlotAllocator) (files : ClaimFiles) (index : ℤ) :
    ¬ Owned (release a files index).1 index := by
  intro h
  have := h.1
  simp [release] at this

theorem owned_release_of_ne (h : i ≠ index) :
    Owned (release a files index).1 i ↔ Owned a i := by
  unfold Owned release
  simp only [update_of_ne h]

/-- A slot built right after its index was reserved exists: the range has been checked. -/
theorem newSlot_of_reserve
    (h : reserve a files ioErr index = .ok (a', files')) :
    ∃ slot, newSlot index = .ok slot ∧ slot.index = index :=
  newSlot_ok (reserve_spec h).1

end Wrenn.Network.Slots
