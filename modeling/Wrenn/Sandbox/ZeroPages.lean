import Mathlib.Data.List.Range
import Mathlib.Logic.Basic
import Mathlib.Tactic.Ring

/-!
# Punching zero pages

`punchZeroPages` walks through the data extents of a memory file, reads them chunk by chunk, collects runs of blocks
that are zero and punches every run out of the file.  The file system answers `SEEK_DATA` and `SEEK_HOLE` from a
layout of data and holes with boundaries at any offset; a punch changes it inside the punched range only.  Every
call may fail, and the context may be cancelled before any of them.

* `punch_keeps_content`: however it ends, the bytes and the size are as before, and after a complete scan the zero
  blocks of every extent have been punched;
* `punch_terminates_iff`: the scan ends, whatever the file system does, exactly if every data extent
  begins at a multiple of the block size; and at most one read begins after a cancellation;
* `unaligned_data_loops`: a scan that goes on for ever.
-/

namespace Wrenn.Sandbox.ZeroPages

def punchBlockSize : ℕ := 4096

def punchReadSize : ℕ := 2 ^ 20

structure File where
  size : ℕ
  byte : ℕ → UInt8
  /-- the layout: whether an offset is in a data extent -/
  data : ℕ → Bool

/-- The file system and the context; calls are counted. -/
structure Env where
  fails : ℕ → Bool
  /-- the call before which the context is cancelled -/
  cancelAt : Option ℕ
  /-- what the layout is, after a punch, inside the range -/
  relayout : ℕ → ℕ → Bool

def Env.cancelled (env : Env) (t : ℕ) : Bool := env.cancelAt.any (· ≤ t)

structure State where
  file : File
  calls : ℕ
  /-- the punched ranges, offset and length -/
  punched : List (ℕ × ℕ)
  /-- the extents that were scanned -/
  scanned : List (ℕ × ℕ)
  /-- at which calls a read began -/
  reads : List ℕ

inductive Exit
  | done
  | cancelled
  | failed
  deriving DecidableEq, Repr

def State.call (s : State) : State := { s with calls := s.calls + 1 }

def State.read (s : State) : State := { s with calls := s.calls + 1, reads := s.calls :: s.reads }

def State.enter (s : State) (off endData : ℕ) : State := { s with scanned := (off, endData) :: s.scanned }

/-- `SEEK_DATA`; `none` is `ENXIO` -/
def File.seekData (f : File) (off : ℕ) : Option ℕ := (List.range' off (f.size - off)).find? f.data

/-- `SEEK_HOLE`: there is a hole at the end of the file. -/
def File.seekHole (f : File) (off : ℕ) : Option ℕ :=
  if f.size ≤ off then none else some (((List.range' off (f.size - off)).find? fun o => !f.data o).getD f.size)

section Code

variable (env : Env)

/-- `FALLOC_FL_PUNCH_HOLE` with `FALLOC_FL_KEEP_SIZE` -/
def punch (s : State) (off length : ℕ) : State × Bool :=
  if env.fails s.calls then (s.call, false)
  else ({ s.call with
    file := { s.file with
      byte := fun o => if off ≤ o ∧ o < off + length then 0 else s.file.byte o
      data := fun o => if off ≤ o ∧ o < off + length then env.relayout s.calls o else s.file.data o }
    punched := (off, length) :: s.punched }, true)

/-- The run that is pending is punched. -/
def flush (s : State) (zeroStart : Option ℕ) (stop : ℕ) : State × Bool :=
  match zeroStart with
  | none => (s, true)
  | some z => punch env s z (stop - z)

def isZero (buf : ℕ → UInt8) (a b : ℕ) : Bool := (List.range' a (b - a)).all fun i => buf i == 0

/-- The loop over the blocks of a chunk of `n` bytes at `cur`. -/
def walk (buf : ℕ → UInt8) (n cur : ℕ) : ℕ → ℕ → Option ℕ → State → State × Option ℕ × Bool
  | 0, _, zeroStart, s => (s, zeroStart, true)
  | m + 1, blkOff, zeroStart, s =>
    if n ≤ blkOff then (s, zeroStart, true)
    else if isZero buf blkOff (min (blkOff + punchBlockSize) n) ∧ blkOff + punchBlockSize ≤ n then
      walk buf n cur m (blkOff + punchBlockSize) (zeroStart <|> some (cur + blkOff)) s
    else
      match flush env s zeroStart (cur + blkOff) with
      | (s', false) => (s', zeroStart, false)
      | (s', true) => walk buf n cur m (blkOff + punchBlockSize) none s'

/-- The end of an extent. -/
def finish (s : State) (zeroStart : Option ℕ) (cur : ℕ) : State × Exit :=
  match flush env s zeroStart cur with
  | (s', true) => (s', .done)
  | (s', false) => (s', .failed)

/-- The number of bytes that `readAt` gets at `cur`: it fills the buffer except at the end of the file. -/
def chunk (f : File) (endData cur : ℕ) : ℕ := min (min punchReadSize (endData - cur)) (f.size - cur)

/-- The loop over the chunks of an extent; each turn moves `cur`. -/
def scan (endData : ℕ) : ℕ → ℕ → Option ℕ → State → State × Exit
  | 0, cur, zeroStart, s => finish env s zeroStart cur
  | m + 1, cur, zeroStart, s =>
    if endData ≤ cur then finish env s zeroStart cur
    else if env.cancelled s.calls then
      match flush env s.call zeroStart cur with
      | (s', true) => (s', .cancelled)
      | (s', false) => (s', .failed)
    else if env.fails s.call.calls then (s.call.read, .failed)
    else if chunk s.file endData cur = 0 then finish env s.call.read zeroStart cur
    else
      match walk env (fun i => s.file.byte (cur + i)) (chunk s.file endData cur) cur punchReadSize 0 zeroStart
          s.call.read with
      | (s', _, false) => (s', .failed)
      | (s', zeroStart', true) => scan endData m (cur + chunk s.file endData cur) zeroStart' s'

/-- The loop over the extents; `none` if it has not ended after the given number of turns. -/
def scanFile (size : ℕ) : ℕ → ℕ → State → Option (State × Exit)
  | 0, _, _ => none
  | m + 1, off, s =>
    if size ≤ off then some (s, .done)
    else if env.fails s.calls then some (s.call, .failed)
    else match s.file.seekData off with
      | none => some (s.call, .done)
      | some next =>
        if env.fails s.call.calls then some (s.call.call, .failed)
        else match s.file.seekHole (next - next % punchBlockSize) with
          | none => some (s.call.call, .failed)
          | some endData =>
            match scan env endData (endData - (next - next % punchBlockSize)) (next - next % punchBlockSize) none
                (s.call.call.enter (next - next % punchBlockSize) endData) with
            | (s', .done) => scanFile size m endData s'
            | r => some r

/-- `punchZeroPages` of an open file; the statistics that it returns are left out, but not their failures. -/
def punchZeroPages (fuel : ℕ) (f : File) : Option (State × Exit) :=
  if env.fails 0 then some (⟨f, 1, [], [], []⟩, .failed)
  else match scanFile env f.size fuel 0 ⟨f, 1, [], [], []⟩ with
    | some (s, .done) => if env.fails s.calls then some (s.call, .failed) else some (s.call, .done)
    | r => r

end Code

/-! ### Zero runs -/

variable {env : Env} {s s' s₁ s₂ : State} {z z' : Option ℕ} {off stop lim cur n : ℕ} {ok : Bool}

/-- What no part of the scan changes; the layout it keeps from `lim` on. -/
structure Keeps (env : Env) (lim : ℕ) (s s' : State) : Prop where
  byte : s'.file.byte = s.file.byte
  size : s'.file.size = s.file.size
  data : ∀ o, lim ≤ o → s'.file.data o = s.file.data o
  punched : s.punched ⊆ s'.punched
  scanned : s'.scanned = s.scanned
  timely : (∀ r ∈ s.reads, ∀ c ∈ env.cancelAt, r ≤ c) → ∀ r ∈ s'.reads, ∀ c ∈ env.cancelAt, r ≤ c

theorem Keeps.refl (s : State) : Keeps env lim s s :=
  ⟨rfl, rfl, fun _ _ => rfl, List.Subset.refl _, rfl, fun h => h⟩

theorem Keeps.trans (h : Keeps env lim s s₁) (h' : Keeps env lim s₁ s₂) : Keeps env lim s s₂ :=
  ⟨h'.byte.trans h.byte, h'.size.trans h.size, fun o ho => (h'.data o ho).trans (h.data o ho),
    List.Subset.trans h.punched h'.punched, h'.scanned.trans h.scanned, fun ht => h'.timely (h.timely ht)⟩

theorem keeps_call (s : State) : Keeps env lim s s.call :=
  ⟨rfl, rfl, fun _ _ => rfl, List.Subset.refl _, rfl, fun h => h⟩

/-- A read that follows a look at the context, which was not cancelled. -/
theorem keeps_read (h : env.cancelled s.calls = false) : Keeps env lim s s.call.read := by
  refine ⟨rfl, rfl, fun _ _ => rfl, List.Subset.refl _, rfl, fun ht r hr c hc => ?_⟩
  rcases List.mem_cons.mp hr with rfl | hr
  · rw [Env.cancelled, Option.mem_def.mp hc] at h
    have hlt : ¬ c ≤ s.calls := by simpa using h
    exact Nat.lt_of_not_le hlt
  · exact ht r hr c hc

/-- The run that is pending at `stop` is zero. -/
def ZeroRun (s : State) (z : Option ℕ) (stop : ℕ) : Prop :=
  ∀ z₀ ∈ z, z₀ ≤ stop ∧ ∀ o, z₀ ≤ o → o < stop → s.file.byte o = 0

def ZeroBlock (s : State) (lo : ℕ) : Prop := ∀ o, lo ≤ o → o < lo + punchBlockSize → s.file.byte o = 0

/-- The block at `lo` is in a punched range or in the pending run. -/
def Covered (s : State) (z : Option ℕ) (lo : ℕ) : Prop :=
  (∃ r ∈ s.punched, r.1 ≤ lo ∧ lo + punchBlockSize ≤ r.1 + r.2) ∨ ∃ z₀ ∈ z, z₀ ≤ lo

/-- The zero blocks from `off` up to `stop` are covered. -/
def Found (s : State) (z : Option ℕ) (off stop : ℕ) : Prop :=
  ∀ k, off + punchBlockSize * k + punchBlockSize ≤ stop → ZeroBlock s (off + punchBlockSize * k) →
    Covered s z (off + punchBlockSize * k)

theorem Found.keeps (h : Found s none off stop) (hk : Keeps env lim s s') : Found s' none off stop := by
  intro k hle hzero
  rcases h k hle (fun o => hk.byte ▸ hzero o) with ⟨r, hr, hin⟩ | ⟨z₀, hz, -⟩
  · exact .inl ⟨r, hk.punched hr, hin⟩
  · cases hz

/-- **A flush** changes no byte, and leaves no zero block uncovered. -/
theorem flush_spec (hz : ZeroRun s z stop) (hlim : stop ≤ lim) (h : flush env s z stop = (s', ok)) :
    Keeps env lim s s' ∧ (ok = true → ∀ {off}, Found s z off stop → Found s' none off stop) := by
  cases z with
  | none =>
    cases h
    exact ⟨Keeps.refl _, fun _ _ hf => hf⟩
  | some z₀ =>
    obtain ⟨hle, hzero⟩ := hz z₀ rfl
    simp only [flush, punch] at h
    split_ifs at h <;> cases h
    · exact ⟨keeps_call s, fun hok => (by cases hok)⟩
    have hend : z₀ + (stop - z₀) = stop := by omega
    have hbyte : (fun o => if z₀ ≤ o ∧ o < z₀ + (stop - z₀) then 0 else s.file.byte o) = s.file.byte := by
      funext o
      split_ifs with ho
      · exact (hzero o ho.1 (hend ▸ ho.2)).symm
      · rfl
    refine ⟨⟨hbyte, rfl, fun o ho => if_neg fun hin => ?_, List.subset_cons_self _ _, rfl, fun ht => ht⟩,
      fun _ off hf k hk hzb => ?_⟩
    · omega
    · refine .inl ?_
      rcases hf k hk (fun o => hbyte ▸ hzb o) with ⟨r, hr, hin⟩ | ⟨z₁, hz₁, hle₁⟩
      · exact ⟨r, List.mem_cons_of_mem _ hr, hin⟩
      · cases hz₁
        exact ⟨_, List.mem_cons_self, hle₁, by rw [hend]; exact hk⟩

theorem isZero_iff {buf : ℕ → UInt8} {a b : ℕ} : isZero buf a b = true ↔ ∀ i, a ≤ i → i < b → buf i = 0 := by
  simp only [isZero, List.all_eq_true, List.mem_range'_1, beq_iff_eq]
  exact ⟨fun h i ha hb => h i ⟨ha, by omega⟩, fun h i hi => h i hi.1 (by omega)⟩

theorem ZeroRun.keeps (h : ZeroRun s z stop) (hk : Keeps env lim s s') : ZeroRun s' z stop :=
  fun z₀ hz => ⟨(h z₀ hz).1, fun o hlo hhi => hk.byte ▸ (h z₀ hz).2 o hlo hhi⟩

theorem Found.congr (h : Found s z off stop) (hk : s'.file = s.file) (hp : s'.punched = s.punched) :
    Found s' z off stop := by
  unfold Found ZeroBlock Covered at h ⊢
  rw [hk, hp]
  exact h

/-- The zero block at `stop` joins the run. -/
theorem ZeroRun.grow (h : ZeroRun s z stop) (hb : ZeroBlock s stop) :
    ZeroRun s (z <|> some stop) (stop + punchBlockSize) := by
  intro z₀ hz
  cases z with
  | none =>
    cases hz
    exact ⟨Nat.le_add_right _ _, hb⟩
  | some z₁ =>
    cases hz
    obtain ⟨hle, hzero⟩ := h z₀ rfl
    refine ⟨by omega, fun o hlo hhi => ?_⟩
    by_cases ho : o < stop
    · exact hzero o hlo ho
    · exact hb o (Nat.le_of_not_lt ho) hhi

variable {q : ℕ} {f : File}

theorem block_lt {k : ℕ} : k < q ↔ punchBlockSize * k + punchBlockSize ≤ punchBlockSize * q := by
  simp only [punchBlockSize]
  omega

/-- The blocks before `stop` are covered, and so is the one at `stop` if it is zero. -/
theorem Found.grow {lim : ℕ} (hs : stop = off + punchBlockSize * q) (h : Found s z off (min stop lim))
    (hz : ∀ z₀ ∈ z, z₀ ∈ z') (hb : stop + punchBlockSize ≤ lim → ZeroBlock s stop → Covered s z' stop) :
    Found s z' off (min (stop + punchBlockSize) lim) := by
  intro k hk hzero
  have hlt : k < q ↔ punchBlockSize * k + punchBlockSize ≤ punchBlockSize * q := block_lt
  have hgt : q < k ↔ punchBlockSize * q + punchBlockSize ≤ punchBlockSize * k := block_lt
  have hpos : 0 < punchBlockSize := by decide
  by_cases hkq : k < q
  · rcases h k (by omega) hzero with hr | ⟨z₀, hz₀, hle⟩
    · exact .inl hr
    · exact .inr ⟨z₀, hz z₀ hz₀, hle⟩
  · have hkq : k = q := by omega
    subst hkq
    rw [← hs] at hzero ⊢
    exact hb (by omega) hzero

/-- **The blocks of a chunk.** -/
theorem walk_spec {buf : ℕ → UInt8} (hlim : cur + n ≤ lim) :
    ∀ {m blkOff q : ℕ} {z : Option ℕ} {s : State}, (∀ i, buf i = s.file.byte (cur + i)) →
      n ≤ blkOff + punchBlockSize * m → cur + blkOff = off + punchBlockSize * q → (blkOff ≤ n ∨ z = none) →
      ZeroRun s z (cur + blkOff) → Found s z off (min (cur + blkOff) (cur + n)) →
      walk env buf n cur m (blkOff) z s = (s', z', ok) →
      Keeps env lim s s' ∧ (ok = true → ZeroRun s' z' (cur + n) ∧ Found s' z' off (cur + n)) := by
  have hpos : punchBlockSize = 4096 := rfl
  -- the last block may be short: then nothing is pending after it
  have hend : ∀ {blkOff : ℕ} {z : Option ℕ} {s : State}, n ≤ blkOff → (blkOff ≤ n ∨ z = none) →
      ZeroRun s z (cur + blkOff) → Found s z off (min (cur + blkOff) (cur + n)) →
      ZeroRun s z (cur + n) ∧ Found s z off (cur + n) := by
    intro blkOff z s hn hor hz hf
    refine ⟨?_, by rwa [Nat.min_eq_right (by omega)] at hf⟩
    rcases hor with hle | rfl
    · rwa [Nat.le_antisymm hn hle]
    · intro z₀ hz₀
      cases hz₀
  intro m
  induction m with
  | zero =>
    intro blkOff q z s _ hm _ hor hz hf h
    cases h
    exact ⟨Keeps.refl _, fun _ => hend (by omega) hor hz hf⟩
  | succ m ih =>
    intro blkOff q z s hbuf hm hat hor hz hf h
    have hnext : cur + (blkOff + punchBlockSize) = off + punchBlockSize * (q + 1) := by
      rw [Nat.mul_succ]
      omega
    have hm : n ≤ blkOff + punchBlockSize + punchBlockSize * m := by
      rw [Nat.mul_succ] at hm
      omega
    have hblock : blkOff + punchBlockSize ≤ n →
        (isZero buf (blkOff) (min (blkOff + punchBlockSize) n) = true ↔
          ZeroBlock s (cur + blkOff)) := by
      intro hfull
      rw [isZero_iff, Nat.min_eq_left hfull]
      constructor
      · intro hi o hlo hhi
        have := hi (o - cur) (by omega) (by omega)
        rwa [hbuf, Nat.add_sub_cancel' (by omega)] at this
      · intro hb i hlo hhi
        rw [hbuf]
        exact hb _ (by omega) (by omega)
    rw [walk] at h
    split_ifs at h with hn hzero
    · cases h
      exact ⟨Keeps.refl _, fun _ => hend hn hor hz hf⟩
    · -- a full block of zeros
      have hb : ZeroBlock s (cur + blkOff) := (hblock hzero.2).mp hzero.1
      refine ih hbuf hm hnext (.inl hzero.2) (Nat.add_assoc cur _ _ ▸ hz.grow hb)
        (Nat.add_assoc cur _ _ ▸ Found.grow hat hf ?_ fun _ _ => .inr ?_) h
      · intro z₀ hz₀
        rw [Option.mem_def.mp hz₀]
        rfl
      · cases z with
        | none => exact ⟨_, rfl, Nat.le_refl _⟩
        | some z₀ => exact ⟨z₀, rfl, (hz z₀ rfl).1⟩
    · cases hfl : flush env s z (cur + blkOff) with
      | mk s₁ ok₁ =>
        have hmin : min (cur + blkOff) (cur + n) = cur + blkOff := by omega
        obtain ⟨hk, hfound⟩ : Keeps env lim s s₁ ∧ _ := flush_spec hz (by omega) hfl
        rw [hfl] at h
        cases ok₁ with
        | false =>
          cases h
          exact ⟨hk, fun hok => (by cases hok)⟩
        | true =>
          have hz₁ : ZeroRun s₁ none (cur + (blkOff + punchBlockSize)) := fun z₀ hz₀ => (by cases hz₀)
          rw [hmin] at hf
          have hf₁ : Found s₁ none off (min (cur + blkOff + punchBlockSize) (cur + n)) := by
            refine Found.grow hat (by rw [hmin]; exact hfound rfl hf) (fun z₀ hz₀ => hz₀) fun hfull hb => ?_
            have hfull : blkOff + punchBlockSize ≤ n := by omega
            exact absurd ⟨(hblock hfull).mpr fun o hlo hhi => hk.byte ▸ hb o hlo hhi, hfull⟩ hzero
          obtain ⟨hk', hpost⟩ := ih (fun i => hk.byte ▸ hbuf i) hm hnext (.inr rfl) hz₁
            (Nat.add_assoc cur _ _ ▸ hf₁) h
          exact ⟨hk.trans hk', hpost⟩

variable {e : Exit} {endData : ℕ}

theorem finish_spec (hz : ZeroRun s z cur) (hlim : cur ≤ lim) (h : finish env s z cur = (s', e)) :
    Keeps env lim s s' ∧ (e = .done → Found s z off cur → Found s' none off cur) := by
  unfold finish at h
  split at h <;> rename_i hfl <;> obtain ⟨hk, hf⟩ := flush_spec hz hlim hfl <;> cases h
  · exact ⟨hk, fun _ => hf rfl⟩
  · exact ⟨hk, fun he => (by cases he)⟩

/-- The chunk is full unless it is the last one of the extent. -/
theorem chunk_spec (hend : endData ≤ s.file.size) (hlt : cur < endData) (hq : cur = off + punchBlockSize * q) :
    0 < chunk s.file endData cur ∧ cur + chunk s.file endData cur ≤ endData ∧ chunk s.file endData cur ≤ punchReadSize ∧
      ((∃ q', cur + chunk s.file endData cur = off + punchBlockSize * q') ∨
        cur + chunk s.file endData cur = endData) := by
  have hr : punchReadSize = punchBlockSize * 256 := by decide
  have hpos : 0 < punchBlockSize * 256 := by decide
  have hc : chunk s.file endData cur = min punchReadSize (endData - cur) := by
    unfold chunk
    omega
  rw [hc, hr]
  refine ⟨by omega, by omega, by omega, ?_⟩
  by_cases hle : punchBlockSize * 256 ≤ endData - cur
  · refine .inl ⟨q + 256, ?_⟩
    rw [Nat.min_eq_left hle, Nat.mul_add, hq, Nat.add_assoc]
  · exact .inr (by omega)

/-- **The chunks of an extent.** -/
theorem scan_spec : ∀ {m cur : ℕ} {z : Option ℕ} {s : State}, endData ≤ s.file.size → cur ≤ endData →
    endData ≤ cur + m → ((∃ q, cur = off + punchBlockSize * q) ∨ cur = endData) → ZeroRun s z cur →
    Found s z off cur → scan env endData m cur z s = (s', e) →
    Keeps env endData s s' ∧ (e = .done → Found s' none off endData) := by
  have hlast : ∀ {cur : ℕ} {z : Option ℕ} {s : State}, cur ≤ endData → endData ≤ cur → ZeroRun s z cur →
      Found s z off cur → finish env s z cur = (s', e) →
      Keeps env endData s s' ∧ (e = .done → Found s' none off endData) := by
    intro cur z s hle hge hz hf h
    obtain rfl : cur = endData := Nat.le_antisymm hle hge
    obtain ⟨hk, hfound⟩ := finish_spec hz hle h
    exact ⟨hk, fun he => hfound he hf⟩
  intro m
  induction m with
  | zero =>
    intro cur z s _ hle hm _ hz hf h
    exact hlast hle hm hz hf h
  | succ m ih =>
    intro cur z s hend hle hm hor hz hf h
    rw [scan] at h
    split_ifs at h with hge hcan hfail hn
    · exact hlast hle hge hz hf h
    · -- cancelled: what is pending is punched first
      have hcall : Keeps env endData s s.call := keeps_call s
      split at h <;> rename_i hfl <;> obtain ⟨hk, -⟩ := flush_spec (hz.keeps hcall) hle hfl <;> cases h
      all_goals exact ⟨hcall.trans hk, fun he => (by cases he)⟩
    · cases h
      exact ⟨keeps_read (by simpa using hcan), fun he => (by cases he)⟩
    all_goals
      obtain ⟨q, hq⟩ : ∃ q, cur = off + punchBlockSize * q := hor.resolve_right (by omega)
      obtain ⟨hpos, hle', hbuf, hor'⟩ := chunk_spec hend (Nat.lt_of_not_le hge) hq
    · omega
    have hread : Keeps env endData s s.call.read := keeps_read (by simpa using hcan)
    have hbufs : punchReadSize ≤ punchBlockSize * punchReadSize := by decide
    have hfound : Found s.call.read z off (min (cur + 0) (cur + chunk s.file endData cur)) := by
      rw [Nat.min_eq_left (by omega)]
      exact hf.congr rfl rfl
    split at h <;> rename_i s₁ z₁ hw
    all_goals
      obtain ⟨hk, hpost⟩ := walk_spec hle' (fun i => rfl) (by omega) (by rw [Nat.add_zero]; exact hq)
        (.inl (Nat.zero_le _)) (hz.keeps hread) hfound hw
    · cases h
      exact ⟨hread.trans hk, fun he => (by cases he)⟩
    · obtain ⟨hz₁, hf₁⟩ := hpost rfl
      have hk := hread.trans hk
      obtain ⟨hk', hpost'⟩ := ih (hk.size ▸ hend) hle' (by omega) hor' hz₁ hf₁ h
      exact ⟨hk.trans hk', hpost'⟩

/-! ### The whole file -/

/-- The zero blocks of the scanned extents have been punched. -/
def Reclaimed (s : State) : Prop := ∀ x ∈ s.scanned, Found s none x.1 x.2

theorem seekData_some {next : ℕ} (h : f.seekData off = some next) :
    (off ≤ next ∧ next < f.size) ∧ f.data next = true ∧ ∀ o, off ≤ o → o < next → f.data o = false := by
  obtain ⟨hdata, hmem, hmin⟩ := List.find?_range'_eq_some.mp h
  have hmem := List.mem_range'_1.mp hmem
  exact ⟨by omega, hdata, fun o hlo hhi => by simpa using hmin o hlo hhi⟩

theorem seekHole_some (h : f.seekHole off = some endData) :
    (off ≤ endData ∧ endData ≤ f.size) ∧ (f.data endData = false ∨ f.size ≤ endData) := by
  unfold File.seekHole at h
  split_ifs at h with hle
  cases hf : (List.range' off (f.size - off)).find? fun o => !f.data o with
  | none =>
    rw [hf] at h
    cases h
    exact ⟨⟨Nat.le_of_not_le hle, Nat.le_refl _⟩, .inr (Nat.le_refl _)⟩
  | some o =>
    rw [hf] at h
    cases h
    have hmem := List.mem_range'_1.mp (List.mem_of_find?_eq_some hf)
    have hle' : o ≤ f.size := by omega
    exact ⟨⟨hmem.1, hle'⟩, .inl (by simpa using List.find?_some hf)⟩

/-- **An extent**: its zero blocks are punched. -/
theorem extent_spec (hend : off ≤ endData ∧ endData ≤ s.file.size)
    (h : scan env endData (endData - off) off none (s.enter off endData) = (s', e)) :
    Keeps env endData (s.enter off endData) s' ∧ (e = .done → Found s' none off endData) := by
  have hnone : ZeroRun (s.enter off endData) none off := fun z₀ hz => (by cases hz)
  have hstart : Found (s.enter off endData) none off off := by
    intro k hk
    have hpos : 0 < punchBlockSize := by decide
    omega
  exact scan_spec hend.2 hend.1 (Nat.le_of_eq (Nat.add_sub_of_le hend.1).symm) (.inl ⟨0, rfl⟩) hnone hstart h

/-- What a scan guarantees about the bytes, the extents and the reads. -/
structure Sound (env : Env) (f : File) (s : State) (e : Exit) : Prop where
  byte : s.file.byte = f.byte
  size : s.file.size = f.size
  reclaimed : e = .done → Reclaimed s
  timely : ∀ r ∈ s.reads, ∀ c ∈ env.cancelAt, r ≤ c

theorem Sound.call (h : Sound env f s e) : Sound env f s.call e :=
  ⟨h.byte, h.size, fun he x hx => (h.reclaimed he x hx).congr rfl rfl, h.timely⟩

/-- **The loop over the extents**, from a state that a complete scan so far has left. -/
theorem scanFile_sound : ∀ {m off : ℕ} {s : State}, Sound env f s .done →
    scanFile env f.size m off s = some (s', e) → Sound env f s' e := by
  have weak : ∀ {s : State} {e : Exit}, Sound env f s .done → Sound env f s e :=
    fun h => ⟨h.byte, h.size, fun _ => h.reclaimed rfl, h.timely⟩
  intro m
  induction m with
  | zero =>
    intro off s _ h
    cases h
  | succ m ih =>
    intro off s hs h
    have hc : Sound env f s.call .done := hs.call
    rw [scanFile] at h
    split at h
    · cases h
      exact hs
    split at h
    · cases h
      exact weak hc
    split at h
    · cases h
      exact hc
    split at h
    · cases h
      exact weak hc.call
    split at h
    · cases h
      exact weak hc.call
    · rename_i next _ _ _ endData hhole
      have hend : _ ≤ endData ∧ endData ≤ s.call.call.file.size := (seekHole_some hhole).1
      cases hscan : scan env endData _ _ none (s.call.call.enter (next - next % punchBlockSize) endData) with
      | mk s₁ e₁ =>
        obtain ⟨hk, hf⟩ := extent_spec hend hscan
        have hs₁ : Sound env f s₁ e₁ := by
          refine ⟨hk.byte.trans hs.byte, hk.size.trans hs.size, fun he x hx => ?_, hk.timely hs.timely⟩
          rw [hk.scanned] at hx
          rcases List.mem_cons.mp hx with rfl | hx
          · exact hf he
          · have hold : Found (s.call.call.enter (next - next % punchBlockSize) endData) none x.1 x.2 :=
              hs.reclaimed rfl x hx
            exact hold.keeps hk
        rw [hscan] at h
        cases e₁
        · exact ih hs₁ h
        all_goals
          cases h
          exact hs₁

theorem punchZeroPages_sound {fuel : ℕ} (h : punchZeroPages env fuel f = some (s, e)) : Sound env f s e := by
  have hstart : ∀ e, Sound env f ⟨f, 1, [], [], []⟩ e :=
    fun e => ⟨rfl, rfl, fun _ x hx => absurd hx List.not_mem_nil, List.forall_mem_nil _⟩
  unfold punchZeroPages at h
  split_ifs at h
  · cases h
    exact hstart _
  · split at h <;> rename_i hscan
    · have hs := scanFile_sound (hstart _) hscan
      split_ifs at h <;> cases h
      · exact ⟨hs.byte, hs.size, fun he => (by cases he), hs.timely⟩
      · exact hs.call
    · exact scanFile_sound (hstart _) h

/-- **The content is kept**, and a complete scan has punched the zero blocks of every extent. -/
theorem punch_keeps_content (env : Env) (f : File) (fuel : ℕ) (s : State) (e : Exit)
    (h : punchZeroPages env fuel f = some (s, e)) :
    (∀ o, s.file.byte o = f.byte o) ∧ s.file.size = f.size ∧
      (e = .done → ∀ x ∈ s.scanned, ∀ k, x.1 + punchBlockSize * k + punchBlockSize ≤ x.2 →
        (∀ o, x.1 + punchBlockSize * k ≤ o → o < x.1 + punchBlockSize * k + punchBlockSize → f.byte o = 0) →
        ∃ r ∈ s.punched, r.1 ≤ x.1 + punchBlockSize * k ∧ x.1 + punchBlockSize * k + punchBlockSize ≤ r.1 + r.2) := by
  have hs := punchZeroPages_sound h
  refine ⟨fun o => congrFun hs.byte o, hs.size, fun he x hx k hk hzero => ?_⟩
  rcases hs.reclaimed he x hx k hk (fun o => hs.byte ▸ hzero o) with hr | ⟨z₀, hz, -⟩
  · exact hr
  · cases hz

def quiet : Env := ⟨fun _ => false, none, fun _ _ => false⟩

/-- A block of zeros and two bytes. -/
def sparse : File := ⟨4098, fun o => if o < 4096 then 0 else 7, fun _ => true⟩

/-- The block is punched, and the bytes after it are not. -/
theorem sparse_punched : ∃ s, punchZeroPages quiet 2 sparse = some (s, .done) ∧ s.punched = [(0, 4096)] ∧
    ∀ o, s.file.byte o = sparse.byte o := by
  have hrun : (punchZeroPages quiet 2 sparse).any (fun r => r.2 = .done ∧ r.1.punched = [(0, 4096)]) = true := by
    decide +kernel
  cases hs : punchZeroPages quiet 2 sparse with
  | none =>
    rw [hs] at hrun
    cases hrun
  | some r =>
    rw [hs] at hrun
    obtain ⟨he, hp⟩ := of_decide_eq_true hrun
    have hs : punchZeroPages quiet 2 sparse = some (r.1, .done) := he ▸ hs
    exact ⟨r.1, he ▸ rfl, hp, (punch_keeps_content quiet sparse 2 r.1 .done hs).1⟩

/-! ### Termination -/

/-- Every data extent begins at a multiple of the block size; it may end anywhere. -/
def AlignedData (f : File) : Prop :=
  ∀ o, o < f.size → f.data o = true → o % punchBlockSize = 0 ∨ f.data (o - 1) = true

/-- `g` is what the scan has left of `f` when it is at `off`, which is in a hole. -/
structure Ahead (f g : File) (off : ℕ) : Prop where
  size : g.size = f.size
  data : ∀ o, off ≤ o → g.data o = f.data o
  le : off ≤ f.size
  hole : off = 0 ∨ f.data off = false ∨ f.size ≤ off

/-- The next extent is found where it begins. -/
theorem Ahead.aligned {g : File} (hal : AlignedData f) (h : Ahead f g off) {next : ℕ}
    (hnext : g.seekData off = some next) : next % punchBlockSize = 0 := by
  obtain ⟨⟨hle, hlt⟩, hdata, hmin⟩ := seekData_some hnext
  rw [h.data next hle] at hdata
  rcases hal next (h.size ▸ hlt) hdata with hz | hprev
  · exact hz
  rcases Nat.eq_or_lt_of_le hle with rfl | hlt'
  · rcases h.hole with rfl | hhole | hge
    · exact Nat.zero_mod _
    · rw [hhole] at hdata
      cases hdata
    · have hsize := h.size
      omega
  · rw [← h.data (next - 1) (by omega), hmin (next - 1) (by omega) (by omega)] at hprev
    cases hprev

/-- **A turn of the loop** gets past the data it has found. -/
theorem Ahead.next (hal : AlignedData f) (h : Ahead f s.file off) {next : ℕ}
    (hnext : s.file.seekData off = some next)
    (hhole : s.file.seekHole (next - next % punchBlockSize) = some endData)
    (hk : Keeps env endData (s.enter (next - next % punchBlockSize) endData) s') :
    off < endData ∧ Ahead f s'.file endData := by
  obtain ⟨⟨hle, -⟩, hdata, -⟩ := seekData_some hnext
  rw [h.aligned hal hnext, Nat.sub_zero] at hhole
  obtain ⟨⟨hle', hsize⟩, hend⟩ := seekHole_some hhole
  have hlt : next < endData := by
    refine Nat.lt_of_le_of_ne hle' fun heq => ?_
    rcases hend with hend | hend
    · rw [← heq, hdata] at hend
      cases hend
    · have := (seekData_some hnext).1.2
      omega
  refine ⟨by omega, hk.size.trans h.size, fun o ho => (hk.data o ho).trans (h.data o (by omega)),
    h.size ▸ hsize, .inr ?_⟩
  rw [← h.data endData (by omega), ← h.size]
  exact hend

/-- **The loop ends.** -/
theorem scanFile_ends (hal : AlignedData f) : ∀ {m off : ℕ} {s : State}, Ahead f s.file off →
    f.size < off + m → ∃ r, scanFile env f.size m off s = some r := by
  intro m
  induction m with
  | zero =>
    intro off s h hm
    exact absurd h.le (Nat.not_le.mpr hm)
  | succ m ih =>
    intro off s h hm
    rw [scanFile]
    split
    · exact ⟨_, rfl⟩
    split
    · exact ⟨_, rfl⟩
    split
    · exact ⟨_, rfl⟩
    split
    · exact ⟨_, rfl⟩
    split
    · exact ⟨_, rfl⟩
    rename_i next hnext _ _ endData hhole
    have hend : _ ≤ endData ∧ endData ≤ s.call.call.file.size := (seekHole_some hhole).1
    cases hscan : scan env endData _ _ none (s.call.call.enter (next - next % punchBlockSize) endData) with
    | mk s₁ e₁ =>
      obtain ⟨hlt, h₁⟩ := Ahead.next (s := s.call.call) hal h hnext hhole (extent_spec hend hscan).1
      cases e₁
      · exact ih h₁ (by omega)
      all_goals exact ⟨_, rfl⟩

/-! ### Nothing fails -/

theorem flush_quiet (s : State) (z : Option ℕ) (stop : ℕ) : (flush quiet s z stop).2 = true := by
  cases z <;> rfl

theorem walk_quiet (buf : ℕ → UInt8) (n cur : ℕ) : ∀ (m blkOff : ℕ) (z : Option ℕ) (s : State),
    (walk quiet buf n cur m blkOff z s).2.2 = true := by
  intro m
  induction m with
  | zero => exact fun _ _ _ => rfl
  | succ m ih =>
    intro blkOff z s
    rw [walk]
    split_ifs
    · rfl
    · exact ih ..
    · have hflush := flush_quiet s z (cur + blkOff)
      split
      · next h => rw [h] at hflush; cases hflush
      · exact ih ..

theorem scan_quiet (endData : ℕ) : ∀ (m cur : ℕ) (z : Option ℕ) (s : State),
    (scan quiet endData m cur z s).2 = .done := by
  have hfinish : ∀ {cur : ℕ} {z : Option ℕ} {s : State}, (finish quiet s z cur).2 = .done := by
    intro cur z s
    have hflush := flush_quiet s z cur
    unfold finish
    split
    · rfl
    · next h => rw [h] at hflush; cases hflush
  intro m
  induction m with
  | zero => exact fun _ _ _ => hfinish
  | succ m ih =>
    intro cur z s
    rw [scan]
    split
    · exact hfinish
    rw [if_neg (by simp [quiet, Env.cancelled]), if_neg (by simp [quiet])]
    split
    · exact hfinish
    have hwalk := walk_quiet (fun i => s.file.byte (cur + i)) (chunk s.file endData cur) cur
      punchReadSize 0 z s.call.read
    split
    · next h => rw [h] at hwalk; cases hwalk
    · exact ih ..

theorem seekData_isSome {o : ℕ} (hle : off ≤ o) (hlt : o < f.size) (h : f.data o = true) :
    ∃ next, f.seekData off = some next ∧ next ≤ o := by
  cases hs : f.seekData off with
  | none =>
    have hnone := List.find?_eq_none.mp hs o (List.mem_range'_1.mpr (by omega))
    exact absurd h hnone
  | some next =>
    refine ⟨next, rfl, Nat.le_of_not_lt fun hgt => ?_⟩
    rw [(seekData_some hs).2.2 o hle hgt] at h
    cases h

theorem seekHole_le {o : ℕ} (hle : off ≤ o) (hlt : o < f.size) (h : f.data o = false) :
    ∃ endData, f.seekHole off = some endData ∧ endData ≤ o := by
  rw [File.seekHole, if_neg (by omega)]
  refine ⟨_, rfl, ?_⟩
  cases hs : (List.range' off (f.size - off)).find? fun o => !f.data o with
  | none =>
    have hnone := List.find?_eq_none.mp hs o (List.mem_range'_1.mpr (by omega))
    exact absurd (by rw [h]; rfl) hnone
  | some e =>
    refine Nat.le_of_not_lt fun hgt => ?_
    have hmin := (List.find?_range'_eq_some.mp hs).2.2 o hle hgt
    rw [h] at hmin
    cases hmin

/-- **The scan never gets past the beginning of an extent that is not aligned**: it goes back to the block and finds the
hole before it. -/
theorem scanFile_stuck {o : ℕ} (hmod : o % punchBlockSize ≠ 0) : ∀ {m off : ℕ} {s : State}, off ≤ o →
    o < s.file.size → s.file.data o = true → s.file.data (o - 1) = false →
    scanFile quiet s.file.size m off s = none := by
  intro m
  induction m with
  | zero => exact fun _ _ _ _ => rfl
  | succ m ih =>
    intro off s hoff hsize hdata hprev
    obtain ⟨next, hnext, hle⟩ := seekData_isSome hoff hsize hdata
    have hpos : o ≠ 0 := fun h => hmod (by rw [h, Nat.zero_mod])
    have hback : next - next % punchBlockSize ≤ o - 1 := by
      rcases Nat.eq_or_lt_of_le hle with rfl | hlt <;> omega
    obtain ⟨endData, hhole, hend⟩ := seekHole_le hback (by omega) hprev
    rw [scanFile, if_neg (by omega), if_neg (by simp [quiet]), hnext]
    dsimp only
    rw [if_neg (by simp [quiet]), hhole]
    dsimp only
    have hbound : _ ≤ endData ∧ endData ≤ s.call.call.file.size := (seekHole_some hhole).1
    cases hscan : scan quiet endData (endData - (next - next % punchBlockSize)) (next - next % punchBlockSize) none
        (s.call.call.enter (next - next % punchBlockSize) endData) with
    | mk s₁ e₁ =>
      have hkeeps := (extent_spec hbound hscan).1
      have hdone := scan_quiet endData (endData - (next - next % punchBlockSize)) (next - next % punchBlockSize) none
        (s.call.call.enter (next - next % punchBlockSize) endData)
      rw [hscan] at hdone
      cases hdone
      have hsame : s₁.file.size = s.file.size := hkeeps.size
      dsimp only
      rw [← hsame]
      refine ih (by omega) (by omega) ?_ ?_
      · exact (hkeeps.data o (by omega)).trans hdata
      · exact (hkeeps.data (o - 1) hend).trans hprev

/-- **The scan ends**, whatever fails and whatever a punch does to the layout, exactly if every data extent begins at a
multiple of the block size; and no read begins after the call before which the context was cancelled. -/
theorem punch_terminates_iff (f : File) :
    ((∀ env, ∃ fuel, (punchZeroPages env fuel f).isSome = true) ↔ AlignedData f) ∧
    ∀ env fuel s e, punchZeroPages env fuel f = some (s, e) → ∀ r ∈ s.reads, ∀ c ∈ env.cancelAt, r ≤ c := by
  refine ⟨⟨fun h o hlt hdata => ?_, fun hal env => ⟨f.size + 1, ?_⟩⟩,
    fun env fuel s e h => (punchZeroPages_sound h).timely⟩
  · by_contra hno
    rw [not_or, Bool.not_eq_true] at hno
    obtain ⟨fuel, hfuel⟩ := h quiet
    have hstuck := scanFile_stuck (s := ⟨f, 1, [], [], []⟩) (m := fuel) hno.1 (Nat.zero_le o) hlt hdata hno.2
    rw [punchZeroPages, if_neg (by simp [quiet]), hstuck] at hfuel
    cases hfuel
  · have hstart : Ahead f f 0 := ⟨rfl, fun _ _ => rfl, Nat.zero_le _, .inl rfl⟩
    obtain ⟨⟨s, e⟩, hscan⟩ : ∃ r, scanFile env f.size (f.size + 1) 0 ⟨f, 1, [], [], []⟩ = some r :=
      scanFile_ends hal hstart (by omega)
    unfold punchZeroPages
    rw [hscan]
    cases e with
    | done =>
      dsimp only
      split_ifs <;> rfl
    | _ => split_ifs <;> rfl

/-- A hole of one byte before the data. -/
def unaligned : File := ⟨2, fun _ => 7, fun o => o == 1⟩

def gone : Env := { quiet with cancelAt := some 0 }

/-- `SEEK_DATA` finds the data at 1, which is aligned down to 0, and `SEEK_HOLE` answers 0. -/
theorem unaligned_turn {m : ℕ} {s : State} (hf : s.file = unaligned) :
    scanFile gone 2 (m + 1) 0 s = scanFile gone 2 m 0 (s.call.call.enter 0 0) := by
  have hdata : unaligned.seekData 0 = some 1 := by decide
  have hhole : unaligned.seekHole 0 = some 0 := by decide
  rw [scanFile, hf, hdata]
  simp only [gone, quiet, punchBlockSize, hhole]
  rfl

/-- The scan goes on for ever, cancelled as it is. -/
theorem unaligned_data_loops : ¬ ∃ fuel, (punchZeroPages gone fuel unaligned).isSome = true := by
  have hloop : ∀ (m : ℕ) {s : State}, s.file = unaligned → scanFile gone unaligned.size m 0 s = none := by
    intro m
    induction m with
    | zero => exact fun _ => rfl
    | succ m ih => exact fun hf => (unaligned_turn hf).trans (ih hf)
  rintro ⟨fuel, h⟩
  rw [punchZeroPages, if_neg (by decide), hloop fuel rfl] at h
  cases h

end Wrenn.Sandbox.ZeroPages
