import Mathlib.Data.Nat.Notation
import Wrenn.Lib.Runs

/-!
# Consumer groups

A stream is a list of entries that only grows, each known by its position.  A group delivers the entries in
order: what stands before `cursor` has been delivered once, and stays in the list of pending entries until it
is acknowledged.

A worker reads a batch of entries never delivered before, and handles and acknowledges them one by one.  It
does not read the pending list, so what it lets go without an acknowledgement is not handed to it again
(`count_handed`); whether entries are lost therefore depends on the handlers, the acknowledgements and the
restarts alone (`atLeastOnce_iff`, `reach_kept`).
-/

namespace Wrenn.Lib.Streams

open Runs

variable {σ μ ω β : Type*}

structure Group (μ : Type*) where
  entries : List μ
  cursor : ℕ
  pending : List ℕ

/-- The entries that a read delivers, with their positions. -/
def Group.fresh (g : Group μ) (count : ℕ) : List (μ × ℕ) :=
  ((g.entries.drop g.cursor).take count).zipIdx g.cursor

def Group.readNew (g : Group μ) (count : ℕ) : Group μ :=
  { g with
    cursor := g.cursor + (g.fresh count).length
    pending := g.pending ++ (g.fresh count).map Prod.snd }

def Group.ack (g : Group μ) (i : ℕ) : Group μ := { g with pending := g.pending.filter fun j => decide (j ≠ i) }

theorem mem_fresh {g : Group μ} {count i : ℕ} : i ∈ (g.fresh count).map Prod.snd ↔
    g.cursor ≤ i ∧ i < g.cursor + (g.fresh count).length := by
  have hrange : (g.fresh count).map Prod.snd = List.range' g.cursor (g.fresh count).length := by
    simp [Group.fresh, List.zipIdx_map_snd]
  rw [hrange, List.mem_range'_1]

/-! ### Workers -/

/-- What became of an entry: whether it is to be acknowledged, and whether all its handlers have succeeded. -/
structure Verdict where
  ack : Bool
  succeeded : Bool
  deriving DecidableEq, Repr

/-- The calls of a handler are answered by a value of `ω`; what a worker does besides is a value of `β`. -/
structure Worker (σ μ ω β : Type*) where
  count : ℕ
  handle : σ → μ → ω → σ × Verdict
  background : σ → β → Option σ
  restart : σ → σ

inductive AckReply
  | ok
  /-- executed, but the caller gets an error -/
  | lost
  | failed
  deriving DecidableEq, Repr

structure State (σ μ : Type*) where
  group : Group μ
  /-- the rest of the batch -/
  batch : List (μ × ℕ)
  /-- the entry whose acknowledgement is due -/
  acking : Option ℕ
  side : σ
  /-- the entries that were handed to the worker -/
  handed : List ℕ
  /-- the entries whose handlers have all succeeded -/
  done : List ℕ

inductive Act (μ ω β : Type*)
  | publish (m : μ)
  | read
  /-- the group has delivered, but the worker gets an error -/
  | readLost
  | handle (w : ω)
  | ack (r : AckReply)
  | restart
  | background (b : β)

def Worker.step (W : Worker σ μ ω β) (s : State σ μ) : Act μ ω β → Option (State σ μ)
  | .publish m => some { s with group := { s.group with entries := s.group.entries ++ [m] } }
  | .read =>
    if s.batch.isEmpty && s.acking.isNone then
      some { s with
        group := s.group.readNew W.count
        batch := s.group.fresh W.count
        handed := s.handed ++ (s.group.fresh W.count).map Prod.snd }
    else none
  | .readLost =>
    if s.batch.isEmpty && s.acking.isNone then some { s with group := s.group.readNew W.count } else none
  | .handle w =>
    match s.acking, s.batch with
    | none, (m, i) :: rest =>
      let (side, v) := W.handle s.side m w
      some { s with
        batch := rest
        side := side
        acking := if v.ack then some i else none
        done := if v.succeeded then i :: s.done else s.done }
    | _, _ => none
  | .ack r =>
    match s.acking with
    | none => none
    | some i => some { s with
        acking := none
        group := if r = .failed then s.group else s.group.ack i }
  | .restart => some { s with batch := [], acking := none, side := W.restart s.side }
  | .background b => (W.background s.side b).map fun side => { s with side := side }

def Initial (side : σ) (s : State σ μ) : Prop := s = ⟨⟨[], 0, []⟩, [], none, side, [], []⟩

/-- The steps. -/
inductive Moves (W : Worker σ μ ω β) (s : State σ μ) : Act μ ω β → State σ μ → Prop
  | publish {m : μ} : Moves W s (.publish m) { s with group := { s.group with entries := s.group.entries ++ [m] } }
  | read (hbatch : s.batch = []) (hacking : s.acking = none) : Moves W s .read { s with
      group := s.group.readNew W.count
      batch := s.group.fresh W.count
      handed := s.handed ++ (s.group.fresh W.count).map Prod.snd }
  | readLost : Moves W s .readLost { s with group := s.group.readNew W.count }
  | handle {w : ω} {m : μ} {i : ℕ} {rest : List (μ × ℕ)} {v : Verdict} (hbatch : s.batch = (m, i) :: rest)
    (hacking : s.acking = none) (hv : (W.handle s.side m w).2 = v) : Moves W s (.handle w) { s with
      batch := rest
      side := (W.handle s.side m w).1
      acking := if v.ack then some i else none
      done := if v.succeeded then i :: s.done else s.done }
  | ack {r : AckReply} {i : ℕ} (hi : s.acking = some i) : Moves W s (.ack r) { s with
      acking := none
      group := if r = .failed then s.group else s.group.ack i }
  | restart : Moves W s .restart { s with batch := [], acking := none, side := W.restart s.side }
  | background {b : β} {side : σ} (h : W.background s.side b = some side) :
    Moves W s (.background b) { s with side := side }

theorem moves_of_step {W : Worker σ μ ω β} {s s' : State σ μ} {a : Act μ ω β} (h : W.step s a = some s') :
    Moves W s a s' := by
  cases a with
  | publish m =>
    cases h
    exact .publish
  | read =>
    obtain ⟨hidle, heq⟩ := Option.ite_none_right_eq_some.mp h
    rw [Bool.and_eq_true, List.isEmpty_iff, Option.isNone_iff_eq_none] at hidle
    cases heq
    exact .read hidle.1 hidle.2
  | readLost =>
    obtain ⟨-, heq⟩ := Option.ite_none_right_eq_some.mp h
    cases heq
    exact .readLost
  | handle w =>
    simp only [Worker.step] at h
    split at h
    case h_1 m i rest hacking hbatch =>
      cases h
      exact .handle hbatch hacking rfl
    case h_2 => cases h
  | ack r =>
    simp only [Worker.step] at h
    split at h
    case h_1 => cases h
    case h_2 i hi =>
      cases h
      exact .ack hi
  | restart =>
    cases h
    exact .restart
  | background b =>
    obtain ⟨side, hside, rfl⟩ := Option.map_eq_some_iff.mp h
    exact .background hside

/-! ### At least once -/

/-- The worker still holds the entry. -/
def InHand (s : State σ μ) (i : ℕ) : Prop := i ∈ s.batch.map Prod.snd ∨ s.acking = some i

/-- The entry is acknowledged and its handlers have succeeded. -/
def Settled (s : State σ μ) (i : ℕ) : Prop := i ∉ s.group.pending ∧ i ∈ s.done

/-- Of every entry that was delivered: the worker still holds it, or it is settled, or it can still be handed
to the worker once more. -/
def AtLeastOnce (W : Worker σ μ ω β) (s : State σ μ) : Prop :=
  ∀ i < s.group.cursor, InHand s i ∨ Settled s i ∨
    ∃ run s', exec W.step s run = some s' ∧ s.handed.count i < s'.handed.count i

section Redelivery

variable {W : Worker σ μ ω β} {s s' : State σ μ}

theorem step_handed {a : Act μ ω β} (hs : W.step s a = some s') {i : ℕ} (hi : i < s.group.cursor) :
    i < s'.group.cursor ∧ s'.handed.count i = s.handed.count i := by
  cases moves_of_step hs with
  | publish | handle | restart | background => exact ⟨hi, rfl⟩
  | read =>
    have hnew : i ∉ (s.group.fresh W.count).map Prod.snd := fun hmem => by
      have := (mem_fresh.mp hmem).1
      omega
    refine ⟨Nat.lt_add_right _ hi, ?_⟩
    simp only [List.count_append, List.count_eq_zero.mpr hnew, Nat.add_zero]
  | readLost => exact ⟨Nat.lt_add_right _ hi, rfl⟩
  | ack =>
    refine ⟨?_, rfl⟩
    dsimp only
    split_ifs <;> exact hi

/-- What was delivered is not handed to the worker again. -/
theorem count_handed {i : ℕ} : ∀ {run : List (Act μ ω β)} {s : State σ μ}, i < s.group.cursor →
    exec W.step s run = some s' → s'.handed.count i = s.handed.count i := by
  intro run
  induction run with
  | nil =>
    intro s _ h
    cases h
    rfl
  | cons a run ih =>
    intro s hi h
    unfold exec at h
    cases hs : W.step s a with
    | none =>
      rw [hs] at h
      cases h
    | some s1 =>
      rw [hs] at h
      obtain ⟨hi1, hcount⟩ := step_handed hs hi
      exact (ih hi1 h).trans hcount

theorem atLeastOnce_iff : AtLeastOnce W s ↔ ∀ i < s.group.cursor, InHand s i ∨ Settled s i := by
  refine forall₂_congr fun i hi => or_congr_right (or_iff_left ?_)
  rintro ⟨run, s', hrun, hlt⟩
  have hcount := count_handed hi hrun
  omega

end Redelivery

/-! ### Undisturbed runs -/

/-- No reply to a read is lost, no acknowledgement fails, the worker restarts only with nothing in hand, and
the calls of a handler are answered as `Clean` wants it. -/
def Undisturbed (Clean : μ → ω → Prop) (s : State σ μ) : Act μ ω β → Prop
  | .readLost => False
  | .handle w => ∀ m ∈ s.batch.head?, Clean m.1 w
  | .ack r => r ≠ .failed
  | .restart => s.batch = [] ∧ s.acking = none
  | _ => True

instance (Clean : μ → ω → Prop) [∀ m w, Decidable (Clean m w)] (s : State σ μ) [DecidableEq (μ × ℕ)] :
    ∀ a : Act μ ω β, Decidable (Undisturbed Clean s a)
  | .publish _ | .read | .background _ => isTrue trivial
  | .readLost => isFalse id
  | .handle _ => @Option.decidableForallMem _ _ (fun _ => inferInstance) _
  | .ack r => inferInstanceAs (Decidable (r ≠ .failed))
  | .restart => inferInstanceAs (Decidable (s.batch = [] ∧ s.acking = none))

/-- Every entry that was delivered is in the batch, or was handled and is to be acknowledged, or is
settled. -/
def Kept (s : State σ μ) : Prop :=
  ∀ i < s.group.cursor, i ∈ s.batch.map Prod.snd ∨ (s.acking = some i ∧ i ∈ s.done) ∨ Settled s i

theorem Kept.atLeastOnce {W : Worker σ μ ω β} {s : State σ μ} (h : Kept s) : AtLeastOnce W s :=
  atLeastOnce_iff.mpr fun i hi => (h i hi).elim (.inl ∘ .inl) fun h => h.imp_left fun h => .inr h.1

section Kept

variable {W : Worker σ μ ω β} {Clean : μ → ω → Prop} {s s' : State σ μ}

theorem kept_read (hk : Kept s) (hbatch : s.batch = []) (hacking : s.acking = none) :
    Kept { s with
      group := s.group.readNew W.count
      batch := s.group.fresh W.count
      handed := s.handed ++ (s.group.fresh W.count).map Prod.snd } := by
  intro i hi
  change i < s.group.cursor + (s.group.fresh W.count).length at hi
  by_cases hold : i < s.group.cursor
  · rcases hk i hold with hmem | ⟨hack, -⟩ | ⟨hpending, hdone⟩
    · rw [hbatch] at hmem
      exact absurd hmem List.not_mem_nil
    · rw [hacking] at hack
      cases hack
    · refine .inr (.inr ⟨fun hmem => ?_, hdone⟩)
      rcases List.mem_append.mp hmem with hmem | hmem
      · exact hpending hmem
      · have := (mem_fresh.mp hmem).1
        omega
  · exact .inl (mem_fresh.mpr ⟨by omega, hi⟩)

theorem kept_ack (hk : Kept s) {j : ℕ} (hj : s.acking = some j) :
    Kept { s with acking := none, group := s.group.ack j } := by
  intro i hi
  rcases hk i hi with hmem | ⟨hack, hdone⟩ | ⟨hpending, hdone⟩
  · exact .inl hmem
  · rw [hj, Option.some.injEq] at hack
    refine .inr (.inr ⟨fun hmem => ?_, hdone⟩)
    exact of_decide_eq_true (List.mem_filter.mp hmem).2 hack.symm
  · exact .inr (.inr ⟨fun hmem => hpending (List.mem_filter.mp hmem).1, hdone⟩)

theorem kept_handle (hk : Kept s) {m : μ} {j : ℕ} {rest : List (μ × ℕ)} (hbatch : s.batch = (m, j) :: rest)
    (hacking : s.acking = none) (side : σ) :
    Kept { s with batch := rest, side := side, acking := some j, done := j :: s.done } := by
  intro i hi
  rcases hk i hi with hmem | ⟨hack, -⟩ | ⟨hpending, hdone⟩
  · rw [hbatch, List.map_cons, List.mem_cons] at hmem
    rcases hmem with rfl | hmem
    · exact .inr (.inl ⟨rfl, List.mem_cons_self ..⟩)
    · exact .inl hmem
  · rw [hacking] at hack
    cases hack
  · exact .inr (.inr ⟨hpending, List.mem_cons_of_mem _ hdone⟩)

theorem kept_step (hclean : ∀ side m w, Clean m w → (W.handle side m w).2 = ⟨true, true⟩) {a : Act μ ω β}
    (hk : Kept s) (hok : Undisturbed Clean s a) (hs : W.step s a = some s') : Kept s' := by
  cases moves_of_step hs with
  | publish | background => exact hk
  | read hbatch hacking => exact kept_read hk hbatch hacking
  | readLost => exact hok.elim
  | @handle w m i rest v hbatch hacking hv =>
    rw [hclean s.side m w (hok (m, i) (by rw [hbatch]; rfl))] at hv
    subst hv
    exact kept_handle hk hbatch hacking _
  | ack hi =>
    rw [if_neg hok]
    exact kept_ack hk hi
  | restart =>
    intro i hi
    refine (hk i hi).imp (fun hmem => ?_) (Or.imp_left fun hack => ?_)
    · rw [hok.1] at hmem
      exact hmem
    · rw [hok.2] at hack
      exact hack

/-- In an undisturbed run every entry that was delivered is settled or still in hand. -/
theorem reach_kept (hclean : ∀ side m w, Clean m w → (W.handle side m w).2 = ⟨true, true⟩) {side : σ}
    (h : Reach W.step (Undisturbed Clean) (Initial side) s) : Kept s := by
  refine h.invariant (I := Kept) (fun s h0 => ?_) fun s a s' hk hok hs => kept_step hclean hk hok hs
  cases h0
  exact fun i hi => absurd hi (Nat.not_lt_zero i)

end Kept

end Wrenn.Lib.Streams
