import Mathlib.Data.List.Basic

/-!
# The input of a PTY

The sender of `runPtyLoop` takes frames from the input queue and makes RPCs of them.  Input frames that are there
already go into one RPC; a frame of another type that is taken on the way is kept for the next round.

`sender_items`: the RPCs say what the frames say, in their order, whatever is there when.
-/

namespace Wrenn.Processes.PtyInput

inductive FrameType
  | input
  | resize
  | kill
  | other (name : String)
  deriving DecidableEq, Repr

/-- `wsPtyIn`, as far as the sender reads it -/
structure Frame where
  type : FrameType
  cols : UInt32
  rows : UInt32
  inputBytes : List UInt8
  deriving DecidableEq, Repr

inductive Rpc
  | sendInput (data : List UInt8)
  | resize (cols rows : UInt32)
  | kill
  deriving DecidableEq, Repr

/-- `queue` are the frames that are still to come, until it is closed.  `ready n` says whether the next frame is there
when the queue is polled and `n` are to come; it is polled once for each `n` at most. -/
def coalescePtyInput (ready : ℕ → Bool) : List Frame → List UInt8 → List UInt8 × Option Frame × List Frame
  -- closed, or nothing there
  | [], buf => (buf, none, [])
  | msg :: queue, buf =>
    if ready (queue.length + 1) then
      if msg.type ≠ .input then (buf, some msg, queue) else coalescePtyInput ready queue (buf ++ msg.inputBytes)
    else (buf, none, msg :: queue)

/-- The frame of the next round; `none` when the queue is closed and empty. -/
def next : Option Frame → List Frame → Option (Frame × List Frame)
  | some msg, queue => some (msg, queue)
  | none, [] => none
  | none, msg :: queue => some (msg, queue)

theorem coalesce_length (ready : ℕ → Bool) (queue : List Frame) (buf : List UInt8) :
    ((coalescePtyInput ready queue buf).2.1.toList ++ (coalescePtyInput ready queue buf).2.2).length ≤
    queue.length := by
  induction queue generalizing buf with
  | nil => simp [coalescePtyInput]
  | cons msg queue ih =>
    unfold coalescePtyInput
    split_ifs
    · simp
    · exact Nat.le_trans (ih _) (Nat.le_succ _)
    · simp

theorem next_eq {pending : Option Frame} {queue rest : List Frame} {msg : Frame}
    (h : next pending queue = some (msg, rest)) :
    pending.toList ++ queue = msg :: rest := by
  unfold next at h
  split at h <;> cases h <;> rfl

/-- A failed RPC is logged only. -/
def sender (ready : ℕ → Bool) (pending : Option Frame) (queue : List Frame) : List Rpc :=
  match h : next pending queue with
  | none => []
  | some (msg, rest) =>
    match msg.type with
    | .input =>
      let c := coalescePtyInput ready rest msg.inputBytes
      if c.1 = [] then sender ready c.2.1 c.2.2 else .sendInput c.1 :: sender ready c.2.1 c.2.2
    | .resize =>
      if 0 < msg.cols ∧ 0 < msg.rows then .resize msg.cols msg.rows :: sender ready none rest
      else sender ready none rest
    | .kill => .kill :: sender ready none rest
    | .other _ => sender ready none rest
termination_by (pending.toList ++ queue).length
decreasing_by
  all_goals
    rw [next_eq h, List.length_cons]
    first
    | exact Nat.lt_succ_of_le (coalesce_length ..)
    | exact Nat.lt_succ_self _

/-! ### What frames and RPCs say -/

inductive Item
  | byte (b : UInt8)
  | resize (cols rows : UInt32)
  | kill
  deriving DecidableEq, Repr

def Frame.items (f : Frame) : List Item :=
  match f.type with
  | .input => f.inputBytes.map .byte
  | .resize => if 0 < f.cols ∧ 0 < f.rows then [.resize f.cols f.rows] else []
  | .kill => [.kill]
  | .other _ => []

def Rpc.items : Rpc → List Item
  | .sendInput data => data.map .byte
  | .resize cols rows => [.resize cols rows]
  | .kill => [.kill]

theorem coalesce_items (ready : ℕ → Bool) (queue : List Frame) (buf : List UInt8) :
    (coalescePtyInput ready queue buf).1.map Item.byte ++ ((coalescePtyInput ready queue buf).2.1.toList ++
        (coalescePtyInput ready queue buf).2.2).flatMap Frame.items =
      buf.map Item.byte ++ queue.flatMap Frame.items := by
  induction queue generalizing buf with
  | nil => simp [coalescePtyInput]
  | cons msg queue ih =>
    unfold coalescePtyInput
    split_ifs with hready htype
    · simp
    · have hitems : msg.items = msg.inputBytes.map .byte := by rw [Frame.items, not_not.mp htype]
      rw [ih, List.flatMap_cons, hitems, List.map_append, List.append_assoc]
    · simp

/-- **Nothing is lost, repeated or moved**: the bytes, sizes and kills of the RPCs are those of the frames, in the order
of the queue, and no RPC sends nothing. -/
theorem sender_items (ready : ℕ → Bool) (frames : List Frame) :
    (sender ready none frames).flatMap Rpc.items = frames.flatMap Frame.items ∧
    .sendInput [] ∉ sender ready none frames := by
  have hrun : ∀ pending queue,
      (sender ready pending queue).flatMap Rpc.items = (pending.toList ++ queue).flatMap Frame.items ∧
        .sendInput [] ∉ sender ready pending queue := by
    intro pending queue
    -- one round, by what was taken from the queue
    fun_induction sender ready pending queue with
    | case1 pending queue h =>
      unfold next at h
      split at h <;> cases h
      exact ⟨rfl, List.not_mem_nil⟩
    | case2 pending queue msg rest h htype c hnil ih =>
      have hc : c.1.map Item.byte ++ _ = _ := coalesce_items ready rest msg.inputBytes
      rw [hnil] at hc
      rw [next_eq h, List.flatMap_cons, Frame.items, htype]
      exact ⟨ih.1.trans hc, ih.2⟩
    | case3 pending queue msg rest h htype c hnil ih =>
      rw [next_eq h, List.flatMap_cons, List.flatMap_cons, ih.1, Frame.items, htype]
      refine ⟨coalesce_items ready rest msg.inputBytes, List.not_mem_cons_of_ne_of_not_mem ?_ ih.2⟩
      exact fun he => hnil (Rpc.sendInput.inj he).symm
    | case4 pending queue msg rest h htype hpos ih =>
      rw [next_eq h, List.flatMap_cons, List.flatMap_cons, ih.1, Frame.items, htype, if_pos hpos]
      exact ⟨rfl, List.not_mem_cons_of_ne_of_not_mem nofun ih.2⟩
    | case5 pending queue msg rest h htype hpos ih =>
      rw [next_eq h, List.flatMap_cons, ih.1, Frame.items, htype, if_neg hpos]
      exact ⟨rfl, ih.2⟩
    | case6 pending queue msg rest h htype ih =>
      rw [next_eq h, List.flatMap_cons, List.flatMap_cons, ih.1, Frame.items, htype]
      exact ⟨rfl, List.not_mem_cons_of_ne_of_not_mem nofun ih.2⟩
    | case7 pending queue msg rest h name htype ih =>
      rw [next_eq h, List.flatMap_cons, ih.1, Frame.items, htype]
      exact ⟨rfl, ih.2⟩
  exact hrun none frames

end Wrenn.Processes.PtyInput
