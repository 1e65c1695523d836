import Wrenn.Host.Lifecycle
import Wrenn.Sandbox.PauseCrash

/-!
# What an operation on a sandbox does

`Effect` lists the outcomes of the operations of `Lifecycle.act`, what they find and what they leave
(`act_effect`).  A sandbox owns its own name and its staging and trash names; sandbox IDs hold no dot, so no
name has two owners (`owned_unique`), and an operation touches no name its sandbox does not own
(`Effect.frame`).
-/

namespace Wrenn.Host.Outcomes

open Sandbox.Disk Sandbox.Startup Sandbox.PauseDisk
open Sandbox.PauseCrash (moveCow_of_ne rename_of_ne)
open Lifecycle

variable {β : Type*} {cfg : Config} {w w' : World β} {id id' k : String} {p q : Lifecycle.Part β}

/-! ### Names -/

/-- The names of the sandboxes directory that belong to a sandbox. -/
def Owned (id k : String) : Prop := k = id ∨ ∃ ts, k = stagingName id ts ∨ k = trashName id ts

/-- The part of a name before its first dot. -/
def stem (name : String) : List Char := name.toList.takeWhile (· ≠ '.')

theorem ne_dot_of_valid (h : validID id = true) {c : Char} (hc : c ∈ id.toList) :
    decide (c ≠ '.') = true := by
  unfold validID at h
  rw [decide_eq_true_iff] at h ⊢
  rintro rfl; exact h hc

theorem stem_append (h : validID id = true) {s : String} (hs : ∀ c, s.toList.head? = some c → c = '.') :
    stem (id ++ s) = id.toList := by
  unfold stem
  rw [String.toList_append, List.takeWhile_append_of_pos fun c hc => ne_dot_of_valid h hc]
  rcases hl : s.toList with _ | ⟨c, l⟩
  · simp
  · rw [hl] at hs
    simp [hs c rfl]

theorem stem_owned (h : validID id = true) (ho : Owned id k) : stem k = id.toList := by
  rcases ho with rfl | ⟨ts, rfl | rfl⟩
  · simpa using stem_append (s := "") h (by simp)
  · unfold stagingName
    rw [String.append_assoc]
    refine stem_append h fun c hc => ?_
    rw [String.toList_append] at hc
    exact (Option.some.inj hc).symm
  · unfold trashName
    rw [String.append_assoc]
    refine stem_append h fun c hc => ?_
    rw [String.toList_append] at hc
    exact (Option.some.inj hc).symm

theorem owned_unique (h : validID id = true) (h' : validID id' = true) (ho : Owned id k)
    (ho' : Owned id' k) : id = id' := by
  have := (stem_owned h ho).symm.trans (stem_owned h' ho')
  exact String.toList_inj.mp this

theorem isSwapName_of_valid (h : validID id = true) : isSwapName id = false := by
  have hdot : ∀ sub : String, '.' ∈ sub.toList → contains id sub = false := by
    intro sub hsub
    unfold contains
    rw [decide_eq_false_iff_not]
    intro hin
    unfold validID at h
    rw [decide_eq_true_iff] at h
    exact h (hin.subset hsub)
  unfold isSwapName
  rw [hdot _ (by decide), hdot _ (by decide)]
  rfl

theorem owned_of_not_swap (ho : Owned id k) (hk : isSwapName k = false) : k = id := by
  rcases ho with rfl | ⟨ts, rfl | rfl⟩
  · rfl
  · rw [isSwapName_stagingName] at hk; cases hk
  · rw [isSwapName_trashName] at hk; cases hk

theorem id_ne_staging (h : validID id = true) (ts : ℕ) : id ≠ stagingName id ts := by
  intro e
  have := isSwapName_of_valid h
  rw [e, isSwapName_stagingName] at this; cases this

theorem id_ne_trash (h : validID id = true) (ts : ℕ) : id ≠ trashName id ts := by
  intro e
  have := isSwapName_of_valid h
  rw [e, isSwapName_trashName] at this; cases this

/-! ### The frame of an operation -/

variable {t : Tree (Cow β) (Mem β)}

theorem tryWriteState_of_ne {sb : SandboxState} {pid : ℤ} {ok : Bool} (h : k ≠ id) :
    tryWriteState cfg t id sb pid ok k = t k := by
  unfold tryWriteState
  rcases ok with _ | _ <;> rcases sb.dmDevice with _ | dm
  · rfl
  · rfl
  · rfl
  · exact modifyDir_of_ne h

theorem createDir_of_ne (h : k ≠ id) : createDir t id k = t k :=
  Function.update_of_ne h ..

theorem dropCow_of_ne (h : k ≠ id) : dropCow t id k = t k :=
  modifyDir_of_ne h

/-- What each operation finds and leaves, one constructor per outcome. -/
inductive Effect (cfg : Config) (w : World β) (id : String) : LocalAction β → Lifecycle.Part β → Prop
  | create {sb pid ok} (hup : w.up = true) (hb : w.boxes id = none) (ho : w.ops id = none)
      (hs : sb.status = .running) : Effect cfg w id (.create sb pid ok)
        ⟨some sb, none, true, tryWriteState cfg (createDir w.tree id) id sb pid ok⟩
  | write {i v d c} (hv : w.vm id = true) (hd : w.tree id = some (.dir d)) (hc : d.cow = some c) :
      Effect cfg w id (.write i v) ⟨w.boxes id, w.ops id, true,
        Function.update w.tree id (some (.dir { d with cow := some (c.write i v) }))⟩
  | vmDeath : Effect cfg w id .vmDeath ⟨w.boxes id, w.ops id, false, w.tree⟩
  | pauseBegin {sb} (hup : w.up = true) (ho : w.ops id = none) (hb : w.boxes id = some sb)
      (hs : sb.status = .running) : Effect cfg w id .pauseBegin
        ⟨some { sb with status := .pausing }, some (.pausing .quiescing), w.vm id, w.tree⟩
  | rolledBack {rm sb} (ho : w.ops id = some (.pausing .quiescing)) (hb : w.boxes id = some sb) :
      Effect cfg w id (.pauseRollback true rm)
        ⟨some { sb with status := .running }, none, w.vm id, w.tree⟩
  | givenUp {rm sb} (ho : w.ops id = some (.pausing .quiescing)) (hb : w.boxes id = some sb) :
      Effect cfg w id (.pauseRollback false rm)
        ⟨some { releasedBox sb with status := .error, slotIndex := 0 }, none, false,
          if rm then removeAll w.tree id else dropCow w.tree id⟩
  | snapshot {ts now sb dm d c} (ho : w.ops id = some (.pausing .quiescing)) (hb : w.boxes id = some sb)
      (hd : w.tree id = some (.dir d)) (hc : d.cow = some c) : Effect cfg w id (.pauseSnapshot ts now)
        ⟨some sb, some (.pausing (.staged ts)), false, Function.update w.tree (stagingName id ts)
          (some (.dir (stagedDir (pauseMeta cfg.uuidString sb dm now)
            (capture (w.images sb.baseImagePath) c))))⟩
  | release {ts sb} (ho : w.ops id = some (.pausing (.staged ts))) (hb : w.boxes id = some sb) :
      Effect cfg w id .pauseRelease
        ⟨some (releasedBox sb), some (.pausing (.released ts)), false, w.tree⟩
  | movedCow {ts sb} (ho : w.ops id = some (.pausing (.released ts))) (hb : w.boxes id = some sb) :
      Effect cfg w id (.pauseMoveCow true)
        ⟨some sb, some (.pausing (.cowMoved ts)), false, moveCow id (stagingName id ts) w.tree⟩
  | moveFailed {ts sb} (ho : w.ops id = some (.pausing (.released ts))) (hb : w.boxes id = some sb) :
      Effect cfg w id (.pauseMoveCow false) ⟨some { sb with status := .error }, none, false, w.tree⟩
  | trashed {ts ts' sb} (ho : w.ops id = some (.pausing (.cowMoved ts))) (hb : w.boxes id = some sb)
      (hfree : w.tree (trashName id ts') = none) : Effect cfg w id (.pauseToTrash ts' true)
        ⟨some sb, some (.pausing (.trashed ts ts')), false, rename w.tree id (trashName id ts')⟩
  | trashFailed {ts ts' sb} (ho : w.ops id = some (.pausing (.cowMoved ts))) (hb : w.boxes id = some sb) :
      Effect cfg w id (.pauseToTrash ts' false) ⟨some { sb with status := .error }, none, false, w.tree⟩
  | finalized {ts ts' restore sb} (ho : w.ops id = some (.pausing (.trashed ts ts')))
      (hb : w.boxes id = some sb) : Effect cfg w id (.pauseToFinal true restore)
        ⟨some sb, some (.pausing (.swapped ts')), false, rename w.tree (stagingName id ts) id⟩
  | finalFailed {ts ts' restore sb} (ho : w.ops id = some (.pausing (.trashed ts ts')))
      (hb : w.boxes id = some sb) : Effect cfg w id (.pauseToFinal false restore)
        ⟨some { sb with status := .error }, none, false,
          if restore then rename w.tree (trashName id ts') id else w.tree⟩
  | paused {ts' rm sb} (ho : w.ops id = some (.pausing (.swapped ts'))) (hb : w.boxes id = some sb) :
      Effect cfg w id (.pauseFinish rm) ⟨some { sb with status := .paused }, none, false,
        if rm then removeAll w.tree (trashName id ts') else w.tree⟩
  | launched {sb} (hup : w.up = true) (ho : w.ops id = none) (hb : w.boxes id = some sb)
      (hs : sb.status = .paused) : Effect cfg w id .resumeLaunch ⟨some sb, some .resuming, true, w.tree⟩
  | resumeFailed {sb} (ho : w.ops id = some .resuming) (hb : w.boxes id = some sb) :
      Effect cfg w id .resumeFail ⟨some sb, none, false, w.tree⟩
  | resumed {cowLoop pid now ok sb sm} (ho : w.ops id = some .resuming) (hb : w.boxes id = some sb) :
      Effect cfg w id (.resumeDone cowLoop pid now ok) ⟨some (resumedBox sb sm cowLoop now), none, w.vm id,
        tryWriteState cfg w.tree id (resumedBox sb sm cowLoop now) pid ok⟩
  | crashed {rm sb} (hup : w.up = true) (ho : w.ops id = none) (hb : w.boxes id = some sb) :
      Effect cfg w id (.crashCleanup rm)
        ⟨none, none, false, if rm then removeAll w.tree id else w.tree⟩
  | destroyed {rm vm} (hup : w.up = true) (ho : w.ops id = none) :
      Effect cfg w id (.destroy rm) ⟨none, none, vm, if rm then removeAll w.tree id else w.tree⟩

theorem act_effect {a : LocalAction β} (h : act cfg w id a = some p) : Effect cfg w id a p := by
  unfold act at h
  repeat' split at h
  all_goals cases h
  -- each branch has its constructor, which asks for what the branch was taken for
  all_goals first
    | (constructor <;> assumption)
    | (obtain ⟨h1, h2, h3, -, h5⟩ := ‹_ ∧ _›
       exact .create h1 (Option.isNone_iff_eq_none.mp h2) (Option.isNone_iff_eq_none.mp h3) h5)
    | (simp_all only [Bool.not_eq_true]; constructor <;> assumption)
    | (simp_all only [Option.isNone_iff_eq_none]; constructor <;> assumption)

/-- **Frame**: an operation on a sandbox leaves every name alone that the sandbox does not own. -/
theorem Effect.frame {a : LocalAction β} (h : Effect cfg w id a p) (hk : ¬ Owned id k) :
    p.tree k = w.tree k := by
  have hid : k ≠ id := fun e => hk (.inl e)
  have hst : ∀ ts, k ≠ stagingName id ts := fun ts e => hk (.inr ⟨ts, .inl e⟩)
  have htr : ∀ ts, k ≠ trashName id ts := fun ts e => hk (.inr ⟨ts, .inr e⟩)
  have hrm : ∀ rm : Bool, (if rm then removeAll w.tree id else w.tree) k = w.tree k := by
    intro rm; split_ifs
    · exact removeAll_of_ne hid
    · rfl
  cases h with
  | create => exact (tryWriteState_of_ne hid).trans (createDir_of_ne hid)
  | write => exact Function.update_of_ne hid ..
  | @givenUp rm =>
    show (if rm then removeAll w.tree id else dropCow w.tree id) k = w.tree k
    split_ifs
    · exact removeAll_of_ne hid
    · exact dropCow_of_ne hid
  | snapshot => exact Function.update_of_ne (hst _) ..
  | movedCow => exact moveCow_of_ne hid (hst _)
  | trashed => exact rename_of_ne hid (htr _)
  | finalized => exact rename_of_ne (hst _) hid
  | @finalFailed ts ts' restore =>
    show (if restore then rename w.tree (trashName id ts') id else w.tree) k = w.tree k
    split_ifs
    · exact rename_of_ne (htr _) hid
    · rfl
  | @paused ts' rm =>
    show (if rm then removeAll w.tree (trashName id ts') else w.tree) k = w.tree k
    split_ifs
    · exact removeAll_of_ne (htr _)
    · rfl
  | resumed => exact tryWriteState_of_ne hid
  | crashed | destroyed => exact hrm _
  | _ => rfl

end Wrenn.Host.Outcomes
