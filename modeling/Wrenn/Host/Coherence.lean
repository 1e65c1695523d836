import Wrenn.Host.Generation

/-!
# A paused sandbox's memory image and its disk

`SameWrites`: no guest write has reached the CoW since the memory image beside it was captured.  It is what
makes a pause generation resumable, and start-up relies on it without checking: a sandbox that was resumed,
wrote, and then died with its agent has its old generation registered again
(`startUp_registers_stale_generation`).

It holds of every paused sandbox as long as no guest writes while its sandbox still counts as paused (a
`Resume` sets the status only after the relaunched guest has run) and the agent stops only when every
generation on disk is settled (`reach_sameWrites`).
-/

namespace Wrenn.Host.Coherence

open Lib.Runs Sandbox.Startup Sandbox.PauseDisk Lifecycle Outcomes Generation

variable {β : Type*} {cfg : Config} {w : World β}

/-- The memory image was captured after the last write to the CoW. -/
def SameWrites (d : Dir β) : Prop := ∀ m c, d.mem = some m → d.cow = some c → c.writes = m.writes

theorem goodLaws_sameWrites : GoodLaws (fun (_ : Images β) d => SameWrites d) where
  congr _ h2 h3 h m c hm hc := h m c (h3 ▸ hm) (h2 ▸ hc)
  noCow h m c _ hc := by rw [h] at hc; cases hc
  capture m c hm hc := by cases hm; cases hc; rfl

/-- The condition on the moves: guests of paused sandboxes do not write, and the agent stops only when every
pause generation on disk is settled. -/
def Undisturbed (w : World β) : Action β → Prop
  | .on id a => WriteOk w id a
  | .stop _ _ => Settled w
  | .startUp .. => True

theorem guard_of_undisturbed {a : Action β} (h : Undisturbed w a) :
    Guard (fun (_ : Images β) d => SameWrites d) cfg w a := by
  cases a with
  | on id a => exact h
  | stop graceful shrunk => exact ⟨h, fun _ _ _ _ _ _ hd => hd⟩
  | startUp => exact fun _ _ _ _ _ _ hd => hd

/-- **Memory image and CoW agree**: in every run whose moves are undisturbed, a sandbox registered as paused has
seen no write since its image was captured; in particular no image is resumed over a disk that has advanced
past it. -/
theorem reach_sameWrites (h : Reach (step cfg) Undisturbed Init w) :
    (∀ id sb d, w.boxes id = some sb → sb.status = .paused → w.tree id = some (.dir d) → SameWrites d) ∧
      ∀ id w' d, step cfg w (.on id .resumeLaunch) = some w' → w'.tree id = some (.dir d) →
        SameWrites d := by
  have hinv := reach_inv goodLaws_sameWrites (fun _ _ => guard_of_undisturbed) h
  exact ⟨fun id sb d hb hs hd => hinv.paused_good hb hs hd, fun id w' d hs hd => hinv.launch_good hs hd⟩

/-! ### A sandbox that is resumed and dies -/

/-- A host with one kind of base image and nothing on it. -/
def freshHost : World ℕ where
  up := false
  boxes _ := none
  ops _ := none
  vm _ := false
  tree _ := none
  images _ := some ⟨4, fun _ => 0⟩

theorem init_freshHost : Init freshHost := ⟨rfl, fun _ => rfl, fun _ => rfl, fun _ => rfl, fun _ => rfl⟩

def plainConfig : Config := ⟨[], 0, freshBoot.uuidString⟩

/-- The sandbox `cl-1` on slot 7, as `Create` registers it. -/
def newBox : SandboxState where
  id := "cl-1"
  status := .running
  templateTeamID := 0
  templateID := 1
  vcpus := 1
  memoryMB := 512
  timeoutSec := 300
  slotIndex := 7
  hostIP := none
  rootfsPath := "/dev/mapper/wrenn-cl-1"
  createdAt := 0
  lastActiveAt := 0
  metadata := []
  slot := none
  client := none
  dmDevice := some ⟨"wrenn-cl-1", "/dev/mapper/wrenn-cl-1", "/sandboxes/cl-1/rootfs.cow", "/dev/loop1"⟩
  baseImagePath := "/images/rootfs.ext4"
  volumes := []
  sandboxDirOverride := ""
  lazyRestore := false

/-- A fresh boot that finds the directories `entries`; no image needs expanding. -/
def boot (entries : List String) : Action ℕ :=
  .startUp freshBoot entries entries entries (fun _ => false) fun _ => ⟨4, fun _ => 0⟩

/-- A pause of `cl-1` that succeeds. -/
def pauseRun : List (Action ℕ) :=
  [.on "cl-1" .pauseBegin, .on "cl-1" (.pauseSnapshot 1 10), .on "cl-1" .pauseRelease,
    .on "cl-1" (.pauseMoveCow true), .on "cl-1" (.pauseToTrash 2 true),
    .on "cl-1" (.pauseToFinal true true), .on "cl-1" (.pauseFinish true)]

/-- `cl-1` is created, writes, and is paused. -/
def pausedRun : List (Action ℕ) :=
  boot [] :: .on "cl-1" (.create newBox 4242 true) :: .on "cl-1" (.write 0 5) :: pauseRun

/-- It is then resumed, writes again, and the agent and the VM die. -/
def crashRun : List (Action ℕ) :=
  pausedRun ++ ([.on "cl-1" .resumeLaunch, .on "cl-1" (.resumeDone "/dev/loop2" 4343 20 true),
    .on "cl-1" (.write 0 7), .stop false (fun _ => ⟨4, fun _ => 0⟩), .on "cl-1" .vmDeath,
    boot ["cl-1"]] : List (Action ℕ))

/-- Moves of one sandbox leave the directories of the others alone. -/
theorem exec_tree_of_not_owned {id k : String} (hk : ¬ Owned id k) : ∀ {as : List (Action β)} {w w' : World β},
    (∀ a ∈ as, ∃ l, a = .on id l) → exec (step cfg) w as = some w' → w'.tree k = w.tree k
  | [], _, _, _, h => by
    cases h
    rfl
  | a :: as, w, w', has, h => by
    obtain ⟨l, rfl⟩ := has a List.mem_cons_self
    rw [exec] at h
    rcases hs : step cfg w (.on id l) with _ | w₁ <;> rw [hs] at h
    · cases h
    · refine (exec_tree_of_not_owned hk (fun a ha => has a (List.mem_cons_of_mem _ ha)) h).trans ?_
      simp only [step] at hs
      split_ifs at hs
      rcases ha : act cfg w id l with _ | p <;> simp only [ha] at hs <;> cases hs
      exact (act_effect ha).frame hk

/-- The only pause generation after `pausedRun` is the one of `cl-1`. -/
theorem settled_pausedRun (cfg : Config) {w : World ℕ} (hrun : exec (step cfg) freshHost pausedRun = some w)
    (hbox : ∃ sb, w.boxes "cl-1" = some sb ∧ sb.status = .paused ∧ w.ops "cl-1" = none) : Settled w := by
  intro k d sm hk hd _
  by_cases ho : Owned "cl-1" k
  · rw [owned_of_not_swap ho hk]
    exact .inl hbox
  · rw [pausedRun, exec] at hrun
    rcases hs : step cfg freshHost (boot []) with _ | w₁ <;> rw [hs] at hrun
    · cases hrun
    · rw [exec_tree_of_not_owned ho (by simp [pauseRun]) hrun] at hd
      cases hs
      cases hd

/-- The agent is then stopped and started again. -/
def restartedRun : List (Action ℕ) :=
  pausedRun ++ ([.stop false (fun _ => ⟨4, fun _ => 0⟩), boot ["cl-1"]] : List (Action ℕ))

/-- The sandbox that the start-up registers as paused is coherent. -/
theorem restartedRun_sameWrites : ∃ w sb d m c, exec (step plainConfig) freshHost restartedRun = some w ∧
    w.boxes "cl-1" = some sb ∧ sb.status = .paused ∧ w.tree "cl-1" = some (.dir d) ∧ d.mem = some m ∧
    d.cow = some c ∧ c.writes = m.writes := by
  have hadm : Admits (step plainConfig) Undisturbed freshHost restartedRun := by
    refine And.intro trivial (And.intro trivial (And.intro ?_ ?_))
    · rintro sb ⟨⟩ ⟨⟩
    · refine ⟨trivial, trivial, trivial, trivial, trivial, trivial, trivial, ?_, trivial, trivial⟩
      exact settled_pausedRun plainConfig rfl ⟨_, rfl, rfl, rfl⟩
  refine ⟨_, _, _, _, _, rfl, rfl, rfl, rfl, rfl, rfl, ?_⟩
  exact (reach_sameWrites (Reach.of_admits init_freshHost hadm rfl)).1 "cl-1" _ _ rfl rfl rfl _ _ rfl rfl

/-- After a resume, a write and a crash, start-up registers `cl-1` as paused on the old memory image, although
the CoW has advanced past it. -/
theorem startUp_registers_stale_generation :
    ∃ w sb d m c, exec (step plainConfig) freshHost crashRun = some w ∧ w.boxes "cl-1" = some sb ∧
      sb.status = .paused ∧ w.tree "cl-1" = some (.dir d) ∧ d.mem = some m ∧ d.cow = some c ∧
      m.writes < c.writes :=
  ⟨_, _, _, _, _, rfl, rfl, rfl, rfl, rfl, rfl, by decide⟩

end Wrenn.Host.Coherence
