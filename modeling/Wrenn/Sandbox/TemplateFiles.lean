import Mathlib.Data.List.Nodup
import Wrenn.Sandbox.Disk

/-!
# The files of a snapshot template

A snapshot is written into a staging directory, and `promoteSnapshotDir` moves its files one by one into the directory
of the template, in the order of their names.  `isSnapshotTemplate` decides from three of the names whether a
directory is a snapshot template.  Every step may fail, and the agent may be killed before any of them.

A file counts by the snapshot that it belongs to.

* `promoted_whole_iff`: what a call leaves is not accepted or has the files of one snapshot exactly if, of
  the files that it has not moved, the template lacks one that decides, or has all the others of the
  snapshot (`Harmless`);
* `accepted_without_meta`: a directory without metadata that is accepted.
-/

namespace Wrenn.Sandbox.TemplateFiles

open Function
open Disk (Outcome)

/-- `config.json`, the memory files, `rootfs.ext4`, `state.json` and `wrenn-snapshot.json`, in the order of the names -/
inductive Name
  | config
  | memory (k : ℕ)
  | rootfs
  | state
  | snapshotMeta
  deriving DecidableEq, Repr

structure File where
  snapshot : ℕ
  /-- written to its end -/
  whole : Bool
  /-- `sandbox_dir` of the metadata -/
  sandboxDir : String
  deriving DecidableEq, Repr

abbrev Dir := Name → Option File

def isSnapshotTemplate (d : Dir) : Bool := (d .state).isSome && (d .config).isSome && (d .rootfs).isSome

inductive Step
  | ensureMemoryMaterialized
  | readSnapshotMeta
  | mkdirStage
  | quiesceAndPauseCH
  | vmSnapshot
  | flatten
  | copy (n : Name)
  | writeMeta
  | vmResume
  | mkdirDst
  | readStage
  | rename (n : Name)
  | removeStage
  | postInit
  | dirSize
  deriving DecidableEq, Repr

/-- What happens to one call. -/
structure Run where
  step : Step → Outcome
  /-- what a failed write of the metadata leaves -/
  tornMeta : Option File

section Code

variable (r : Run)

/-- The rest follows only if the step has succeeded. -/
def after (s : Step) (dst : Dir) (rest : Dir × Outcome) : Dir × Outcome :=
  match r.step s with
  | .ok => rest
  | o => (dst, o)

/-- An error is only logged. -/
def logged (s : Step) (dst : Dir) (rest : Dir × Outcome) : Dir × Outcome :=
  match r.step s with
  | .killed => (dst, .killed)
  | _ => rest

/-- The loop of `promoteSnapshotDir` over the entries. -/
def renameAll (stage : Dir) : List Name → Dir → Dir × Outcome
  | [], dst => (dst, .ok)
  | n :: ns, dst =>
    match stage n with
    | none => renameAll stage ns dst
    | some f => after r (.rename n) dst (renameAll stage ns (Function.update dst n (some f)))

/-- The names of a directory with at most `k` memory files, as `ReadDir` sorts them. -/
def names (k : ℕ) : List Name := .config :: (List.range k).map .memory ++ [.rootfs, .state, .snapshotMeta]

def promoteSnapshotDir (k : ℕ) (stage dst : Dir) : Dir × Outcome :=
  after r .mkdirDst dst <| after r .readStage dst <|
    match renameAll r stage (names k) dst with
    | (d, .ok) => (d, r.step .removeStage)
    | e => e

/-- `writeSnapshotMeta` into the staging directory -/
def writeSnapshotMeta (stage : Dir) (snapshot : ℕ) (sandboxDir : String) : Dir :=
  Function.update stage .snapshotMeta
    (if r.step .writeMeta = .ok then some ⟨snapshot, true, sandboxDir⟩ else r.tornMeta)

def effectiveSandboxDir (sandboxDirOverride id : String) : String :=
  if sandboxDirOverride ≠ "" then sandboxDirOverride else "/tmp/ch-vm-" ++ id

/-- What `vm.Snapshot` and `FlattenSnapshot` have written. -/
def dumped (snapshot k : ℕ) : Dir
  | .memory j => if j < k then some ⟨snapshot, true, ""⟩ else none
  | .snapshotMeta => none
  | _ => some ⟨snapshot, true, ""⟩

/-- A running sandbox: `snapshot` is the moment at which it was stopped, with `k` memory files. -/
def snapshotRunningToTemplate (snapshot k : ℕ) (sandboxDirOverride id : String) (dst : Dir) : Dir × Outcome :=
  after r .ensureMemoryMaterialized dst <| after r .mkdirStage dst <| after r .quiesceAndPauseCH dst <|
    after r .vmSnapshot dst <| after r .flatten dst <| logged r .writeMeta dst <| after r .vmResume dst <|
    match promoteSnapshotDir r k
        (writeSnapshotMeta r (dumped snapshot k) snapshot (effectiveSandboxDir sandboxDirOverride id)) dst with
    | (d, .ok) => logged r .postInit d <| logged r .dirSize d (d, .ok)
    | e => e

/-- A paused sandbox: its directory, without the CoW file, and what its metadata say. -/
structure Paused where
  snapshot : ℕ
  dir : Dir
  sandboxDir : String
  volumes : ℕ

/-- `copyMemorySnapshotFiles` into the staging directory; a step for each file of the directory -/
def copyMemorySnapshotFiles (dir : Dir) (dst : Dir) : List Name → Dir → (Dir → Dir × Outcome) → Dir × Outcome
  | [], stage, rest => rest stage
  | n :: ns, stage, rest =>
    if n = .snapshotMeta then copyMemorySnapshotFiles dir dst ns stage rest
    else match dir n with
      | none => copyMemorySnapshotFiles dir dst ns stage rest
      | some f =>
        after r (.copy n) dst (copyMemorySnapshotFiles dir dst ns (Function.update stage n (some f)) rest)

def snapshotPausedToTemplate (p : Paused) (k : ℕ) (dst : Dir) : Dir × Outcome :=
  after r .readSnapshotMeta dst <|
    if 0 < p.volumes then (dst, .failed)
    else after r .mkdirStage dst <| after r .flatten dst <|
      copyMemorySnapshotFiles r p.dir dst (names k)
        (Function.update (fun _ => none) .rootfs (some ⟨p.snapshot, true, ""⟩)) fun stage =>
        logged r .writeMeta dst <|
          match promoteSnapshotDir r k (writeSnapshotMeta r stage p.snapshot p.sandboxDir) dst with
          | (d, .ok) => logged r .dirSize d (d, .ok)
          | e => e

end Code

/-! ### What a call leaves -/

variable {r : Run} {k g : ℕ} {stage dst : Dir} {n : Name} {ns : List Name} {e : Dir × Outcome} {c : Prop}

/-- The files of one snapshot, with `k` memory files and metadata that name a sandbox directory. -/
def Whole (k : ℕ) (d : Dir) : Prop :=
  ∃ snapshot sandboxDir, sandboxDir ≠ "" ∧ d .snapshotMeta = some ⟨snapshot, true, sandboxDir⟩ ∧
    ∀ n ∈ names k, n ≠ .snapshotMeta → d n = some ⟨snapshot, true, ""⟩

/-- The template after the files `ns` have been moved. -/
def moved (stage dst : Dir) (ns : List Name) : Dir := fun n => if n ∈ ns then stage n <|> dst n else dst n

/-- There is no such file, or its rename succeeds. -/
def passes (r : Run) (stage : Dir) (n : Name) : Bool := (stage n).isNone || decide (r.step (.rename n) = .ok)

/-- The names from the first rename on that does not succeed. -/
def unmoved (r : Run) (stage : Dir) (ns : List Name) : List Name := ns.dropWhile (passes r stage)

theorem moved_nil : moved stage dst [] = dst := rfl

theorem moved_cons (hn : n ∉ ns) :
    moved stage (update dst n (stage n <|> dst n)) ns = moved stage dst (n :: ns) := by
  funext m
  by_cases hm : m = n
  · subst hm
    simp [moved, hn]
  · simp [moved, hm]

/-- **The loop over the files.** -/
theorem renameAll_eq (hns : ns.Nodup) :
    (renameAll r stage ns dst).1 = moved stage dst (ns.takeWhile (passes r stage)) ∧
      ((renameAll r stage ns dst).2 = .ok ↔ unmoved r stage ns = []) := by
  induction ns generalizing dst with
  | nil => exact ⟨rfl, iff_of_true rfl rfl⟩
  | cons n ns ih =>
    obtain ⟨hn, hns⟩ := List.nodup_cons.mp hns
    have hn' : n ∉ ns.takeWhile (passes r stage) := fun hm => hn ((List.takeWhile_sublist _).mem hm)
    unfold renameAll
    cases hf : stage n with
    | none =>
      have hgo : passes r stage n = true := by simp [passes, hf]
      rw [unmoved, List.takeWhile_cons_of_pos hgo, List.dropWhile_cons_of_pos hgo, ← moved_cons hn', hf]
      have hsame : update dst n (none <|> dst n) = dst := update_eq_self n dst
      rw [hsame]
      exact ih hns
    | some f =>
      dsimp only [after]
      cases ho : r.step (.rename n) with
      | ok =>
        have hgo : passes r stage n = true := by simp [passes, ho]
        rw [unmoved, List.takeWhile_cons_of_pos hgo, List.dropWhile_cons_of_pos hgo, ← moved_cons hn', hf]
        exact ih hns
      | _ =>
        have hno : ¬ passes r stage n = true := by simp [passes, hf, ho]
        rw [unmoved, List.takeWhile_cons_of_neg hno, List.dropWhile_cons_of_neg hno]
        exact ⟨rfl, iff_of_false nofun nofun⟩

theorem names_nodup (k : ℕ) : (names k).Nodup := by
  have hmem : ((List.range k).map Name.memory).Nodup := List.nodup_range.map fun _ _ h => Name.memory.inj h
  simp [names, List.nodup_append, hmem]

/-- A call moves the files up to the first that stops it, if the condition `c` holds, and otherwise none. -/
structure Leaves (r : Run) (k : ℕ) (stage dst : Dir) (c : Prop) (e : Dir × Outcome) : Prop where
  moves : c → e.1 = moved stage dst ((names k).takeWhile (passes r stage)) ∧
    (e.2 = .ok → unmoved r stage (names k) = [])
  keeps : ¬ c → e.1 = dst ∧ e.2 ≠ .ok

theorem leaves_after {s : Step} (h : Leaves r k stage dst c e) :
    Leaves r k stage dst (r.step s = .ok ∧ c) (after r s dst e) := by
  unfold after
  split
  · next ho => exact ⟨fun hc => h.moves hc.2, fun hc => h.keeps fun hc' => hc ⟨ho, hc'⟩⟩
  · next ho => exact ⟨fun hc => absurd hc.1 ho, fun _ => ⟨rfl, ho⟩⟩

theorem leaves_logged {s : Step} (h : Leaves r k stage dst c e) :
    Leaves r k stage dst (r.step s ≠ .killed ∧ c) (logged r s dst e) := by
  unfold logged
  split
  · next ho => exact ⟨fun hc => absurd ho hc.1, fun _ => ⟨rfl, nofun⟩⟩
  · next ho => exact ⟨fun hc => h.moves hc.2, fun hc => h.keeps fun hc' => hc ⟨ho, hc'⟩⟩

theorem logged_dir {d : Dir} {s : Step} {rest : Dir × Outcome} (h : rest.1 = d) : (logged r s d rest).1 = d := by
  unfold logged
  split
  · rfl
  · exact h

/-- Steps after a promotion that only report. -/
theorem leaves_reported (rest : Dir → Dir × Outcome) (hrest : ∀ d, (rest d).1 = d) :
    Leaves r k stage dst c e → Leaves r k stage dst c (match e with
      | (d, .ok) => rest d
      | e => e) := by
  intro h
  obtain ⟨d, o⟩ := e
  cases o with
  | ok =>
    exact ⟨fun hc => ⟨(hrest d).trans (h.moves hc).1, fun _ => (h.moves hc).2 rfl⟩, fun hc => absurd rfl (h.keeps hc).2⟩
  | _ => exact h

/-- The steps before the renames. -/
def Opens (r : Run) : Prop := r.step .mkdirDst = .ok ∧ r.step .readStage = .ok

theorem leaves_promote (r : Run) (k : ℕ) (stage dst : Dir) :
    Leaves r k stage dst (Opens r) (promoteSnapshotDir r k stage dst) := by
  have hloop : (renameAll r stage (names k) dst).1 = moved stage dst ((names k).takeWhile (passes r stage)) ∧
      ((renameAll r stage (names k) dst).2 = .ok ↔ unmoved r stage (names k) = []) := renameAll_eq (names_nodup k)
  have hall : Leaves r k stage dst True (match renameAll r stage (names k) dst with
      | (d, .ok) => (d, r.step .removeStage)
      | e => e) := by
    refine ⟨fun _ => ?_, fun hc => absurd trivial hc⟩
    split
    · next d he =>
      rw [he] at hloop
      exact ⟨hloop.1, fun _ => hloop.2.mp rfl⟩
    · exact ⟨hloop.1, hloop.2.mp⟩
  have h := leaves_after (s := .mkdirDst) (leaves_after (s := .readStage) hall)
  rwa [and_true] at h

/-! ### Whole templates -/

def Fine (k : ℕ) (d : Dir) : Prop := isSnapshotTemplate d = false ∨ Whole k d

/-- The staging directory has the files of the snapshot `g`, but for the metadata. -/
def Staged (k g : ℕ) (stage : Dir) : Prop := ∀ n ∈ names k, n ≠ .snapshotMeta → stage n = some ⟨g, true, ""⟩

/-- Of the files `ns`, which were not moved, the template lacks one that decides; or it has those of the snapshot, or of
any if none was moved, and its metadata are good. -/
def Harmless (k g : ℕ) (stage dst : Dir) (ns : List Name) : Prop :=
  (∃ n ∈ ns, n ∈ [Name.state, .config, .rootfs] ∧ dst n = none) ∨
    ∃ g' sandboxDir, (ns ≠ names k → g' = g) ∧ sandboxDir ≠ "" ∧
      (∀ n ∈ ns, n ≠ .snapshotMeta → dst n = some ⟨g', true, ""⟩) ∧
      (if .snapshotMeta ∈ ns then dst .snapshotMeta else stage .snapshotMeta <|> dst .snapshotMeta) =
        some ⟨g', true, sandboxDir⟩

theorem fine_moved (hstage : Staged k g stage) {ns₁ ns₂ : List Name} (hns : names k = ns₁ ++ ns₂) :
    Fine k (moved stage dst ns₁) ↔ Harmless k g stage dst ns₂ := by
  have hnodup := names_nodup k
  rw [hns] at hnodup
  have hnot : ∀ n ∈ names k, (n ∈ ns₁ ↔ n ∉ ns₂) := fun n hn =>
    ⟨fun h₁ h₂ => (List.nodup_append'.mp hnodup).2.2 h₁ h₂,
      fun h₂ => (List.mem_append.mp (hns ▸ hn)).resolve_right h₂⟩
  have hsub : ∀ n ∈ ns₂, n ∈ names k := fun n hn => hns ▸ List.mem_append_right _ hn
  have hfile : ∀ n ∈ names k, n ≠ .snapshotMeta →
      moved stage dst ns₁ n = if n ∈ ns₂ then dst n else some ⟨g, true, ""⟩ := by
    intro n hn hne
    by_cases h₂ : n ∈ ns₂
    · rw [moved, if_neg (mt (hnot n hn).mp (not_not.mpr h₂)), if_pos h₂]
    · rw [moved, if_pos ((hnot n hn).mpr h₂), if_neg h₂, hstage n hn hne]
      rfl
  have hmeta : moved stage dst ns₁ .snapshotMeta =
      if .snapshotMeta ∈ ns₂ then dst .snapshotMeta else stage .snapshotMeta <|> dst .snapshotMeta := by
    have hm := hnot .snapshotMeta (by simp [names])
    by_cases h₂ : Name.snapshotMeta ∈ ns₂
    · rw [moved, if_neg (mt hm.mp (not_not.mpr h₂)), if_pos h₂]
    · rw [moved, if_pos (hm.mpr h₂), if_neg h₂]
  refine or_congr ?_ ?_
  · have hthree : ∀ n ∈ [Name.state, .config, .rootfs], n ∈ names k ∧ n ≠ .snapshotMeta := by simp [names]
    have hlacks : isSnapshotTemplate (moved stage dst ns₁) = false ↔
        ∃ n ∈ [Name.state, .config, .rootfs], moved stage dst ns₁ n = none := by
      simp only [isSnapshotTemplate, Bool.and_eq_false_iff, Option.isSome_eq_false_iff, Option.isNone_iff_eq_none,
        List.exists_mem_cons_iff, List.not_mem_nil, false_and, exists_false, or_false, or_assoc]
    rw [hlacks]
    constructor
    · rintro ⟨n, hn, hnone⟩
      rw [hfile n (hthree n hn).1 (hthree n hn).2] at hnone
      split_ifs at hnone with h₂
      exact ⟨n, h₂, hn, hnone⟩
    · rintro ⟨n, h₂, hn, hnone⟩
      exact ⟨n, hn, by rw [hfile n (hthree n hn).1 (hthree n hn).2, if_pos h₂, hnone]⟩
  · constructor
    · rintro ⟨g', dir, hdir, hm, hall⟩
      refine ⟨g', dir, fun hne => ?_, hdir, fun n h₂ hn => ?_, hmeta ▸ hm⟩
      · -- the first file has been moved
        have hc : Name.config ∉ ns₂ := by
          cases ns₁ with
          | nil => exact absurd hns.symm hne
          | cons n ns =>
            have hhead := congrArg List.head? hns
            cases hhead
            exact (hnot .config (by simp [names])).mp List.mem_cons_self
        have hfirst := hall .config (by simp [names]) (by simp)
        rw [hfile _ (by simp [names]) (by simp), if_neg hc] at hfirst
        cases hfirst
        rfl
      · have hthis := hall n (hsub n h₂) hn
        rwa [hfile n (hsub n h₂) hn, if_pos h₂] at hthis
    · rintro ⟨g', dir, hg, hdir, hall, hm⟩
      refine ⟨g', dir, hdir, hmeta.trans hm, fun n hn hne => ?_⟩
      rw [hfile n hn hne]
      split_ifs with h₂
      · exact hall n h₂ hne
      · rw [hg fun he => h₂ (he ▸ hn)]

/-- The claim of a call. -/
def Good (k : ℕ) (e : Dir × Outcome) : Prop := (e.2 ≠ .ok → Fine k e.1) ∧ (e.2 = .ok → Whole k e.1)

theorem Leaves.good_iff (h : Leaves r k stage dst c e) (hstage : Staged k g stage) :
    (c → (Good k e ↔ Harmless k g stage dst (unmoved r stage (names k)))) ∧
      (¬ c → (Good k e ↔ Harmless k g stage dst (names k))) := by
  have hsplit : names k = ((names k).takeWhile (passes r stage)) ++ unmoved r stage (names k) :=
    List.takeWhile_append_dropWhile.symm
  refine ⟨fun hc => ?_, fun hc => ?_⟩
  · rw [← fine_moved hstage hsplit, ← (h.moves hc).1]
    by_cases hok : e.2 = .ok
    · -- everything has been moved, so the directory is accepted
      have haccepted : isSnapshotTemplate e.1 = true := by
        have hall := hsplit
        rw [(h.moves hc).2 hok, List.append_nil] at hall
        rw [(h.moves hc).1, ← hall]
        simp [isSnapshotTemplate, moved, names, hstage .state (by simp [names]) (by simp),
          hstage .config (by simp [names]) (by simp), hstage .rootfs (by simp [names]) (by simp)]
      simp [Good, Fine, hok, haccepted]
    · simp [Good, hok]
  · have hkept : Fine k (moved stage dst []) ↔ Harmless k g stage dst (names k) :=
      fine_moved hstage (List.nil_append (names k)).symm
    rw [moved_nil] at hkept
    rw [← hkept, Good, (h.keeps hc).1]
    simp [(h.keeps hc).2]

/-! ### The calls -/

theorem staged_written {sandboxDir : String} : Staged k g (writeSnapshotMeta r (dumped g k) g sandboxDir) := by
  intro n hn hne
  rw [writeSnapshotMeta, update_of_ne hne]
  cases n with
  | memory j => exact if_pos (by simpa [names] using hn)
  | snapshotMeta => exact absurd rfl hne
  | _ => rfl

/-- What comes before the promotion of a running sandbox. -/
def ReadyRunning (r : Run) : Prop :=
  r.step .ensureMemoryMaterialized = .ok ∧ r.step .mkdirStage = .ok ∧ r.step .quiesceAndPauseCH = .ok ∧
    r.step .vmSnapshot = .ok ∧ r.step .flatten = .ok ∧ r.step .writeMeta ≠ .killed ∧ r.step .vmResume = .ok ∧ Opens r

theorem leaves_running {sandboxDirOverride id : String} :
    Leaves r k (writeSnapshotMeta r (dumped g k) g (effectiveSandboxDir sandboxDirOverride id)) dst (ReadyRunning r)
      (snapshotRunningToTemplate r g k sandboxDirOverride id dst) := by
  have h := leaves_reported (fun d => logged r .postInit d (logged r .dirSize d (d, .ok)))
    (fun d => logged_dir (logged_dir rfl))
    (leaves_promote r k (writeSnapshotMeta r (dumped g k) g (effectiveSandboxDir sandboxDirOverride id)) dst)
  exact leaves_after (leaves_after (leaves_after (leaves_after (leaves_after (leaves_logged (leaves_after h))))))

/-- The directory of a paused sandbox has the memory files of one snapshot. -/
structure Paused.Whole (p : Paused) (k : ℕ) : Prop where
  rootfs : p.dir .rootfs = none
  memory : ∀ n ∈ names k, n ≠ .snapshotMeta → n ≠ .rootfs → p.dir n = some ⟨p.snapshot, true, ""⟩

/-- The copies of the memory files. -/
theorem copied (r : Run) (dir dst stage : Dir) (rest : Dir → Dir × Outcome) (hns : ns.Nodup) :
    ((∀ n ∈ ns, n ≠ .snapshotMeta → dir n ≠ none → r.step (.copy n) = .ok) →
      copyMemorySnapshotFiles r dir dst ns stage rest =
        rest fun n => if n ∈ ns ∧ n ≠ .snapshotMeta then dir n <|> stage n else stage n) ∧
    ((¬ ∀ n ∈ ns, n ≠ .snapshotMeta → dir n ≠ none → r.step (.copy n) = .ok) →
      ∃ o ≠ .ok, copyMemorySnapshotFiles r dir dst ns stage rest = (dst, o)) := by
  induction ns generalizing stage with
  | nil => exact ⟨fun _ => by simp [copyMemorySnapshotFiles], fun h => absurd (List.forall_mem_nil _) h⟩
  | cons m ns ih =>
    obtain ⟨hm, hns⟩ := List.nodup_cons.mp hns
    rw [List.forall_mem_cons]
    by_cases hskip : m = .snapshotMeta ∨ dir m = none
    · have hhead : m ≠ .snapshotMeta → dir m ≠ none → r.step (.copy m) = .ok :=
        fun hne hsome => (hskip.elim hne hsome).elim
      have hstep : copyMemorySnapshotFiles r dir dst (m :: ns) stage rest =
          copyMemorySnapshotFiles r dir dst ns stage rest := by
        rw [copyMemorySnapshotFiles]
        split_ifs with h
        · rfl
        · rw [hskip.resolve_left h]
      have hover : (fun n => if n ∈ m :: ns ∧ n ≠ .snapshotMeta then dir n <|> stage n else stage n) =
          fun n => if n ∈ ns ∧ n ≠ .snapshotMeta then dir n <|> stage n else stage n := by
        funext n
        by_cases hn : n = m
        · subst hn
          rcases hskip with h | h <;> simp [h]
        · simp [hn]
      rw [and_iff_right hhead, hstep, hover]
      exact ih stage hns
    · obtain ⟨hne, hsome⟩ := not_or.mp hskip
      obtain ⟨f, hf⟩ := Option.ne_none_iff_exists'.mp hsome
      have hover : (fun n => if n ∈ m :: ns ∧ n ≠ .snapshotMeta then dir n <|> stage n else stage n) = fun n =>
          if n ∈ ns ∧ n ≠ .snapshotMeta then dir n <|> update stage m (some f) n else update stage m (some f) n := by
        funext n
        by_cases hn : n = m
        · subst hn
          simp [hm, hne, hf]
        · simp [hn]
      have hnext := ih (update stage m (some f)) hns
      rw [copyMemorySnapshotFiles, if_neg hne, hf, hover]
      dsimp only [after]
      cases ho : r.step (.copy m) with
      | ok => simpa [hne] using hnext
      | _ =>
        refine ⟨fun h => absurd (h.1 hne nofun) nofun, fun _ => ⟨_, ?_, rfl⟩⟩
        exact nofun

theorem leaves_copied {dir stage₀ : Dir} {rest : Dir → Dir × Outcome} {ns : List Name} (hns : ns.Nodup)
    (h : Leaves r k stage dst c
      (rest fun n => if n ∈ ns ∧ n ≠ .snapshotMeta then dir n <|> stage₀ n else stage₀ n)) :
    Leaves r k stage dst ((∀ n ∈ ns, n ≠ .snapshotMeta → dir n ≠ none → r.step (.copy n) = .ok) ∧ c)
      (copyMemorySnapshotFiles r dir dst ns stage₀ rest) := by
  by_cases hall : ∀ n ∈ ns, n ≠ .snapshotMeta → dir n ≠ none → r.step (.copy n) = .ok
  · rw [(copied r dir dst stage₀ rest hns).1 hall, and_iff_right hall]
    exact h
  · obtain ⟨o, ho, he⟩ := (copied r dir dst stage₀ rest hns).2 hall
    rw [he]
    exact ⟨fun hc => absurd hc.1 hall, fun _ => ⟨rfl, ho⟩⟩

/-- What comes before the promotion of a paused sandbox. -/
def ReadyPaused (r : Run) (p : Paused) (k : ℕ) : Prop :=
  r.step .readSnapshotMeta = .ok ∧ p.volumes = 0 ∧ r.step .mkdirStage = .ok ∧ r.step .flatten = .ok ∧
    (∀ n ∈ names k, n ≠ .snapshotMeta → p.dir n ≠ none → r.step (.copy n) = .ok) ∧ r.step .writeMeta ≠ .killed ∧ Opens r

/-- The staging directory after the copies. -/
theorem copied_dumped {p : Paused} (hp : p.Whole k) :
    (fun n => if n ∈ names k ∧ n ≠ .snapshotMeta then
        p.dir n <|> update (fun _ => none) .rootfs (some ⟨p.snapshot, true, ""⟩) n
      else update (fun _ => none) .rootfs (some ⟨p.snapshot, true, ""⟩) n) = dumped p.snapshot k := by
  funext n
  by_cases hn : n ∈ names k ∧ n ≠ .snapshotMeta
  · rw [if_pos hn]
    by_cases hroot : n = .rootfs
    · subst hroot
      rw [hp.rootfs, update_self]
      rfl
    · rw [hp.memory n hn.1 hn.2 hroot]
      cases n with
      | memory j => exact (if_pos (by simpa [names] using hn.1)).symm
      | snapshotMeta => exact absurd rfl hn.2
      | _ => rfl
  · rw [if_neg hn]
    cases n with
    | memory j => exact (if_neg (by simpa [names] using hn)).symm
    | snapshotMeta => rfl
    | _ => exact absurd ⟨by simp [names], nofun⟩ hn

theorem leaves_paused {p : Paused} (hp : p.Whole k) :
    Leaves r k (writeSnapshotMeta r (dumped p.snapshot k) p.snapshot p.sandboxDir) dst (ReadyPaused r p k)
      (snapshotPausedToTemplate r p k dst) := by
  have hrest := leaves_logged (s := .writeMeta) (leaves_reported (fun d => logged r .dirSize d (d, .ok))
    (fun d => logged_dir rfl)
    (leaves_promote r k (writeSnapshotMeta r (dumped p.snapshot k) p.snapshot p.sandboxDir) dst))
  refine leaves_after ?_
  split_ifs with hvol
  · exact ⟨fun hc => absurd hc.1 (by omega), fun _ => ⟨rfl, nofun⟩⟩
  · rw [and_iff_right (show p.volumes = 0 by omega)]
    refine leaves_after (leaves_after (leaves_copied (names_nodup k) ?_))
    rw [copied_dumped hp]
    exact hrest

/-- **A failed snapshot is not accepted, or it is whole, and a successful one is whole**, exactly if what
was not moved is harmless: the files from the first rename on that does not succeed, or all if the call
does not come to the renames. -/
theorem promoted_whole_iff (r : Run) (k : ℕ) (dst : Dir) :
    (∀ g sandboxDirOverride id,
      let stage := writeSnapshotMeta r (dumped g k) g (effectiveSandboxDir sandboxDirOverride id)
      let e := snapshotRunningToTemplate r g k sandboxDirOverride id dst
      (ReadyRunning r → (Good k e ↔ Harmless k g stage dst (unmoved r stage (names k)))) ∧
        (¬ ReadyRunning r → (Good k e ↔ Harmless k g stage dst (names k)))) ∧
    (∀ p : Paused, p.Whole k →
      let stage := writeSnapshotMeta r (dumped p.snapshot k) p.snapshot p.sandboxDir
      let e := snapshotPausedToTemplate r p k dst
      (ReadyPaused r p k → (Good k e ↔ Harmless k p.snapshot stage dst (unmoved r stage (names k)))) ∧
        (¬ ReadyPaused r p k → (Good k e ↔ Harmless k p.snapshot stage dst (names k)))) ∧
    ∀ g stage, Staged k g stage →
      let e := promoteSnapshotDir r k stage dst
      (Opens r → (Good k e ↔ Harmless k g stage dst (unmoved r stage (names k)))) ∧
        (¬ Opens r → (Good k e ↔ Harmless k g stage dst (names k))) :=
  ⟨fun _ _ _ => leaves_running.good_iff staged_written, fun _ hp => (leaves_paused hp).good_iff staged_written,
    fun _ stage hstage => (leaves_promote r k stage dst).good_iff hstage⟩

def empty : Dir := fun _ => none

/-- Killed between the last two renames, or with metadata that were not written, a call leaves a directory that is
accepted without metadata; in the second case it reports success. -/
theorem accepted_without_meta :
    (let e := snapshotRunningToTemplate ⟨fun s => if s = .rename .snapshotMeta then .killed else .ok,
      none⟩ 1 1 "" "cl-1"
        empty
     e.2 = .killed ∧ isSnapshotTemplate e.1 = true ∧ e.1 .snapshotMeta = none ∧ ¬ Whole 1 e.1) ∧
    (let e := snapshotRunningToTemplate ⟨fun s => if s = .writeMeta then .failed else .ok, none⟩ 1 1 "" "cl-1" empty
     e.2 = .ok ∧ isSnapshotTemplate e.1 = true ∧ e.1 .snapshotMeta = none ∧ ¬ Whole 1 e.1) := by
  have hnone : ∀ {d : Dir}, d .snapshotMeta = none → ¬ Whole 1 d := by
    rintro d hd ⟨g, dir, -, hm, -⟩
    rw [hd] at hm
    cases hm
  exact ⟨⟨by decide, by decide, by decide, hnone (by decide)⟩, by decide, by decide, by decide, hnone (by decide)⟩

end Wrenn.Sandbox.TemplateFiles
