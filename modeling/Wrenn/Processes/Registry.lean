import Mathlib.Data.List.AList
import Wrenn.Lib.Places
import Wrenn.Lib.Runs

/-!
# The registry of processes

envd keeps the handles of its processes in a map from PIDs.  `spawn_from_request` inserts a handle after the process
was started and leaves a task that removes the PID when the process has ended.  The waiter of a process reaps it first,
and stores and broadcasts its end event after that: from the reaping on the kernel may give the PID to another process,
whose entry the task of the first one then removes.

* `reach_entry_gone`: what a process has left behind is gone with its task, in every run;
* `reach_registry`: if no PID is handed out while the task of an earlier process is to run, a running process is found
  under its PID;
* `running_process_pruned`: the run in which it is not.
-/

namespace Wrenn.Processes.Registry

open Lib.Places Lib.Runs

/-! ### Processes -/

/-- The `Start` request of a process. -/
inductive Request
  | spawned
  | inserted
  | subscribed
  | returned
  deriving DecidableEq, Repr

/-- The child and its waiter thread. -/
inductive Waiter
  | running
  | zombie
  | reaped
  | stored
  | sent
  deriving DecidableEq, Repr

/-- `cached_end().is_some()` -/
def Waiter.ended : Waiter → Bool
  | .stored | .sent => true
  | _ => false

/-- The kernel keeps the PID. -/
def Waiter.holdsPid : Waiter → Bool
  | .running | .zombie => true
  | _ => false

/-- The task that prunes the entry. -/
inductive Task
  | none
  | parked (alreadyEnded : Bool)
  | done
  deriving DecidableEq, Repr

structure Process where
  pid : ℕ
  tag : Option String
  request : Request
  waiter : Waiter
  task : Task
  deriving DecidableEq, Repr

inductive Move
  | insert
  | subscribeEnd
  | spawnTask
  | exit
  | reap
  | storeEnd
  | sendEnd
  | prune
  deriving DecidableEq, Repr

def Process.move (p : Process) : Move → Option Process
  | .insert => if p.request = .spawned then some { p with request := .inserted } else none
  | .subscribeEnd => if p.request = .inserted then some { p with request := .subscribed } else none
  | .spawnTask =>
    if p.request = .subscribed then some { p with request := .returned, task := .parked p.waiter.ended } else none
  | .exit => if p.waiter = .running then some { p with waiter := .zombie } else none
  | .reap => if p.waiter = .zombie then some { p with waiter := .reaped } else none
  | .storeEnd => if p.waiter = .reaped then some { p with waiter := .stored } else none
  | .sendEnd => if p.waiter = .stored then some { p with waiter := .sent } else none
  | .prune =>
    -- the task receives the end event, unless it was there before
    if p.task = .parked true ∨ p.task = .parked false ∧ p.waiter = .sent then some { p with task := .done } else none

/-! ### The registry -/

structure State where
  /-- all processes ever started; a handle is a position in this list -/
  procs : List Process
  processes : AList fun _ : ℕ => ℕ
  deriving DecidableEq

inductive ErrorCode
  | notFound
  | invalidArgument
  deriving DecidableEq, Repr

structure ConnectError where
  code : ErrorCode
  message : String
  deriving DecidableEq, Repr

inductive Selector
  | pid (pid : ℕ)
  | tag (tag : String)
  | missing
  deriving DecidableEq, Repr

def getProcessBySelector (s : State) : Selector → Except ConnectError ℕ
  | .pid pid =>
    match s.processes.lookup pid with
    | some i => .ok i
    | none => .error ⟨.notFound, "process with pid " ++ toString pid ++ " not found"⟩
  | .tag tag =>
    match s.processes.entries.find? fun entry => (s.procs[entry.2]?).any fun p => decide (p.tag = some tag) with
    | some entry => .ok entry.2
    | none => .error ⟨.notFound, "process with tag " ++ tag ++ " not found"⟩
  | .missing => .error ⟨.invalidArgument, "process selector required"⟩

/-- What a move does to the map. -/
def Move.onRegistry (pid i : ℕ) (processes : AList fun _ : ℕ => ℕ) : Move → AList fun _ : ℕ => ℕ
  | .insert => processes.insert pid i
  | .prune => processes.erase pid
  | _ => processes

inductive Act
  /-- `spawn_process`: the kernel picks a PID that no child holds -/
  | start (pid : ℕ) (tag : Option String)
  | move (i : ℕ) (m : Move)
  deriving DecidableEq, Repr

def step (s : State) : Act → Option State
  | .start pid tag =>
    if ∃ p ∈ s.procs, p.pid = pid ∧ p.waiter.holdsPid = true then none
    else some { s with procs := s.procs ++ [⟨pid, tag, .spawned, .running, .none⟩] }
  | .move i m => (s.procs[i]?).bind fun p => (p.move m).map fun p' =>
    ⟨s.procs.set i p', m.onRegistry p.pid i s.processes⟩

def Initial (s : State) : Prop := s = ⟨[], ∅⟩

/-! ### One process -/

/-- The task comes after the insert, and a task that does not wait has seen the end. -/
structure Ordered (p : Process) : Prop where
  returned : p.task ≠ .none → p.request = .returned
  already : p.task = .parked true → p.waiter.ended = true
  done : p.task = .done → p.waiter.ended = true

/-- What the registry has to know of a move. -/
structure Turned (p : Process) (m : Move) (p' : Process) : Prop where
  pid : p'.pid = p.pid
  request : p'.request = .spawned ↔ p.request = .spawned ∧ m ≠ .insert
  task : p'.task = .done ↔ p.task = .done ∨ m = .prune
  insert : m = .insert → p.request = .spawned
  prune : m = .prune → p.task ≠ .done
  ordered : Ordered p'

variable {p : Process} {s s' : State} {a : Act}

theorem Ordered.waiter {w : Waiter} (h : Ordered p) (hw : p.waiter.ended = true → w.ended = true) :
    Ordered { p with waiter := w } :=
  ⟨h.returned, fun ht => hw (h.already ht), fun ht => hw (h.done ht)⟩

theorem turned_waiter {w : Waiter} {m : Move} (h : Ordered p) (hw : p.waiter.ended = true → w.ended = true)
    (hi : m ≠ .insert) (hp : m ≠ .prune) : Turned p m { p with waiter := w } :=
  ⟨rfl, by simp [hi], by simp [hp], fun hm => absurd hm hi, fun hm => absurd hm hp, h.waiter hw⟩

theorem turned_of_move {p' : Process} {m : Move} (h : Ordered p) (hm : p.move m = some p') : Turned p m p' := by
  -- A request that has not returned has no task yet.
  have hnone : p.request ≠ .returned → p.task = .none := fun hr => not_not.mp fun ht => hr (h.returned ht)
  cases m with
  | insert =>
    obtain ⟨hr, rfl⟩ : p.request = .spawned ∧ { p with request := .inserted } = p' := by simpa [Process.move] using hm
    have ht := hnone (by simp [hr])
    exact ⟨rfl, by simp, by simp, fun _ => hr, by simp, by simp [ht], by simp [ht], by simp [ht]⟩
  | subscribeEnd =>
    obtain ⟨hr, rfl⟩ : p.request = .inserted ∧ { p with request := .subscribed } = p' := by
      simpa [Process.move] using hm
    have ht := hnone (by simp [hr])
    exact ⟨rfl, by simp [hr], by simp, by simp, by simp, by simp [ht], by simp [ht], by simp [ht]⟩
  | spawnTask =>
    obtain ⟨hr, rfl⟩ : p.request = .subscribed ∧
        { p with request := .returned, task := .parked p.waiter.ended } = p' := by simpa [Process.move] using hm
    have ht := hnone (by simp [hr])
    exact ⟨rfl, by simp [hr], by simp [ht], by simp, by simp, by simp, by simp, by simp⟩
  | exit =>
    obtain ⟨hw, rfl⟩ : p.waiter = .running ∧ { p with waiter := .zombie } = p' := by simpa [Process.move] using hm
    exact turned_waiter h (by simp [hw, Waiter.ended]) (by simp) (by simp)
  | reap =>
    obtain ⟨hw, rfl⟩ : p.waiter = .zombie ∧ { p with waiter := .reaped } = p' := by simpa [Process.move] using hm
    exact turned_waiter h (by simp [hw, Waiter.ended]) (by simp) (by simp)
  | storeEnd =>
    obtain ⟨hw, rfl⟩ : p.waiter = .reaped ∧ { p with waiter := .stored } = p' := by simpa [Process.move] using hm
    exact turned_waiter h (fun _ => rfl) (by simp) (by simp)
  | sendEnd =>
    obtain ⟨hw, rfl⟩ : p.waiter = .stored ∧ { p with waiter := .sent } = p' := by simpa [Process.move] using hm
    exact turned_waiter h (fun _ => rfl) (by simp) (by simp)
  | prune =>
    obtain ⟨ht, rfl⟩ : (p.task = .parked true ∨ p.task = .parked false ∧ p.waiter = .sent) ∧
        { p with task := .done } = p' := by simpa [Process.move] using hm
    have hended : p.waiter.ended = true := by
      rcases ht with ht | ⟨-, hw⟩
      · exact h.already ht
      · rw [hw]
        rfl
    have hparked : ∃ b, p.task = .parked b := ht.elim (fun ht => ⟨_, ht⟩) fun ht => ⟨_, ht.1⟩
    obtain ⟨b, hb⟩ := hparked
    have hret : p.request = .returned := h.returned (by simp [hb])
    exact ⟨rfl, by simp, by simp, by simp, by simp [hb], by simp [hret], by simp, fun _ => hended⟩

/-! ### Entries -/

/-- Every process is in order, and every entry is of a process whose task has not run. -/
structure Entered (s : State) : Prop where
  ordered : ∀ (i : ℕ) (p : Process), s.procs[i]? = some p → Ordered p
  entry : ∀ pid i : ℕ, s.processes.lookup pid = some i →
    ∃ p, s.procs[i]? = some p ∧ p.pid = pid ∧ p.task ≠ .done

/-- A step starts a process or moves one. -/
theorem step_cases (h : Entered s) (hs : step s a = some s') :
    (∃ pid tag, a = .start pid tag ∧ s' = { s with procs := s.procs ++ [⟨pid, tag, .spawned, .running, .none⟩] }) ∨
      ∃ i m p p', s.procs[i]? = some p ∧ Turned p m p' ∧ s' = ⟨s.procs.set i p', m.onRegistry p.pid i s.processes⟩ := by
  cases a with
  | start pid tag =>
    obtain ⟨-, hs'⟩ := Option.ite_none_left_eq_some.mp hs
    exact .inl ⟨pid, tag, rfl, (Option.some.inj hs').symm⟩
  | move i m =>
    obtain ⟨p, hp, hs⟩ := Option.bind_eq_some_iff.mp hs
    obtain ⟨p', hp', rfl⟩ := Option.map_eq_some_iff.mp hs
    exact .inr ⟨i, m, p, p', hp, turned_of_move (h.ordered i p hp) hp', rfl⟩

theorem entered_step (h : Entered s) (hs : step s a = some s') : Entered s' := by
  rcases step_cases h hs with ⟨pid, tag, -, rfl⟩ | ⟨i, m, p, p', hp, ht, rfl⟩
  · refine ⟨fun j q hq => ?_, fun key j hj => ?_⟩
    · rcases get_append_new hq with hq | ⟨-, rfl⟩
      · exact h.ordered j q hq
      · exact ⟨by simp, by simp, by simp⟩
    · obtain ⟨q, hq, hrest⟩ := h.entry key j hj
      exact ⟨q, get_append_old hq, hrest⟩
  · -- An entry that was there is kept by the moved process unless the move removes it.
    have hkept : ∀ key j, s.processes.lookup key = some j → (m = .prune → key ≠ p.pid) →
        ∃ q, (s.procs.set i p')[j]? = some q ∧ q.pid = key ∧ q.task ≠ .done := by
      intro key j hj hm
      obtain ⟨q, hq, hkey, htask⟩ := h.entry key j hj
      by_cases hji : j = i
      · subst hji
        rw [hp] at hq
        cases hq
        refine ⟨p', get_set_self hp, ht.pid.trans hkey, fun hdone => ?_⟩
        rcases ht.task.mp hdone with hdone | hprune
        · exact htask hdone
        · exact hm hprune hkey.symm
      · exact ⟨q, by rw [List.getElem?_set_ne (Ne.symm hji)]; exact hq, hkey, htask⟩
    refine ⟨fun j q hq => ?_, fun key j hj => ?_⟩
    · rcases get_set hp hq with ⟨-, rfl⟩ | ⟨-, hq⟩
      · exact ht.ordered
      · exact h.ordered j q hq
    · cases m with
      | insert =>
        change (s.processes.insert p.pid i).lookup key = some j at hj
        by_cases hkey : key = p.pid
        · subst hkey
          rw [AList.lookup_insert] at hj
          cases hj
          refine ⟨p', get_set_self hp, ht.pid, fun hdone => ?_⟩
          have hspawned := ht.insert rfl
          have hdone' : p.task = .done := (ht.task.mp hdone).resolve_right (by simp)
          have hret := (h.ordered i p hp).returned (by simp [hdone'])
          rw [hspawned] at hret
          cases hret
        · rw [AList.lookup_insert_ne hkey] at hj
          exact hkept key j hj (by simp)
      | prune =>
        change (s.processes.erase p.pid).lookup key = some j at hj
        by_cases hkey : key = p.pid
        · subst hkey
          rw [AList.lookup_erase] at hj
          cases hj
        · rw [AList.lookup_erase_ne hkey] at hj
          exact hkept key j hj fun _ => hkey
      | _ => exact hkept key j hj (by simp)

theorem entered_initial (h : Initial s) : Entered s := by
  subst h
  refine ⟨fun i p hp => ?_, fun pid i hi => ?_⟩
  · rw [List.getElem?_nil] at hp
    cases hp
  · rw [AList.lookup_empty] at hi
    cases hi

/-- A process whose task has run has no entry, under whatever PID. -/
theorem Entered.gone (h : Entered s) {i : ℕ} (hp : s.procs[i]? = some p) (ht : p.task = .done) (pid : ℕ) :
    s.processes.lookup pid ≠ some i := by
  intro hi
  obtain ⟨q, hq, -, hq'⟩ := h.entry pid i hi
  rw [hp] at hq
  cases hq
  exact hq' ht

theorem reach_entry_gone (h : Reach step (fun _ _ => True) Initial s) {i : ℕ} (hp : s.procs[i]? = some p)
    (ht : p.task = .done) (pid : ℕ) : s.processes.lookup pid ≠ some i :=
  (h.invariant (fun _ => entered_initial) fun _ _ _ hi _ hs => entered_step hi hs : Entered s).gone hp ht pid

/-! ### One process for a PID -/

/-- The kernel gives a PID to a new process only when the task of every earlier process with this PID has run. -/
def Unshared (s : State) : Act → Prop
  | .start pid _ => ∀ p ∈ s.procs, p.pid = pid → p.task = .done
  | .move _ _ => True

instance (s : State) : ∀ a, Decidable (Unshared s a)
  | .start pid _ => inferInstanceAs (Decidable (∀ p ∈ s.procs, p.pid = pid → p.task = .done))
  | .move _ _ => isTrue trivial

structure Sole (s : State) : Prop where
  entered : Entered s
  apart : ∀ (i j : ℕ) (p q : Process), s.procs[i]? = some p → s.procs[j]? = some q → i ≠ j → p.pid = q.pid →
    p.task = .done ∨ q.task = .done
  own : ∀ (i : ℕ) (p : Process), s.procs[i]? = some p → p.request ≠ .spawned → p.task ≠ .done →
    s.processes.lookup p.pid = some i

section Sole

variable {s : State} {i : ℕ} {p p' : Process} {m : Move}

theorem Sole.start (h : Sole s) {pid : ℕ} {tag : Option String} (hok : ∀ p ∈ s.procs, p.pid = pid → p.task = .done)
    (he : Entered { s with procs := s.procs ++ [⟨pid, tag, .spawned, .running, .none⟩] }) :
    Sole { s with procs := s.procs ++ [⟨pid, tag, .spawned, .running, .none⟩] } := by
  refine ⟨he, fun i j p q hp hq hij hpid => ?_, fun i p hp hr ht => ?_⟩
  · rcases get_append_new hp with hp | ⟨hi, rfl⟩ <;> rcases get_append_new hq with hq | ⟨hj, rfl⟩
    · exact h.apart i j p q hp hq hij hpid
    · exact .inl (hok p (List.mem_of_getElem? hp) hpid)
    · exact .inr (hok q (List.mem_of_getElem? hq) hpid.symm)
    · omega
  · rcases get_append_new hp with hp | ⟨-, rfl⟩
    · exact h.own i p hp hr ht
    · exact absurd rfl hr

/-- The others keep their entries: a process that inserts or prunes shares its PID with no other one. -/
theorem Sole.lookup_of_ne (h : Sole s) (hp : s.procs[i]? = some p) (ht : Turned p m p') {j : ℕ} {q : Process}
    (hq : s.procs[j]? = some q) (hji : j ≠ i) (hdone : q.task ≠ .done) :
    (m.onRegistry p.pid i s.processes).lookup q.pid = s.processes.lookup q.pid := by
  have hne : p.task ≠ .done → q.pid ≠ p.pid := fun hpt hpid =>
    (h.apart i j p q hp hq (Ne.symm hji) hpid.symm).elim hpt hdone
  cases m with
  | insert =>
    have hpt : p.task ≠ .done := by
      intro hpt
      have hret := (h.entered.ordered i p hp).returned (by simp [hpt])
      rw [ht.insert rfl] at hret
      cases hret
    exact AList.lookup_insert_ne (hne hpt)
  | prune => exact AList.lookup_erase_ne (hne (ht.prune rfl))
  | _ => rfl

theorem Sole.move (h : Sole s) (hp : s.procs[i]? = some p) (ht : Turned p m p')
    (he : Entered ⟨s.procs.set i p', m.onRegistry p.pid i s.processes⟩) :
    Sole ⟨s.procs.set i p', m.onRegistry p.pid i s.processes⟩ := by
  have hkeep : p.task = .done → p'.task = .done := fun hd => ht.task.mpr (.inl hd)
  refine ⟨he, fun j k q r hq hr hjk hpid => ?_, fun j q hq hreq htask => ?_⟩
  · rcases get_set hp hq with ⟨rfl, rfl⟩ | ⟨hji, hq'⟩ <;> rcases get_set hp hr with ⟨rfl, rfl⟩ | ⟨hki, hr'⟩
    · exact absurd rfl hjk
    · exact (h.apart j k p r hp hr' hjk (ht.pid.symm.trans hpid)).imp_left hkeep
    · exact (h.apart j k q p hq' hp hjk (hpid.trans ht.pid)).imp_right hkeep
    · exact h.apart j k q r hq' hr' hjk hpid
  · rcases get_set hp hq with ⟨rfl, rfl⟩ | ⟨hji, hq⟩
    · show (m.onRegistry p.pid j s.processes).lookup q.pid = some j
      have hold : p.task ≠ .done := fun hd => htask (hkeep hd)
      rw [ht.pid]
      by_cases hins : m = .insert
      · subst hins
        exact AList.lookup_insert _
      · have hreq' : p.request ≠ .spawned := fun hr => hreq (ht.request.mpr ⟨hr, hins⟩)
        have hprune : m ≠ .prune := fun hm => htask (ht.task.mpr (.inr hm))
        have hsame : m.onRegistry p.pid j s.processes = s.processes := by
          cases m with
          | insert => exact absurd rfl hins
          | prune => exact absurd rfl hprune
          | _ => rfl
        rw [hsame]
        exact h.own j p hp hreq' hold
    · show (m.onRegistry p.pid i s.processes).lookup q.pid = some j
      rw [h.lookup_of_ne hp ht hq hji htask]
      exact h.own j q hq hreq htask

end Sole

theorem sole_step (h : Sole s) (hok : Unshared s a) (hs : step s a = some s') : Sole s' := by
  have he := entered_step h.entered hs
  rcases step_cases h.entered hs with ⟨pid, tag, rfl, rfl⟩ | ⟨i, m, p, p', hp, ht, rfl⟩
  · exact h.start hok he
  · exact h.move hp ht he

theorem sole_initial (h : Initial s) : Sole s := by
  refine ⟨entered_initial h, fun i j p q hp => ?_, fun i p hp => ?_⟩ <;> subst h <;> rw [List.getElem?_nil] at hp <;>
    cases hp

/-- In runs in which a PID is handed out again only after the task of its last process has run, a process is found under
its PID from the insert until its end event is stored, and has no entry when all its tasks have run. -/
theorem reach_registry {s : State} (h : Reach step Unshared Initial s) :
    ∀ (i : ℕ) (p : Process), s.procs[i]? = some p →
      (p.request ≠ .spawned → p.waiter.ended = false → getProcessBySelector s (.pid p.pid) = .ok i) ∧
      (p.task = .done → ∀ pid, s.processes.lookup pid ≠ some i) := by
  have hsole : Sole s := h.invariant (fun _ => sole_initial) fun _ _ _ hi hok hs => sole_step hi hok hs
  intro i p hp
  refine ⟨fun hr hw => ?_, fun ht => hsole.entered.gone hp ht⟩
  have htask : p.task ≠ .done := by
    intro ht
    rw [(hsole.entered.ordered i p hp).done ht] at hw
    cases hw
  rw [getProcessBySelector, hsole.own i p hp hr htask]

/-! ### Runs -/

def empty : State := ⟨[], ∅⟩

/-- A process ends and is pruned before its PID is used again. -/
def orderlyRun : List Act :=
  [.start 5 none, .move 0 .insert, .move 0 .subscribeEnd, .move 0 .spawnTask, .move 0 .exit, .move 0 .reap,
    .move 0 .storeEnd, .move 0 .sendEnd, .move 0 .prune, .start 5 (some "job"), .move 1 .insert]

theorem orderly_run_registered :
    getProcessBySelector (last step empty orderlyRun) (.pid 5) = .ok 1 ∧
      ∀ pid, (last step empty orderlyRun).processes.lookup pid ≠ some 0 := by
  have hadm : Admits step Unshared empty orderlyRun := by decide +kernel
  have hreach : Reach step Unshared Initial (last step empty orderlyRun) := .last rfl hadm
  have hprocs : (last step empty orderlyRun).procs =
      [⟨5, none, .returned, .sent, .done⟩, ⟨5, some "job", .inserted, .running, .none⟩] := by decide +kernel
  exact ⟨(reach_registry hreach 1 ⟨5, some "job", .inserted, .running, .none⟩ (by rw [hprocs]; rfl)).1 (by decide) rfl,
    (reach_registry hreach 0 ⟨5, none, .returned, .sent, .done⟩ (by rw [hprocs]; rfl)).2 rfl⟩

/-- The first process has been reaped when the second one gets its PID; its task then removes the entry of the second,
which is running. -/
theorem running_process_pruned :
    (exec step empty [.start 5 none, .move 0 .insert, .move 0 .subscribeEnd, .move 0 .spawnTask, .move 0 .exit,
      .move 0 .reap, .start 5 none, .move 1 .insert, .move 1 .subscribeEnd, .move 1 .spawnTask, .move 0 .storeEnd,
      .move 0 .sendEnd, .move 0 .prune]).map (fun s => (s.procs[1]?, getProcessBySelector s (.pid 5))) =
      some (some ⟨5, none, .returned, .running, .parked false⟩,
        .error ⟨.notFound, "process with pid 5 not found"⟩) := by
  decide +kernel

end Wrenn.Processes.Registry
