import Wrenn.ControlPlane.Steps

/-!
# A destroy that has been accepted

A row that is `stopping`, `stopped` or `error` should stay so.  The conditional updates respect that: the
only old status among the three that any of them names is `stopping`, for `stopped`.  Two statements do not
look: `MarkSandboxesMissingByHost` takes `stopping` rows along, and a `missing` row is restored when its
capsule is found on the host; and the monitor's synchronisation writes the status an agent has reported to
rows that were `running` when it read them.

`Prudent` is the condition on these two.
-/

namespace Wrenn.ControlPlane.Finality

open Lib.Runs Lib.Tables Database Model Steps

/-- On the way out, or gone. -/
def ended : Status → Bool
  | .stopping | .stopped | .error => true
  | _ => false

def Ended (t : Sandboxes) (c : ℕ) : Prop := ∃ r, t.select c = some r ∧ ended r.status = true

variable {c : ℕ} {s : Stmt} {k k' : Core} {w : World}

/-- A statement that writes `st` to rows that it selects by `p`. -/
theorem ended_setStatus {t : Sandboxes} {p : Row → Bool} {st : Status} {now : ℕ} (h : Ended t c)
    (hp : ∀ r, t.select c = some r → p r = true → ended r.status = true → ended st = true) :
    Ended (setStatus t p st now) c := by
  obtain ⟨r, hr, he⟩ := h
  refine ⟨if p r then { r with status := st, lastUpdated := now } else r, ?_, ?_⟩
  · rw [select_setStatus, hr, Option.map_some]
  · by_cases hpr : p r = true
    · rw [if_pos hpr]
      exact hp r hr hpr he
    · rw [if_neg hpr]
      exact he

theorem ended_updateIf {t : Sandboxes} {id : ℕ} {old new : Status} {now : ℕ} (h : Ended t c)
    (hon : ended old = true → ended new = true) : Ended (updateSandboxStatusIf t id old new now) c := by
  refine ended_setStatus h fun r _ hp he => hon ?_
  rw [← (of_decide_eq_true hp).2]
  exact he

/-! ### Statements -/

/-- The condition on one statement. -/
def keeps (k : Core) : Stmt → Prop
  | .markMissing h => ∀ r ∈ k.rows.rows, r.host = h → r.status ≠ .stopping
  | .bulkUpdate ids st => ended st = true ∨ ∀ c ∈ ids, ¬ Ended k.rows c
  | .onHit s => keeps k s
  | _ => True

/-- The conditional updates that are in scripts lead from `stopping` nowhere but to `stopped`. -/
def sane : Stmt → Prop
  | .updateIf _ olds new => ∀ old ∈ olds, ended old = true → ended new = true
  | .claim op _ => ended op.old = false
  | .agent op _ => ended op.old = false
  | .call op _ => ended op.old = false
  | .resolve _ old new => ended old = true → ended new = true
  | .settle _ _ r => r.status ≠ .stopped ∧ r.status ≠ .error
  | .onHit s => sane s
  | _ => True

theorem sane_updates {old new : Status} (hu : Updates s c old new) (hs : sane s)
    (ho : ended old = true) : ended new = true := by
  cases hu with
  | claim op c => exact absurd (hs.symm.trans ho) nofun
  | updateIf c old olds new => exact hs old List.mem_cons_self ho
  | resolve c old new => exact hs ho

/-- **One statement.** -/
theorem ended_changes (hc : Ended k.rows c) (hs : sane s) (hk : keeps k s)
    (h : Changes k s k') : Ended k'.rows c := by
  induction h with
  | insert hi =>
    obtain ⟨r, hr, he⟩ := hc
    obtain ⟨hnone, hsel⟩ := Table.select_insert (k := c) hi
    refine ⟨r, ?_, he⟩
    rw [hsel, if_neg]
    · exact hr
    · intro hcc
      rw [hcc] at hr
      exact absurd (hnone.symm.trans hr) nofun
  | updateIf hu => exact ended_updateIf hc (sane_updates hu hs)
  | destroyMark hr => exact ended_setStatus hc fun _ _ _ _ => rfl
  | markMissing h =>
    refine ended_setStatus hc fun r hr hp he => ?_
    obtain ⟨hh, hst⟩ := of_decide_eq_true hp
    have hne := hk r (Table.select_eq_some.mp hr).1 hh
    -- of the statuses that are marked only `stopping` has ended
    revert he hst hne
    cases r.status <;> simp [ended]
  | restore ids st =>
    refine ended_setStatus hc fun r _ hp he => ?_
    rw [(of_decide_eq_true hp).2] at he
    cases he
  | bulkUpdate ids st =>
    refine ended_setStatus hc fun r hr hp he => ?_
    rcases hk with hst | hno
    · exact hst
    · refine absurd ⟨r, ?_, he⟩ (hno r.id (of_decide_eq_true hp))
      exact Table.select_mem (Table.select_eq_some.mp hr).1
  | onHit h ih => exact ih hs hk
  | _ => exact hc

/-- An acceptance comes with a row that has ended. -/
theorem accepted_changes (h : Changes k s k') (hc : c ∈ k'.accepted) :
    c ∈ k.accepted ∨ Ended k'.rows c := by
  induction h with
  | @accept c0 r hr hst =>
    rcases List.mem_cons.mp hc with rfl | hc
    · refine .inr ⟨r, hr, ?_⟩
      rcases hst with hst | hst <;> (rw [hst]; rfl)
    · exact .inl hc
  | @destroyMark c0 hr =>
    rcases List.mem_cons.mp hc with rfl | hc
    · obtain ⟨r, hr⟩ := Option.isSome_iff_exists.mp hr
      refine .inr ⟨{ r with status := .stopping, lastUpdated := k.now }, ?_, rfl⟩
      have hid : r.id = c := Table.select_key hr
      change (setStatus k.rows _ _ _).select c = _
      rw [select_setStatus, hr, Option.map_some, if_pos (by simpa using hid)]
    · exact .inl hc
  | onHit h ih => exact ih hc
  | _ => exact .inl hc

/-! ### Scripts -/

theorem sane_compares {rep : List (ℕ × Wrenn.Sandbox.Startup.SandboxStatus)} {rows : List Row}
    (h : Compares rep rows s) : sane s := by
  cases h <;> trivial

theorem sane_settles {rep : List (ℕ × Wrenn.Sandbox.Startup.SandboxStatus)} {r : Row}
    (hr : r.status ≠ .stopped ∧ r.status ≠ .error) (h : Settles rep r s) : sane s := by
  cases h with
  | promote hst hnew =>
    intro he
    rcases hst with hst | hst | hst <;> (rw [hst] at he; cases he)
  | final ha =>
    intro he
    obtain ⟨h1, h2⟩ := hr
    revert he h1 h2
    cases r.status <;> simp [ended, finalStatus]
  | _ => trivial

theorem sane_finish (c : ℕ) (ok : Bool) {op : Op} (h : s ∈ op.finish c ok) : sane s := by
  have hall : ∀ s ∈ op.finish c ok, sane s := by
    cases op <;> cases ok <;> simp [Op.finish, sane, ended]
  exact hall s h

theorem sane_handleMessage {e : Event} (h : s ∈ handleMessage e) : sane s := by
  have hall : ∀ s ∈ handleMessage e, sane s := by
    unfold handleMessage
    split <;> simp [handleStarted, handleFailed, handleAutoPaused, handleStopped, sane, ended]
  exact hall s h

theorem sane_start {s0 : Start} (h : s ∈ s0.script k) : sane s := by
  cases s0 with
  | create h0 refs =>
    simp only [Start.script] at h
    split_ifs at h
    · rw [List.mem_singleton.mp h]
      trivial
    · cases h
  | deliver e => exact sane_handleMessage h
  | _ =>
    rw [List.mem_singleton.mp h]
    trivial

/-- **What comes next.** -/
theorem sane_follows {s' : Stmt} (hs : sane s) (h : Follows k k' s s') :
    sane s' := by
  induction h with
  | claim ho =>
    rcases ho with ho | ho <;> (rw [sane, ho]; rfl)
  | agent | call => exact hs
  | @rollback op c =>
    intro old ho he
    rw [List.mem_singleton.mp ho] at he
    cases op <;> cases he
  | finish hf => exact sane_finish _ _ hf
  | @destroyed c n s hm =>
    have hall : ∀ s ∈ destroyed c, sane s := by simp [destroyed, sane, ended]
    exact hall s hm
  | updateIf => exact fun o ho => hs o (List.mem_cons_of_mem _ ho)
  | started =>
    intro old ho he
    rw [List.mem_singleton.mp ho] at he
    cases he
  | failed => exact fun _ _ _ => rfl
  | missing hm => exact sane_compares (compares_of_mem (.inl hm))
  | running hm => exact sane_compares (compares_of_mem (.inr hm))
  | settle hr =>
    obtain ⟨-, hst⟩ := of_decide_eq_true (Table.mem_list.mp hr).2
    refine ⟨fun he => ?_, fun he => ?_⟩ <;> (rw [he] at hst; simp at hst)
  | settles hm => exact sane_settles hs (settles_of_mem hm)
  | @redestroyed c retry s hm =>
    have hall : ∀ s ∈ redestroyed c retry, sane s := by
      cases retry <;> simp [redestroyed, sane, ended]
    exact hall s hm
  | onHit h ih => exact ih hs
  | _ => trivial

/-! ### Whole runs -/

/-- The condition of the development.  No row of a host is `stopping` when the host's capsules are marked
missing, and none of the rows that the monitor synchronises to a reported status has been taken out of
service since it was read. -/
def Prudent (w : World) : Act → Prop
  | .act t _ => ∀ s ∈ (w.threads[t]?).bind fun th => th.script.head?, keeps w.core s
  | _ => True

structure Inv (w : World) : Prop where
  sane : ∀ s ∈ w.stmts, sane s
  accepted : ∀ c ∈ w.core.accepted, Ended w.core.rows c

theorem inv_of_initial (h : Initial w) : Inv w := by
  refine ⟨fun s hs => ?_, fun c hc => ?_⟩
  · rw [World.stmts, h.threads] at hs
    cases hs
  · rw [h.accepted] at hc
    cases hc

/-- **One step.** -/
theorem ended_step {w' : World} {a : Act} (hi : Inv w) (hok : Prudent w a)
    (h : step w a = some w') (hc : Ended w.core.rows c) : Ended w'.core.rows c := by
  cases moves_of_step h with
  | @start s0 _ =>
    change Ended (s0.core w.core).rows c
    rw [start_rows]
    exact hc
  | @act t ch s r w' he => exact ended_changes hc (hi.sane s he.head_mem) (hok s he.head) he.changes
  | _ => exact hc

theorem inv_step {w' : World} {a : Act} (hi : Inv w) (hok : Prudent w a) (h : step w a = some w') :
    Inv w' := by
  have hkeep : ∀ c, Ended w.core.rows c → Ended w'.core.rows c := fun c => ended_step hi hok h
  cases moves_of_step h with
  | @start s0 _ =>
    refine ⟨fun s hs => ?_, fun c hc => hkeep c (hi.accepted c ?_)⟩
    · rw [stmts_start] at hs
      rcases List.mem_append.mp hs with hs | hs
      · exact hi.sane s hs
      · exact sane_start hs
    · change c ∈ (s0.core w.core).accepted at hc
      rwa [start_accepted] at hc
  | @act t ch s r w' he =>
    refine ⟨fun s' hs' => ?_, fun c hc => ?_⟩
    · rcases he.mem_stmts hs' with hs' | hs'
      · exact sane_follows (hi.sane s he.head_mem) (he.follows hs')
      · exact hi.sane s' hs'
    · rcases accepted_changes he.changes hc with hc | hc
      · exact hkeep c (hi.accepted c hc)
      · exact hc
  | crash hsub => exact ⟨fun s hs => hi.sane s (hsub.subset hs), hi.accepted⟩
  | _ => exact ⟨hi.sane, hi.accepted⟩

theorem reach_inv (h : Reach step Prudent Initial w) : Inv w :=
  h.invariant (I := Inv) (fun _ h0 => inv_of_initial h0) fun _ _ _ hi hok hs => inv_step hi hok hs

/-- **An accepted destroy is never undone.**  In every run that meets `Prudent`: from a state in which
`Destroy` has returned nil for the capsule, or its row is `stopped` or `error`, every later state has it
`stopping`, `stopped` or `error`. -/
theorem reach_destroy_final {w w' : World} {c : ℕ} (hw : Reach step Prudent Initial w)
    (hc : c ∈ w.core.accepted ∨
      ∃ r, w.core.rows.select c = some r ∧ (r.status = .stopped ∨ r.status = .error))
    (hw' : Reach step Prudent (fun v => v = w) w') :
    ∃ r, w'.core.rows.select c = some r ∧
      r.status ∉ [.starting, .running, .pausing, .paused, .resuming, .snapshotting] := by
  have hi : Inv w := reach_inv hw
  have h0 : Ended w.core.rows c := by
    rcases hc with hc | ⟨r, hr, hst⟩
    · exact hi.accepted c hc
    · refine ⟨r, hr, ?_⟩
      rcases hst with hst | hst <;> (rw [hst]; rfl)
  have hlast : Inv w' ∧ Ended w'.core.rows c :=
    hw'.invariant (I := fun v => Inv v ∧ Ended v.core.rows c) (fun v hv => by rw [hv]; exact ⟨hi, h0⟩)
      fun v a v' hv hok hs => ⟨inv_step hv.1 hok hs, ended_step hv.1 hok hs hv.2⟩
  obtain ⟨r, hr, he⟩ := hlast.2
  refine ⟨r, hr, ?_⟩
  revert he
  cases r.status <;> simp [ended]

/-! ### Schedules -/

instance decidableEnded (t : Sandboxes) (c : ℕ) : Decidable (Ended t c) :=
  decidable_of_iff ((t.select c).any (fun r => ended r.status) = true) (Option.any_eq_true ..)

instance decidableKeeps (k : Core) (s : Stmt) : Decidable (keeps k s) := by
  cases s with
  | markMissing h => exact inferInstanceAs (Decidable (∀ r ∈ k.rows.rows, r.host = h → r.status ≠ .stopping))
  | bulkUpdate ids st => exact inferInstanceAs (Decidable (ended st = true ∨ ∀ c ∈ ids, ¬ Ended k.rows c))
  | onHit s => exact decidableKeeps k s
  | _ => exact isTrue trivial

instance decidablePrudent (w : World) : ∀ a : Act, Decidable (Prudent w a)
  | .act t _ =>
    inferInstanceAs (Decidable (∀ s ∈ (w.threads[t]?).bind fun th => th.script.head?, keeps w.core s))
  | .start _ | .crash _ | .agent _ _ | .vanish _ _ | .post _ | .tick _ => isTrue trivial

/-- A capsule is created on the host 0 and its row is `running`. -/
def createRun : List Act :=
  [.start (.create 0 []), .act 0 .ok, .act 0 .ok, .act 0 .ok, .act 0 .ok, .act 0 .ok, .act 0 .ok]

/-- `Destroy` has returned; `destroyInBackground` has not called the agent yet. -/
def acceptRun : List Act := createRun ++ ([.start (.destroy 0), .act 1 .ok, .act 1 .ok] : List Act)

/-- `destroyInBackground`. -/
def destroyRun : List Act := [.act 1 .ok, .act 1 .ok, .act 1 .ok, .act 1 .ok]

/-- Whether a destroy has been accepted, and the status of the row. -/
def verdict (w : World) : Bool × Option Status :=
  (decide (0 ∈ w.core.accepted), (w.core.rows.select 0).map Row.status)

theorem destroyed_stays_stopped :
    verdict (last step (idle Table.empty) acceptRun) = (true, some .stopping) ∧
      ∃ r, (last step (last step (idle Table.empty) acceptRun) destroyRun).core.rows.select 0 = some r ∧
        r.status ∉ [.starting, .running, .pausing, .paused, .resuming, .snapshotting] := by
  have haccept : Admits step Prudent (idle Table.empty) acceptRun := by decide +kernel
  have hdestroy : Admits step Prudent (last step (idle Table.empty) acceptRun) destroyRun := by
    decide +kernel
  refine ⟨by decide +kernel, ?_⟩
  have hinit : Initial (idle Table.empty) := idle_initial (List.forall_mem_nil _)
  exact reach_destroy_final (.last hinit haccept) (.inl (by decide +kernel)) (.last rfl hdestroy)

/-- The host drops out and comes back before the destroy goes through: the row is marked `missing` and then
restored to what the agent reports, with the destroy forgotten. -/
theorem destroy_undone_by_host_recovery :
    (exec step (idle Table.empty) acceptRun).map verdict = some (true, some .stopping) ∧
      (exec step (idle Table.empty) (acceptRun ++
        ([.start (.hostDown 0), .act 2 .ok, .start (.checkHost 0), .act 3 .ok, .act 3 .ok, .act 3 .ok] : List Act))).map
          verdict = some (true, some .running) := by
  decide +kernel

/-- The monitor reads a `running` row that the agent has reported `paused`; the row it writes has become
`stopping` since. -/
theorem destroy_undone_by_sync :
    (exec step (idle Table.empty) (createRun ++
      ([.agent ⟨0, 0, some .paused, false, true, [], false⟩ false, .start (.checkHost 0),
        .act 1 .ok, .act 1 .ok, .act 1 .ok,
        .start (.destroy 0), .act 2 .ok, .act 2 .ok, .act 1 .ok] : List Act))).map verdict =
      some (true, some .paused) := by
  decide +kernel

end Wrenn.ControlPlane.Finality
