import Wrenn.Lib.Runs

/-!
# `Create` and `Destroy` of one sandbox ID

One `Create`, from a base image or from a snapshot template, and any number of `Destroy` calls for the
same ID.  `Create` puts a handle into `m.creates` before it acquires anything; a `Destroy` that finds the
handle cancels the creation, waits until `done` is closed and only then looks into `m.boxes`.  What `Create`
does last (`unregister`, `cancel`, `close`) is its deferred function, so it comes after a rollback as well as
after the publication in `m.boxes`.

Every resource step of `Create` succeeds or fails as the environment likes, cancelled or not.  A step that
fails leaves nothing behind: `CreateNetwork`, `devicemapper.CreateSnapshot`, `vm.Create` and
`vm.CreateFromSnapshot` clean up after themselves.  The crash watcher is left out: it acts only when the
machine exits while the ID is in `m.boxes`, and the machine is destroyed after the ID has left it.

`held` are the resources that this `Create` has acquired and nobody has released; `res` are those its
`createResources` knows of.  Whoever answers for a resource *owes* its release: `Create` on its way, the
entry of `m.boxes`, or the `Destroy` that has removed the entry.
-/

namespace Wrenn.Create.Handshake

open Lib.Runs Function

inductive Res
  | vm
  | network
  | slot
  | dm
  | loop
  deriving DecidableEq, Repr

/-- In the order in which `createResources.rollback` and `cleanup` release them. -/
def allRes : List Res := [.vm, .network, .slot, .dm, .loop]

inductive Pc
  | entry
  | register
  /-- the template's rootfs, or the metadata of a snapshot template -/
  | resolve
  | loop
  | size
  | mkdir
  | dm
  | slot
  | network
  | volumes
  | launch
  /-- `launchRestoredVM`: `vm.Resume` -/
  | resume
  | ready
  | mount
  | publish
  /-- `initAndStartMemoryLoader` -/
  | loader
  /-- sampler, crash watcher and running state -/
  | state
  | undo (ops : List Res)
  | unregister
  | cancel
  | close
  | returned
  deriving DecidableEq, Repr

inductive DestroyPc
  | called
  | cancel
  | await
  | look
  | lock
  | joinLoader
  | tear (ops : List Res)
  /-- `os.RemoveAll` of the pause directory; the mutex is given up on return -/
  | removeDir (locked : Bool)
  | returned
  deriving DecidableEq, Repr

/-- A `Destroy` call; `observed` says that it found the handle of the creation. -/
structure Destroy where
  pc : DestroyPc
  observed : Bool
  deriving DecidableEq, Repr

structure World where
  /-- the template carries a memory snapshot -/
  template : Bool
  boxes : Bool
  creates : Bool
  cancelled : Bool
  done : Bool
  lifecycleMu : Bool
  loading : Bool
  create : Pc
  res : Res → Bool
  held : Res → Bool
  destroys : ℕ → Option Destroy

/-- `createResources.rollback`. -/
def rollback (res : Res → Bool) : List Res := allRes.filter res

def World.acquire (w : World) (r : Res) (known : Bool) (pc : Pc) : World :=
  { w with
    held := Function.update w.held r true
    res := if known then Function.update w.res r true else w.res
    create := pc }

def World.release (w : World) (r : Res) : World := { w with held := Function.update w.held r false }

/-- The next step of `Create`; `ok` says whether what it attempts succeeds. -/
def create (w : World) (ok : Bool) : Option World :=
  match w.create with
  | .entry => some { w with create := if ok then .register else .returned }
  | .register =>
    if w.boxes ∨ w.creates then some { w with create := .returned }
    else some { w with creates := true, create := .resolve }
  | .resolve => some { w with create := if ok then .loop else .undo [] }
  | .loop => some (if ok then w.acquire .loop false .size else { w with create := .undo [] })
  | .size => some { w with create := if ok then .mkdir else .undo [.loop] }
  | .mkdir => some { w with create := if ok then .dm else .undo [.loop] }
  | .dm =>
    -- from here on `createResources` knows the image and the device
    some (if ok then { w.acquire .dm true .slot with
      res := Function.update (Function.update w.res .loop true) .dm true }
      else { w with create := .undo [.loop] })
  | .slot =>
    some (if ok then w.acquire .slot true .network else { w with create := .undo (rollback w.res) })
  | .network =>
    some (if ok then w.acquire .network true (if w.template then .launch else .volumes)
      else { w with create := .undo (rollback w.res) })
  | .volumes => some { w with create := if ok then .launch else .undo (rollback w.res) }
  | .launch =>
    some (if ok then w.acquire .vm (!w.template) (if w.template then .resume else .ready)
      else { w with create := .undo (rollback w.res) })
  | .resume => some { w with create := if ok then .ready else .undo (.vm :: rollback w.res) }
  | .ready =>
    -- `launchRestoredVM` destroys its machine itself
    if w.template then
      some (if ok then { w with res := Function.update w.res .vm true, create := .publish }
        else { w with create := .undo (.vm :: rollback w.res) })
    else some { w with create := if ok then .mount else .undo (rollback w.res) }
  | .mount => some { w with create := if ok then .publish else .undo (rollback w.res) }
  | .publish => some { w with boxes := true, create := if w.template then .loader else .state }
  | .loader => some { w with loading := ok, create := .state }
  | .state => some { w with create := .unregister }
  | .undo (r :: ops) => some { w.release r with create := .undo ops }
  | .undo [] => some { w with create := .unregister }
  | .unregister => some { w with creates := false, create := .cancel }
  | .cancel => some { w with cancelled := true, create := .close }
  | .close => some { w with done := true, create := .returned }
  | .returned => none

def World.setDestroy (w : World) (i : ℕ) (d : Destroy) : World :=
  { w with destroys := Function.update w.destroys i (some d) }

/-- The second half of `Destroy`'s look at the maps: the entry is removed if it is there. -/
def takeBox (w : World) (i : ℕ) (observed : Bool) : World :=
  if w.boxes then { w with boxes := false }.setDestroy i ⟨.lock, observed⟩
  else w.setDestroy i ⟨.removeDir false, observed⟩

/-- The next step of the `Destroy` call `i`. -/
def destroy (w : World) (i : ℕ) (d : Destroy) : Option World :=
  match d.pc with
  | .called => some (if w.creates then w.setDestroy i ⟨.cancel, true⟩ else takeBox w i d.observed)
  | .cancel => some ({ w with cancelled := true }.setDestroy i ⟨.await, d.observed⟩)
  | .await => if w.done then some (w.setDestroy i ⟨.look, d.observed⟩) else none
  | .look => some (takeBox w i d.observed)
  | .lock =>
    if w.lifecycleMu then none
    else some ({ w with lifecycleMu := true }.setDestroy i ⟨.joinLoader, d.observed⟩)
  | .joinLoader => if w.loading then none else some (w.setDestroy i ⟨.tear allRes, d.observed⟩)
  | .tear (r :: ops) => some ((w.release r).setDestroy i ⟨.tear ops, d.observed⟩)
  | .tear [] => some (w.setDestroy i ⟨.removeDir true, d.observed⟩)
  | .removeDir locked =>
    some ({ w with lifecycleMu := w.lifecycleMu && !locked }.setDestroy i ⟨.returned, d.observed⟩)
  | .returned => none

inductive Act
  | create (ok : Bool)
  | call (i : ℕ)
  | destroy (i : ℕ)
  /-- the memory loader ends, finished or cancelled -/
  | loaded
  deriving DecidableEq, Repr

def step (w : World) : Act → Option World
  | .create ok => create w ok
  | .call i => if (w.destroys i).isNone then some (w.setDestroy i ⟨.called, false⟩) else none
  | .destroy i =>
    match w.destroys i with
    | none => none
    | some d => destroy w i d
  | .loaded => if w.loading then some { w with loading := false } else none

/-- `Create` has been called for an ID that nobody knows yet. -/
def start (template : Bool) : World where
  template := template
  boxes := false
  creates := false
  cancelled := false
  done := false
  lifecycleMu := false
  loading := false
  create := .entry
  res := fun _ => false
  held := fun _ => false
  destroys := fun _ => none

/-! ### Who owes what -/

/-- What `Create` has to release should it fail at this point. -/
def Pc.owed : Pc → List Res
  | .size | .mkdir | .dm => [.loop]
  | .slot => [.dm, .loop]
  | .network => [.slot, .dm, .loop]
  | .volumes | .launch => [.network, .slot, .dm, .loop]
  | .resume | .ready | .mount | .publish => allRes
  | .undo ops => ops
  | _ => []

/-- What `createResources` knows of at this point. -/
def Pc.known (template : Bool) : Pc → List Res
  | .slot => [.dm, .loop]
  | .network => [.slot, .dm, .loop]
  | .volumes | .launch => [.network, .slot, .dm, .loop]
  | .resume | .ready => if template then [.network, .slot, .dm, .loop] else allRes
  | .mount => allRes
  | _ => []

def DestroyPc.owed : DestroyPc → List Res
  | .lock | .joinLoader => allRes
  | .tear ops => ops
  | _ => []

variable {w w' : World}

/-- A resource that is held after a step of `Create` is owed by `Create` or by the entry, or it was held
before and none of `Create`'s business. -/
def Passes (w w' : World) : Prop :=
  ∀ r, w'.held r = true →
    r ∈ w'.create.owed ∨ w'.boxes = true ∨ w.held r = true ∧ r ∉ w.create.owed

theorem passes_keep (hh : w'.held = w.held) (ho : ∀ r ∈ w.create.owed, r ∈ w'.create.owed) :
    Passes w w' := by
  intro r hr
  rw [hh] at hr
  by_cases hm : r ∈ w.create.owed
  · exact .inl (ho r hm)
  · exact .inr (.inr ⟨hr, hm⟩)

variable {r0 r : Res} {ok : Bool} {pc : DestroyPc} {i : ℕ} {d d' : Destroy}

theorem passes_acquire (hh : w'.held = update w.held r0 true)
    (h0 : r0 ∈ w'.create.owed) (ho : ∀ r ∈ w.create.owed, r ∈ w'.create.owed) : Passes w w' := by
  intro r hr
  by_cases he : r = r0
  · exact .inl (he ▸ h0)
  · rw [hh, update_of_ne he] at hr
    by_cases hm : r ∈ w.create.owed
    · exact .inl (ho r hm)
    · exact .inr (.inr ⟨hr, hm⟩)

theorem passes_release (hh : w'.held = update w.held r0 false)
    (ho : w.create.owed = r0 :: w'.create.owed) : Passes w w' := by
  intro r hr
  by_cases he : r = r0
  · rw [hh, he, update_self] at hr
    cases hr
  · rw [hh, update_of_ne he] at hr
    by_cases hm : r ∈ w'.create.owed
    · exact .inl hm
    · refine .inr (.inr ⟨hr, ?_⟩)
      rw [ho, List.mem_cons]
      rintro (h | h)
      · exact he h
      · exact hm h

theorem mem_allRes (r : Res) : r ∈ allRes := by cases r <;> decide

/-- What `createResources` knows of is rolled back. -/
theorem mem_rollback (h : w.res r = true) : r ∈ rollback w.res :=
  List.mem_filter.mpr ⟨mem_allRes r, h⟩

/-- `launchRestoredVM` destroys the machine, `createResources` knows of the rest. -/
theorem mem_vm_rollback (h : ∀ r ∈ [Res.network, .slot, .dm, .loop], w.res r = true) (r : Res) :
    r ∈ Res.vm :: rollback w.res := by
  cases r with
  | vm => exact List.mem_cons_self ..
  | _ => exact List.mem_cons_of_mem _ (mem_rollback (h _ (by decide)))

theorem mem_known_ready {template : Bool} (h : r ∈ [Res.network, .slot, .dm, .loop]) :
    r ∈ Pc.known template .ready := by
  cases template with
  | true => exact h
  | false => exact mem_allRes r

theorem create_passes (hk : ∀ r ∈ w.create.known w.template, w.res r = true)
    (h : create w ok = some w') : Passes w w' := by
  unfold create at h
  split at h <;> rename_i hc <;> rw [hc] at hk
  case h_12 =>
    cases h
    refine passes_keep rfl fun r _ => ?_
    cases ok
    · exact mem_vm_rollback (fun r hr => hk r (mem_known_ready hr)) r
    · exact mem_allRes r
  case h_13 =>
    by_cases ht : w.template = true
    · rw [if_pos ht] at h
      cases h
      cases ok
      · exact passes_keep rfl fun r _ => mem_vm_rollback (fun r hr => hk r (mem_known_ready hr)) r
      · exact passes_keep rfl fun r _ => mem_allRes r
    · rw [if_neg ht] at h
      rw [Pc.known, if_neg ht] at hk
      cases h
      refine passes_keep rfl fun r _ => ?_
      cases ok
      · exact mem_rollback (hk r (mem_allRes r))
      · exact mem_allRes r
  case h_15 =>
    cases h
    exact fun r _ => .inr (.inl rfl)
  case h_18 =>
    cases h
    exact passes_release rfl (by rw [hc]; rfl)
  -- Elsewhere `Create` owes nothing, goes on with what it owes, rolls it back, or acquires one resource more.
  all_goals
    first | cases h | (split_ifs at h <;> cases h)
  all_goals
    cases ok <;> (try dsimp only) <;> (try split_ifs)
  all_goals first
    | (refine passes_keep rfl ?_; rw [hc]; first | exact fun r hr => mem_rollback (hk r hr) | exact fun r hr => hr)
    | (refine passes_acquire rfl List.mem_cons_self ?_; rw [hc]; exact fun r hr => List.mem_cons_of_mem _ hr)

theorem mem_known_acquire {known : List Res} (hk : ∀ r ∈ known, w.res r = true)
    (hr : r ∈ r0 :: known) : update w.res r0 true r = true := by
  by_cases he : r = r0
  · rw [he, update_self]
  · rw [update_of_ne he]
    exact hk r ((List.mem_cons.mp hr).resolve_left he)

/-- `createResources` keeps up with `Create`. -/
theorem create_known (hk : ∀ r ∈ w.create.known w.template, w.res r = true)
    (h : create w ok = some w') : ∀ r ∈ w'.create.known w'.template, w'.res r = true := by
  unfold create at h
  split at h <;> rename_i hc <;> rw [hc] at hk
  case h_7 =>
    cases h
    cases ok
    · rintro r ⟨⟩
    · intro r hr
      have hr' : r ∈ [Res.dm, .loop] := hr
      rcases List.mem_cons.mp hr' with he | he
      · rw [he]
        rfl
      · rw [List.mem_singleton.mp he]
        rfl
  case h_9 =>
    cases h
    cases ok
    · rintro r ⟨⟩
    · intro r hr
      have hr' : r ∈ Pc.known w.template (if w.template then .launch else .volumes) := hr
      refine mem_known_acquire hk ?_
      revert hr'
      cases w.template <;> exact id
  case h_11 =>
    cases h
    cases ok
    · rintro r ⟨⟩
    · intro r hr
      have hr' : r ∈ Pc.known w.template (if w.template then .resume else .ready) := hr
      change (if (!w.template) = true then update w.res .vm true else w.res) r = true
      cases ht : w.template with
      | false =>
        rw [ht] at hr'
        exact mem_known_acquire hk hr'
      | true =>
        rw [ht] at hr'
        exact hk r hr'
  case h_13 =>
    by_cases ht : w.template = true
    · rw [if_pos ht] at h
      cases h
      cases ok <;> rintro r ⟨⟩
    · rw [if_neg ht] at h
      rw [Pc.known, if_neg ht] at hk
      cases h
      cases ok
      · rintro r ⟨⟩
      · exact hk
  case h_15 =>
    cases h
    cases w.template <;> rintro r ⟨⟩
  -- Elsewhere nothing has to be known, or one resource more is.
  all_goals
    first | cases h | (split_ifs at h <;> cases h)
  all_goals cases ok
  all_goals first | (rintro r ⟨⟩; done) | exact hk | exact fun r hr => mem_known_acquire hk hr

/-! ### The order of `Create`'s steps -/

/-- Not published yet. -/
def Pc.early : Pc → Bool
  | .entry | .register | .resolve | .loop | .size | .mkdir | .dm | .slot | .network | .volumes | .launch
  | .resume | .ready | .mount | .publish => true
  | _ => false

/-- The handle has been registered. -/
def Pc.begun : Pc → Bool
  | .entry | .register => false
  | _ => true

/-- The handle is in `m.creates`. -/
def Pc.mid : Pc → Bool
  | .entry | .register | .cancel | .close | .returned => false
  | _ => true

/-- How many steps `Create` has left at most; a rollback has six statements at most. -/
def Pc.rank : Pc → ℕ
  | .returned => 0
  | .close => 1
  | .cancel => 2
  | .unregister => 3
  | .undo ops => 4 + ops.length
  | .state => 4
  | .loader => 6
  | .publish => 7
  | .mount => 11
  | .ready => 12
  | .resume => 13
  | .launch => 14
  | .volumes => 15
  | .network => 16
  | .slot => 17
  | .dm => 18
  | .mkdir => 19
  | .size => 20
  | .loop => 21
  | .resolve => 22
  | .register => 23
  | .entry => 24

def World.rank (w : World) : ℕ := w.create.rank + w.loading.toNat

structure Advanced (w w' : World) : Prop where
  destroys : w'.destroys = w.destroys
  lifecycleMu : w'.lifecycleMu = w.lifecycleMu
  handle : (w.creates = true → w.create.mid = true) → w'.creates = true → w'.create.mid = true
  done : w'.done = true → w'.create = .returned ∨ w.done = true
  early : w'.create.early = true → w.create.early = true
  boxes : w'.boxes = true → w.boxes = true ∨ w.create = .publish
  keeps : w.boxes = true → w'.boxes = true
  begun : w.create.begun = true → w'.create.begun = true ∧ (w'.create = .returned → w'.done = true)
  unpublished : w'.create.early = true → w'.boxes = w.boxes
  rank : w'.rank < w.rank

theorem rollback_length (res : Res → Bool) : (rollback res).length ≤ 5 :=
  List.length_filter_le ..

/-- A step from `pc` to `pc'` that only moves `Create` on. -/
theorem advanced_go (pc pc' : Pc) (hc : w.create = pc) (hc' : w'.create = pc')
    (hd : w'.destroys = w.destroys) (hl : w'.lifecycleMu = w.lifecycleMu) (hb : w'.boxes = w.boxes)
    (hdn : w'.done = w.done) (hld : w'.loading = w.loading)
    (hm : pc'.mid = true) (hbe : pc'.begun = true)
    (he : pc'.early = true → pc.early = true) (hr : pc'.rank < pc.rank) : Advanced w w' := by
  refine ⟨hd, hl, fun _ _ => hc' ▸ hm, fun h => .inr (hdn ▸ h), fun h => ?_, fun h => .inl (hb ▸ h),
    fun h => hb.trans h, fun _ => ⟨hc' ▸ hbe, fun h => ?_⟩, fun _ => hb, ?_⟩
  · rw [hc]
    exact he (hc' ▸ h)
  · rw [hc'] at h
    rw [h] at hm
    cases hm
  · rw [World.rank, World.rank, hc, hc', hld]
    omega

theorem create_advanced (h : create w ok = some w') : Advanced w w' := by
  have hroll := rollback_length w.res
  have hno : ∀ {f : Pc → Bool} {pc : Pc}, w.create = pc → f pc = false → ¬ f w.create = true := by
    intro f pc hc hf ht
    rw [hc, hf] at ht
    cases ht
  unfold create at h
  split at h <;> rename_i hc
  case h_1 =>
    cases h
    refine ⟨rfl, rfl, fun h0 hcr => (hno hc rfl (h0 hcr)).elim, fun h => .inr h, fun _ => by rw [hc]; rfl,
      fun h => .inl h, id, fun h => (hno hc rfl h).elim, fun _ => rfl, ?_⟩
    simp only [World.rank, hc]
    cases ok <;> simp [Pc.rank]
  case h_2 =>
    split_ifs at h <;> cases h
    · exact ⟨rfl, rfl, fun h0 hcr => (hno hc rfl (h0 hcr)).elim, fun h => .inr h, nofun, fun h => .inl h, id,
        fun h => (hno hc rfl h).elim, nofun, by simp [World.rank, hc, Pc.rank]⟩
    · exact ⟨rfl, rfl, fun _ _ => rfl, fun h => .inr h, fun _ => by rw [hc]; rfl, fun h => .inl h, id,
        fun h => (hno hc rfl h).elim, fun _ => rfl, by simp [World.rank, hc, Pc.rank]⟩
  case h_15 =>
    cases h
    refine ⟨rfl, rfl, fun _ _ => ?_, fun h => .inr h, fun _ => by rw [hc]; rfl, fun _ => .inr hc, fun _ => rfl,
      fun _ => ⟨?_, fun he => ?_⟩, fun he => ?_, ?_⟩
    · cases w.template <;> rfl
    · cases w.template <;> rfl
    · cases ht : w.template <;> simp [ht] at he
    · cases ht : w.template <;> simp [ht, Pc.early] at he
    · simp only [World.rank, hc]
      cases w.template <;> simp [Pc.rank]
  case h_16 =>
    cases h
    refine ⟨rfl, rfl, fun _ _ => rfl, fun h => .inr h, nofun, fun h => .inl h, id, fun _ => ⟨rfl, nofun⟩, nofun, ?_⟩
    have hle : ok.toNat ≤ 1 := Bool.toNat_le ok
    simp only [World.rank, hc, Pc.rank]
    omega
  case h_20 =>
    cases h
    exact ⟨rfl, rfl, nofun, fun h => .inr h, nofun, fun h => .inl h, id, fun _ => ⟨rfl, nofun⟩, nofun,
      by simp [World.rank, hc, Pc.rank]⟩
  case h_21 =>
    cases h
    exact ⟨rfl, rfl, fun h0 hcr => (hno hc rfl (h0 hcr)).elim, fun h => .inr h, nofun, fun h => .inl h, id,
      fun _ => ⟨rfl, nofun⟩, nofun, by simp [World.rank, hc, Pc.rank]⟩
  case h_22 =>
    cases h
    exact ⟨rfl, rfl, fun h0 hcr => (hno hc rfl (h0 hcr)).elim, fun _ => .inl rfl, nofun, fun h => .inl h, id,
      fun _ => ⟨rfl, fun _ => rfl⟩, nofun, by simp [World.rank, hc, Pc.rank]⟩
  -- Elsewhere `Create` goes on to a later point, or to its rollback.
  all_goals
    first | cases h | (split at h <;> cases h)
  all_goals
    cases ok <;> (try dsimp only) <;> (try split_ifs)
  all_goals
    refine advanced_go _ _ hc rfl rfl rfl rfl rfl rfl rfl rfl ?_ ?_
  all_goals first
    | exact fun _ => rfl
    | (simp only [World.acquire, Pc.rank, List.length_cons, List.length_nil]; omega)
    | rintro ⟨⟩

/-! ### The system -/

/-- The `Destroy` has removed the entry. -/
def DestroyPc.taker : DestroyPc → Bool
  | .lock | .joinLoader | .tear _ | .removeDir true => true
  | _ => false

/-- The `Destroy` has `lifecycleMu`. -/
def DestroyPc.holds : DestroyPc → Bool
  | .joinLoader | .tear _ | .removeDir true => true
  | _ => false

/-- Where a `Destroy` that has found the handle stands. -/
structure Observer (w : World) (pc : DestroyPc) : Prop where
  begun : w.create.begun = true
  done : w.create = .returned → w.done = true
  waits : pc = .cancel ∨ pc = .await ∨ w.done = true ∧ (pc = .look ∨ w.boxes = false)

structure Inv (w : World) : Prop where
  known : ∀ r ∈ w.create.known w.template, w.res r = true
  handle : w.creates = true → w.create.mid = true
  done : w.done = true → w.create = .returned
  owed : ∀ r, w.held r = true →
    r ∈ w.create.owed ∨ w.boxes = true ∨ ∃ i d, w.destroys i = some d ∧ r ∈ d.pc.owed
  early : w.create.early = true → w.boxes = false
  idle : w.create.early = true ∨ w.boxes = true → ∀ i d, w.destroys i = some d → d.pc.taker = false
  one : ∀ i j d e, w.destroys i = some d → w.destroys j = some e → d.pc.taker = true →
    e.pc.taker = true → i = j
  mutex : w.lifecycleMu = true → ∃ i d, w.destroys i = some d ∧ d.pc.holds = true
  observer : ∀ i d, w.destroys i = some d → d.observed = true → Observer w d.pc
  waiting : ∀ i d, w.destroys i = some d → d.pc = .cancel ∨ d.pc = .await ∨ d.pc = .look → d.observed = true

theorem inv_start (template : Bool) : Inv (start template) where
  known := nofun
  handle := nofun
  done := nofun
  owed := fun _ => nofun
  early := fun _ => rfl
  idle := fun _ _ _ => nofun
  one := fun _ _ _ _ => nofun
  mutex := nofun
  observer := fun _ _ => nofun
  waiting := fun _ _ => nofun

theorem inv_create (hi : Inv w) (h : create w ok = some w') : Inv w' := by
  have ha : Advanced w w' := create_advanced h
  have hnd : w.done = false := by
    cases hd : w.done with
    | false => rfl
    | true =>
      rw [create, hi.done hd] at h
      cases h
  have hbox : w'.boxes = true → ∀ i d, w.destroys i = some d → d.pc.taker = false := by
    intro hb
    rcases ha.boxes hb with hb | hp
    · exact hi.idle (.inr hb)
    · exact hi.idle (.inl (by rw [hp]; rfl))
  refine ⟨create_known hi.known h, ha.handle hi.handle, fun hd => ?_, fun r hr => ?_, fun he => ?_,
    fun hc => ?_, ?_, ?_, fun i d hid ho => ?_, ?_⟩
  · exact (ha.done hd).resolve_right (by rw [hnd]; exact nofun)
  · rcases create_passes hi.known h r hr with hm | hb | ⟨hh, hn⟩
    · exact .inl hm
    · exact .inr (.inl hb)
    · rcases hi.owed r hh with hm | hb | ⟨i, d, hid, hm⟩
      · exact absurd hm hn
      · exact .inr (.inl (ha.keeps hb))
      · exact .inr (.inr ⟨i, d, ha.destroys ▸ hid, hm⟩)
  · rw [ha.unpublished he]
    exact hi.early (ha.early he)
  · rw [ha.destroys]
    rcases hc with he | hb
    · exact hi.idle (.inl (ha.early he))
    · exact hbox hb
  · rw [ha.destroys]
    exact hi.one
  · rw [ha.destroys, ha.lifecycleMu]
    exact hi.mutex
  · rw [ha.destroys] at hid
    obtain ⟨hbeg, -, hw⟩ := hi.observer i d hid ho
    refine ⟨(ha.begun hbeg).1, (ha.begun hbeg).2, ?_⟩
    rcases hw with hw | hw | ⟨hdn, -⟩
    · exact .inl hw
    · exact .inr (.inl hw)
    · rw [hnd] at hdn
      cases hdn
  · rw [ha.destroys]
    exact hi.waiting

/-- What a step of the `Destroy` call `i`, from `d` to `d'`, may do. -/
structure Turn (w : World) (i : ℕ) (d d' : Destroy) (w' : World) : Prop where
  destroys : w'.destroys = Function.update w.destroys i (some d')
  create : w'.create = w.create
  template : w'.template = w.template
  res : w'.res = w.res
  creates : w'.creates = w.creates
  done : w'.done = w.done
  loading : w'.loading = w.loading
  boxes : w'.boxes = true → w.boxes = true
  held : ∀ r, w'.held r = true → w.held r = true ∧
    (r ∈ d.pc.owed ∨ w.boxes = true ∧ w'.boxes = false → r ∈ d'.pc.owed)
  taker : d'.pc.taker = true → d.pc.taker = true ∨ w.boxes = true ∧ w'.boxes = false
  mutex : w'.lifecycleMu = true → d'.pc.holds = true ∨ w.lifecycleMu = true ∧ d.pc.holds = false
  observer : d'.observed = true → Observer w' d'.pc
  waiting : d'.pc = .cancel ∨ d'.pc = .await ∨ d'.pc = .look → d'.observed = true

theorem Turn.cases {j : ℕ} {e : Destroy} (h : Turn w i d d' w') (hj : w'.destroys j = some e) :
    j = i ∧ e = d' ∨ j ≠ i ∧ w.destroys j = some e := by
  rw [h.destroys] at hj
  by_cases he : j = i
  · rw [he, update_self] at hj
    exact .inl ⟨he, (Option.some.inj hj).symm⟩
  · rw [update_of_ne he] at hj
    exact .inr ⟨he, hj⟩

theorem Turn.self (h : Turn w i d d' w') : w'.destroys i = some d' := by
  rw [h.destroys, update_self]

theorem Turn.other {j : ℕ} (h : Turn w i d d' w') (hj : j ≠ i) :
    w'.destroys j = w.destroys j := by
  rw [h.destroys, update_of_ne hj]

theorem inv_turn (hi : Inv w) (hd : ∀ e, w.destroys i = some e → e = d)
    (hdt : d.pc.taker = true → w.destroys i = some d) (h : Turn w i d d' w') : Inv w' := by
  -- a call that becomes the taker has just removed the entry, so there was none before
  have htaker : d'.pc.taker = true → ∀ j e, j ≠ i → w.destroys j = some e → e.pc.taker = false := by
    intro ht j e hj he
    rcases h.taker ht with ht | ⟨hb, -⟩
    · cases hte : e.pc.taker with
      | false => rfl
      | true => exact absurd (hi.one j i e d he (hdt ht) hte ht) hj
    · exact hi.idle (.inr hb) j e he
  refine ⟨?_, ?_, ?_, fun r hr => ?_, fun he => ?_, fun hc j e hj => ?_, fun j k e f hj hk hte htf => ?_,
    fun hm => ?_, fun j e hj ho => ?_, fun j e hj hpc => ?_⟩
  · rw [h.create, h.template, h.res]
    exact hi.known
  · rw [h.creates, h.create]
    exact hi.handle
  · rw [h.done, h.create]
    exact hi.done
  · obtain ⟨hh, hpass⟩ := h.held r hr
    rw [h.create]
    rcases hi.owed r hh with hm | hb | ⟨j, e, hj, hm⟩
    · exact .inl hm
    · cases hb' : w'.boxes with
      | true => exact .inr (.inl rfl)
      | false => exact .inr (.inr ⟨i, d', h.self, hpass (.inr ⟨hb, hb'⟩)⟩)
    · by_cases hji : j = i
      · rw [hji] at hj
        rw [hd e hj] at hm
        exact .inr (.inr ⟨i, d', h.self, hpass (.inl hm)⟩)
      · exact .inr (.inr ⟨j, e, (h.other hji).trans hj, hm⟩)
  · rw [h.create] at he
    have hb := hi.early he
    cases hb' : w'.boxes with
    | false => rfl
    | true =>
      rw [h.boxes hb'] at hb
      cases hb
  · rw [h.create] at hc
    have hc' : w.create.early = true ∨ w.boxes = true := hc.imp id h.boxes
    rcases h.cases hj with ⟨rfl, rfl⟩ | ⟨-, hj⟩
    · cases ht : e.pc.taker with
      | false => rfl
      | true =>
        rcases h.taker ht with hdtk | ⟨hb, hb'⟩
        · rw [hi.idle hc' _ d (hdt hdtk)] at hdtk
          cases hdtk
        · rcases hc with he | hb''
          · rw [hi.early he] at hb
            cases hb
          · rw [hb'] at hb''
            cases hb''
    · exact hi.idle hc' j e hj
  · rcases h.cases hj with ⟨rfl, rfl⟩ | ⟨hji, hj⟩
    · rcases h.cases hk with ⟨rfl, -⟩ | ⟨hki, hk⟩
      · rfl
      · rw [htaker hte k f hki hk] at htf
        cases htf
    · rcases h.cases hk with ⟨rfl, rfl⟩ | ⟨hki, hk⟩
      · rw [htaker htf j e hji hj] at hte
        cases hte
      · exact hi.one j k e f hj hk hte htf
  · rcases h.mutex hm with hh | ⟨hm, hnh⟩
    · exact ⟨i, d', h.self, hh⟩
    · obtain ⟨j, e, hj, hh⟩ := hi.mutex hm
      have hji : j ≠ i := by
        intro he
        rw [he] at hj
        rw [hd e hj, hnh] at hh
        cases hh
      exact ⟨j, e, (h.other hji).trans hj, hh⟩
  · rcases h.cases hj with ⟨rfl, rfl⟩ | ⟨-, hj⟩
    · exact h.observer ho
    · obtain ⟨hbeg, hdn, hw⟩ := hi.observer j e hj ho
      refine ⟨h.create ▸ hbeg, fun hr => h.done.trans (hdn (h.create ▸ hr)), ?_⟩
      rcases hw with hw | hw | ⟨hdn, hw | hw⟩
      · exact .inl hw
      · exact .inr (.inl hw)
      · exact .inr (.inr ⟨h.done.trans hdn, .inl hw⟩)
      · refine .inr (.inr ⟨h.done.trans hdn, .inr ?_⟩)
        cases hb' : w'.boxes with
        | false => rfl
        | true =>
          rw [h.boxes hb'] at hw
          cases hw
  · rcases h.cases hj with ⟨rfl, rfl⟩ | ⟨-, hj⟩
    · exact h.waiting hpc
    · exact hi.waiting j e hj hpc

/-- How many steps a `Destroy` has left at most. -/
def DestroyPc.rank : DestroyPc → ℕ
  | .returned => 0
  | .removeDir _ => 1
  | .tear ops => 2 + ops.length
  | .joinLoader => 8
  | .lock => 9
  | .look => 10
  | .await => 11
  | .cancel => 12
  | .called => 13

/-- A call that is past its wait finds `done` closed. -/
theorem Observer.closed (h : Observer w pc) (hc : pc ≠ .cancel) (ha : pc ≠ .await) :
    w.done = true := by
  rcases h.waits with hw | hw | ⟨hd, -⟩
  · exact absurd hw hc
  · exact absurd hw ha
  · exact hd

/-- A call that is past its look leaves `m.boxes` alone. -/
theorem Observer.move {pc' : DestroyPc} (h : Observer w pc) (hp : pc ∉ [DestroyPc.cancel, .await, .look])
    (hcr : w'.create = w.create) (hd : w'.done = w.done) (hb : w'.boxes = w.boxes) : Observer w' pc' := by
  rcases h.waits with hw | hw | ⟨hdn, hw | hw⟩
  · simp [hw] at hp
  · simp [hw] at hp
  · simp [hw] at hp
  · exact ⟨hcr ▸ h.begun, fun hr => hd.trans (h.done (hcr ▸ hr)), .inr (.inr ⟨hd.trans hdn, .inr (hb.trans hw)⟩)⟩

theorem takeBox_turn (hpc : d.pc = .called ∨ d.pc = .look)
    (ho : d.observed = true → Observer w d.pc) :
    ∃ d', Turn w i d d' (takeBox w i d.observed) ∧ d'.pc.rank < d.pc.rank := by
  have howed : ∀ r, r ∉ d.pc.owed := by
    intro r hr
    rcases hpc with hp | hp <;> (rw [hp] at hr; cases hr)
  have hobs : d.observed = true → ∀ pc' (w' : World), w'.create = w.create → w'.done = w.done →
      w'.boxes = false → Observer w' pc' := by
    intro hob pc' w' hcr hdn hb
    have h := ho hob
    have hcl : w.done = true := h.closed
      (by rcases hpc with hp | hp <;> (rw [hp]; exact nofun))
      (by rcases hpc with hp | hp <;> (rw [hp]; exact nofun))
    exact ⟨hcr ▸ h.begun, fun _ => hdn.trans hcl, .inr (.inr ⟨hdn.trans hcl, .inr hb⟩)⟩
  have hholds : d.pc.holds = false := by
    rcases hpc with hp | hp <;> (rw [hp]; rfl)
  have hrank : 10 ≤ d.pc.rank := by
    rcases hpc with hp | hp <;> (rw [hp]; decide)
  unfold takeBox
  by_cases hb : w.boxes = true
  · rw [if_pos hb]
    refine ⟨⟨.lock, d.observed⟩, ⟨rfl, rfl, rfl, rfl, rfl, rfl, rfl, nofun, fun r hr => ⟨hr, fun _ => mem_allRes r⟩,
      fun _ => .inr ⟨hb, rfl⟩, fun hm => .inr ⟨hm, hholds⟩, fun hob => hobs hob _ _ rfl rfl rfl, ?_⟩, ?_⟩
    · rintro (h | h | h) <;> cases h
    · exact Nat.lt_of_lt_of_le (by simp [DestroyPc.rank]) hrank
  · rw [if_neg hb]
    refine ⟨⟨.removeDir false, d.observed⟩, ⟨rfl, rfl, rfl, rfl, rfl, rfl, rfl, id, fun r hr => ⟨hr, ?_⟩,
      nofun, fun hm => .inr ⟨hm, hholds⟩, fun hob => hobs hob _ _ rfl rfl (Bool.eq_false_iff.mpr hb), ?_⟩, ?_⟩
    · rintro (h | ⟨h, -⟩)
      · exact absurd h (howed r)
      · exact absurd h hb
    · rintro (h | h | h) <;> cases h
    · exact Nat.lt_of_lt_of_le (by simp [DestroyPc.rank]) hrank

/-- A step of a `Destroy` that neither removes the entry nor releases anything. -/
theorem turn_go (hd : w'.destroys = update w.destroys i (some d'))
    (hcr : w'.create = w.create) (ht : w'.template = w.template) (hres : w'.res = w.res)
    (hcs : w'.creates = w.creates) (hdn : w'.done = w.done) (hld : w'.loading = w.loading)
    (hb : w'.boxes = w.boxes) (hh : w'.held = w.held) (ho : ∀ r ∈ d.pc.owed, r ∈ d'.pc.owed)
    (htk : d'.pc.taker = true → d.pc.taker = true)
    (hmu : w'.lifecycleMu = true → d'.pc.holds = true ∨ w.lifecycleMu = true ∧ d.pc.holds = false)
    (hob : d'.observed = true → Observer w' d'.pc)
    (hw : d'.pc = .cancel ∨ d'.pc = .await ∨ d'.pc = .look → d'.observed = true) : Turn w i d d' w' := by
  refine ⟨hd, hcr, ht, hres, hcs, hdn, hld, fun h => hb ▸ h, fun r hr => ⟨hh ▸ hr, ?_⟩, fun h => .inl (htk h),
    hmu, hob, hw⟩
  rintro (h | ⟨h, h'⟩)
  · exact ho r h
  · rw [hb, h] at h'
    cases h'

theorem destroy_turn (hi : Inv w) (hd : w.destroys i = some d)
    (h : destroy w i d = some w') : ∃ d', Turn w i d d' w' ∧ d'.pc.rank < d.pc.rank := by
  have hobs := hi.observer i d hd
  have hwait := hi.waiting i d hd
  unfold destroy at h
  split at h <;> rename_i hpc
  · cases h
    by_cases hc : w.creates = true
    · rw [if_pos hc]
      have hmid := hi.handle hc
      refine ⟨⟨.cancel, true⟩, turn_go rfl rfl rfl rfl rfl rfl rfl rfl rfl
        (by simp [hpc, DestroyPc.owed]) nofun (fun hm => .inr ⟨hm, by rw [hpc]; rfl⟩)
        (fun _ => ⟨?_, fun hr => ?_, .inl rfl⟩) (fun _ => rfl), by simp [hpc, DestroyPc.rank]⟩
      · revert hmid
        show w.create.mid = true → w.create.begun = true
        cases w.create <;> first | exact fun _ => rfl | exact nofun
      · have hr' : w.create = .returned := hr
        rw [hr'] at hmid
        cases hmid
    · rw [if_neg hc]
      exact takeBox_turn (.inl hpc) hobs
  · cases h
    have ho := hobs (hwait (.inl hpc))
    exact ⟨⟨.await, d.observed⟩, turn_go rfl rfl rfl rfl rfl rfl rfl rfl rfl
      (by simp [hpc, DestroyPc.owed]) nofun (fun hm => .inr ⟨hm, by rw [hpc]; rfl⟩)
      (fun _ => ⟨ho.begun, ho.done, .inr (.inl rfl)⟩) (fun _ => hwait (.inl hpc)), by simp [hpc, DestroyPc.rank]⟩
  · split_ifs at h with hdn
    cases h
    have ho := hobs (hwait (.inr (.inl hpc)))
    exact ⟨⟨.look, d.observed⟩, turn_go rfl rfl rfl rfl rfl rfl rfl rfl rfl
      (by simp [hpc, DestroyPc.owed]) nofun (fun hm => .inr ⟨hm, by rw [hpc]; rfl⟩)
      (fun _ => ⟨ho.begun, ho.done, .inr (.inr ⟨hdn, .inl rfl⟩)⟩) (fun _ => hwait (.inr (.inl hpc))),
      by simp [hpc, DestroyPc.rank]⟩
  · cases h
    exact takeBox_turn (.inr hpc) hobs
  · split_ifs at h with hm
    cases h
    exact ⟨⟨.joinLoader, d.observed⟩, turn_go rfl rfl rfl rfl rfl rfl rfl rfl rfl
      (fun r _ => mem_allRes r) (fun _ => by rw [hpc]; rfl) (fun _ => .inl rfl)
      (fun hob => (hobs hob).move (by simp [hpc]) rfl rfl rfl) (by simp), by simp [hpc, DestroyPc.rank]⟩
  · split_ifs at h with hm
    cases h
    exact ⟨⟨.tear allRes, d.observed⟩, turn_go rfl rfl rfl rfl rfl rfl rfl rfl rfl
      (fun r _ => mem_allRes r) (fun _ => by rw [hpc]; rfl) (fun _ => .inl rfl)
      (fun hob => (hobs hob).move (by simp [hpc]) rfl rfl rfl) (by simp),
      by simp [hpc, DestroyPc.rank, allRes]⟩
  · rename_i r ops
    cases h
    refine ⟨⟨.tear ops, d.observed⟩, ⟨rfl, rfl, rfl, rfl, rfl, rfl, rfl, id, fun r' hr => ?_,
      fun _ => .inl (by rw [hpc]; rfl), fun _ => .inl rfl,
      fun hob => (hobs hob).move (by simp [hpc]) rfl rfl rfl, by simp⟩,
      by simp [hpc, DestroyPc.rank]⟩
    have hr' : update w.held r false r' = true := hr
    have hne : r' ≠ r := by
      intro he
      rw [he, update_self] at hr'
      cases hr'
    rw [update_of_ne hne] at hr'
    refine ⟨hr', ?_⟩
    rintro (hm | ⟨hb, hb'⟩)
    · rw [hpc] at hm
      exact (List.mem_cons.mp hm).resolve_left hne
    · exact absurd (hb.symm.trans hb') nofun
  · cases h
    exact ⟨⟨.removeDir true, d.observed⟩, turn_go rfl rfl rfl rfl rfl rfl rfl rfl rfl
      (by simp [hpc, DestroyPc.owed]) (fun _ => by rw [hpc]; rfl) (fun _ => .inl rfl)
      (fun hob => (hobs hob).move (by simp [hpc]) rfl rfl rfl) (by simp), by simp [hpc, DestroyPc.rank]⟩
  · rename_i locked
    cases h
    refine ⟨⟨.returned, d.observed⟩, turn_go rfl rfl rfl rfl rfl rfl rfl rfl rfl
      (by simp [hpc, DestroyPc.owed]) nofun (fun hm => ?_)
      (fun hob => (hobs hob).move (by simp [hpc]) rfl rfl rfl) (by simp),
      by rw [hpc]; exact Nat.zero_lt_one⟩
    have hm' : (w.lifecycleMu && !locked) = true := hm
    obtain ⟨hmu, hl⟩ := Bool.and_eq_true_iff.mp hm'
    refine .inr ⟨hmu, ?_⟩
    rw [hpc]
    cases locked with
    | true => cases hl
    | false => rfl
  · cases h

theorem inv_step {a : Act} (hi : Inv w) (h : step w a = some w') : Inv w' := by
  cases a with
  | create ok => exact inv_create hi h
  | call i =>
    simp only [step] at h
    split_ifs at h with hn
    cases h
    have hnone : w.destroys i = none := Option.isNone_iff_eq_none.mp hn
    -- a call that has just arrived is like one that is over
    refine inv_turn (d := ⟨.returned, false⟩) hi ?_ nofun
      (turn_go rfl rfl rfl rfl rfl rfl rfl rfl rfl nofun nofun (fun hm => .inr ⟨hm, rfl⟩) nofun
        (by rintro (h | h | h) <;> cases h))
    rw [hnone]
    exact fun e => nofun
  | destroy i =>
    cases hd : w.destroys i with
    | none =>
      simp only [step, hd] at h
      cases h
    | some d =>
      simp only [step, hd] at h
      obtain ⟨d', ht, -⟩ := destroy_turn hi hd h
      refine inv_turn hi (fun e he => ?_) (fun _ => hd) ht
      rw [hd] at he
      exact (Option.some.inj he).symm
  | loaded =>
    simp only [step] at h
    split_ifs at h
    cases h
    refine ⟨hi.known, hi.handle, hi.done, hi.owed, hi.early, hi.idle, hi.one, hi.mutex,
      fun i d hd ho => ?_, hi.waiting⟩
    obtain ⟨hb, hdn, hw⟩ := hi.observer i d hd ho
    exact ⟨hb, hdn, hw⟩

theorem reach_inv {template : Bool} (h : Reach step (fun _ _ => True) (fun s => s = start template) w) :
    Inv w :=
  h.invariant (I := Inv) (fun s h0 => by rw [h0]; exact inv_start template)
    (fun _ _ _ hi _ hs => inv_step hi hs)

/-! ### No `Destroy` waits for ever -/

end Wrenn.Create.Handshake
