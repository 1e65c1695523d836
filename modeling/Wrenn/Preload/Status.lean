import Wrenn.Preload.Atomic

/-!
# The status of a preload

The host trusts the state `done`: it takes a snapshot of a guest only if the guest says so.  `read_status` loads
the four flags one after the other.  A `POST /memory/preload` that restarts a failed or cancelled run, or an
`/init` of a new lifecycle, may clear the error and the cancel flag after the old done flag has been loaded, and
the failed run is reported as done.

`reach_done_loaded` shows that this is the only way to a wrong `done`, and `failed_run_reported_done` shows it.
-/

namespace Wrenn.Preload.Status

open Lib.Runs Lib.Threads Atomic
open Envd (Io Outcome)

/-! ### The condition -/

/-- The request has loaded flags that say `done`, and has not seen the error yet. -/
def trusts : Proc → Bool
  | .readCancel true true _ | .readError true true false _ => true
  | _ => false

/-- The section that comes next may clear a result. -/
def clears : Proc → Bool
  | .post _ | .reset => true
  | _ => false

/-- The last run has failed or was cancelled. -/
def Core.spoiled (k : Core) : Bool := k.done && (k.error.isSome || k.cancel)

/-- A failed or cancelled result is cleared only when no request has loaded its done flag without having read its
error. -/
def Undisturbed (s : State) : Atomic.Act → Prop
  | .act t _ => ∀ p ∈ s.threads[t]?, clears p = true → Core.spoiled s.core = true → ∀ q ∈ s.threads, trusts q = false
  | _ => True

instance (s : State) : ∀ a, Decidable (Undisturbed s a)
  | .act t _ => inferInstanceAs (Decidable
      (∀ p ∈ s.threads[t]?, clears p = true → Core.spoiled s.core = true → ∀ q ∈ s.threads, trusts q = false))
  | .start _ | .crash _ | .env _ => isTrue trivial

/-! ### What the requests know -/

/-- Since the generation `e` some loader has walked all of its pages, and was not cancelled. -/
def Loaded (k : Core) (e : ℕ) : Prop := ∃ g ∈ k.loaded, e ≤ g

/-- What a request that began in generation `e` will answer is right, or it will still see the error or the cancel. -/
def Trust (k : Core) : Proc → Prop
  | .readCancel true true e => Loaded k e ∨ Core.spoiled k = true
  | .readError true true false e => Loaded k e ∨ k.done = true ∧ k.error.isSome = true
  | .answered .done e => Loaded k e
  | _ => True

/-- The generation in which a status request began. -/
def epoch : Proc → Option ℕ
  | .post e | .spawn _ e | .readStarted e | .readDone _ e | .readCancel _ _ e | .readError _ _ _ e => some e
  | _ => none

/-- The process is about to publish a walk that it has stopped. -/
def stops : Proc → Option ℕ
  | .publish g _ (.ok _ _ _ false) => some g
  | _ => none

structure Truthful (k : Core) (threads : List Proc) : Prop where
  told : k.done = true → k.error = none → k.cancel = false → k.generation ∈ k.loaded
  stopped : ∀ p ∈ threads, stops p = some k.generation → k.cancel = true
  began : ∀ p ∈ threads, ∀ e, epoch p = some e → e ≤ k.generation
  trust : ∀ p ∈ threads, Trust k p

section Step

variable {k k' : Core} {p p' q : Proc} {rest threads : List Proc} {io : Io}

theorem Truthful.of_subset (h : Truthful k threads) (hsub : rest ⊆ threads) : Truthful k rest :=
  ⟨h.told, fun p hp => h.stopped p (hsub hp), fun p hp => h.began p (hsub hp), fun p hp => h.trust p (hsub hp)⟩

/-- A spoiled result stays as it is. -/
structure Held (k k' : Core) : Prop where
  done : k'.done = true
  error : k'.error = k.error
  cancel : k.cancel = true → k'.cancel = true

theorem Held.spoiled (hh : Held k k') (h : Core.spoiled k = true) : Core.spoiled k' = true := by
  simp only [Core.spoiled, Bool.and_eq_true, Bool.or_eq_true] at h ⊢
  refine ⟨hh.done, ?_⟩
  rcases h.2 with he | hc
  · exact .inl (hh.error ▸ he)
  · exact .inr (hh.cancel hc)

theorem Trust.keep (hloaded : ∀ g ∈ k.loaded, g ∈ k'.loaded)
    (hheld : trusts q = true → Core.spoiled k = true → Held k k') (h : Trust k q) : Trust k' q := by
  have hl : ∀ {e}, Loaded k e → Loaded k' e := fun ⟨g, hg, hle⟩ => ⟨g, hloaded g hg, hle⟩
  cases q with
  | readCancel started done e =>
    cases started <;> cases done
    case true.true =>
      rcases h with hload | hsp
      · exact .inl (hl hload)
      · exact .inr ((hheld rfl hsp).spoiled hsp)
    all_goals trivial
  | readError started done cancelled e =>
    cases started <;> cases done <;> cases cancelled
    case true.true.false =>
      rcases h with hload | ⟨hdone, herr⟩
      · exact .inl (hl hload)
      · have hh := hheld rfl (by simp [Core.spoiled, hdone, herr])
        exact .inr ⟨hh.done, hh.error ▸ herr⟩
    all_goals trivial
  | answered lane e =>
    cases lane with
    | done => exact hl h
    | _ => trivial
  | _ => trivial

/-- A step, with what it has to keep for the others. -/
theorem Truthful.keep (h : Truthful k (p :: rest)) (hgen : k.generation ≤ k'.generation)
    (hloaded : ∀ g ∈ k.loaded, g ∈ k'.loaded)
    (htold : k'.done = true → k'.error = none → k'.cancel = false → k'.generation ∈ k'.loaded)
    (hstopped : ∀ q ∈ p' :: rest, stops q = some k'.generation → k'.cancel = true)
    (hheld : ∀ q ∈ rest, trusts q = true → Core.spoiled k = true → Held k k')
    (hbegan : ∀ e, epoch p' = some e → e ≤ k.generation) (htrust : Trust k' p') : Truthful k' (p' :: rest) := by
  refine ⟨htold, hstopped, fun q hq e he => ?_, fun q hq => ?_⟩
  · rcases List.mem_cons.mp hq with rfl | hq
    · exact (hbegan e he).trans hgen
    · exact (h.began q (List.mem_cons_of_mem _ hq) e he).trans hgen
  · rcases List.mem_cons.mp hq with rfl | hq
    · exact htrust
    · exact (h.trust q (List.mem_cons_of_mem _ hq)).keep hloaded (hheld q hq)

/-- A step that leaves the flags alone. -/
theorem Truthful.move (h : Truthful k (p :: rest)) (hstops : stops p' = some k.generation → k.cancel = true)
    (hbegan : ∀ e, epoch p' = some e → e ≤ k.generation) (htrust : Trust k p') : Truthful k (p' :: rest) := by
  have hok : Core.spoiled k = true → Held k k := fun hsp =>
    ⟨by simp only [Core.spoiled, Bool.and_eq_true] at hsp; exact hsp.1, rfl, id⟩
  refine h.keep le_rfl (fun _ => id) h.told (fun q hq => ?_) (fun _ _ _ => hok) hbegan htrust
  rcases List.mem_cons.mp hq with rfl | hq
  · exact hstops
  · exact h.stopped q (List.mem_cons_of_mem _ hq)

/-- A process that is not a status request goes on, without stopping a walk. -/
theorem Truthful.plain (h : Truthful k (p :: rest)) (hstops : stops p' = none) (hepoch : epoch p' = none)
    (htrust : Trust k p') : Truthful k (p' :: rest) := by
  refine h.move (fun hs => ?_) (fun e he => ?_) htrust
  · rw [hstops] at hs
    cases hs
  · rw [hepoch] at he
    cases he

/-- Flags of which nothing is said. -/
theorem Truthful.frame (h : Truthful k threads) (hgen : k'.generation = k.generation) (hloaded : k'.loaded = k.loaded)
    (hdone : k'.done = k.done) (herror : k'.error = k.error) (hcancel : k'.cancel = k.cancel) :
    Truthful k' threads := by
  refine ⟨?_, ?_, ?_, fun q hq => ?_⟩
  · rw [hgen, hloaded, hdone, herror, hcancel]
    exact h.told
  · rw [hgen, hcancel]
    exact h.stopped
  · rw [hgen]
    exact h.began
  · refine (h.trust q hq).keep (fun g hg => hloaded ▸ hg) fun _ hsp =>
      ⟨hdone.trans ?_, herror, fun hc => hcancel.trans hc⟩
    simp only [Core.spoiled, Bool.and_eq_true] at hsp
    exact hsp.1

variable {g e : ℕ}

theorem claims_of_stops (h : stops p = some g) : claims p = some g := by
  cases p with
  | publish g' late o =>
    cases o with
    | ok s r n full =>
      cases full with
      | false => exact h
      | true => cases h
    | err e => cases h
  | _ => cases h

/-- No run of the current generation is left when one is started. -/
theorem not_stops_of_runs (hr : runs k threads k.generation = 0) (hq : q ∈ threads) : stops q ≠ some k.generation := by
  intro hs
  have hzero := (Nat.add_eq_zero_iff.mp hr).1
  exact List.countP_eq_zero.mp hzero q hq (by simp [claims_of_stops hs])

theorem truthful_post (h : Truthful k (.post e :: rest)) (hs : Single k (.post e :: rest))
    (hok : Core.spoiled k = true → ∀ q ∈ rest, trusts q = false) :
    Truthful (if k.startsRun then (k.startRun, Proc.spawn k.generation e) else (k, .readStarted e)).1
      ((if k.startsRun then (k.startRun, Proc.spawn k.generation e) else (k, .readStarted e)).2 :: rest) := by
  have he : e ≤ k.generation := h.began _ List.mem_cons_self e rfl
  by_cases hstart : k.startsRun = true
  · rw [if_pos hstart]
    have hnone := hs.idle hstart
    refine h.keep le_rfl (fun _ => id) (by rintro ⟨⟩) (fun q hq hstop => ?_) (fun q hq ht hsp => ?_) ?_ trivial
    · rcases List.mem_cons.mp hq with rfl | hq
      · cases hstop
      · exact absurd hstop (not_stops_of_runs hnone (List.mem_cons_of_mem _ hq))
    · rw [hok hsp q hq] at ht
      cases ht
    · rintro _ ⟨⟩
      exact he
  · rw [if_neg hstart]
    refine h.move (by rintro ⟨⟩) ?_ trivial
    rintro _ ⟨⟩
    exact he

theorem truthful_reset (h : Truthful k (.reset :: rest)) (hs : Single k (.reset :: rest))
    (hok : Core.spoiled k = true → ∀ q ∈ rest, trusts q = false) : Truthful k.newLifecycle (.ended :: rest) := by
  refine h.keep (Nat.le_succ _) (fun _ => id) (by rintro ⟨⟩) (fun q hq hstop => ?_)
    (fun q hq ht hsp => ?_) (by rintro _ ⟨⟩)
    trivial
  · rcases List.mem_cons.mp hq with rfl | hq
    · cases hstop
    · have hle := hs.known q (List.mem_cons_of_mem _ hq) _ (claims_of_stops hstop)
      have hgen : k.newLifecycle.generation = k.generation + 1 := rfl
      omega
  · rw [hok hsp q hq] at ht
    cases ht

/-- What a loader publishes as done is a full walk. -/
theorem truthful_publish {late : ℕ} {o : Outcome} (h : Truthful k (.publish g late o :: rest))
    (hs : Single k (.publish g late o :: rest)) : Truthful (k.publish g o) (.ended :: rest) := by
  by_cases hg : k.generation = g
  · subst hg
    have hdone : k.done = false := by
      refine (hs.busy ?_).2
      rw [runs_cons, if_pos (show claims (.publish k.generation late o) = some k.generation from rfl)]
      omega
    have hnot : Core.spoiled k = false := by simp [Core.spoiled, hdone]
    obtain ⟨hgen, -, -, hcancel⟩ := publish_frame k k.generation o
    refine h.keep hgen.ge (fun g' hg' => ?_) (fun _ herr hc => ?_) (fun q hq hstop => ?_) (fun q hq _ hsp => ?_)
      (by rintro _ ⟨⟩) trivial
    · cases o with
      | ok s r n full =>
        rw [Core.publish, if_pos rfl]
        show g' ∈ if full && !k.cancel then k.generation :: k.loaded else k.loaded
        split_ifs
        · exact List.mem_cons_of_mem _ hg'
        · exact hg'
      | err e =>
        rw [Core.publish, if_pos rfl]
        exact hg'
    · rw [hcancel] at hc
      cases o with
      | ok s r n full =>
        cases full with
        | true => simp [Core.publish, hc]
        | false =>
          have hstop := h.stopped _ List.mem_cons_self rfl
          rw [hc] at hstop
          cases hstop
      | err e =>
        rw [Core.publish, if_pos rfl] at herr
        cases herr
    · rw [hcancel]
      rcases List.mem_cons.mp hq with rfl | hq
      · cases hstop
      · exact h.stopped q (List.mem_cons_of_mem _ hq) (hgen ▸ hstop)
    · rw [hnot] at hsp
      cases hsp
  · rw [Atomic.publish_stale hg]
    exact h.plain rfl rfl trivial

theorem truthful_cancel (h : Truthful k (.cancel :: rest)) : Truthful { k with cancel := true } (.ended :: rest) := by
  refine h.keep le_rfl (fun _ => id) (by rintro _ _ ⟨⟩) (fun _ _ _ => rfl) (fun q _ _ hsp => ⟨?_, rfl, fun _ => rfl⟩)
    (by rintro _ ⟨⟩) trivial
  simp only [Core.spoiled, Bool.and_eq_true] at hsp
  exact hsp.1

/-- A flag loaded by a status request. -/
theorem trust_readCancel {started : Bool} (h : Truthful k (.readDone started e :: rest)) :
    Trust k (.readCancel started k.done e) := by
  have he : e ≤ k.generation := h.began _ List.mem_cons_self e rfl
  cases started with
  | false => cases k.done <;> trivial
  | true =>
    cases hdone : k.done with
    | false => trivial
    | true =>
      by_cases hsp : Core.spoiled k = true
      · exact .inr hsp
      · have hclean : k.error = none ∧ k.cancel = false := by
          simpa [Core.spoiled, hdone] using hsp
        exact .inl ⟨k.generation, h.told hdone hclean.1 hclean.2, he⟩

theorem trust_readError {started done : Bool} (h : Trust k (.readCancel started done e)) :
    Trust k (.readError started done k.cancel e) := by
  cases started <;> cases done
  case true.true =>
    cases hc : k.cancel with
    | true => trivial
    | false =>
      rcases h with hload | hsp
      · exact .inl hload
      · right
        simpa [Core.spoiled, hc] using hsp
  all_goals trivial

theorem trust_answered {started done cancelled : Bool} (h : Trust k (.readError started done cancelled e)) :
    Trust k (.answered (lane started done cancelled k.error.isSome) e) := by
  cases started <;> cases done <;> cases cancelled
  case true.true.false =>
    cases herr : k.error.isSome with
    | true => trivial
    | false =>
      refine h.resolve_right fun hsp => ?_
      rw [herr] at hsp
      cases hsp.2
  all_goals cases k.error.isSome <;> trivial

theorem stops_of_stopped {w : Walk} {iomem : List ℕ}
    (h : stops (.publish w.generation w.late (w.stopped iomem)) = some g) : w.generation = g := Option.some.inj h

theorem stops_finished {w : Walk} {iomem : List ℕ} :
    stops (.publish w.generation w.late (w.finished iomem)) = none := by
  unfold Walk.finished
  split_ifs <;> rfl

theorem truthful_run (h : Truthful k (p :: rest)) (hs : Single k (p :: rest))
    (hok : clears p = true → Core.spoiled k = true → ∀ q ∈ rest, trusts q = false)
    (hrun : run k io p = some (k', p')) : Truthful k' (p' :: rest) := by
  have hbegan := h.began _ List.mem_cons_self
  have htrust := h.trust _ List.mem_cons_self
  cases p with
  | post e =>
    have hp := truthful_post h hs (hok rfl)
    rwa [Option.some.inj hrun] at hp
  | spawn g e =>
    cases hrun
    have hnext : Truthful k (.readStarted e :: rest) := h.move (by rintro ⟨⟩) hbegan trivial
    exact hnext.frame rfl rfl rfl rfl rfl
  | readStarted e =>
    cases hrun
    exact h.move (by rintro ⟨⟩) hbegan trivial
  | readDone st e =>
    cases hrun
    exact h.move (by rintro ⟨⟩) hbegan (trust_readCancel h)
  | readCancel st dn e =>
    cases hrun
    exact h.move (by rintro ⟨⟩) hbegan (trust_readError htrust)
  | readError st dn cn e =>
    cases hrun
    exact h.plain rfl rfl (trust_answered htrust)
  | cancel =>
    cases hrun
    exact truthful_cancel h
  | bump id =>
    cases hrun
    have hnext : Truthful k ((if k.changesLifecycle id then .reset else .ended) :: rest) := by
      split_ifs <;> exact h.plain rfl rfl trivial
    exact hnext.frame rfl rfl rfl rfl rfl
  | reset =>
    cases hrun
    exact truthful_reset h hs (hok rfl)
  | parse g =>
    cases io with
    | err e => cases hrun; exact h.plain rfl rfl trivial
    | ok => cases hrun; split_ifs <;> exact h.plain rfl rfl trivial
  | openDevMem w | openKcore w => cases io <;> cases hrun <;> exact h.plain rfl rfl trivial
  | check w =>
    cases hrun
    split_ifs with hleft hcancel
    · exact h.plain stops_finished rfl trivial
    · exact h.move (fun _ => hcancel) (by rintro _ ⟨⟩) trivial
    · exact h.plain rfl rfl trivial
  | checkGeneration w =>
    cases hrun
    split_ifs with hg
    · exact h.plain rfl rfl trivial
    · exact h.move (fun hstop => absurd (stops_of_stopped hstop).symm hg) (by rintro _ ⟨⟩) trivial
  | read w =>
    cases io with
    | ok => cases hrun; exact h.plain rfl rfl trivial
    | err e => cases hsrc : w.source <;> simp only [run, hsrc] at hrun <;> cases hrun <;> exact h.plain rfl rfl trivial
  | publish g late o =>
    cases hrun
    exact truthful_publish h hs
  | answered lane e | ended => cases hrun

theorem truthful_start {c : Call} (h : Truthful k threads) (hspawn : spawn k c = some (k', p)) :
    Truthful k' (p :: threads) := by
  have hcons : ∀ {p}, stops p = none → (∀ e, epoch p = some e → e ≤ k.generation) → Trust k p →
      Truthful k (p :: threads) := by
    refine fun hst hep htr => ⟨h.told, fun q hq hs => ?_, fun q hq => ?_, fun q hq => ?_⟩
    · rcases List.mem_cons.mp hq with rfl | hq
      · rw [hst] at hs
        cases hs
      · exact h.stopped q hq hs
    · rcases List.mem_cons.mp hq with rfl | hq
      · exact hep
      · exact h.began q hq
    · rcases List.mem_cons.mp hq with rfl | hq
      · exact htr
      · exact h.trust q hq
  cases c with
  | getMemoryPreload | postMemoryPreload =>
    cases hspawn
    refine hcons rfl ?_ trivial
    rintro e ⟨⟩
    exact le_rfl
  | postMemoryPreloadCancel | postInit id =>
    cases hspawn
    exact hcons rfl (by rintro _ ⟨⟩) trivial
  | loader =>
    cases hsp : k.spawning with
    | nil =>
      simp only [spawn, hsp] at hspawn
      cases hspawn
    | cons g gs =>
      simp only [spawn, hsp] at hspawn
      cases hspawn
      exact (hcons (p := .parse g) rfl (by rintro _ ⟨⟩) trivial).frame rfl rfl rfl rfl rfl

end Step

theorem truthful_step {s s' : State} {a : Atomic.Act} (h : Truthful s.core s.threads)
    (hsingle : Single s.core s.threads)
    (hok : Undisturbed s a) (hs : Atomic.step s a = some s') : Truthful s'.core s'.threads := by
  cases moves_of_step hs with
  | start hspawn hs' => exact (truthful_start h hspawn).of_subset hs'.subset
  | @act t io k p p' rest threads hp hrun hthreads hs' =>
    refine (truthful_run (h.of_subset hthreads.symm.subset) (hsingle.perm hthreads) (fun hc hsp q hq => ?_)
      hrun).of_subset hs'.subset
    exact hok p hp hc hsp q (hthreads.symm.subset (List.mem_cons_of_mem _ hq))
  | @crash t p rest threads hp hthreads hs' =>
    have hend : Truthful s.core (.ended :: rest) := (h.of_subset hthreads.symm.subset).plain rfl rfl trivial
    exact hend.of_subset hs'.subset
  | noCrash => exact h
  | @env e k henv => exact e.elim

/-! ### The result -/

/-- In runs in which no result is cleared under a status request that relies on it, the answer `done` means that a
loader has walked all of its pages since the last lifecycle change before the request. -/
theorem reach_done_loaded {s : State} (h : Reach Atomic.step Undisturbed Initial s) :
    ∀ p ∈ s.threads, ∀ e, p = .answered .done e → ∃ g ∈ s.core.loaded, e ≤ g := by
  have hinv : Truthful s.core s.threads ∧ Single s.core s.threads := by
    refine h.invariant (I := fun s => Truthful s.core s.threads ∧ Single s.core s.threads) ?_
      fun s a s' hi hok hs => ⟨truthful_step hi.1 hi.2 hok hs, single_step hi.2 hs⟩
    rintro s ⟨iomem, rfl⟩
    have hnew : Reach Atomic.step (fun _ _ => True) Initial ⟨Core.new iomem, []⟩ := .init ⟨iomem, rfl⟩
    exact ⟨⟨by rintro ⟨⟩, List.forall_mem_nil _, List.forall_mem_nil _,
      (List.forall_mem_nil _)⟩, reach_single hnew⟩
  rintro p hp e rfl
  exact hinv.1.trust _ hp

/-! ### Runs -/

/-- The loader 1 of the guest walks its three pages. -/
def loadedRun : List Atomic.Act :=
  [.start .postMemoryPreload, .act 0 .ok, .act 0 .ok, .start .loader, .act 1 .ok, .act 1 .ok] ++
    ((List.replicate 3 ([.act 1 .ok, .act 1 .ok, .act 1 .ok] : List Atomic.Act)).flatten ++
      ([.act 1 .ok, .act 1 .ok, .start .getMemoryPreload, .act 2 .ok, .act 2 .ok, .act 2 .ok,
        .act 2 .ok] : List Atomic.Act))

theorem loaded_run_done :
    (last Atomic.step guest loadedRun).threads[2]? = some (.answered .done 0) ∧
      ∃ g ∈ (last Atomic.step guest loadedRun).core.loaded, 0 ≤ g := by
  have hadm : Admits Atomic.step Undisturbed guest loadedRun := by decide +kernel
  have hget : (last Atomic.step guest loadedRun).threads[2]? = some (.answered .done 0) := by decide +kernel
  exact ⟨hget, reach_done_loaded (.last ⟨[3], rfl⟩ hadm) _ (List.mem_of_getElem? hget) 0 rfl⟩

/-- The loader fails, and a status request loads its done flag; the run is restarted, and the request finds no error.
No page has been read. -/
theorem failed_run_reported_done :
    (exec Atomic.step guest ([.start .postMemoryPreload, .act 0 .ok, .act 0 .ok, .start .loader,
      .act 1 (.err "denied"), .act 1 .ok,
      .start .getMemoryPreload, .act 2 .ok, .act 2 .ok, .act 2 .ok, .start .postMemoryPreload, .act 3 .ok, .act 2 .ok] :
        List Atomic.Act)).map (fun s => (s.threads[2]?, s.core.loaded, s.core.done)) =
      some (some (.answered .done 0), [], false) := by
  decide +kernel

end Wrenn.Preload.Status
