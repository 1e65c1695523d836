import Wrenn.Lib.Runs
import Wrenn.Lib.Tables
import Wrenn.Lib.Threads

/-!
# The slug of a team

`ChangeSlug` gives a team another slug, once in 60 days, and parks the old one for 30 days, in which no other team
may take it.  The cooldown, the other teams and the reservations are read one by one, before the transaction that
writes them; the calls run concurrently, and time passes.  A call starts with a slug that is normalised and valid.
Teams may be deleted, and keep their slug.

* `slug_rules`: the rules hold, if a transaction commits only while no other call of the team has read it, and no
  other call waits to take the slug that is given up;
* `two_changes_at_once`: two calls of one team pass the cooldown together.
-/

namespace Wrenn.Teams.Slugs

open Lib.Tables Lib.Threads Lib.Runs Function

/-! ### The tables -/

structure Team where
  id : ℕ
  slug : String
  slugChangedAt : Option ℕ
  deleted : Bool
  deriving DecidableEq, Repr

structure Reservation where
  team : ℕ
  expiresAt : ℕ
  deriving DecidableEq, Repr

/-- A change that was committed. -/
structure Change where
  team : ℕ
  old : String
  new : String
  time : ℕ
  deriving DecidableEq, Repr

structure Core where
  /-- in seconds -/
  now : ℕ
  teams : Table Team.id
  reserved : String → Option Reservation
  /-- the changes so far, the last one first -/
  log : List Change

def slugChangeCooldown : ℕ := 60 * 24 * 3600

/-- The interval of `InsertReservedSlug`. -/
def parking : ℕ := 30 * 24 * 3600

def rename (slug : String) (now : ℕ) (r : Team) : Team := { r with slug := slug, slugChangedAt := some now }

theorem rename_id (slug : String) (now : ℕ) (r : Team) : (rename slug now r).id = r.id := rfl

def markDeleted (r : Team) : Team := { r with deleted := true }

theorem markDeleted_id (r : Team) : (markDeleted r).id = r.id := rfl

/-- `InsertReservedSlug` and `DeleteReservedSlug`. -/
def Core.swap (k : Core) (team : ℕ) (old new : String) : String → Option Reservation :=
  Function.update (Function.update k.reserved old (some ⟨team, k.now + parking⟩)) new none

/-- The transaction: a slug is unique, and a team that is deleted is not updated. -/
def Core.commit (k : Core) (team : ℕ) (old new : String) : Core :=
  match k.teams.select team with
  | none => { k with reserved := k.swap team old new }
  | some r =>
    if r.deleted then { k with reserved := k.swap team old new }
    else if k.teams.rows.any fun r' => r'.slug == new && r'.id != team then k
    else
      { k with
        reserved := k.swap team old new
        teams := k.teams.update (fun r' => r'.id == team) (rename new k.now) (rename_id new k.now)
        log := ⟨team, r.slug, new, k.now⟩ :: k.log }

/-! ### `ChangeSlug` -/

inductive Proc
  | callerRole (team : ℕ) (new : String)
  | getTeam (team : ℕ) (new : String)
  | getTeamBySlug (team : ℕ) (old new : String)
  | getActiveReservedSlug (team : ℕ) (old new : String)
  | commit (team : ℕ) (old new : String)
  | ended
  deriving DecidableEq, Repr

/-- What the team that was read allows. -/
def Team.allows (r : Team) (now : ℕ) (new : String) : Bool :=
  !r.deleted && r.slug != new && !r.slugChangedAt.any fun t => decide (now < t + slugChangeCooldown)

/-- The choice is the answer about the role of the caller. -/
def run (k : Core) (admin : Bool) : Proc → Core × Proc
  | .callerRole team new => (k, if admin then .getTeam team new else .ended)
  | .getTeam team new =>
    match k.teams.select team with
    | none => (k, .ended)
    | some r => (k, if r.allows k.now new then .getTeamBySlug team r.slug new else .ended)
  | .getTeamBySlug team old new =>
    (k, if k.teams.rows.any fun r => r.slug == new && !r.deleted then .ended
      else .getActiveReservedSlug team old new)
  | .getActiveReservedSlug team old new =>
    (k, if (k.reserved new).any fun r => decide (k.now < r.expiresAt) && r.team != team then .ended
      else .commit team old new)
  | .commit team old new => (k.commit team old new, .ended)
  | .ended => (k, .ended)

inductive Event
  | pass (d : ℕ)
  | deleteTeam (team : ℕ)
  deriving DecidableEq, Repr

def env (k : Core) : Event → Core
  | .pass d => { k with now := k.now + d }
  | .deleteTeam team => { k with teams := k.teams.update (fun r => r.id == team) markDeleted markDeleted_id }

def prog : Prog Core Proc (ℕ × String) Bool Event where
  spawn k c := some (k, .callerRole c.1 c.2)
  run k admin p := some (run k admin p)
  halt := .ended
  env k e := some (env k e)

abbrev Step := Label (ℕ × String) Bool Event

/-! ### The rules -/

/-- A change and one that was before. -/
def Spaced (e f : Change) : Prop :=
  (e.team = f.team → f.time + slugChangeCooldown ≤ e.time) ∧
    (e.team ≠ f.team → e.new = f.old → f.time + parking ≤ e.time)

structure Kept (k : Core) : Prop where
  unique : ∀ r ∈ k.teams.rows, ∀ r' ∈ k.teams.rows, r.slug = r'.slug → r = r'
  spaced : k.log.Pairwise Spaced
  changed : ∀ e ∈ k.log, ∃ r t, k.teams.select e.team = some r ∧ r.slugChangedAt = some t ∧ e.time ≤ t
  parked : ∀ e ∈ k.log, k.now < e.time + parking → k.reserved e.old = some ⟨e.team, e.time + parking⟩
  free : ∀ e ∈ k.log, k.now < e.time + parking → ∀ r ∈ k.teams.rows, r.slug ≠ e.old

/-- A call of the team that has read it. -/
def Proc.reads (team : ℕ) : Proc → Bool
  | .getTeamBySlug t _ _ => t == team
  | .getActiveReservedSlug t _ _ => t == team
  | .commit t _ _ => t == team
  | _ => false

/-- A call that is about to take the slug. -/
def Proc.takes (slug : String) : Proc → Bool
  | .commit _ _ new => new == slug
  | _ => false

/-- When a transaction may commit. -/
def alone (s : Sys Core Proc) : Proc → Bool
  | .commit team old _ =>
    decide (s.threads.countP (Proc.reads team) ≤ 1) && s.threads.all fun p => !p.takes old
  | _ => true

/-- The guard of a run. -/
def Alone (s : Sys Core Proc) : Step → Prop
  | .act t _ => (s.threads[t]?).all (alone s) = true
  | _ => True

variable {k : Core} {s s' : Sys Core Proc} {team : ℕ} {old new : String}

/-- What a call knows about its team. -/
def Read (k : Core) (team : ℕ) (old new : String) : Prop :=
  old ≠ new ∧ ∃ r, k.teams.select team = some r ∧ r.slug = old ∧
    ∀ t, r.slugChangedAt = some t → t + slugChangeCooldown ≤ k.now

/-- Nobody else has parked the slug. -/
def Unparked (k : Core) (team : ℕ) (new : String) : Prop :=
  ∀ r, k.reserved new = some r → r.team = team ∨ r.expiresAt ≤ k.now

def Fit (k : Core) : Proc → Prop
  | .getTeamBySlug team old new => Read k team old new
  | .getActiveReservedSlug team old new => Read k team old new
  | .commit team old new => Read k team old new ∧ Unparked k team new
  | _ => True

/-! ### The transaction -/

variable {e : Change} {p : Proc}

/-- A team that may change has changed long ago. -/
theorem Read.cooled (h : Read k team old new) (hk : Kept k) (he : e ∈ k.log) (ht : e.team = team) :
    e.time + slugChangeCooldown ≤ k.now := by
  obtain ⟨-, r, hr, -, hcool⟩ := h
  obtain ⟨r', t, hr', ht', hle⟩ := hk.changed e he
  rw [ht, hr] at hr'
  cases hr'
  have := hcool t ht'
  omega

/-- The slug that is taken was not given up less than 30 days ago. -/
theorem Read.parked_new (h : Read k team old new) (hu : Unparked k team new) (hk : Kept k) (he : e ∈ k.log)
    (hnew : e.old = new) : e.time + parking ≤ k.now := by
  by_contra hlt
  have hres := hk.parked e he (Nat.lt_of_not_le hlt)
  rw [hnew] at hres
  rcases hu _ hres with ht | hle
  · have := h.cooled hk he ht
    simp only [slugChangeCooldown, parking] at this hlt
    omega
  · exact hlt hle

/-- Nor was the slug that is given up. -/
theorem Read.parked_old (h : Read k team old new) (hk : Kept k) (he : e ∈ k.log) (hold : e.old = old) :
    e.time + parking ≤ k.now := by
  by_contra hlt
  obtain ⟨-, r, hr, hslug, -⟩ := h
  exact hk.free e he (Nat.lt_of_not_le hlt) r (Table.select_eq_some.mp hr).1 (hslug.trans hold.symm)

/-- Reservations that still count are not touched. -/
theorem Read.swap_parked (h : Read k team old new) (hu : Unparked k team new) (hk : Kept k) (he : e ∈ k.log)
    (hlt : k.now < e.time + parking) : k.swap team old new e.old = some ⟨e.team, e.time + parking⟩ := by
  have hnew : e.old ≠ new := fun hn => absurd (h.parked_new hu hk he hn) (Nat.not_le_of_lt hlt)
  have hold : e.old ≠ old := fun hn => absurd (h.parked_old hk he hn) (Nat.not_le_of_lt hlt)
  rw [Core.swap, update_of_ne hnew, update_of_ne hold]
  exact hk.parked e he hlt

theorem mem_renamed {r : Team}
    (h : r ∈ (k.teams.update (fun r' => r'.id == team) (rename new k.now) (rename_id new k.now)).rows) :
    (∃ r0 ∈ k.teams.rows, r0.id = team ∧ r = rename new k.now r0) ∨ (r ∈ k.teams.rows ∧ r.id ≠ team) := by
  obtain ⟨r0, hr0, rfl⟩ := List.mem_map.mp h
  by_cases hid : r0.id = team
  · exact .inl ⟨r0, hr0, hid, by simp [hid]⟩
  · exact .inr (by simp [hid, hr0])

/-- What the transaction does. -/
inductive Commits (k : Core) (team : ℕ) (old new : String) : Core → Prop
  | refused : Commits k team old new k
  | idle : Commits k team old new { k with reserved := k.swap team old new }
  | done (r : Team) (hr : k.teams.select team = some r) (hfree : ∀ r' ∈ k.teams.rows, r'.slug = new → r'.id = team) :
    Commits k team old new
      { k with
        reserved := k.swap team old new
        teams := k.teams.update (fun r' => r'.id == team) (rename new k.now) (rename_id new k.now)
        log := ⟨team, r.slug, new, k.now⟩ :: k.log }

theorem commits : Commits k team old new (k.commit team old new) := by
  unfold Core.commit
  split
  · exact .idle
  next r hr =>
    split_ifs with hd hany
    · exact .idle
    · exact .refused
    · refine .done r hr fun r' hr' hslug => ?_
      by_contra hid
      exact hany (List.any_eq_true.mpr ⟨r', hr', by simp [hslug, hid]⟩)

theorem Kept.swap (hk : Kept k) (h : Read k team old new) (hu : Unparked k team new) :
    Kept { k with reserved := k.swap team old new } :=
  { hk with parked := fun _ he hlt => h.swap_parked hu hk he hlt }

/-- **The transaction keeps the rules.** -/
theorem Kept.commit {k' : Core} (hk : Kept k) (h : Read k team old new) (hu : Unparked k team new)
    (hc : Commits k team old new k') : Kept k' := by
  cases hc with
  | refused => exact hk
  | idle => exact hk.swap h hu
  | done r hr hfree =>
    obtain ⟨hne, r', hr', rfl, -⟩ := id h
    rw [hr] at hr'
    cases hr'
    obtain ⟨hmem, hid⟩ := Table.select_eq_some.mp hr
    exact
      { unique := by
          intro a ha b hb hab
          rcases mem_renamed ha with ⟨a0, ha0, hida, rfl⟩ | ⟨ha, hida⟩ <;>
            rcases mem_renamed hb with ⟨b0, hb0, hidb, rfl⟩ | ⟨hb, hidb⟩
          · rw [Table.eq_of_key ha0 hb0 (hida.trans hidb.symm)]
          · exact absurd (hfree b hb hab.symm) hidb
          · exact absurd (hfree a ha hab) hida
          · exact hk.unique a ha b hb hab
        spaced := by
          refine List.pairwise_cons.mpr ⟨fun f hf => ⟨fun ht => ?_, fun _ hn => ?_⟩, hk.spaced⟩
          · exact h.cooled hk hf ht.symm
          · exact h.parked_new hu hk hf hn.symm
        changed := by
          intro e he
          rcases List.mem_cons.mp he with rfl | he
          · refine ⟨rename new k.now r, k.now, ?_, rfl, Nat.le_refl _⟩
            rw [Table.select_update, hr, Option.map_some, if_pos (by simpa using hid)]
          · obtain ⟨r0, t, hr0, ht, hle⟩ := hk.changed e he
            by_cases hteam : r0.id = team
            · have hcool := h.cooled hk he ((Table.select_key hr0).symm.trans hteam)
              refine ⟨rename new k.now r0, k.now, ?_, rfl, by omega⟩
              rw [Table.select_update, hr0, Option.map_some, if_pos (by simpa using hteam)]
            · refine ⟨r0, t, ?_, ht, hle⟩
              rw [Table.select_update, hr0, Option.map_some, if_neg (by simpa using hteam)]
        parked := by
          intro e he hlt
          rcases List.mem_cons.mp he with rfl | he
          · exact (update_of_ne hne ..).trans (update_self ..)
          · exact h.swap_parked hu hk he hlt
        free := by
          intro e he hlt a ha hslug
          rcases mem_renamed ha with ⟨a0, ha0, hida, rfl⟩ | ⟨ha, hida⟩
          · rcases List.mem_cons.mp he with rfl | he
            · exact hne hslug.symm
            · exact absurd (h.parked_new hu hk he hslug.symm) (Nat.not_le_of_lt hlt)
          · rcases List.mem_cons.mp he with rfl | he
            · exact hida ((congrArg Team.id (hk.unique a ha r hmem hslug)).trans hid)
            · exact hk.free e he hlt a ha hslug }

/-- A call of another team that does not take the slug that is given up. -/
theorem Fit.commit {k' : Core} (hp : Fit k p) (hr : p.reads team = false) (ht : p.takes old = false)
    (hc : Commits k team old new k') : Fit k' p := by
  have hread : ∀ {t : ℕ} {o n : String}, t ≠ team → Read k t o n → Read k' t o n := by
    rintro t o n hne ⟨hon, r, hr, hrest⟩
    refine ⟨hon, r, ?_, ?_⟩
    · cases hc with
      | refused => exact hr
      | idle => exact hr
      | done =>
        have hid : r.id ≠ team := (Table.select_key hr).trans_ne hne
        rw [Table.select_update, hr, Option.map_some, if_neg (by simpa using hid)]
    · cases hc <;> exact hrest
  have hunparked : ∀ {t : ℕ} {n : String}, n ≠ old → Unparked k t n → Unparked k' t n := by
    intro t n hne hu
    have hswap : ∀ r, k.swap team old new n = some r → r.team = t ∨ r.expiresAt ≤ k.now := by
      intro r hr
      by_cases hn : n = new
      · rw [Core.swap, hn, update_self] at hr
        cases hr
      · rw [Core.swap, update_of_ne hn, update_of_ne hne] at hr
        exact hu r hr
    cases hc with
    | refused => exact hu
    | idle => exact hswap
    | done => exact hswap
  cases p with
  | getTeamBySlug t o n => exact hread (by simpa [Proc.reads] using hr) hp
  | getActiveReservedSlug t o n => exact hread (by simpa [Proc.reads] using hr) hp
  | commit t o n =>
    exact ⟨hread (by simpa [Proc.reads] using hr) hp.1, hunparked (by simpa [Proc.takes] using ht) hp.2⟩
  | _ => trivial

/-! ### The environment -/

theorem select_deleteTeam {t : ℕ} {r : Team} (hr : k.teams.select t = some r) :
    ∃ r', (env k (.deleteTeam team)).teams.select t = some r' ∧ r'.slug = r.slug ∧
      r'.slugChangedAt = r.slugChangedAt := by
  refine ⟨if r.id == team then markDeleted r else r, (Table.select_update markDeleted_id).trans (congrArg _ hr), ?_⟩
  split_ifs <;> exact ⟨rfl, rfl⟩

theorem Kept.env (hk : Kept k) (e : Event) : Kept (env k e) := by
  cases e with
  | pass d =>
    have hnow : ∀ {t : ℕ}, (Slugs.env k (.pass d)).now < t → k.now < t :=
      fun h => Nat.lt_of_le_of_lt (Nat.le_add_right _ d) h
    exact
      { hk with
        parked := fun f hf hlt => hk.parked f hf (hnow hlt)
        free := fun f hf hlt => hk.free f hf (hnow hlt) }
  | deleteTeam team =>
    have hrow : ∀ r ∈ (Slugs.env k (.deleteTeam team)).teams.rows, ∃ r0 ∈ k.teams.rows, r.slug = r0.slug ∧
        r = if r0.id == team then markDeleted r0 else r0 := by
      intro r hr
      obtain ⟨r0, hr0, rfl⟩ := List.mem_map.mp hr
      refine ⟨r0, hr0, ?_, rfl⟩
      split_ifs <;> rfl
    exact
      { unique := by
          intro a ha b hb hab
          obtain ⟨a0, ha0, hsa, rfl⟩ := hrow a ha
          obtain ⟨b0, hb0, hsb, rfl⟩ := hrow b hb
          rw [hk.unique a0 ha0 b0 hb0 (hsa.symm.trans (hab.trans hsb))]
        spaced := hk.spaced
        changed := by
          intro f hf
          obtain ⟨r, t, hr, ht, hle⟩ := hk.changed f hf
          obtain ⟨r', hr', -, ht'⟩ := select_deleteTeam hr
          exact ⟨r', t, hr', ht'.trans ht, hle⟩
        parked := hk.parked
        free := by
          intro f hf hlt r hr
          obtain ⟨r0, hr0, hslug, -⟩ := hrow r hr
          rw [hslug]
          exact hk.free f hf hlt r0 hr0 }

theorem Read.env (h : Read k team old new) (e : Event) : Read (env k e) team old new := by
  obtain ⟨hne, r, hr, hslug, hcool⟩ := h
  cases e with
  | pass d => exact ⟨hne, r, hr, hslug, fun t ht => Nat.le_add_right_of_le (hcool t ht)⟩
  | deleteTeam t =>
    obtain ⟨r', hr', hslug', ht'⟩ := select_deleteTeam hr
    exact ⟨hne, r', hr', hslug'.trans hslug, fun t ht => hcool t (ht'.symm.trans ht)⟩

theorem Fit.env (h : Fit k p) (e : Event) : Fit (env k e) p := by
  cases p with
  | getTeamBySlug t o n => exact Read.env h e
  | getActiveReservedSlug t o n => exact Read.env h e
  | commit t o n =>
    refine ⟨h.1.env e, fun r hr => ?_⟩
    cases e with
    | pass d => exact (h.2 r hr).imp_right Nat.le_add_right_of_le
    | deleteTeam team => exact h.2 r hr
  | _ => trivial

/-! ### Runs -/

/-- **One statement**, seen by its own call. -/
theorem fit_run {admin : Bool} (h : Fit k p) : Fit (run k admin p).1 (run k admin p).2 := by
  cases p with
  | callerRole team new =>
    simp only [run]
    split_ifs <;> trivial
  | getTeam team new =>
    simp only [run]
    split
    · trivial
    next r hr =>
      split_ifs with hall
      · simp only [Team.allows, Bool.and_eq_true, bne_iff_ne, Bool.not_eq_true', Option.any_eq_false] at hall
        exact ⟨hall.1.2, r, hr, rfl, fun t ht => by simpa using hall.2 t ht⟩
      · trivial
  | getTeamBySlug team old new =>
    simp only [run]
    split_ifs
    · trivial
    · exact h
  | getActiveReservedSlug team old new =>
    simp only [run]
    split_ifs with hany
    · trivial
    · refine ⟨h, fun r hr => ?_⟩
      rw [hr] at hany
      simp only [Option.any_some, Bool.and_eq_true, decide_eq_true_eq, bne_iff_ne, not_and, not_not] at hany
      by_cases hlt : k.now < r.expiresAt
      · exact .inl (hany hlt)
      · exact .inr (Nat.le_of_not_lt hlt)
  | _ => trivial

/-- **One statement**, seen by the teams and by the other calls. -/
theorem kept_run {admin : Bool} {rest : List Proc} (hok : alone s p = true) (hk : Kept s.core) (hp : Fit s.core p)
    (hperm : s.threads.Perm (p :: rest)) (hrest : ∀ q ∈ rest, Fit s.core q) :
    Kept (run s.core admin p).1 ∧ ∀ q ∈ rest, Fit (run s.core admin p).1 q := by
  cases p with
  | getTeam team new =>
    simp only [run]
    split <;> exact ⟨hk, hrest⟩
  | commit team old new =>
    simp only [alone, Bool.and_eq_true, decide_eq_true_eq, List.all_eq_true, Bool.not_eq_true'] at hok
    obtain ⟨hcount, htakes⟩ := hok
    rw [hperm.countP_eq, List.countP_cons_of_pos (by simp [Proc.reads])] at hcount
    have hzero : rest.countP (Proc.reads team) = 0 := by omega
    refine ⟨hk.commit hp.1 hp.2 commits, fun q hq => (hrest q hq).commit ?_ (htakes q ?_) commits⟩
    · simpa using List.countP_eq_zero.mp hzero q hq
    · exact hperm.mem_iff.mpr (List.mem_cons_of_mem _ hq)
  | _ => exact ⟨hk, hrest⟩

theorem fits_of_step {a : Step} (hok : Alone s a) (h : Fits Kept Fit s) (hs : prog.step s a = some s') :
    Fits Kept Fit s' := by
  refine fits_step (P := prog) ?_ ?_ (fun _ => trivial) ?_ h hs
  · intro i k p _ hp
    cases hp
    exact ⟨h.1, trivial, h.2⟩
  · rintro t admin p k p' rest rfl hp hr hperm
    have halone : alone s p = true := by simpa [Alone, hp] using hok
    have hfit := h.2 p (hperm.mem_iff.mpr List.mem_cons_self)
    obtain ⟨hk, hrest⟩ : Kept (run s.core admin p).1 ∧ ∀ q ∈ rest, Fit (run s.core admin p).1 q :=
      kept_run halone h.1 hfit hperm fun q hq => h.2 q (hperm.mem_iff.mpr (List.mem_cons_of_mem _ hq))
    obtain rfl : (run s.core admin p).1 = k := congrArg Prod.fst (Option.some.inj hr)
    obtain rfl : (run s.core admin p).2 = p' := congrArg Prod.snd (Option.some.inj hr)
    exact ⟨hk, fit_run hfit, hrest⟩
  · intro e k _ he
    cases he
    exact ⟨h.1.env e, fun q hq => (h.2 q hq).env e⟩

/-- **The rules of the slugs** hold in every run of such transactions: the changes of a team are 60 days apart, nobody
takes a slug that another team gave up less than 30 days before, and a slug that was given up is parked for so long. -/
theorem slug_rules (h : Reach prog.step Alone (fun s => Kept s.core ∧ s.threads = []) s) :
    s.core.log.Pairwise Spaced ∧ ∀ e ∈ s.core.log, s.core.now < e.time + parking →
      s.core.reserved e.old = some ⟨e.team, e.time + parking⟩ := by
  have hI : Fits Kept Fit s := by
    refine Reach.invariant (fun s hs => ⟨hs.1, fun p hp => ?_⟩) (fun s a s' hI hok hs => fits_of_step hok hI hs) h
    rw [hs.2] at hp
    exact absurd hp List.not_mem_nil
  exact ⟨hI.1.spaced, hI.1.parked⟩

instance decidableAlone (s : Sys Core Proc) (a : Step) : Decidable (Alone s a) := by
  unfold Alone
  split <;> infer_instance

/-- Two teams. -/
def two : Sys Core Proc :=
  ⟨⟨0, ⟨[⟨1, "a", none, false⟩, ⟨2, "d", none, false⟩], by decide⟩, fun _ => none, []⟩, []⟩

theorem two_kept : Kept two.core where
  unique := by decide
  spaced := .nil
  changed _ he := absurd he List.not_mem_nil
  parked _ he := absurd he List.not_mem_nil
  free _ he := absurd he List.not_mem_nil

/-- The statements of a call that nothing stops. -/
def whole (t : ℕ) : List Step := List.replicate 5 (.act t true)

/-- Team 1 leaves the slug `a`, and team 2 takes it 30 days later. -/
def handed : List Step :=
  .start (1, "b") :: whole 0 ++ .env (.pass parking) :: .start (2, "a") :: whole 1

theorem handed_keeps_rules : (last prog.step two handed).core.log.Pairwise Spaced ∧
    ∀ e ∈ (last prog.step two handed).core.log, (last prog.step two handed).core.now < e.time + parking →
      (last prog.step two handed).core.reserved e.old = some ⟨e.team, e.time + parking⟩ := by
  have hadm : Admits prog.step Alone two handed := by decide +kernel
  exact slug_rules (.last ⟨two_kept, rfl⟩ hadm)

/-- Two calls of team 1 read the team before either commits: both change the slug, in the same second, and the slug
`b` that the second one gives up is not parked. -/
theorem two_changes_at_once :
    (exec prog.step two
      (.start (1, "b") :: .start (1, "c") :: (List.replicate 4 (.act 0 true) ++ List.replicate 4 (.act 1 true)) ++
        [.act 0 true, .act 1 true])).map (fun s => (s.core.log, s.core.reserved "b")) =
      some ([⟨1, "b", "c", 0⟩, ⟨1, "a", "b", 0⟩], none) := by
  decide +kernel

end Wrenn.Teams.Slugs
