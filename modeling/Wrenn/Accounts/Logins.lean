import Wrenn.Lib.Runs
import Wrenn.Lib.Tables
import Wrenn.Lib.Threads

/-!
# The ways to log in

A user logs in with a password or with an identity at an OAuth provider; the link branch of the OAuth callback adds an
identity, `DisconnectProvider` deletes all those of one provider, and a password that was set is only ever replaced.
`DisconnectProvider` reads the password and the identities before it deletes.  The calls run concurrently, and every
statement is a step.  A call that fails ends, like a crash.

* `login_kept`: who can log in can log in later, if no user has two identities of one provider and no two
  disconnects of one user are about to delete at the same time;
* `both_identities_deleted`: otherwise one call deletes all identities.
-/

namespace Wrenn.Accounts.Logins

open Lib.Tables Lib.Threads Lib.Runs

/-- A row of `oauth_providers`. -/
structure Identity where
  provider : ℕ
  providerID : ℕ
  user : ℕ
  deriving DecidableEq, Repr

/-- The primary key. -/
def Identity.key (i : Identity) : ℕ × ℕ := (i.provider, i.providerID)

structure Core where
  /-- the users with a password -/
  password : ℕ → Bool
  identities : Table Identity.key

def Core.getOAuthProvidersByUserID (k : Core) (u : ℕ) : List Identity := k.identities.list fun i => i.user == u

def Core.deleteOAuthProvider (k : Core) (u provider : ℕ) : Core :=
  { k with identities := k.identities.delete fun i => i.user == u && i.provider == provider }

/-! ### The handlers -/

inductive Proc
  /-- `GetOAuthProvider` of the callback -/
  | lookup (i : Identity)
  | insert (i : Identity)
  /-- `GetUserByID` of `DisconnectProvider` -/
  | getUser (u provider : ℕ)
  | getProviders (u provider : ℕ) (hasPassword : Bool)
  | delete (u provider : ℕ)
  | updateUserPassword (u : ℕ)
  | ended
  deriving DecidableEq, Repr

def run (k : Core) : Proc → Core × Proc
  | .lookup i => (k, if (k.identities.select i.key).isSome then .ended else .insert i)
  | .insert i =>
    match k.identities.insert i with
    | none => (k, .ended)
    | some t => ({ k with identities := t }, .ended)
  | .getUser u provider => (k, .getProviders u provider (k.password u))
  | .getProviders u provider hasPassword =>
    (k, if !hasPassword && decide ((k.getOAuthProvidersByUserID u).length ≤ 1) then .ended
      else if (k.getOAuthProvidersByUserID u).any fun i => i.provider == provider then .delete u provider
      else .ended)
  | .delete u provider => (k.deleteOAuthProvider u provider, .ended)
  | .updateUserPassword u => ({ k with password := Function.update k.password u true }, .ended)
  | .ended => (k, .ended)

inductive Call
  | link (i : Identity)
  | disconnectProvider (u provider : ℕ)
  | changePassword (u : ℕ)
  deriving DecidableEq, Repr

def prog : Prog Core Proc Call Unit Empty where
  spawn k
    | .link i => some (k, .lookup i)
    | .disconnectProvider u provider => some (k, .getUser u provider)
    | .changePassword u => some (k, .updateUserPassword u)
  run k _ p := some (run k p)
  halt := .ended
  env _ e := nomatch e

abbrev Step := Label Call Unit Empty

/-! ### A way to log in -/

def Login (k : Core) (u : ℕ) : Prop := k.password u = true ∨ ∃ i ∈ k.identities.rows, i.user = u

/-- No user has two identities of one provider. -/
def Distinct (k : Core) : Prop :=
  ∀ i ∈ k.identities.rows, ∀ j ∈ k.identities.rows, i.user = j.user → i.provider = j.provider → i = j

def Proc.deletes (u : ℕ) : Proc → Bool
  | .delete v _ => v == u
  | _ => false

/-- When a statement may run: an identity is new to its user, and nobody else is about to delete. -/
def single (s : Sys Core Proc) : Proc → Bool
  | .insert i => s.core.identities.rows.all fun j => !(j.user == i.user && j.provider == i.provider)
  | .delete u _ => decide (s.threads.countP (Proc.deletes u) ≤ 1)
  | _ => true

/-- The guard of a run. -/
def Single (s : Sys Core Proc) : Step → Prop
  | .act t _ => (s.threads[t]?).all (single s) = true
  | _ => True

variable {k : Core} {s s' : Sys Core Proc} {u provider : ℕ}

/-- What a call knows after its reads. -/
def Fit (k : Core) : Proc → Prop
  | .getProviders u _ hasPassword => hasPassword = true → k.password u = true
  | .delete u provider => k.password u = true ∨ ∃ i ∈ k.identities.rows, i.user = u ∧ i.provider ≠ provider
  | _ => True

/-- More identities and more passwords. -/
theorem Fit.mono {k' : Core} {p : Proc} (h : Fit k p) (hp : ∀ u, k.password u = true → k'.password u = true)
    (hi : ∀ i ∈ k.identities.rows, i ∈ k'.identities.rows) : Fit k' p := by
  cases p with
  | getProviders u provider b => exact fun hb => hp u (h hb)
  | delete u provider => exact h.imp (hp u) (Exists.imp fun i => And.imp_left (hi i))
  | _ => trivial

/-- Two identities of a user are of two providers. -/
theorem exists_other (hd : Distinct k) (hl : 1 < (k.getOAuthProvidersByUserID u).length) :
    ∃ i ∈ k.identities.rows, i.user = u ∧ i.provider ≠ provider := by
  have hnodup : (k.getOAuthProvidersByUserID u).Nodup := (List.Nodup.of_map _ k.identities.nodup).filter _
  have hmem : ∀ i ∈ k.getOAuthProvidersByUserID u, i ∈ k.identities.rows ∧ i.user = u := by
    intro i hi
    obtain ⟨hi, hu⟩ := Table.mem_list.mp hi
    exact ⟨hi, by simpa using hu⟩
  cases hlist : k.getOAuthProvidersByUserID u with
  | nil =>
    rw [hlist] at hl
    cases hl
  | cons a l =>
    cases l with
    | nil =>
      rw [hlist] at hl
      exact absurd hl (Nat.lt_irrefl 1)
    | cons b l =>
      rw [hlist] at hnodup hmem
      obtain ⟨ha, hau⟩ := hmem a List.mem_cons_self
      obtain ⟨hb, hbu⟩ := hmem b (List.mem_cons_of_mem _ List.mem_cons_self)
      by_cases hpa : a.provider = provider
      · refine ⟨b, hb, hbu, fun hpb => ?_⟩
        have hab := hd a ha b hb (hau.trans hbu.symm) (hpa.trans hpb.symm)
        exact (List.nodup_cons.mp hnodup).1 (hab ▸ List.mem_cons_self)
      · exact ⟨a, ha, hau, hpa⟩

theorem mem_deleteOAuthProvider {i : Identity} :
    i ∈ (k.deleteOAuthProvider u provider).identities.rows ↔
      i ∈ k.identities.rows ∧ ¬(i.user = u ∧ i.provider = provider) := by
  simp [Core.deleteOAuthProvider, Table.delete, imp_iff_not_or]

/-- The deletion of the others' identities. -/
theorem Fit.deleteOAuthProvider {p : Proc} (h : Fit k p) (hp : p.deletes u = false) :
    Fit (k.deleteOAuthProvider u provider) p := by
  cases p with
  | getProviders v q b => exact h
  | delete v q =>
    have hne : v ≠ u := by simpa [Proc.deletes] using hp
    rcases h with h | ⟨i, hi, hv, hq⟩
    · exact .inl h
    · exact .inr ⟨i, mem_deleteOAuthProvider.mpr ⟨hi, fun he => hne (hv.symm.trans he.1)⟩, hv, hq⟩
  | _ => trivial

/-- One of two calls that are about to delete is another one. -/
theorem not_deletes_rest {rest : List Proc} (hperm : s.threads.Perm (.delete u provider :: rest))
    (hcount : s.threads.countP (Proc.deletes u) ≤ 1) : ∀ q ∈ rest, q.deletes u = false := by
  rw [hperm.countP_eq, List.countP_cons_of_pos (by simp [Proc.deletes])] at hcount
  have hzero : rest.countP (Proc.deletes u) = 0 := by omega
  exact fun q hq => by simpa using List.countP_eq_zero.mp hzero q hq

/-- **One statement**, seen by its own call. -/
theorem fit_run {p : Proc} (hd : Distinct k) (h : Fit k p) : Fit (run k p).1 (run k p).2 := by
  cases p with
  | lookup i =>
    simp only [run]
    split_ifs <;> trivial
  | insert i =>
    simp only [run]
    split <;> trivial
  | getUser u provider => exact id
  | getProviders u provider b =>
    simp only [run]
    split_ifs with hfew hany
    · trivial
    · cases b with
      | true => exact .inl (h rfl)
      | false => exact .inr (exists_other hd (by simpa using hfew))
    · trivial
  | _ => trivial

/-- **One statement**, seen by the state and by the other calls. -/
theorem distinct_run {p : Proc} {rest : List Proc} (hok : single s p = true) (hd : Distinct s.core)
    (hperm : s.threads.Perm (p :: rest)) (h : ∀ q ∈ rest, Fit s.core q) :
    Distinct (run s.core p).1 ∧ ∀ q ∈ rest, Fit (run s.core p).1 q := by
  cases p with
  | insert i =>
    simp only [run]
    split
    · exact ⟨hd, h⟩
    next t ht =>
      have hnew : ∀ j ∈ s.core.identities.rows, j.user = i.user → j.provider ≠ i.provider := by
        simpa [single, ← not_and_or] using hok
      refine ⟨fun a ha b hb hu hp => ?_, fun q hq => (h q hq).mono (fun _ => id) fun j hj => ?_⟩
      · rcases (Table.mem_insert ht).mp ha with rfl | ha <;> rcases (Table.mem_insert ht).mp hb with rfl | hb
        · rfl
        · exact absurd hp.symm (hnew b hb hu.symm)
        · exact absurd hp (hnew a ha hu)
        · exact hd a ha b hb hu hp
      · exact (Table.mem_insert ht).mpr (.inr hj)
  | delete u provider =>
    have hrest := not_deletes_rest hperm (by simpa [single] using hok)
    refine ⟨fun a ha b hb => ?_, fun q hq => (h q hq).deleteOAuthProvider (hrest q hq)⟩
    exact hd a (mem_deleteOAuthProvider.mp ha).1 b (mem_deleteOAuthProvider.mp hb).1
  | updateUserPassword u =>
    refine ⟨hd, fun q hq => (h q hq).mono (fun v hv => ?_) fun _ => id⟩
    by_cases he : v = u <;> simp [run, he, hv]
  | _ => exact ⟨hd, h⟩

theorem fits_of_step {a : Step} (hok : Single s a) (h : Fits Distinct Fit s) (hs : prog.step s a = some s') :
    Fits Distinct Fit s' := by
  refine fits_step (P := prog) ?_ ?_ (fun k => trivial) (fun e => e.elim) h hs
  · intro i k p _ hp
    cases i <;> cases hp <;> exact ⟨h.1, trivial, h.2⟩
  · rintro t c p k p' rest rfl hp hr hperm
    have hp' : single s p = true := by simpa [Single, hp] using hok
    have hfit := fun q hq => h.2 q (hperm.mem_iff.mpr hq)
    obtain ⟨hd, hrest⟩ := distinct_run hp' h.1 hperm fun q hq => hfit q (List.mem_cons_of_mem _ hq)
    obtain rfl : (run s.core p).1 = k := congrArg Prod.fst (Option.some.inj hr)
    obtain rfl : (run s.core p).2 = p' := congrArg Prod.snd (Option.some.inj hr)
    exact ⟨hd, fit_run h.1 (hfit p List.mem_cons_self), hrest⟩

/-- **One statement**, seen by the users. -/
theorem login_run {p : Proc} {v : ℕ} (h : Fit k p) (hl : Login k v) : Login (run k p).1 v := by
  cases p with
  | insert i =>
    simp only [run]
    split
    · exact hl
    next t ht => exact hl.imp_right (Exists.imp fun j => And.imp_left fun hj => (Table.mem_insert ht).mpr (.inr hj))
  | delete u provider =>
    by_cases hv : v = u
    · subst hv
      rcases h with h | ⟨i, hi, hu, hp⟩
      · exact .inl h
      · exact .inr ⟨i, mem_deleteOAuthProvider.mpr ⟨hi, fun he => hp he.2⟩, hu⟩
    · rcases hl with hl | ⟨i, hi, hu⟩
      · exact .inl hl
      · exact .inr ⟨i, mem_deleteOAuthProvider.mpr ⟨hi, fun he => hv (hu.symm.trans he.1)⟩, hu⟩
  | updateUserPassword u =>
    by_cases he : v = u
    · exact .inl (by simp [run, he])
    · exact hl.imp_left fun hv => by simp [run, he, hv]
  | _ => exact hl

theorem login_step {a : Step} {v : ℕ} (h : Fits Distinct Fit s) (hl : Login s.core v)
    (hs : prog.step s a = some s') : Login s'.core v := by
  cases moves_of_step hs with
  | @start i k p _ hp _ => cases i <;> cases hp <;> exact hl
  | @act t c k p p' rest threads hp hr hperm _ =>
    obtain rfl : (run s.core p).1 = k := congrArg Prod.fst (Option.some.inj hr)
    exact login_run (h.2 p (hperm.mem_iff.mpr List.mem_cons_self)) hl
  | crash => exact hl
  | noCrash => exact hl
  | @env e => exact e.elim

/-- **Nobody is locked out**: in every run of such statements, who has a way to log in still has one in every later
state. -/
theorem login_kept (h : Reach prog.step Single (fun s => Distinct s.core ∧ s.threads = []) s)
    (h' : Reach prog.step Single (· = s) s') (hl : Login s.core u) : Login s'.core u := by
  have hfits : Fits Distinct Fit s := by
    refine Reach.invariant (fun s hs => ⟨hs.1, fun p hp => ?_⟩) (fun s a s' hI hok hs => fits_of_step hok hI hs) h
    rw [hs.2] at hp
    exact absurd hp List.not_mem_nil
  refine (Reach.invariant (I := fun s => Fits Distinct Fit s ∧ Login s.core u) ?_ ?_ h').2
  · rintro _ rfl
    exact ⟨hfits, hl⟩
  · intro s a s' hI hok hs
    exact ⟨fits_of_step hok hI.1 hs, login_step hI.1 hI.2 hs⟩

/-! ### Runs -/

/-- User 1 has an identity of provider 1 and no password. -/
def linked : Sys Core Proc := ⟨⟨fun _ => false, ⟨[⟨1, 10, 1⟩], by decide⟩⟩, []⟩

/-- The user links provider 2 and disconnects provider 1. -/
def moved : List Step :=
  [.start (.link ⟨2, 20, 1⟩), .act 0 (), .act 0 (), .start (.disconnectProvider 1 1), .act 1 (), .act 1 (), .act 1 ()]

instance decidableSingle (s : Sys Core Proc) (a : Step) : Decidable (Single s a) := by
  unfold Single
  split <;> infer_instance

theorem moved_keeps_login : Login (last prog.step linked moved).core 1 := by
  have hadm : Admits prog.step Single linked moved := by decide +kernel
  have hd : Distinct linked.core := by
    intro i hi j hj _ _
    rw [List.mem_singleton.mp hi, List.mem_singleton.mp hj]
  exact login_kept (.init ⟨hd, rfl⟩) (.last rfl hadm) (.inr ⟨⟨1, 10, 1⟩, List.mem_singleton_self _, rfl⟩)

/-- A user with two accounts at provider 1 disconnects it: they count as two, and both rows go. -/
theorem both_identities_deleted :
    (exec prog.step linked
      [.start (.link ⟨1, 11, 1⟩), .act 0 (), .act 0 (), .start (.disconnectProvider 1 1), .act 1 (), .act 1 (),
        .act 1 ()]).map (fun s => (s.core.identities.rows, s.core.password 1)) = some ([], false) := by
  decide +kernel

end Wrenn.Accounts.Logins
