import Mathlib
import Wrenn.Lib.Runs
import Wrenn.Lib.Threads

/-!
# The rotation of a host's refresh token

`HostService.Refresh` looks the presented token up, signs a new JWT, inserts a new token and only then revokes
the old one.  The statements are separate, and the last one does not look whether the token is still there to
be revoked.  So the host is never without a token, but a token can be spent twice.

* `run_turn` says what a statement of `Refresh` can do.
* `alive_step`: the host keeps a token, whatever happens.
* `once_step`: a token is spent once if no `Refresh` finds a token that another one has.

Tokens are numbered in the order of their insertion, in place of the hashes of random strings; times are in
nanoseconds.  The certificate and the other columns of a host are left out.
-/

namespace Wrenn.Credentials.Refresh

open Lib.Runs Lib.Threads

/-! ### Tokens -/

def day : ℕ := 24 * 3600 * 10 ^ 9

/-- `hostJWTExpiry` -/
@[irreducible]
def hostJWTExpiry : ℕ := 7 * day

/-- `HostRefreshTokenExpiry` -/
@[irreducible]
def hostRefreshTokenExpiry : ℕ := 60 * day

/-- A row of `host_refresh_tokens`. -/
structure Token where
  host : ℕ
  expiresAt : ℕ
  revoked : Bool
  /-- the token that was presented when it was issued -/
  parent : Option ℕ
  deriving DecidableEq, Repr

structure Core where
  now : ℕ
  hosts : List ℕ
  /-- the control plane issues certificates -/
  ca : Bool
  tokens : List Token
  /-- the tokens that a `Refresh` succeeded with -/
  spent : List ℕ
  deriving DecidableEq, Repr

/-- `GetHostRefreshTokenByHash` -/
def Core.getToken (k : Core) (i : ℕ) : Option Token :=
  (k.tokens[i]?).filter fun t => !t.revoked && decide (k.now < t.expiresAt)

def Core.insertToken (k : Core) (host row : ℕ) : Core :=
  { k with tokens := k.tokens ++ [⟨host, k.now + hostRefreshTokenExpiry, false, some row⟩] }

def Core.revokeToken (k : Core) (i : ℕ) : Core :=
  { k with tokens := k.tokens.modify i fun t => { t with revoked := true } }

def Core.spend (k : Core) (i : ℕ) : Core := { k with spent := i :: k.spent }

/-- The number of tokens that were issued for a token. -/
def Core.children (k : Core) (i : ℕ) : ℕ := k.tokens.countP fun t => decide (t.parent = some i)

/-! ### `Refresh` -/

inductive Reply
  | ok
  | failed
  /-- the statement took effect, and the answer did not arrive -/
  | lost
  deriving DecidableEq, Repr

/-- A JWT is the time until which it is accepted. -/
inductive Proc
  | getToken (tok : ℕ)
  | getHost (row host : ℕ)
  | updateCert (row host jwt : ℕ)
  | insert (row host jwt : ℕ)
  | revoke (row jwt new : ℕ)
  /-- with the new JWT and the new token, if it succeeded -/
  | ended (result : Option (ℕ × ℕ))
  deriving DecidableEq, Repr

def run (k : Core) (r : Reply) : Proc → Option (Core × Proc)
  | .getToken tok =>
    match r, k.getToken tok with
    | .ok, some t => some (k, .getHost tok t.host)
    | _, _ => some (k, .ended none)
  | .getHost row host =>
    if r = .ok ∧ host ∈ k.hosts then
      some (k, if k.ca then .updateCert row host (k.now + hostJWTExpiry) else .insert row host (k.now + hostJWTExpiry))
    else some (k, .ended none)
  | .updateCert row host jwt => some (k, if r = .ok then .insert row host jwt else .ended none)
  | .insert row host jwt =>
    match r with
    | .ok => some (k.insertToken host row, .revoke row jwt k.tokens.length)
    | .failed => some (k, .ended none)
    | .lost => some (k.insertToken host row, .ended none)
  | .revoke row jwt new =>
    match r with
    | .ok => some ((k.revokeToken row).spend row, .ended (some (jwt, new)))
    | .failed => some (k, .ended none)
    | .lost => some (k.revokeToken row, .ended none)
  | .ended _ => none

/-- Any token can be presented, also one that does not exist. -/
def prog : Prog Core Proc ℕ Reply ℕ where
  spawn k tok := some (k, .getToken tok)
  run := run
  halt := .ended none
  env k d := some { k with now := k.now + d }

abbrev State := Sys Core Proc

abbrev Act := Label ℕ Reply ℕ

def step : State → Act → Option State := prog.step

/-- Every host has a token, and nothing has been issued or spent yet. -/
structure Initial (s : State) : Prop where
  threads : s.threads = []
  tokens : ∀ h ∈ s.core.hosts, ∃ t ∈ s.core.tokens, t.host = h ∧ t.revoked = false
  parent : ∀ t ∈ s.core.tokens, t.parent = none
  spent : s.core.spent = []

/-! ### What a statement does -/

/-- Row and host of a `Refresh` that has not issued its token yet. -/
def early : Proc → Option (ℕ × ℕ)
  | .getHost row host | .updateCert row host _ | .insert row host _ => some (row, host)
  | _ => none

/-- The row that a `Refresh` is about to revoke. -/
def pending : Proc → Option ℕ
  | .revoke row _ _ => some row
  | _ => none

/-- The row that a `Refresh` has found. -/
def holds (p : Proc) : Option ℕ := (early p).map Prod.fst <|> pending p

/-- Nothing, or the row is found, or the work on it goes on, or a token is issued, or one is revoked. -/
inductive Turn (k : Core) : Proc → Core → Proc → Prop
  | quit {p : Proc} : Turn k p k (.ended none)
  | found {tok : ℕ} {t : Token} (h : k.getToken tok = some t) : Turn k (.getToken tok) k (.getHost tok t.host)
  | onward {p p' : Proc} {x : ℕ × ℕ} (h : early p = some x) (h' : early p' = some x) : Turn k p k p'
  | issue {row host jwt : ℕ} {p' : Proc} (h : p' = .revoke row jwt k.tokens.length ∨ p' = .ended none) :
    Turn k (.insert row host jwt) (k.insertToken host row) p'
  | revoke {row jwt new : ℕ} {k' : Core} {p' : Proc}
      (h : p' = .ended (some (jwt, new)) ∧ k' = (k.revokeToken row).spend row ∨
      p' = .ended none ∧ k' = k.revokeToken row) : Turn k (.revoke row jwt new) k' p'

theorem run_turn {k k' : Core} {r : Reply} {p p' : Proc} (h : run k r p = some (k', p')) : Turn k p k' p' := by
  cases p with
  | getToken tok =>
    simp only [run] at h
    split at h
    case h_1 t ht =>
      cases h
      exact .found ht
    case h_2 =>
      cases h
      exact .quit
  | getHost row host =>
    simp only [run] at h
    split_ifs at h <;> cases h
    · exact .onward rfl rfl
    · exact .onward rfl rfl
    · exact .quit
  | updateCert row host jwt =>
    cases h
    split_ifs
    · exact .onward rfl rfl
    · exact .quit
  | insert row host jwt =>
    cases r with
    | ok => cases h; exact .issue (.inl rfl)
    | failed => cases h; exact .quit
    | lost => cases h; exact .issue (.inr rfl)
  | revoke row jwt new =>
    cases r with
    | ok => cases h; exact .revoke (.inl ⟨rfl, rfl⟩)
    | failed => cases h; exact .quit
    | lost => cases h; exact .revoke (.inr ⟨rfl, rfl⟩)
  | ended result => cases h

section Tokens

variable {k : Core} {i j host row : ℕ} {t : Token}

theorem getElem?_insertToken (h : k.tokens[i]? = some t) : (k.insertToken host row).tokens[i]? = some t := by
  have hlt : i < k.tokens.length := (List.getElem?_eq_some_iff.mp h).1
  exact (List.getElem?_append_left hlt).trans h

theorem getElem?_revokeToken (h : k.tokens[i]? = some t) :
    ∃ t', (k.revokeToken j).tokens[i]? = some t' ∧ t'.host = t.host ∧ (j ≠ i → t' = t) := by
  unfold Core.revokeToken
  rw [List.getElem?_modify, h]
  by_cases hji : j = i
  · exact ⟨{ t with revoked := true }, by simp [hji], rfl, fun hne => absurd hji hne⟩
  · exact ⟨t, by simp [hji], rfl, fun _ => rfl⟩

theorem children_insertToken : (k.insertToken host row).children i = k.children i + if row = i then 1 else 0 := by
  simp [Core.insertToken, Core.children, List.countP_append, List.countP_cons]

theorem children_revokeToken : (k.revokeToken j).children i = k.children i := by
  unfold Core.revokeToken Core.children
  induction k.tokens generalizing j with
  | nil => simp
  | cons t ts ih =>
    cases j with
    | zero => simp [List.modify_cons, List.countP_cons]
    | succ j => simp [List.countP_cons, ih]

end Tokens

/-! ### The host keeps a token -/

/-- Every host has a token that nobody is about to revoke. -/
structure Alive (k : Core) (threads : List Proc) : Prop where
  known : ∀ p ∈ threads, ∀ x, early p = some x → ∃ t, k.tokens[x.1]? = some t ∧ t.host = x.2
  inRange : ∀ p ∈ threads, ∀ i, pending p = some i → i < k.tokens.length
  token : ∀ h ∈ k.hosts, ∃ i t, k.tokens[i]? = some t ∧ t.host = h ∧ t.revoked = false ∧
    ∀ p ∈ threads, pending p ≠ some i

section Alive

variable {k k' : Core} {p p' : Proc} {rest threads : List Proc}

theorem Alive.of_subset (h : Alive k threads) (hsub : rest ⊆ threads) : Alive k rest := by
  refine ⟨fun p hp => h.known p (hsub hp), fun p hp => h.inRange p (hsub hp), fun g hg => ?_⟩
  obtain ⟨i, t, hi, hhost, hrev, hnot⟩ := h.token g hg
  exact ⟨i, t, hi, hhost, hrev, fun p hp => hnot p (hsub hp)⟩

/-- The tokens stay, and the process that moves is about to revoke nothing. -/
theorem Alive.join (h : Alive k rest) (hearly : ∀ x, early p = some x → ∃ t, k.tokens[x.1]? = some t ∧ t.host = x.2)
    (hpending : pending p = none) : Alive k (p :: rest) := by
  refine ⟨fun q hq => ?_, fun q hq => ?_, fun g hg => ?_⟩
  · rcases List.mem_cons.mp hq with rfl | hq
    · exact hearly
    · exact h.known q hq
  · rcases List.mem_cons.mp hq with rfl | hq
    · rw [hpending]
      rintro _ ⟨⟩
    · exact h.inRange q hq
  · obtain ⟨i, t, hi, hhost, hrev, hnot⟩ := h.token g hg
    refine ⟨i, t, hi, hhost, hrev, fun q hq => ?_⟩
    rcases List.mem_cons.mp hq with rfl | hq
    · rw [hpending]
      rintro ⟨⟩
    · exact hnot q hq

/-- The new token takes the place of the one that is going to be revoked. -/
theorem alive_issue {row host jwt : ℕ} (h : Alive k (.insert row host jwt :: rest))
    (hp' : p' = .revoke row jwt k.tokens.length ∨ p' = .ended none) : Alive (k.insertToken host row) (p' :: rest) := by
  obtain ⟨t0, ht0, hhost0⟩ := h.known _ List.mem_cons_self (row, host) rfl
  have hrow : row < k.tokens.length := (List.getElem?_eq_some_iff.mp ht0).1
  have hlen : (k.insertToken host row).tokens.length = k.tokens.length + 1 := by simp [Core.insertToken]
  have hpend : ∀ i, pending p' = some i → i = row := by
    rcases hp' with rfl | rfl
    · rintro i ⟨⟩
      rfl
    · rintro i ⟨⟩
  have hearly : early p' = none := by rcases hp' with rfl | rfl <;> rfl
  refine ⟨fun q hq x hx => ?_, fun q hq i hi => ?_, fun g hg => ?_⟩
  · rcases List.mem_cons.mp hq with rfl | hq
    · rw [hearly] at hx
      cases hx
    · obtain ⟨t, ht, hhost⟩ := h.known q (List.mem_cons_of_mem _ hq) x hx
      exact ⟨t, getElem?_insertToken ht, hhost⟩
  · rcases List.mem_cons.mp hq with rfl | hq
    · have hir := hpend i hi
      omega
    · have hlt := h.inRange q (List.mem_cons_of_mem _ hq) i hi
      omega
  · obtain ⟨i, t, hi, hhost, hrev, hnot⟩ := h.token g hg
    by_cases hir : i = row
    · subst hir
      have hg0 : host = g := by
        rw [hi] at ht0
        cases ht0
        exact hhost0.symm.trans hhost
      refine ⟨k.tokens.length, ⟨host, k.now + hostRefreshTokenExpiry, false, some i⟩, by simp [Core.insertToken], hg0,
        rfl, fun q hq hpq => ?_⟩
      rcases List.mem_cons.mp hq with rfl | hq
      · have hle := hpend _ hpq
        omega
      · have hlt := h.inRange q (List.mem_cons_of_mem _ hq) _ hpq
        omega
    · refine ⟨i, t, getElem?_insertToken hi, hhost, hrev, fun q hq hpq => ?_⟩
      rcases List.mem_cons.mp hq with rfl | hq
      · exact hir (hpend i hpq)
      · exact hnot q (List.mem_cons_of_mem _ hq) hpq

theorem alive_revoke {row jwt new : ℕ} (h : Alive k (.revoke row jwt new :: rest)) :
    Alive (k.revokeToken row) rest := by
  have hlen : (k.revokeToken row).tokens.length = k.tokens.length := by simp [Core.revokeToken]
  refine ⟨fun q hq x hx => ?_, fun q hq i hi => ?_, fun g hg => ?_⟩
  · obtain ⟨t, ht, hhost⟩ := h.known q (List.mem_cons_of_mem _ hq) x hx
    obtain ⟨t', ht', hhost', -⟩ := getElem?_revokeToken (j := row) ht
    exact ⟨t', ht', hhost'.trans hhost⟩
  · rw [hlen]
    exact h.inRange q (List.mem_cons_of_mem _ hq) i hi
  · obtain ⟨i, t, hi, hhost, hrev, hnot⟩ := h.token g hg
    have hne : row ≠ i := fun heq => hnot _ List.mem_cons_self (congrArg some heq)
    obtain ⟨t', ht', -, hsame⟩ := getElem?_revokeToken (j := row) hi
    obtain rfl := hsame hne
    exact ⟨i, t', ht', hhost, hrev, fun q hq => hnot q (List.mem_cons_of_mem _ hq)⟩

theorem alive_turn (h : Alive k (p :: rest)) (ht : Turn k p k' p') : Alive k' (p' :: rest) := by
  have hrest : Alive k rest := h.of_subset (List.subset_cons_self ..)
  cases ht with
  | quit => exact hrest.join (by rintro _ ⟨⟩) rfl
  | @found tok t htok =>
    refine hrest.join ?_ rfl
    rintro _ ⟨⟩
    exact ⟨t, (Option.filter_eq_some_iff.mp htok).1, rfl⟩
  | @onward p p' x hx hx' =>
    refine hrest.join (fun y hy => ?_) ?_
    · rw [hx'] at hy
      cases hy
      exact h.known p List.mem_cons_self x hx
    · cases p' with
      | revoke row jwt new => cases hx'
      | _ => rfl
  | issue hp' => exact alive_issue h hp'
  | revoke hr =>
    rcases hr with ⟨rfl, rfl⟩ | ⟨rfl, rfl⟩
    · obtain ⟨h1, h2, h3⟩ := alive_revoke h
      exact Alive.join ⟨h1, h2, h3⟩ (by rintro _ ⟨⟩) rfl
    · exact (alive_revoke h).join (by rintro _ ⟨⟩) rfl

end Alive

theorem alive_step {s s' : State} {a : Act} (h : Alive s.core s.threads) (hs : step s a = some s') :
    Alive s'.core s'.threads := by
  cases moves_of_step hs with
  | start hspawn hs' =>
    cases hspawn
    exact (h.join (by rintro _ ⟨⟩) rfl).of_subset hs'.subset
  | act hp hrun hthreads hs' =>
    exact (alive_turn (h.of_subset hthreads.symm.subset) (run_turn hrun)).of_subset hs'.subset
  | @crash t p rest threads hp hthreads hs' =>
    have hrest : Alive s.core rest := h.of_subset fun q hq => hthreads.symm.subset (List.mem_cons_of_mem _ hq)
    exact (hrest.join (by rintro _ ⟨⟩) rfl).of_subset hs'.subset
  | noCrash => exact h
  | env henv =>
    cases henv
    exact ⟨h.known, h.inRange, h.token⟩

/-! ### A token is spent once -/

/-- When a `Refresh` finds its token, no other one that has found it is under way, and no token has been issued
for it. -/
def Exclusive (s : State) : Act → Prop
  | .act t _ => ∀ p ∈ s.threads[t]?, match p with
    | .getToken tok =>
      s.core.getToken tok ≠ none → (∀ q ∈ s.threads, holds q ≠ some tok) ∧ s.core.children tok = 0
    | _ => True
  | _ => True

instance (s : State) : ∀ a, Decidable (Exclusive s a)
  | .act _ _ => @Option.decidableForallMem _ _ (fun p => match p with
    | .getToken tok => inferInstanceAs (Decidable (s.core.getToken tok ≠ none →
        (∀ q ∈ s.threads, holds q ≠ some tok) ∧ s.core.children tok = 0))
    | .getHost .. | .updateCert .. | .insert .. | .revoke .. | .ended _ => isTrue trivial) _
  | .start _ | .crash _ | .env _ => isTrue trivial

structure Once (k : Core) (threads : List Proc) : Prop where
  apart : threads.Pairwise fun p q => ∀ i, holds p = some i → holds q ≠ some i
  unused : ∀ p ∈ threads, ∀ x, early p = some x → k.children x.1 = 0
  used : ∀ p ∈ threads, ∀ i, pending p = some i → k.children i ≠ 0
  unspent : ∀ p ∈ threads, ∀ i, holds p = some i → i ∉ k.spent
  issued : ∀ i, k.children i ≤ 1
  nodup : k.spent.Nodup
  spent : ∀ i ∈ k.spent, k.children i ≠ 0

section Once

variable {k k' : Core} {p p' : Proc} {rest threads : List Proc}

theorem holds_of_early {x : ℕ × ℕ} (h : early p = some x) : holds p = some x.1 := by simp [holds, h]

theorem holds_of_pending {i : ℕ} (h : pending p = some i) : holds p = some i := by
  cases p with
  | revoke row jwt new => exact h
  | _ => cases h

theorem Once.perm (h : Once k threads) (hp : threads.Perm rest) : Once k rest := by
  have hsub : rest ⊆ threads := hp.symm.subset
  refine ⟨(hp.pairwise_iff fun hpq i hi hj => hpq i hj hi).mp h.apart, fun p hp => h.unused p (hsub hp),
    fun p hp => h.used p (hsub hp), fun p hp => h.unspent p (hsub hp), h.issued, h.nodup, h.spent⟩

theorem Once.tail (h : Once k (p :: rest)) : Once k rest :=
  ⟨(List.pairwise_cons.mp h.apart).2, fun q hq => h.unused q (List.mem_cons_of_mem _ hq),
    fun q hq => h.used q (List.mem_cons_of_mem _ hq), fun q hq => h.unspent q (List.mem_cons_of_mem _ hq), h.issued,
    h.nodup, h.spent⟩

/-- A process joins that has found a row of which nobody knows, or none. -/
theorem Once.join (h : Once k rest) (hearly : ∀ x, early p = some x → k.children x.1 = 0)
    (hpending : ∀ i, pending p = some i → k.children i ≠ 0)
    (hholds : ∀ i, holds p = some i → i ∉ k.spent ∧ ∀ q ∈ rest, holds q ≠ some i) : Once k (p :: rest) := by
  refine ⟨List.pairwise_cons.mpr ⟨fun q hq i hi => (hholds i hi).2 q hq, h.apart⟩, fun q hq => ?_, fun q hq => ?_,
    fun q hq => ?_, h.issued, h.nodup, h.spent⟩
  · rcases List.mem_cons.mp hq with rfl | hq
    · exact hearly
    · exact h.unused q hq
  · rcases List.mem_cons.mp hq with rfl | hq
    · exact hpending
    · exact h.used q hq
  · rcases List.mem_cons.mp hq with rfl | hq
    · exact fun i hi => (hholds i hi).1
    · exact h.unspent q hq

theorem Once.join_idle (h : Once k rest) (hholds : holds p = none) : Once k (p :: rest) := by
  refine h.join (fun x hx => ?_) (fun i hi => ?_) fun i hi => ?_
  · rw [holds_of_early hx] at hholds
    cases hholds
  · rw [holds_of_pending hi] at hholds
    cases hholds
  · rw [hholds] at hi
    cases hi

theorem once_issue {row host jwt : ℕ} (h : Once k (.insert row host jwt :: rest)) :
    Once (k.insertToken host row) rest ∧ (k.insertToken host row).children row ≠ 0 := by
  have hzero : k.children row = 0 := h.unused _ List.mem_cons_self (row, host) rfl
  have hmine : ∀ q ∈ rest, holds q ≠ some row := fun q hq => (List.pairwise_cons.mp h.apart).1 q hq row rfl
  have hchildren : ∀ i, (k.insertToken host row).children i = k.children i + if row = i then 1 else 0 :=
    fun i => children_insertToken
  refine ⟨⟨h.tail.apart, fun q hq x hx => ?_, fun q hq i hi => ?_, h.tail.unspent, fun i => ?_, h.nodup,
    fun i hi => ?_⟩,
    ?_⟩
  · have hne : row ≠ x.1 := fun heq => hmine q hq (heq ▸ holds_of_early hx)
    rw [hchildren, if_neg hne]
    exact h.tail.unused q hq x hx
  · have hold := h.tail.used q hq i hi
    rw [hchildren]
    omega
  · have hle := h.issued i
    rw [hchildren]
    split_ifs with heq
    · subst heq
      omega
    · exact hle
  · have hold := h.spent i hi
    rw [hchildren]
    omega
  · rw [hchildren, if_pos rfl]
    omega

theorem once_revoke {row jwt new : ℕ} (h : Once k (.revoke row jwt new :: rest)) :
    Once ((k.revokeToken row).spend row) rest ∧ Once (k.revokeToken row) rest := by
  have hchildren : ∀ i, (k.revokeToken row).children i = k.children i := fun i => children_revokeToken
  have hmine : ∀ q ∈ rest, holds q ≠ some row := fun q hq => (List.pairwise_cons.mp h.apart).1 q hq row rfl
  have hown := List.mem_cons_self (a := Proc.revoke row jwt new) (l := rest)
  have hrevoked : Once (k.revokeToken row) rest :=
    ⟨h.tail.apart, fun q hq x hx => (hchildren _).trans (h.tail.unused q hq x hx),
      fun q hq i hi => by rw [hchildren]; exact h.tail.used q hq i hi, h.tail.unspent,
      fun i => (hchildren i).trans_le (h.issued i), h.nodup, fun i hi => by rw [hchildren]; exact h.spent i hi⟩
  refine ⟨⟨hrevoked.apart, hrevoked.unused, hrevoked.used, fun q hq i hi hmem => ?_, hrevoked.issued, ?_,
    fun i hi => ?_⟩, hrevoked⟩
  · rcases List.mem_cons.mp hmem with rfl | hmem
    · exact hmine q hq hi
    · exact h.tail.unspent q hq i hi hmem
  · exact List.nodup_cons.mpr ⟨h.unspent _ hown row rfl, h.nodup⟩
  · rcases List.mem_cons.mp hi with rfl | hi
    · exact (hchildren i).trans_ne (h.used _ hown i rfl)
    · exact hrevoked.spent i hi

theorem once_turn (h : Once k (p :: rest))
    (hfree : ∀ tok, p = .getToken tok → k.getToken tok ≠ none →
      (∀ q ∈ rest, holds q ≠ some tok) ∧ k.children tok = 0)
    (ht : Turn k p k' p') : Once k' (p' :: rest) := by
  cases ht with
  | quit => exact h.tail.join_idle rfl
  | @found tok t htok =>
    obtain ⟨hq, hzero⟩ := hfree tok rfl (by simp [htok])
    refine h.tail.join ?_ (by rintro _ ⟨⟩) ?_
    · rintro _ ⟨⟩
      exact hzero
    · rintro _ ⟨⟩
      exact ⟨fun hmem => h.spent tok hmem hzero, hq⟩
  | @onward p p' x hx hx' =>
    have hmem := List.mem_cons_self (a := p) (l := rest)
    refine h.tail.join (fun y hy => ?_) (fun i hi => ?_) fun i hi => ?_
    · rw [hx'] at hy
      cases hy
      exact h.unused p hmem x hx
    · cases p' with
      | revoke row jwt new => cases hx'
      | _ => cases hi
    · rw [holds_of_early hx'] at hi
      cases hi
      have hhold := holds_of_early hx
      exact ⟨h.unspent p hmem _ hhold, fun q hq => (List.pairwise_cons.mp h.apart).1 q hq _ hhold⟩
  | @issue row host jwt p' hp' =>
    obtain ⟨hnew, hne⟩ := once_issue h
    rcases hp' with rfl | rfl
    · refine hnew.join (by rintro _ ⟨⟩) ?_ ?_
      · rintro _ ⟨⟩
        exact hne
      · rintro _ ⟨⟩
        exact ⟨h.unspent _ List.mem_cons_self row rfl, fun q hq => (List.pairwise_cons.mp h.apart).1 q hq row rfl⟩
    · exact hnew.join_idle rfl
  | revoke hr =>
    rcases hr with ⟨rfl, rfl⟩ | ⟨rfl, rfl⟩
    · exact (once_revoke h).1.join_idle rfl
    · exact (once_revoke h).2.join_idle rfl

end Once

theorem once_step {s s' : State} {a : Act} (h : Once s.core s.threads) (hok : Exclusive s a)
    (hs : step s a = some s') : Once s'.core s'.threads := by
  cases moves_of_step hs with
  | start hspawn hs' =>
    cases hspawn
    exact (h.join_idle rfl).perm hs'.symm
  | @act t r k p p' rest threads hp hrun hthreads hs' =>
    refine (once_turn (h.perm hthreads) (fun tok htok hfound => ?_) (run_turn hrun)).perm hs'.symm
    subst htok
    obtain ⟨hq, hzero⟩ := hok _ hp hfound
    exact ⟨fun q hmem => hq q (hthreads.symm.subset (List.mem_cons_of_mem _ hmem)), hzero⟩
  | crash hp hthreads hs' => exact ((h.perm hthreads).tail.join_idle rfl).perm hs'.symm
  | noCrash => exact h
  | env henv =>
    cases henv
    exact ⟨h.apart, h.unused, h.used, h.unspent, h.issued, h.nodup, h.spent⟩

/-! ### The result -/

/-- In every run every host keeps a token that is not revoked.  In runs in which no `Refresh` finds a token
that another one has, every token is spent at most once, and at most one token is issued for it. -/
theorem host_keeps_token_and_spends_once {s : State} :
    (Reach step (fun _ _ => True) Initial s →
      ∀ h ∈ s.core.hosts, ∃ t ∈ s.core.tokens, t.host = h ∧ t.revoked = false) ∧
    (Reach step Exclusive Initial s → s.core.spent.Nodup ∧ ∀ i, s.core.children i ≤ 1) := by
  constructor
  · intro hr g hg
    have hinv : Alive s.core s.threads := by
      refine hr.invariant (I := fun s => Alive s.core s.threads) (fun s hinit => ?_) fun s a s' hi _ hs =>
        alive_step hi hs
      rw [hinit.threads]
      refine ⟨List.forall_mem_nil _, List.forall_mem_nil _, fun g hg => ?_⟩
      obtain ⟨t, ht, hhost, hrev⟩ := hinit.tokens g hg
      obtain ⟨i, hi⟩ := List.mem_iff_getElem?.mp ht
      exact ⟨i, t, hi, hhost, hrev, List.forall_mem_nil _⟩
    obtain ⟨i, t, hi, hhost, hrev, -⟩ := hinv.token g hg
    exact ⟨t, List.mem_of_getElem? hi, hhost, hrev⟩
  · intro hr
    have hinv : Once s.core s.threads := by
      refine hr.invariant (I := fun s => Once s.core s.threads) (fun s hinit => ?_) fun s a s' hi hok hs =>
        once_step hi hok hs
      have hzero : ∀ i, s.core.children i = 0 := by
        intro i
        refine List.countP_eq_zero.mpr fun t ht => ?_
        simp [hinit.parent t ht]
      rw [hinit.threads]
      refine ⟨.nil, List.forall_mem_nil _, List.forall_mem_nil _,
        (List.forall_mem_nil _), fun i => by simp [hzero i], ?_, ?_⟩
      · rw [hinit.spent]
        exact List.nodup_nil
      · rw [hinit.spent]
        exact List.forall_mem_nil _
    exact ⟨hinv.nodup, hinv.issued⟩

/-! ### Runs -/

/-- Host 4 has the token 0. -/
def oneHost : State := ⟨⟨0, [4], false, [⟨4, 100, false, none⟩], []⟩, []⟩

theorem initial_oneHost : Initial oneHost := ⟨rfl, by decide, by decide, rfl⟩

/-- The token is presented, and again when it is spent; the call with the new token dies between its writes. -/
def rotateRun : List Act :=
  [.start 0, .act 0 .ok, .act 0 .ok, .act 0 .ok, .act 0 .ok, .start 0, .act 1 .ok, .start 1, .act 2 .ok, .act 2 .ok,
    .act 2 .ok, .crash 2]

theorem rotated_spent_once :
    (last step oneHost rotateRun).core.spent.Nodup ∧ (last step oneHost rotateRun).core.spent = [0] ∧
      (∃ t ∈ (last step oneHost rotateRun).core.tokens, t.host = 4 ∧ t.revoked = false) ∧
      (last step oneHost rotateRun).core.tokens.map Token.revoked = [true, false, false] := by
  have hadm : Admits step Exclusive oneHost rotateRun := by decide +kernel
  have hall : Admits step (fun _ _ => True) oneHost rotateRun := by decide +kernel
  have hspent := (host_keeps_token_and_spends_once.2 (.last initial_oneHost hadm)).1
  have htoken := host_keeps_token_and_spends_once.1 (.last initial_oneHost hall) 4 (by decide +kernel)
  exact ⟨hspent, by decide +kernel, htoken, by decide +kernel⟩

/-- Two calls find the token before either revokes it.  Both succeed, and both new tokens are valid. -/
theorem token_spent_twice :
    (exec step oneHost [.start 0, .start 0, .act 0 .ok, .act 1 .ok, .act 0 .ok, .act 0 .ok, .act 0 .ok, .act 1 .ok,
      .act 1 .ok, .act 1 .ok]).map (fun s => (s.core.spent, s.core.tokens.map fun t => (t.parent, t.revoked))) =
        some ([0, 0], [(none, true), (some 0, false), (some 0, false)]) := by
  decide +kernel

end Wrenn.Credentials.Refresh
