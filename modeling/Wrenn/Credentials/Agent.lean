import Wrenn.Credentials.Refresh

/-!
# The credentials of a host agent

The heartbeat loop and the callback sender of an agent each hold a JWT.  When the control plane rejects it they
call `RefreshCredentials`, which reads the credentials file, presents its refresh token (`HostService.Refresh`,
module `Refresh`) and writes the new pair into the file, in place.  A sender that fails tries again; the loop
pauses all sandboxes and stops.

Nothing keeps two refreshes apart: the second may read the file after the control plane has revoked the token
in it and before the first has written the new one, or while the file is truncated.  `reach_heartbeat_runs`
shows that this is the only danger; `heartbeat_stopped` is a run in which it happens.

A client that gives up is a failed refresh, and what the control plane does with the request afterwards is left
out; so are the certificates and the host id in the file.
-/

namespace Wrenn.Credentials.Agent

open Lib.Runs Lib.Threads

/-! ### The file -/

/-- The pair in the file, and the length of its JSON, which depends on the certificates. -/
structure Creds where
  /-- until when the JWT is accepted -/
  jwt : ℕ
  token : ℕ
  size : ℕ
  deriving DecidableEq, Repr

/-- `creds` is what the content parses to. -/
structure File where
  size : ℕ
  creds : Option Creds
  deriving DecidableEq, Repr

/-- The file after `O_TRUNC`. -/
def File.truncated : File := ⟨0, none⟩

/-- A write at the beginning of the file.  If it was longer, its end stays and nothing can be parsed. -/
def File.write (f : File) (c : Creds) : File := ⟨max f.size c.size, if f.size ≤ c.size then some c else none⟩

/-- Why all sandboxes were paused. -/
inductive Cause
  | unreachable
  | refreshFailed
  deriving DecidableEq, Repr

structure Core where
  server : Refresh.Core
  host : ℕ
  file : File
  /-- the JWT of the callback sender; `none` is the empty string -/
  jwt : Option ℕ
  /-- the calls of `pauseAll` -/
  paused : List Cause
  deriving DecidableEq, Repr

def Core.accepts (k : Core) : Option ℕ → Bool
  | some jwt => decide (k.server.now < jwt)
  | none => false

def Core.pauseAll (k : Core) (c : Cause) : Core := { k with paused := c :: k.paused }

/-! ### `RefreshCredentials` -/

/-- What becomes of a request, of a statement of the control plane, or of an access to the file. -/
inductive Reply
  | ok
  | unreachable
  /-- the request is answered before it reaches its handler -/
  | status (code : ℕ)
  | sql (r : Refresh.Reply)
  /-- the answer of the control plane arrives, and its JSON will have this length -/
  | body (size : ℕ)
  deriving DecidableEq, Repr

inductive Refreshing
  | load
  /-- the control plane works on the request, or has answered -/
  | request (p : Refresh.Proc)
  | truncate (c : Creds)
  | write (c : Creds)
  deriving DecidableEq, Repr

inductive Progress
  | going (x : Refreshing)
  | done (result : Option Creds)
  deriving DecidableEq, Repr

def refresh (k : Core) (r : Reply) : Refreshing → Option (Core × Progress)
  | .load =>
    match r, k.file.creds with
    | .ok, some c => some (k, .going (.request (.getToken c.token)))
    | _, _ => some (k, .done none)
  | .request (.ended (some (jwt, token))) =>
    match r with
    | .body size => some (k, .going (.truncate ⟨jwt, token, size⟩))
    | _ => some (k, .done none)
  | .request (.ended none) => some (k, .done none)
  | .request p =>
    match r with
    | .sql r => (Refresh.run k.server r p).map fun x => ({ k with server := x.1 }, .going (.request x.2))
    | _ => some (k, .done none)
  | .truncate c =>
    if r = .ok then some ({ k with file := .truncated }, .going (.write c)) else some (k, .done none)
  | .write c =>
    if r = .ok then some ({ k with file := k.file.write c }, .done (some c)) else some (k, .done none)

/-! ### The loop and the sender -/

/-- The variables of the loop. -/
structure Loop where
  currentJWT : Option ℕ
  consecutiveFailures : ℕ
  pausedDueToFailure : Bool
  deriving DecidableEq, Repr

inductive Proc
  | beat (l : Loop)
  | beatRefresh (l : Loop) (x : Refreshing)
  /-- the loop has returned -/
  | stopped
  | post (attempt : ℕ)
  | postRefresh (attempt : ℕ) (x : Refreshing)
  /-- `Send` has returned -/
  | ended
  deriving DecidableEq, Repr

/-- The status of a heartbeat that reaches its handler; `Heartbeat` fails if the host is not there. -/
def Core.heartbeatStatus (k : Core) (jwt : Option ℕ) : ℕ :=
  if k.accepts jwt then if k.host ∈ k.server.hosts then 204 else 500 else 401

/-- The request fails, and the third time in a row the sandboxes are paused. -/
def Core.beatFailed (k : Core) (l : Loop) : Core × Proc :=
  if 3 ≤ l.consecutiveFailures + 1 ∧ l.pausedDueToFailure = false then
    (k.pauseAll .unreachable, .beat ⟨l.currentJWT, l.consecutiveFailures + 1, true⟩)
  else (k, .beat { l with consecutiveFailures := l.consecutiveFailures + 1 })

def Core.beatStatus (k : Core) (l : Loop) (code : ℕ) : Core × Proc :=
  if code = 204 then (k, .beat ⟨l.currentJWT, 0, false⟩)
  else if code = 401 ∨ code = 403 then (k, .beatRefresh l .load)
  else if code = 404 then ({ k with file := .truncated }, .stopped)
  else (k, .beat l)

/-- The next of the three attempts. -/
def retry (attempt : ℕ) : Proc := if attempt + 1 < 3 then .post (attempt + 1) else .ended

def Core.postStatus (k : Core) (attempt : ℕ) (code : ℕ) : Core × Proc :=
  if code = 401 ∨ code = 403 then (k, .postRefresh attempt .load)
  else if 200 ≤ code ∧ code < 300 then (k, .ended)
  else (k, retry attempt)

/-- The refresh of the loop has returned.  The hook `onCredsRefreshed` gives the sender the new JWT. -/
def Core.beatRefreshed (k : Core) (l : Loop) : Option Creds → Core × Proc
  | some c => ({ k with jwt := some c.jwt }, .beat { l with currentJWT := some c.jwt })
  | none => (if l.pausedDueToFailure then k else k.pauseAll .refreshFailed, .stopped)

def Core.postRefreshed (k : Core) (attempt : ℕ) : Option Creds → Core × Proc
  | some c => ({ k with jwt := some c.jwt }, retry attempt)
  | none => (k, retry attempt)

def run (k : Core) (r : Reply) : Proc → Option (Core × Proc)
  | .beat l =>
    match r with
    | .ok => some (k.beatStatus l (k.heartbeatStatus l.currentJWT))
    | .status code => some (k.beatStatus l code)
    | _ => some (k.beatFailed l)
  | .beatRefresh l x => (refresh k r x).map fun y => match y.2 with
    | .going x' => (y.1, .beatRefresh l x')
    | .done result => y.1.beatRefreshed l result
  | .post attempt =>
    match r with
    | .ok => some (k.postStatus attempt (if k.accepts k.jwt then 204 else 401))
    | .status code => some (k.postStatus attempt code)
    | _ => some (k, retry attempt)
  | .postRefresh attempt x => (refresh k r x).map fun y => match y.2 with
    | .going x' => (y.1, .postRefresh attempt x')
    | .done result => y.1.postRefreshed attempt result
  | .stopped | .ended => none

inductive Env
  | tick (d : ℕ)
  /-- the host is deleted, and its tokens are revoked -/
  | deleteHost
  deriving DecidableEq, Repr

def env (k : Core) : Env → Option Core
  | .tick d => some { k with server := { k.server with now := k.server.now + d } }
  | .deleteHost => some { k with server := { k.server with
      hosts := k.server.hosts.filter fun h => decide (h ≠ k.host)
      tokens := k.server.tokens.map fun t => if t.host = k.host then { t with revoked := true } else t } }

/-- A start is an event to send. -/
def prog : Prog Core Proc Unit Reply Env where
  spawn k _ := some (k, .post 0)
  run := run
  halt := .ended
  env := env

abbrev State := Sys Core Proc

abbrev Act := Label Unit Reply Env

def step : State → Act → Option State := prog.step

/-- The control plane can refresh with the token. -/
def Live (k : Core) (token : ℕ) : Prop := ∃ t, k.server.tokens[token]? = some t ∧ t.host = k.host ∧ t.revoked = false

/-- No token of the host is past its expiry, if it is not revoked. -/
def Unexpired (k : Core) (now : ℕ) : Prop := ∀ t ∈ k.server.tokens, t.revoked = false → now < t.expiresAt

instance (k : Core) (now : ℕ) : Decidable (Unexpired k now) :=
  inferInstanceAs (Decidable (∀ t ∈ k.server.tokens, t.revoked = false → now < t.expiresAt))

/-- The agent has loaded its credentials and enters the loop. -/
structure Initial (s : State) : Prop where
  host : s.core.host ∈ s.core.server.hosts
  unexpired : Unexpired s.core s.core.server.now
  paused : s.core.paused = []
  creds : ∃ c, s.core.file = ⟨c.size, some c⟩ ∧ Live s.core c.token ∧ s.threads = [.beat ⟨some c.jwt, 0, false⟩]

/-- The pair in the file is accepted, or can be refreshed. -/
def usable (k : Core) : Bool :=
  k.file.creds.any fun c => k.accepts (some c.jwt) || (k.server.getToken c.token).isSome

/-! ### The condition -/

def refreshOf : Proc → Option Refreshing
  | .beatRefresh _ x | .postRefresh _ x => some x
  | _ => none

/-- The refresh has read the file and not yet written it. -/
def busy (p : Proc) : Bool := (refreshOf p).any fun x => decide (x ≠ .load)

/-- The control plane answers, its statements succeed, and so do the accesses to the file. -/
def Answered : Refreshing → Reply → Prop
  | .request (.ended (some _)), r => (match r with | .body _ => true | _ => false) = true
  | .request (.ended none), _ => True
  | .request _, r => r = .sql .ok
  | _, r => r = .ok

instance : ∀ (x : Refreshing) (r : Reply), Decidable (Answered x r)
  | .request (.ended (some _)), r => inferInstanceAs (Decidable ((match r with | .body _ => true | _ => false) = true))
  | .request (.ended none), _ => isTrue trivial
  | .request (.getToken _), r | .request (.getHost ..), r | .request (.updateCert ..), r | .request (.insert ..), r
  | .request (.revoke ..), r => inferInstanceAs (Decidable (r = .sql .ok))
  | .load, r | .truncate _, r | .write _, r => inferInstanceAs (Decidable (r = .ok))

def Calm (threads : List Proc) (r : Reply) : Proc → Prop
  | .beatRefresh _ x | .postRefresh _ x => Answered x r ∧ (x = .load → ∀ q ∈ threads, busy q = false)
  | .beat _ => r ≠ .status 404
  | _ => True

instance (threads : List Proc) (r : Reply) : ∀ p, Decidable (Calm threads r p)
  | .beatRefresh _ x | .postRefresh _ x =>
    inferInstanceAs (Decidable (Answered x r ∧ (x = .load → ∀ q ∈ threads, busy q = false)))
  | .beat _ => inferInstanceAs (Decidable (r ≠ .status 404))
  | .stopped | .post _ | .ended => isTrue trivial

/-- The host is not deleted, its tokens do not expire, refreshes are answered, and none reads the file while
another one is under way. -/
def Serial (s : State) : Act → Prop
  | .start _ => True
  | .act t r => ∀ p ∈ s.threads[t]?, Calm s.threads r p
  | .crash _ => False
  | .env (.tick d) => Unexpired s.core (s.core.server.now + d)
  | .env .deleteHost => False

instance (s : State) : ∀ a, Decidable (Serial s a)
  | .start _ => isTrue trivial
  | .act t r => inferInstanceAs (Decidable (∀ p ∈ s.threads[t]?, Calm s.threads r p))
  | .crash _ | .env .deleteHost => isFalse id
  | .env (.tick d) => inferInstanceAs (Decidable (Unexpired s.core (s.core.server.now + d)))

/-! ### A refresh that is alone -/

/-- What holds while the control plane works on the request. -/
def Served (k : Core) : Refresh.Proc → Prop
  | .getToken token => Live k token
  | .getHost row host | .updateCert row host _ | .insert row host _ => host = k.host ∧ row < k.server.tokens.length
  | .revoke row _ new => row ≠ new ∧ Live k new
  | .ended (some (_, new)) => Live k new
  | .ended none => False

/-- From its read of the file to its write, a refresh is on its way to a live token. -/
def Fine (k : Core) : Refreshing → Prop
  | .load => True
  | .request p => Served k p
  | .truncate c => Live k c.token
  | .write c => Live k c.token ∧ k.file.size = 0

structure Fit (k : Core) : Prop where
  host : k.host ∈ k.server.hosts
  unexpired : Unexpired k k.server.now
  paused : .refreshFailed ∉ k.paused

/-- The token in the file is live. -/
def Good (k : Core) : Prop := ∃ c, k.file.creds = some c ∧ Live k c.token

section Refresh

variable {k k' : Core} {x : Refreshing} {r : Reply} {y : Progress}

theorem getToken_live (hu : Unexpired k k.server.now) {token : ℕ} (h : Live k token) :
    ∃ t, k.server.getToken token = some t ∧ t.host = k.host := by
  obtain ⟨t, ht, hhost, hrev⟩ := h
  have hlt := hu t (List.mem_of_getElem? ht) hrev
  exact ⟨t, Option.filter_eq_some_iff.mpr ⟨ht, by simp [hrev, hlt]⟩, hhost⟩

/-- The control plane carries the request on to a live token. -/
theorem served_run {p p' : Refresh.Proc} {srv : Refresh.Core} (hfit : Fit k) (h : Served k p)
    (hrun : Refresh.run k.server .ok p = some (srv, p')) :
    Fit { k with server := srv } ∧ Served { k with server := srv } p' := by
  cases p with
  | getToken token =>
    obtain ⟨t, ht, hhost⟩ := getToken_live hfit.unexpired h
    have hrow : token < k.server.tokens.length :=
      (List.getElem?_eq_some_iff.mp (Option.filter_eq_some_iff.mp ht).1).1
    simp only [Refresh.run, ht] at hrun
    cases hrun
    exact ⟨hfit, hhost, hrow⟩
  | getHost row host =>
    obtain ⟨rfl, hrow⟩ := h
    simp only [Refresh.run, hfit.host, and_self, if_true] at hrun
    cases hrun
    split_ifs <;> exact ⟨hfit, rfl, hrow⟩
  | updateCert row host jwt =>
    cases hrun
    exact ⟨hfit, h⟩
  | insert row host jwt =>
    obtain ⟨rfl, hrow⟩ := h
    cases hrun
    have hpos : 0 < Refresh.hostRefreshTokenExpiry := by
      unfold Refresh.hostRefreshTokenExpiry Refresh.day
      omega
    refine ⟨⟨hfit.host, fun t ht hrev => ?_, hfit.paused⟩, hrow.ne, ?_⟩
    · rcases List.mem_append.mp ht with hold | hnew
      · exact hfit.unexpired t hold hrev
      · rw [List.mem_singleton.mp hnew]
        dsimp only [Refresh.Core.insertToken]
        omega
    · exact ⟨⟨k.host, k.server.now + Refresh.hostRefreshTokenExpiry, false, some row⟩,
        by simp [Refresh.Core.insertToken], rfl, rfl⟩
  | revoke row jwt new =>
    obtain ⟨hne, t, ht, hhost, hrev⟩ := h
    cases hrun
    obtain ⟨t', ht', -, hsame⟩ := Refresh.getElem?_revokeToken (j := row) ht
    obtain rfl := hsame hne
    refine ⟨⟨hfit.host, fun u hu hlive => ?_, hfit.paused⟩, t', ht', hhost, hrev⟩
    obtain ⟨i, hi⟩ := List.mem_iff_getElem?.mp hu
    unfold Refresh.Core.spend Refresh.Core.revokeToken at hi
    simp only [List.getElem?_modify] at hi
    obtain ⟨v, hv, rfl⟩ := Option.map_eq_some_iff.mp hi
    split_ifs at hlive ⊢
    exact hfit.unexpired v (List.mem_of_getElem? hv) hlive
  | ended result => cases hrun

/-- A refresh that is answered does not fail, and ends with a live token in the file. -/
theorem refresh_fine (hfit : Fit k) (h : Fine k x) (hload : x = .load → Good k) (hr : Answered x r)
    (hrun : refresh k r x = some (k', y)) :
    Fit k' ∧ ((∃ x', y = .going x' ∧ x' ≠ .load ∧ Fine k' x') ∨ ∃ c, y = .done (some c) ∧ Good k') := by
  cases x with
  | load =>
    obtain rfl : r = .ok := hr
    obtain ⟨c, hc, hlive⟩ := hload rfl
    simp only [refresh, hc] at hrun
    cases hrun
    exact ⟨hfit, .inl ⟨_, rfl, by simp, hlive⟩⟩
  | request p =>
    have hstep : refresh k r (.request p) = (Refresh.run k.server .ok p).map (fun z =>
        ({ k with server := z.1 }, .going (.request z.2))) →
        Fit k' ∧ ((∃ x', y = .going x' ∧ x' ≠ .load ∧ Fine k' x') ∨ ∃ c, y = .done (some c) ∧ Good k') := by
      intro heq
      rw [hrun] at heq
      obtain ⟨⟨srv, p'⟩, hz, hpair⟩ := Option.map_eq_some_iff.mp heq.symm
      cases hpair
      obtain ⟨hfit', hserved⟩ := served_run hfit h hz
      exact ⟨hfit', .inl ⟨_, rfl, by simp, hserved⟩⟩
    cases p with
    | ended result =>
      cases result with
      | none => exact h.elim
      | some new =>
        cases r with
        | body size =>
          cases hrun
          exact ⟨hfit, .inl ⟨_, rfl, by simp, h⟩⟩
        | _ => cases hr
    | _ =>
      obtain rfl : r = .sql .ok := hr
      exact hstep rfl
  | truncate c =>
    obtain rfl : r = .ok := hr
    cases hrun
    exact ⟨⟨hfit.host, hfit.unexpired, hfit.paused⟩, .inl ⟨_, rfl, by simp, h, rfl⟩⟩
  | write c =>
    obtain rfl : r = .ok := hr
    obtain ⟨hlive, hsize⟩ := h
    cases hrun
    refine ⟨⟨hfit.host, hfit.unexpired, hfit.paused⟩, .inr ⟨c, rfl, c, ?_, hlive⟩⟩
    simp [File.write, hsize]

end Refresh

/-! ### All processes -/

def beating : Proc → Bool
  | .beat _ | .beatRefresh _ _ => true
  | _ => false

structure Sound (k : Core) (threads : List Proc) : Prop where
  fit : Fit k
  apart : threads.Pairwise fun p q => busy p = true → busy q = false
  running : ∃ p ∈ threads, beating p = true
  notStopped : .stopped ∉ threads
  file : (∀ p ∈ threads, busy p = false) → Good k
  each : ∀ p ∈ threads, ∀ x, refreshOf p = some x → Fine k x

section Sound

variable {k k' : Core} {p p' : Proc} {rest threads : List Proc} {x : Refreshing} {r : Reply}

theorem Sound.perm (h : Sound k threads) (hp : threads.Perm rest) : Sound k rest := by
  have hsub : rest ⊆ threads := hp.symm.subset
  obtain ⟨q, hq, hb⟩ := h.running
  refine ⟨h.fit, (hp.pairwise_iff fun hpq hq => ?_).mp h.apart, ⟨q, hp.subset hq, hb⟩, fun hs => h.notStopped (hsub hs),
    fun hidle => h.file fun p hp' => hidle p (hp.subset hp'), fun p hp => h.each p (hsub hp)⟩
  exact Bool.eq_false_iff.mpr fun hp => Bool.eq_false_iff.mp (hpq hp) hq

theorem fine_of_idle (hidle : busy p = false) (hx : refreshOf p = some x) : Fine k x := by
  cases x with
  | load => trivial
  | _ => simp [busy, hx] at hidle

/-- The process that moves keeps the loop going. -/
structure Continues (p p' : Proc) : Prop where
  beats : beating p = true → beating p' = true
  runs : p' ≠ .stopped

theorem Sound.running_cons (h : Sound k (p :: rest)) (hc : Continues p p') : ∃ q ∈ p' :: rest, beating q = true := by
  obtain ⟨q, hq, hb⟩ := h.running
  rcases List.mem_cons.mp hq with rfl | hq
  · exact ⟨p', List.mem_cons_self .., hc.beats hb⟩
  · exact ⟨q, List.mem_cons_of_mem _ hq, hb⟩

theorem Sound.notStopped_cons (h : Sound k (p :: rest)) (hc : Continues p p') : .stopped ∉ p' :: rest := by
  intro hmem
  rcases List.mem_cons.mp hmem with heq | hmem
  · exact hc.runs heq.symm
  · exact h.notStopped (List.mem_cons_of_mem _ hmem)

/-- A step next to the refresh, if there is one. -/
theorem Sound.aside (h : Sound k (p :: rest)) (hc : Continues p p') (hidle : busy p = false)
    (hidle' : busy p' = false) : Sound k (p' :: rest) := by
  have hapart := (List.pairwise_cons.mp h.apart).2
  refine ⟨h.fit, List.pairwise_cons.mpr ⟨fun q _ hb => ?_, hapart⟩, h.running_cons hc, h.notStopped_cons hc,
    fun hall => h.file fun q hq => ?_, fun q hq y hy => ?_⟩
  · rw [hidle'] at hb
    cases hb
  · rcases List.mem_cons.mp hq with rfl | hq
    · exact hidle
    · exact hall q (List.mem_cons_of_mem _ hq)
  · rcases List.mem_cons.mp hq with rfl | hq
    · exact fine_of_idle hidle' hy
    · exact h.each q (List.mem_cons_of_mem _ hq) y hy

/-- A step of the refresh. -/
theorem Sound.refreshed (h : Sound k (p :: rest)) (hc : Continues p p') (hidle : ∀ q ∈ rest, busy q = false)
    (hfit : Fit k') (hp' : (busy p' = true ∧ ∀ y, refreshOf p' = some y → Fine k' y) ∨ busy p' = false ∧ Good k') :
    Sound k' (p' :: rest) := by
  have hapart := (List.pairwise_cons.mp h.apart).2
  refine ⟨hfit, List.pairwise_cons.mpr ⟨fun q hq _ => hidle q hq, hapart⟩, h.running_cons hc, h.notStopped_cons hc,
    fun hall => ?_, fun q hq y hy => ?_⟩
  · rcases hp' with ⟨hb, -⟩ | ⟨-, hgood⟩
    · rw [hall p' List.mem_cons_self] at hb
      cases hb
    · exact hgood
  · rcases List.mem_cons.mp hq with rfl | hq
    · rcases hp' with ⟨-, hf⟩ | ⟨hb, -⟩
      · exact hf y hy
      · exact fine_of_idle hb hy
    · exact fine_of_idle (hidle q hq) hy

/-- `paused` and the JWT of the sender play no part. -/
theorem Sound.with {paused : List Cause} {jwt : Option ℕ} (h : Sound k threads) (hp : .refreshFailed ∉ paused) :
    Sound { k with jwt := jwt, paused := paused } threads :=
  ⟨⟨h.fit.host, h.fit.unexpired, hp⟩, h.apart, h.running, h.notStopped, h.file, fun p hp x hx => by
    have hf := h.each p hp x hx
    cases x with
    | request q => cases q <;> exact hf
    | _ => exact hf⟩

/-- While a refresh reads the file or is busy, the others are not. -/
theorem idle_of_refresh (h : Sound k (p :: rest)) (hx : refreshOf p = some x)
    (hload : x = .load → ∀ q ∈ p :: rest, busy q = false) : ∀ q ∈ rest, busy q = false := by
  intro q hq
  by_cases hl : x = .load
  · exact hload hl q (List.mem_cons_of_mem _ hq)
  · exact (List.pairwise_cons.mp h.apart).1 q hq (by simp [busy, hx, hl])

theorem sound_refresh (h : Sound k (p :: rest)) (hx : refreshOf p = some x) (hr : Answered x r)
    (hload : x = .load → ∀ q ∈ p :: rest, busy q = false) {y : Progress} (hrun : refresh k r x = some (k', y)) :
    (∃ x', y = .going x' ∧ ∀ p', refreshOf p' = some x' → Continues p p' → Sound k' (p' :: rest)) ∨
    ∃ c, y = .done (some c) ∧ ∀ p', busy p' = false → Continues p p' → Sound k' (p' :: rest) := by
  have hidle := idle_of_refresh h hx hload
  have hfine := h.each p List.mem_cons_self x hx
  obtain ⟨hfit, ⟨x', rfl, hne, hfine'⟩ | ⟨c, rfl, hgood⟩⟩ :=
    refresh_fine h.fit hfine (fun hl => h.file (hload hl)) hr hrun
  · refine .inl ⟨x', rfl, fun p' hp' hc => h.refreshed hc hidle hfit (.inl ⟨by simp [busy, hp', hne], fun y hy => ?_⟩)⟩
    rw [hp'] at hy
    cases hy
    exact hfine'
  · exact .inr ⟨c, rfl, fun p' hp' hc => h.refreshed hc hidle hfit (.inr ⟨hp', hgood⟩)⟩

theorem busy_retry (n : ℕ) : busy (retry n) = false := by
  unfold retry
  split_ifs <;> rfl

theorem continues_retry {n : ℕ} (hp : beating p = false) : Continues p (retry n) := by
  refine ⟨fun hb => ?_, ?_⟩
  · rw [hp] at hb
    cases hb
  · unfold retry
    split_ifs <;> simp

theorem sound_beatStatus {l : Loop} {code : ℕ} (h : Sound k (.beat l :: rest)) (hcode : code ≠ 404) :
    Sound (k.beatStatus l code).1 ((k.beatStatus l code).2 :: rest) := by
  unfold Core.beatStatus
  split_ifs
  · exact h.aside ⟨fun _ => rfl, by simp⟩ rfl rfl
  · exact h.aside ⟨fun _ => rfl, by simp⟩ rfl rfl
  · exact h

theorem sound_postStatus {n : ℕ} (code : ℕ) (h : Sound k (.post n :: rest)) :
    Sound (k.postStatus n code).1 ((k.postStatus n code).2 :: rest) := by
  unfold Core.postStatus
  split_ifs
  · exact h.aside ⟨by rintro ⟨⟩, by simp⟩ rfl rfl
  · exact h.aside ⟨by rintro ⟨⟩, by simp⟩ rfl rfl
  · exact h.aside (continues_retry rfl) rfl (busy_retry n)

theorem sound_beatFailed {l : Loop} (h : Sound k (.beat l :: rest)) :
    Sound (k.beatFailed l).1 ((k.beatFailed l).2 :: rest) := by
  unfold Core.beatFailed
  split_ifs
  · have hpaused : Cause.refreshFailed ∉ Cause.unreachable :: k.paused := by
      simpa using h.fit.paused
    exact (h.aside ⟨fun _ => rfl, by simp⟩ rfl rfl).with hpaused
  · exact h.aside ⟨fun _ => rfl, by simp⟩ rfl rfl

theorem heartbeatStatus_ne (k : Core) (jwt : Option ℕ) : k.heartbeatStatus jwt ≠ 404 := by
  unfold Core.heartbeatStatus
  split_ifs <;> simp

theorem sound_run (h : Sound k (p :: rest)) (hcalm : Calm (p :: rest) r p) (hrun : run k r p = some (k', p')) :
    Sound k' (p' :: rest) := by
  cases p with
  | beat l =>
    cases r with
    | ok =>
      have hs := sound_beatStatus h (heartbeatStatus_ne k l.currentJWT)
      rwa [Option.some.inj hrun] at hs
    | status code =>
      have hs := sound_beatStatus h fun hcode : code = 404 => hcalm (congrArg _ hcode)
      rwa [Option.some.inj hrun] at hs
    | unreachable | sql r | body size =>
      have hs := sound_beatFailed h
      rwa [Option.some.inj hrun] at hs
  | beatRefresh l x =>
    obtain ⟨⟨k1, y⟩, hy, heq⟩ := Option.map_eq_some_iff.mp hrun
    rcases sound_refresh h rfl hcalm.1 hcalm.2 hy with ⟨x', rfl, hnext⟩ | ⟨c, rfl, hdone⟩
    · cases heq
      exact hnext _ rfl ⟨fun _ => rfl, by simp⟩
    · cases heq
      have hs := hdone (.beat { l with currentJWT := some c.jwt }) rfl ⟨fun _ => rfl, by simp⟩
      exact hs.with hs.fit.paused
  | stopped | ended => cases hrun
  | post n =>
    cases r with
    | ok | status code =>
      obtain ⟨code', hcode⟩ : ∃ code', k.postStatus n code' = (k', p') := ⟨_, Option.some.inj hrun⟩
      have hs := sound_postStatus code' h
      rwa [hcode] at hs
    | unreachable | sql r | body size =>
      cases hrun
      exact h.aside (continues_retry rfl) rfl (busy_retry n)
  | postRefresh n x =>
    obtain ⟨⟨k1, y⟩, hy, heq⟩ := Option.map_eq_some_iff.mp hrun
    rcases sound_refresh h rfl hcalm.1 hcalm.2 hy with ⟨x', rfl, hnext⟩ | ⟨c, rfl, hdone⟩
    · cases heq
      exact hnext _ rfl ⟨by rintro ⟨⟩, by simp⟩
    · cases heq
      have hs := hdone (retry n) (busy_retry n) (continues_retry rfl)
      exact hs.with hs.fit.paused

theorem sound_tick {d : ℕ} (h : Sound k threads) (hu : Unexpired k (k.server.now + d)) :
    Sound { k with server := { k.server with now := k.server.now + d } } threads := by
  refine ⟨⟨h.fit.host, hu, h.fit.paused⟩, h.apart, h.running, h.notStopped, h.file, fun p hp x hx => ?_⟩
  have hf := h.each p hp x hx
  cases x with
  | request q => cases q <;> exact hf
  | _ => exact hf

end Sound

theorem sound_step {s s' : State} {a : Act} (h : Sound s.core s.threads) (hok : Serial s a)
    (hs : step s a = some s') : Sound s'.core s'.threads := by
  cases moves_of_step hs with
  | start hspawn hs' =>
    cases hspawn
    have hcons : Sound s.core (.post 0 :: s.threads) := by
      obtain ⟨q, hq, hb⟩ := h.running
      refine ⟨h.fit, List.pairwise_cons.mpr ⟨by rintro _ _ ⟨⟩, h.apart⟩, ⟨q, List.mem_cons_of_mem _ hq, hb⟩, ?_,
        fun hall => h.file fun p hp => hall p (List.mem_cons_of_mem _ hp), fun p hp x hx => ?_⟩
      · simpa using h.notStopped
      · rcases List.mem_cons.mp hp with rfl | hp
        · cases hx
        · exact h.each p hp x hx
    exact hcons.perm hs'.symm
  | @act t r k p p' rest threads hp hrun hthreads hs' =>
    have hcalm : Calm (p :: rest) r p := by
      have hc := hok p hp
      cases p with
      | beatRefresh l x | postRefresh n x =>
        exact ⟨hc.1, fun hl q hq => hc.2 hl q (hthreads.symm.subset hq)⟩
      | beat l => exact hc
      | _ => trivial
    exact (sound_run (h.perm hthreads) hcalm hrun).perm hs'.symm
  | crash | noCrash => exact hok.elim
  | @env e k henv =>
    cases e with
    | tick d =>
      cases henv
      exact sound_tick h hok
    | deleteHost => exact hok.elim

/-! ### The result -/

/-- In runs in which no refresh reads the file while another one is under way, the loop goes on, does not pause the
sandboxes for a failed refresh, and leaves a usable pair in the file. -/
theorem reach_heartbeat_runs {s : State} (h : Reach step Serial Initial s) :
    ((∃ p ∈ s.threads, beating p = true) ∧ .stopped ∉ s.threads) ∧ .refreshFailed ∉ s.core.paused ∧
      ((∀ p ∈ s.threads, busy p = false) → usable s.core = true) := by
  have hsound : Sound s.core s.threads := by
    refine h.invariant (I := fun s => Sound s.core s.threads) (fun s hinit => ?_) fun s a s' hi hok hs =>
      sound_step hi hok hs
    obtain ⟨c, hfile, hlive, hthreads⟩ := hinit.creds
    rw [hthreads]
    refine ⟨⟨hinit.host, hinit.unexpired, by simp [hinit.paused]⟩, List.pairwise_singleton ..,
      by simp [beating], by simp,
      fun _ => ⟨c, by rw [hfile], hlive⟩, fun p hp x hx => ?_⟩
    rw [List.mem_singleton.mp hp] at hx
    cases hx
  refine ⟨⟨hsound.running, hsound.notStopped⟩, hsound.fit.paused, fun hidle => ?_⟩
  obtain ⟨c, hc, hlive⟩ := hsound.file hidle
  obtain ⟨t, ht, -⟩ := getToken_live hsound.fit.unexpired hlive
  simp [usable, hc, ht]

/-! ### Runs -/

/-- Host 4 has the token 0, and its JWT is accepted until 10. -/
def agent : State where
  core := {
    server := ⟨0, [4], false, [⟨4, 1000, false, none⟩], []⟩
    host := 4
    file := ⟨5, some ⟨10, 0, 5⟩⟩
    jwt := some 10
    paused := [] }
  threads := [.beat ⟨some 10, 0, false⟩]

theorem initial_agent : Initial agent :=
  ⟨by decide, by decide, rfl, ⟨10, 0, 5⟩, rfl, ⟨⟨4, 1000, false, none⟩, rfl, rfl, rfl⟩, rfl⟩

/-- The process `t` is rejected, reads the file, and the control plane issues a new pair. -/
def rotated (t : ℕ) : List Act :=
  [.act t .ok, .act t .ok, .act t (.sql .ok), .act t (.sql .ok), .act t (.sql .ok), .act t (.sql .ok)]

/-- The pair arrives and is written. -/
def saved (t : ℕ) : List Act := [.act t (.body 6), .act t .ok, .act t .ok]

/-- The JWT expires; the sender refreshes, sends its event and returns; then the loop refreshes. -/
def serialRun : List Act :=
  ([.env (.tick 10), .start ()] : List Act) ++ (rotated 1 ++ (saved 1 ++
    (([.act 1 .ok] : List Act) ++ (rotated 0 ++ saved 0))))

theorem serial_run_heartbeat_runs :
    (∃ p ∈ (last step agent serialRun).threads, beating p = true) ∧
      usable (last step agent serialRun).core = true ∧
      (last step agent serialRun).core.file.creds.map Creds.token = some 2 ∧
      (last step agent serialRun).core.server.spent = [1, 0] := by
  have hadm : Admits step Serial agent serialRun := by decide +kernel
  obtain ⟨⟨hbeat, -⟩, -, husable⟩ := reach_heartbeat_runs (.last initial_agent hadm)
  exact ⟨hbeat, husable (by decide +kernel), by decide +kernel, by decide +kernel⟩

/-- The loop reads the file when the control plane has revoked the token in it for the sender, and stops.  And even
a refresh that is alone leaves nothing usable in the file until it writes it. -/
theorem heartbeat_stopped :
    (exec step agent (([.env (.tick 10), .start ()] : List Act) ++ (rotated 1 ++
      ([.act 0 .ok, .act 0 .ok, .act 0 (.sql .ok), .act 0 .ok] : List Act)))).map
        (fun s => (s.core.paused, s.threads[0]?)) = some ([.refreshFailed], some .stopped) ∧
    (exec step agent (([.env (.tick 10)] : List Act) ++ rotated 0)).map (fun s => usable s.core) = some false := by
  constructor <;> decide +kernel

end Wrenn.Credentials.Agent
