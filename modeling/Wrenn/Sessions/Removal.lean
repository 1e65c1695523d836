import Mathlib.Order.Nat
import Wrenn.Lib.Runs
import Wrenn.Sessions.Members

/-!
# The removal of a member

Once `RemoveMember` or `LeaveTeam` has returned, a request of the former member should not be let in to the
team.  But a `Get` that found the membership before it was deleted may write its copy after the removal has
dropped the copies, and a `POST /v1/api-keys` that was let in before may insert its key after the removal has
deleted the keys.

`reach_none_granted` shows that these are the only ways: nobody is let in in runs in which no such `Get` is
under way when the removal drops a copy, and in which no key is inserted after the removal has deleted the
keys.  `copy_written_late` and `key_inserted_late` are runs outside these bounds.
-/

namespace Wrenn.Sessions.Removal

open Lib.Runs Lib.Tables Lib.Threads Cache Members Function

/-! ### The condition -/

/-- The copy that the process is about to write. -/
def writes : Proc → Option Session
  | .writeBack sess _ => some sess
  | _ => none

/-- User and team of a removal that has deleted the keys. -/
def purged : Proc → Option (ℕ × ℕ)
  | .listSessions user team | .delCopies user team _ => some (user, team)
  | _ => none

def Bound (x : ℕ × ℕ) (sess : Session) : Prop := sess.user = x.1 ∧ sess.team = some x.2

instance (x : ℕ × ℕ) (sess : Session) : Decidable (Bound x sess) :=
  inferInstanceAs (Decidable (sess.user = x.1 ∧ sess.team = some x.2))

def Clear (k : Core) (threads : List Proc) : Proc → Prop
  | .delCopies user team (sid :: _) =>
    ∀ q ∈ threads, ∀ sess ∈ writes q, sess.id = sid → ¬ Bound (user, team) sess
  | .insertKey user (some team) =>
    (user, team) ∉ k.removed ∧ ∀ q ∈ threads, purged q ≠ some (user, team)
  | _ => True

instance (k : Core) (threads : List Proc) : ∀ p, Decidable (Clear k threads p)
  | .delCopies user team (sid :: _) => inferInstanceAs (Decidable
      (∀ q ∈ threads, ∀ sess ∈ writes q, sess.id = sid → ¬ Bound (user, team) sess))
  | .insertKey user (some team) => inferInstanceAs (Decidable
      ((user, team) ∉ k.removed ∧ ∀ q ∈ threads, purged q ≠ some (user, team)))
  | .readCache .. | .slide .. | .getRow .. | .delExpired _ | .dropRow _ | .getUser .. | .getMembership ..
  | .writeBack .. | .insertKey _ none | .getKey .. | .touchKey .. | .callerRole .. | .targetRole ..
  | .ownRole .. | .deleteMember .. | .deleteKeys .. | .listSessions .. | .delCopies _ _ [] | .ended =>
    isTrue trivial

/-- All calls succeed; when a removal drops the copy of a session, no `Get` is about to write the copy with
the team; and no key is inserted for a user and a team after a removal has deleted theirs. -/
def Apart (s : State) : Act → Prop
  | .act t r => r = .ok ∧ ∀ p ∈ s.threads[t]?, Clear s.core s.threads p
  | _ => True

instance (s : State) : ∀ a, Decidable (Apart s a)
  | .act t r => inferInstanceAs (Decidable (r = .ok ∧ ∀ p ∈ s.threads[t]?, Clear s.core s.threads p))
  | .start _ | .crash _ | .env _ => isTrue trivial

/-! ### What holds in a run -/

/-- The user is out of the team, but for the copies of the sessions `todo`. -/
structure Shut (k : Core) (threads : List Proc) (x : ℕ × ℕ) (todo : List ℕ) : Prop where
  member : k.members.select x = none
  keys : ∀ key ∈ k.keys, ¬ (key.createdBy = x.1 ∧ key.team = x.2)
  copies : ∀ sid e, k.cache sid = some e → Bound x e.session → k.now < e.deadline → sid ∈ todo
  held : ∀ q ∈ threads, ∀ sess, writes q = some sess → Bound x sess → k.now < sess.expiresAt → sess.id ∈ todo

/-- The session does not let its user in where the request must not. -/
def Free (sess : Session) (barred : List (ℕ × ℕ)) : Prop := ∀ g, sess.team = some g → (sess.user, g) ∉ barred

def Fine (k : Core) (threads : List Proc) : Proc → Prop
  | .readCache _ req => req.t ≤ k.now ∧ req.barred ⊆ k.removed
  | .getRow _ req => req.t ≤ k.now ∧ req.barred ⊆ k.removed
  | .slide sess req | .writeBack sess req => Backed k sess ∧ Free sess req.barred
  | .getUser sess req | .getMembership sess req => Backed k sess ∧ req.barred ⊆ k.removed
  | .delExpired sid | .dropRow sid => ∀ r, k.rows.select sid = some r → r.expiresAt < k.now
  | .getKey _ barred => barred ⊆ k.removed
  | .touchKey key barred => (key.createdBy, key.team) ∉ barred
  | .deleteKeys user team => k.members.select (user, team) = none
  | .listSessions user team => k.members.select (user, team) = none ∧
      ∀ key ∈ k.keys, ¬ (key.createdBy = user ∧ key.team = team)
  | .delCopies user team todo => Shut k threads (user, team) todo
  | _ => True

structure Sealed (k : Core) (threads : List Proc) : Prop where
  copies : ∀ sid e, k.cache sid = some e → Kept k sid e
  gone : ∀ x ∈ k.removed, Shut k threads x []
  sound : k.granted = []
  each : ∀ p ∈ threads, Fine k threads p

section Perm

variable {k : Core} {threads threads' : List Proc} {x : ℕ × ℕ} {todo : List ℕ} {p : Proc}

theorem Shut.of_subset (h : Shut k threads x todo) (hsub : threads' ⊆ threads) : Shut k threads' x todo :=
  ⟨h.member, h.keys, h.copies, fun q hq => h.held q (hsub hq)⟩

theorem Fine.of_subset (h : Fine k threads p) (hsub : threads' ⊆ threads) : Fine k threads' p := by
  cases p with
  | delCopies user team todo => exact Shut.of_subset h hsub
  | _ => exact h

theorem Sealed.of_subset (h : Sealed k threads) (hsub : threads' ⊆ threads) : Sealed k threads' :=
  ⟨h.copies, fun x hx => (h.gone x hx).of_subset hsub, h.sound, fun p hp => (h.each p (hsub hp)).of_subset hsub⟩

end Perm

/-! ### What a step keeps -/

/-- Rows are deleted only past their cap. -/
def Thinned (k k' : Core) : Prop := ∀ sid, k'.rows.select sid = k.rows.select sid ∨
  k'.rows.select sid = none ∧ ∀ r, k.rows.select sid = some r → r.expiresAt < k.now

theorem backed_thinned {k k' : Core} {sess : Session} (hnow : k.now ≤ k'.now) (ht : Thinned k k')
    (h : Backed k sess) : Backed k' sess := by
  constructor
  · intro hlt hnone
    have hrow := h.row (by omega)
    rcases ht sess.id with heq | ⟨-, hexp⟩
    · exact hrow (heq ▸ hnone)
    · obtain ⟨r, hr⟩ := Option.ne_none_iff_exists'.mp hrow
      have h1 := (h.same r hr).2
      have h2 := hexp r hr
      omega
  · intro r hr
    rcases ht sess.id with heq | ⟨hnone, -⟩
    · exact h.same r (heq ▸ hr)
    · rw [hnone] at hr
      cases hr

theorem expired_thinned {k k' : Core} {sid : ℕ} (hnow : k.now ≤ k'.now) (ht : Thinned k k')
    (h : ∀ r, k.rows.select sid = some r → r.expiresAt < k.now) :
    ∀ r, k'.rows.select sid = some r → r.expiresAt < k'.now := by
  intro r hr
  rcases ht sid with heq | ⟨hnone, -⟩
  · exact (h r (heq ▸ hr)).trans_le hnow
  · rw [hnone] at hr
    cases hr

/-- What the step of a process leaves to the others. -/
structure Keeps (k : Core) (p : Proc) (k' : Core) (p' : Proc) : Prop where
  now : k'.now = k.now
  removed : k.removed ⊆ k'.removed
  members : ∀ x, k.members.select x = none → k'.members.select x = none
  keys : ∀ key ∈ k'.keys, key ∈ k.keys ∨ p = .insertKey key.createdBy (some key.team)
  rows : Thinned k k'
  cache : ∀ sid e', k'.cache sid = some e' → k.cache sid = some e' ∨ Kept k sid e' ∧
    k.now < e'.session.expiresAt ∧
    ((∃ e, k.cache sid = some e ∧ e.session = e'.session ∧ k.now < e.deadline) ∨ writes p = some e'.session)
  writes : ∀ sess, writes p' = some sess → ∀ g, sess.team = some g → k.members.select (sess.user, g) ≠ none

section Keeps

variable {k k' : Core} {p p' q : Proc} {rest : List Proc} {x : ℕ × ℕ} {todo : List ℕ} {sess : Session} {sid : ℕ}
  {e : Entry Session}

theorem backed_keep (hk : Keeps k p k' p') (h : Backed k sess) : Backed k' sess :=
  backed_thinned hk.now.ge hk.rows h

theorem kept_keep (hk : Keeps k p k' p') (h : Kept k sid e) : Kept k' sid e :=
  ⟨h.id, h.deadline, backed_keep hk h.backed⟩

theorem Shut.keep (hk : Keeps k p k' p') (hkey : p ≠ .insertKey x.1 (some x.2)) (h : Shut k (p :: rest) x todo) :
    Shut k' (p' :: rest) x todo := by
  have hheld : ∀ q ∈ p :: rest, ∀ sess, writes q = some sess → Bound x sess → k.now < sess.expiresAt →
      sess.id ∈ todo := h.held
  refine ⟨hk.members x h.member, fun key hkey' hx => ?_, fun sid e' he' hb hlt => ?_, fun q hq sess hw hb hlt => ?_⟩
  · rcases hk.keys key hkey' with hold | hnew
    · exact h.keys key hold hx
    · rw [hx.1, hx.2] at hnew
      exact hkey hnew
  · rw [hk.now] at hlt
    rcases hk.cache sid e' he' with hold | ⟨hkept, hexp, ⟨e, he, hsess, hlive⟩ | hw⟩
    · exact h.copies sid e' hold hb hlt
    · exact h.copies sid e he (hsess ▸ hb) hlive
    · have hid := hheld p List.mem_cons_self e'.session hw hb hexp
      rwa [hkept.id] at hid
  · rw [hk.now] at hlt
    rcases List.mem_cons.mp hq with rfl | hq
    · have hsel := hk.writes sess hw x.2 hb.2
      rw [hb.1] at hsel
      exact absurd h.member hsel
    · exact hheld q (List.mem_cons_of_mem _ hq) sess hw hb hlt

theorem Fine.keep (hk : Keeps k p k' p')
    (hkey : ∀ y, purged q = some y → p ≠ .insertKey y.1 (some y.2)) (h : Fine k (p :: rest) q) :
    Fine k' (p' :: rest) q := by
  have hnow := hk.now
  have hsub : ∀ {barred}, barred ⊆ k.removed → barred ⊆ k'.removed := fun hb _ hx => hk.removed (hb hx)
  cases q with
  | readCache sid req | getRow sid req => exact ⟨hnow ▸ h.1, hsub h.2⟩
  | slide sess req | writeBack sess req => exact ⟨backed_keep hk h.1, h.2⟩
  | getUser sess req | getMembership sess req => exact ⟨backed_keep hk h.1, hsub h.2⟩
  | delExpired sid | dropRow sid => exact expired_thinned hnow.ge hk.rows h
  | getKey kid barred => exact hsub h
  | deleteKeys user team => exact hk.members _ h
  | listSessions user team =>
    refine ⟨hk.members _ h.1, fun key hmem hx => ?_⟩
    rcases hk.keys key hmem with hold | hnew
    · exact h.2 key hold hx
    · rw [hx.1, hx.2] at hnew
      exact hkey (user, team) rfl hnew
  | delCopies user team todo => exact Shut.keep hk (hkey (user, team) rfl) h
  | touchKey key barred => exact h
  | insertKey user team | callerRole caller user team | targetRole user team | ownRole user team
  | deleteMember user team | ended => trivial

end Keeps

/-! ### The step of a process -/

section Step

variable {k k' : Core} {p p' : Proc} {rest : List Proc} {sess : Session} {sid user team : ℕ} {req : Request}

theorem keeps_of_eq (hnow : k'.now = k.now) (hremoved : k.removed ⊆ k'.removed) (hmembers : k'.members = k.members)
    (hkeys : k'.keys = k.keys) (hrows : k'.rows = k.rows) (hcache : k'.cache = k.cache) (hw : writes p' = none) :
    Keeps k p k' p' := by
  refine ⟨hnow, hremoved, fun x => hmembers ▸ id, fun key => hkeys ▸ .inl, fun sid => .inl (hrows ▸ rfl),
    fun sid e' => hcache ▸ .inl, fun sess hs => ?_⟩
  rw [hw] at hs
  cases hs

theorem keeps_same (hw : writes p' = none) : Keeps k p k p' := keeps_of_eq rfl (fun _ => id) rfl rfl rfl rfl hw

theorem writes_serve : writes (k.serve sess req).2 = none := by
  unfold Core.serve
  by_cases hnew : req.newKey = true <;> simp [hnew, writes]

theorem granted_letIn {g : Option ℕ} {barred : List (ℕ × ℕ)} (hfree : ∀ t, g = some t → (user, t) ∉ barred) :
    (k.letIn user g barred).granted = k.granted := by
  cases g with
  | none => rfl
  | some t => simp [Core.letIn, hfree t rfl]

theorem fine_serve {threads : List Proc} : Fine k' threads (k.serve sess req).2 := by
  unfold Core.serve
  by_cases hnew : req.newKey = true <;> simp [hnew, Fine]

/-- A step that touches the cache only. -/
theorem keeps_of_cache (hnow : k'.now = k.now) (hremoved : k'.removed = k.removed) (hmembers : k'.members = k.members)
    (hkeys : k'.keys = k.keys) (hrows : k'.rows = k.rows)
    (hcache : ∀ sid e', k'.cache sid = some e' → k.cache sid = some e' ∨ Kept k sid e' ∧
      k.now < e'.session.expiresAt ∧
      ((∃ e, k.cache sid = some e ∧ e.session = e'.session ∧ k.now < e.deadline) ∨ writes p = some e'.session))
    (hw : writes p' = none) : Keeps k p k' p' := by
  refine ⟨hnow, hremoved ▸ fun _ => id, fun x => hmembers ▸ id, fun key => hkeys ▸ .inl,
    fun sid => .inl (hrows ▸ rfl), hcache, fun sess hs => ?_⟩
  rw [hw] at hs
  cases hs

theorem keeps_writeBack (hb : Backed k sess) :
    Keeps k (.writeBack sess req) ((k.writeCache sess).serve sess req).1 ((k.writeCache sess).serve sess req).2 := by
  refine keeps_of_cache rfl rfl rfl rfl rfl (fun sid e' he' => ?_) writes_serve
  rcases writeCache_eq_some he' with hold | ⟨rfl, hsess, hlt, hdead, -⟩
  · exact .inl hold
  · obtain ⟨sess', deadline⟩ := e'
    obtain rfl : sess' = sess := hsess
    exact .inr ⟨⟨rfl, hdead, hb⟩, hlt, .inr rfl⟩

/-- The copy that is there has the expiry of the session that was read, since both have that of the row. -/
theorem keeps_slide (hcopies : ∀ sid e, k.cache sid = some e → Kept k sid e) (hb : Backed k sess) :
    Keeps k (.slide sess req) ((k.slideIdle sess).serve sess req).1 ((k.slideIdle sess).serve sess req).2 := by
  refine keeps_of_cache rfl rfl rfl rfl rfl (fun sid e' he' => ?_) writes_serve
  rcases slideIdle_eq_some he' with hold | ⟨rfl, hread, hlt, hdead, -⟩
  · exact .inl hold
  · obtain ⟨e, he, hsess, hlive⟩ := readCache_eq_some hread
    have hkept := hcopies _ e he
    obtain ⟨r, hr⟩ := Option.ne_none_iff_exists'.mp (hb.row hlt)
    have h1 := (hb.same r hr).2
    have h2 := (hkept.backed.same r (hkept.id ▸ hr)).2
    rw [hsess] at h2
    refine .inr ⟨⟨?_, by omega, hsess ▸ hkept.backed⟩, by omega, .inl ⟨e, he, hsess, hlive⟩⟩
    rw [← hsess, hkept.id]

theorem keeps_del (hw : writes p' = none) : Keeps k p (k.del sid) p' := by
  refine keeps_of_cache rfl rfl rfl rfl rfl (fun sid' e' he' => .inl ?_) hw
  by_cases hid : sid' = sid
  · simp [Core.del, hid] at he'
  · simpa [Core.del, hid] using he'

theorem keeps_deleteSession (hexp : ∀ r, k.rows.select sid = some r → r.expiresAt < k.now) (hw : writes p' = none) :
    Keeps k p (k.deleteSession sid) p' := by
  refine ⟨rfl, fun _ => id, fun _ => id, fun _ => .inl, fun sid' => ?_, fun _ _ => .inl, fun sess hs => ?_⟩
  · have hsel : (k.deleteSession sid).rows.select sid' =
        (k.rows.select sid').filter fun r => !decide (r.id = sid) := Table.select_delete
    by_cases hid : sid' = sid
    · refine .inr ⟨?_, hid ▸ hexp⟩
      rw [hsel]
      refine Option.filter_eq_none_iff.mpr fun r hr => ?_
      simp [(Table.select_key hr).trans hid]
    · refine .inl ?_
      rw [hsel]
      cases hs : k.rows.select sid' with
      | none => rfl
      | some r => simp [Option.filter, Table.select_key hs, hid]
  · rw [hw] at hs
    cases hs

theorem keeps_deleteTeamMember (hw : writes p' = none) : Keeps k p (k.deleteTeamMember user team) p' := by
  refine ⟨rfl, fun _ => id, fun x hx => ?_, fun _ => .inl, fun _ => .inl rfl, fun _ _ => .inl, fun sess hs => ?_⟩
  · unfold Core.deleteTeamMember
    rw [Table.select_delete, hx]
    rfl
  · rw [hw] at hs
    cases hs

theorem keeps_deleteKeys (hw : writes p' = none) : Keeps k p (k.deleteAPIKeysByTeamAndCreator user team) p' := by
  refine ⟨rfl, fun _ => id, fun _ => id, fun key hkey => .inl (List.mem_of_mem_filter hkey), fun _ => .inl rfl,
    fun _ _ => .inl, fun sess hs => ?_⟩
  rw [hw] at hs
  cases hs

theorem keeps_insertKey : Keeps k (.insertKey user (some team)) (k.insertAPIKey user team) .ended := by
  refine ⟨rfl, fun _ => id, fun _ => id, fun key hkey => ?_, fun _ => .inl rfl, fun _ _ => .inl, fun sess hs => ?_⟩
  · rcases List.mem_cons.mp hkey with rfl | hkey
    · exact .inr rfl
    · exact .inl hkey
  · cases hs

/-- A copy is written with a team only if the membership was found. -/
theorem keeps_getMembership (hw : ∀ g, sess.team = some g → k.members.select (sess.user, g) ≠ none) :
    Keeps k p k (.writeBack sess req) := by
  refine ⟨rfl, fun _ => id, fun _ => id, fun _ => .inl, fun _ => .inl rfl, fun _ _ => .inl, fun sess' hs => ?_⟩
  cases hs
  exact hw

theorem Sealed.keep (h : Sealed k (p :: rest)) (hk : Keeps k p k' p') (hclear : Clear k (p :: rest) p)
    (hfine : Fine k' (p' :: rest) p') (hgranted : k'.granted = k.granted)
    (hnew : ∀ x ∈ k'.removed, x ∈ k.removed ∨ Shut k' (p' :: rest) x []) : Sealed k' (p' :: rest) := by
  -- A key is inserted for nobody whose keys a removal has deleted.
  have hkey : ∀ x, (x ∈ k.removed ∨ ∃ q ∈ p :: rest, purged q = some x) → p ≠ .insertKey x.1 (some x.2) := by
    rintro x hx rfl
    rcases hx with hx | ⟨q, hq, hpq⟩
    · exact hclear.1 hx
    · exact hclear.2 q hq hpq
  refine ⟨fun sid e he => ?_, fun x hx => ?_, hgranted.trans h.sound, fun q hq => ?_⟩
  · rcases hk.cache sid e he with hold | ⟨hkept, -⟩
    · exact kept_keep hk (h.copies sid e hold)
    · exact kept_keep hk hkept
  · rcases hnew x hx with hold | hshut
    · exact (h.gone x hold).keep hk (hkey x (.inl hold))
    · exact hshut
  · rcases List.mem_cons.mp hq with rfl | hq
    · exact hfine
    · have hmem : q ∈ p :: rest := List.mem_cons_of_mem _ hq
      exact (h.each q hmem).keep hk fun y hy => hkey y (.inr ⟨q, hmem, hy⟩)

theorem backed_row {r : Session} (hsel : k.rows.select sid = some r) : Backed k r := by
  have hid : r.id = sid := show r.key = sid from Table.select_key hsel
  constructor
  · rw [hid, hsel]
    simp
  · intro r' hr'
    rw [hid, hsel] at hr'
    cases hr'
    exact ⟨rfl, rfl⟩

/-- The copies and the processes that will write one stand for rows, which the removal lists. -/
theorem shut_listSessions (h : Sealed k (.listSessions user team :: rest)) :
    Shut k (.delCopies user team ((k.rows.list fun row => decide (row.user = user)).map Session.key) :: rest)
      (user, team) ((k.rows.list fun row => decide (row.user = user)).map Session.key) := by
  obtain ⟨hmember, hkeys⟩ := h.each _ List.mem_cons_self
  have hlisted : ∀ sess, Backed k sess → Bound (user, team) sess → k.now < sess.expiresAt →
      sess.id ∈ (k.rows.list fun row => decide (row.user = user)).map Session.key := by
    intro sess hb hbound hlt
    obtain ⟨r, hr⟩ := Option.ne_none_iff_exists'.mp (hb.row hlt)
    obtain ⟨hmem, hid⟩ := Table.select_eq_some.mp hr
    have huser : r.user = user := (hb.same r hr).1.trans hbound.1
    exact List.mem_map.mpr ⟨r, Table.mem_list.mpr ⟨hmem, decide_eq_true huser⟩, hid⟩
  refine ⟨hmember, hkeys, fun sid e he hbound hlt => ?_, fun q hq sess hw hbound hlt => ?_⟩
  · have hkept := h.copies sid e he
    have hdead := hkept.deadline
    have hid := hlisted e.session hkept.backed hbound (by omega)
    rwa [hkept.id] at hid
  · rcases List.mem_cons.mp hq with rfl | hq
    · cases hw
    · have hf := h.each q (List.mem_cons_of_mem _ hq)
      cases q with
      | writeBack sess' req =>
        cases hw
        exact hlisted _ hf.1 hbound hlt
      | _ => cases hw

theorem shut_delCopies {todo : List ℕ}
    (h : Shut k (.delCopies user team (sid :: todo) :: rest) (user, team) (sid :: todo))
    (hclear : Clear k (.delCopies user team (sid :: todo) :: rest) (.delCopies user team (sid :: todo))) :
    Shut (k.del sid) (.delCopies user team todo :: rest) (user, team) todo := by
  refine ⟨h.member, h.keys, fun sid' e he hbound hlt => ?_, fun q hq sess hw hbound hlt => ?_⟩
  · by_cases hid : sid' = sid
    · simp [Core.del, hid] at he
    · have hold : k.cache sid' = some e := by simpa [Core.del, hid] using he
      exact (List.mem_cons.mp (h.copies sid' e hold hbound hlt)).resolve_left hid
  · rcases List.mem_cons.mp hq with rfl | hq
    · cases hw
    · have hmem := List.mem_cons_of_mem (Proc.delCopies user team (sid :: todo)) hq
      refine (List.mem_cons.mp (h.held q hmem sess hw hbound hlt)).resolve_left fun hid => ?_
      exact hclear q hmem sess hw hid hbound

theorem free_of_cached (h : Sealed k (p :: rest)) (hc : k.cached sid = some sess) {barred : List (ℕ × ℕ)}
    (hb : barred ⊆ k.removed) : Free sess barred := by
  intro g hg hx
  obtain ⟨e, he, rfl, hlt⟩ := readCache_eq_some hc
  exact absurd ((h.gone _ (hb hx)).copies sid e he ⟨rfl, hg⟩ hlt) List.not_mem_nil

theorem sealed_getMembership (h : Sealed k (.getMembership sess req :: rest))
    (hrun : run k .ok (.getMembership sess req) = some (k', p')) : Sealed k' (p' :: rest) := by
  obtain ⟨hb, hsub⟩ := h.each _ List.mem_cons_self
  cases hm : k.getTeamMembership sess.user sess.team with
  | some m =>
    simp only [run, hm] at hrun
    cases hrun
    have hfound : ∀ g, sess.team = some g → k.members.select (sess.user, g) ≠ none := by
      intro g hg hnone
      rw [Core.getTeamMembership, hg, Option.bind_some, hnone] at hm
      cases hm
    refine h.keep (keeps_getMembership hfound) trivial ⟨hb, fun g hg hx => ?_⟩ rfl fun x => .inl
    exact hfound g hg (h.gone _ (hsub hx)).member
  | none =>
    simp only [run, hm] at hrun
    cases hrun
    exact h.keep (keeps_getMembership (by simp)) trivial ⟨⟨hb.row, hb.same⟩, by simp [Free]⟩ rfl fun x => .inl

theorem sealed_removal (h : Sealed k (p :: rest)) (hclear : Clear k (p :: rest) p)
    (hp : p = .deleteMember user team ∨ p = .deleteKeys user team ∨ p = .listSessions user team ∨
      ∃ todo, p = .delCopies user team todo) (hrun : run k .ok p = some (k', p')) : Sealed k' (p' :: rest) := by
  have hown := h.each _ List.mem_cons_self
  rcases hp with rfl | rfl | rfl | ⟨todo, rfl⟩
  · cases hrun
    refine h.keep (keeps_deleteTeamMember rfl) trivial ?_ rfl fun x => .inl
    change (k.members.delete _).select (user, team) = none
    rw [Table.select_delete]
    refine Option.filter_eq_none_iff.mpr fun m hm => ?_
    have hkey : m.key = (user, team) := Table.select_key hm
    have hpair : m.user = user ∧ m.team = team := Prod.mk.inj hkey
    simp [hpair]
  · cases hrun
    refine h.keep (keeps_deleteKeys rfl) trivial ⟨hown, fun key hkey hx => ?_⟩ rfl fun x => .inl
    exact of_decide_eq_true (List.mem_filter.mp hkey).2 hx
  · cases hrun
    exact h.keep (keeps_same rfl) trivial (shut_listSessions h) rfl fun x => .inl
  · cases todo with
    | nil =>
      cases hrun
      have hkeeps : Keeps k (.delCopies user team []) (k.markRemoved user team) .ended :=
        keeps_of_eq rfl (fun _ => List.mem_cons_of_mem _) rfl rfl rfl rfl rfl
      refine h.keep hkeeps trivial trivial rfl fun x hx => ?_
      rcases List.mem_cons.mp hx with rfl | hx
      · exact .inr (Shut.keep hkeeps (by simp) hown)
      · exact .inl hx
    | cons sid todo =>
      cases hrun
      exact h.keep (keeps_del rfl) hclear (shut_delCopies hown hclear) rfl fun x => .inl

theorem sealed_run (h : Sealed k (p :: rest)) (hclear : Clear k (p :: rest) p) (hrun : run k .ok p = some (k', p')) :
    Sealed k' (p' :: rest) := by
  have hown := h.each _ List.mem_cons_self
  -- The steps that only look, and leave a process of which the invariant says `Fine`.
  have hlook : ∀ {p'}, writes p' = none → Fine k (p' :: rest) p' → Sealed k (p' :: rest) := fun hw hf =>
    h.keep (keeps_same hw) hclear hf rfl fun x => .inl
  cases p with
  | readCache sid req =>
    simp only [run] at hrun
    split at hrun <;> cases hrun
    · rename_i sess hc
      obtain ⟨e, he, rfl, -⟩ := readCache_eq_some hc
      have hkept := h.copies sid e he
      obtain ⟨ht, hsub⟩ := hown
      split_ifs with hexp
      · refine hlook rfl fun r hr => ?_
        have hsame := (hkept.backed.same r (hkept.id ▸ hr)).2
        omega
      · exact hlook rfl ⟨hkept.backed, free_of_cached h hc hsub⟩
    · exact hlook rfl hown
  | slide sess req =>
    cases hrun
    refine h.keep (keeps_slide h.copies hown.1) trivial (fine_serve (k := k)) ?_ fun x hx => .inl ?_
    · exact granted_letIn hown.2
    · exact hx
  | getRow sid req =>
    simp only [run] at hrun
    split at hrun <;> cases hrun
    · rename_i row hsel
      obtain ⟨ht, hsub⟩ := hown
      split_ifs with hexp
      · refine hlook rfl fun r hr => ?_
        rw [hsel] at hr
        cases hr
        omega
      · exact hlook rfl ⟨backed_row hsel, hsub⟩
    · exact hlook rfl trivial
  | delExpired sid =>
    cases hrun
    exact h.keep (keeps_del rfl) trivial hown rfl fun x => .inl
  | dropRow sid =>
    cases hrun
    exact h.keep (keeps_deleteSession hown rfl) trivial trivial rfl fun x => .inl
  | getMembership sess req => exact sealed_getMembership h hrun
  | writeBack sess req =>
    cases hrun
    refine h.keep (keeps_writeBack hown.1) trivial (fine_serve (k := k)) ?_ fun x hx => .inl ?_
    · exact granted_letIn hown.2
    · exact hx
  | insertKey user team =>
    cases team <;> cases hrun
    · exact hlook rfl trivial
    · exact h.keep keeps_insertKey hclear trivial rfl fun x => .inl
  | getKey kid barred =>
    simp only [run] at hrun
    split at hrun <;> cases hrun
    · refine hlook rfl fun hx => ?_
      exact (h.gone _ (hown hx)).keys _ (List.mem_of_find?_eq_some ‹_›) ⟨rfl, rfl⟩
    · exact hlook rfl trivial
  | touchKey key barred =>
    cases hrun
    refine h.keep (keeps_of_eq rfl (fun _ => id) rfl rfl rfl rfl rfl) trivial trivial ?_ fun x => .inl
    refine granted_letIn fun t ht => ?_
    cases ht
    exact hown
  | getUser | callerRole | targetRole | ownRole =>
    simp only [run] at hrun
    repeat' split at hrun
    all_goals
      cases hrun
      first | exact hlook rfl trivial | exact hlook rfl hown
  | deleteMember user team => exact sealed_removal h hclear (.inl rfl) hrun
  | deleteKeys user team => exact sealed_removal h hclear (.inr (.inl rfl)) hrun
  | listSessions user team => exact sealed_removal h hclear (.inr (.inr (.inl rfl))) hrun
  | delCopies user team todo => exact sealed_removal h hclear (.inr (.inr (.inr ⟨todo, rfl⟩))) hrun
  | ended => cases hrun

/-- A process joins, or takes the place of another, that writes nothing. -/
theorem Sealed.join {threads : List Proc} (h : Sealed k threads) (hw : writes p = none) (hrest : rest ⊆ threads)
    (hfine : Fine k (p :: rest) p) : Sealed k (p :: rest) := by
  have hshut : ∀ {x todo}, Shut k threads x todo → Shut k (p :: rest) x todo := by
    refine fun hs => ⟨hs.member, hs.keys, hs.copies, fun q hq sess hwq => ?_⟩
    rcases List.mem_cons.mp hq with rfl | hq
    · rw [hw] at hwq
      cases hwq
    · exact hs.held q (hrest hq) sess hwq
  refine ⟨h.copies, fun x hx => hshut (h.gone x hx), h.sound, fun q hq => ?_⟩
  rcases List.mem_cons.mp hq with rfl | hq
  · exact hfine
  · have hf := h.each q (hrest hq)
    cases q with
    | delCopies user team todo => exact hshut hf
    | _ => exact hf

theorem sealed_spawn {threads : List Proc} (h : Sealed k threads) {c : Call} (hspawn : spawn k c = some (k', p)) :
    Sealed k' (p :: threads) := by
  cases c with
  | request sid newKey =>
    cases hspawn
    exact h.join rfl (fun _ => id) ⟨le_rfl, fun _ => id⟩
  | withKey kid =>
    cases hspawn
    exact h.join rfl (fun _ => id) fun _ => id
  | removeMember caller user team | leaveTeam user team =>
    cases hspawn
    exact h.join rfl (fun _ => id) trivial

end Step

/-! ### Time, evictions and clean-ups -/

section Env

variable {k k' : Core} {threads : List Proc}

/-- What the environment does to the sessions. -/
structure Ages (k k' : Core) : Prop where
  now : k.now ≤ k'.now
  removed : k'.removed = k.removed
  members : k'.members = k.members
  keys : k'.keys = k.keys
  granted : k'.granted = k.granted
  rows : Thinned k k'
  cache : ∀ sid e, k'.cache sid = some e → k.cache sid = some e

theorem Ages.backed (ha : Ages k k') {sess : Session} (h : Backed k sess) : Backed k' sess :=
  backed_thinned ha.now ha.rows h

theorem Ages.shut (ha : Ages k k') {x : ℕ × ℕ} {todo : List ℕ} (h : Shut k threads x todo) :
    Shut k' threads x todo := by
  have hnow := ha.now
  refine ⟨ha.members ▸ h.member, ha.keys ▸ h.keys, fun sid e he hb hlt => ?_, fun q hq sess hw hb hlt => ?_⟩
  · exact h.copies sid e (ha.cache sid e he) hb (by omega)
  · exact h.held q hq sess hw hb (by omega)

theorem Ages.fine (ha : Ages k k') {q : Proc} (h : Fine k threads q) : Fine k' threads q := by
  have hnow := ha.now
  have hsub : ∀ {barred}, barred ⊆ k.removed → barred ⊆ k'.removed := fun hb => ha.removed ▸ hb
  cases q with
  | readCache sid req | getRow sid req => exact ⟨h.1.trans hnow, hsub h.2⟩
  | slide sess req | writeBack sess req => exact ⟨ha.backed h.1, h.2⟩
  | getUser sess req | getMembership sess req => exact ⟨ha.backed h.1, hsub h.2⟩
  | delExpired sid | dropRow sid => exact expired_thinned hnow ha.rows h
  | getKey kid barred => exact hsub h
  | deleteKeys user team =>
    unfold Fine at h ⊢
    rwa [ha.members]
  | listSessions user team => exact ⟨ha.members ▸ h.1, ha.keys ▸ h.2⟩
  | delCopies user team todo => exact ha.shut h
  | touchKey key barred => exact h
  | insertKey user team | callerRole caller user team | targetRole user team | ownRole user team
  | deleteMember user team | ended => trivial

theorem Ages.sealed (ha : Ages k k') (h : Sealed k threads) : Sealed k' threads := by
  refine ⟨fun sid e he => ?_, fun x hx => ?_, ha.granted.trans h.sound, fun q hq => ha.fine (h.each q hq)⟩
  · have hkept := h.copies sid e (ha.cache sid e he)
    exact ⟨hkept.id, hkept.deadline, ha.backed hkept.backed⟩
  · exact ha.shut (h.gone x (ha.removed ▸ hx))

theorem ages_env {e : Env} (henv : env k e = some k') : Ages k k' := by
  cases e with
  | tick d =>
    cases henv
    exact ⟨Nat.le_add_right .., rfl, rfl, rfl, rfl, fun _ => .inl rfl, fun _ _ => id⟩
  | evict sid =>
    cases henv
    refine ⟨le_rfl, rfl, rfl, rfl, rfl, fun _ => .inl rfl, fun sid' e he => ?_⟩
    by_cases hid : sid' = sid
    · simp [Core.del, hid] at he
    · simpa [Core.del, hid] using he
  | clean =>
    cases henv
    refine ⟨le_rfl, rfl, rfl, rfl, rfl, fun sid => ?_, fun _ _ => id⟩
    rw [Table.select_delete]
    cases hs : k.rows.select sid with
    | none => exact .inl rfl
    | some r =>
      by_cases hexp : r.expiresAt < k.now
      · exact .inr ⟨by simp [Option.filter, hexp], fun r' hr' => by cases hr'; exact hexp⟩
      · exact .inl (by simp [Option.filter, hexp])
  | setActive user b =>
    cases henv
    exact ⟨le_rfl, rfl, rfl, rfl, rfl, fun _ => .inl rfl, fun _ _ => id⟩

end Env

theorem sealed_step {s s' : State} {a : Act} (h : Sealed s.core s.threads) (hok : Apart s a)
    (hs : step s a = some s') : Sealed s'.core s'.threads := by
  cases moves_of_step hs with
  | start hspawn hs' => exact (sealed_spawn h hspawn).of_subset hs'.subset
  | @act t r k p p' rest threads hp hrun hthreads hs' =>
    obtain ⟨rfl, hclear⟩ := hok
    have hclear' : Clear s.core (p :: rest) p := by
      have hc := hclear p hp
      cases p with
      | delCopies user team todo =>
        cases todo with
        | nil => trivial
        | cons sid todo => exact fun q hq => hc q (hthreads.symm.subset hq)
      | insertKey user team =>
        cases team with
        | none => trivial
        | some team => exact ⟨hc.1, fun q hq => hc.2 q (hthreads.symm.subset hq)⟩
      | _ => trivial
    exact (sealed_run (h.of_subset hthreads.symm.subset) hclear' hrun).of_subset hs'.subset
  | @crash t p rest threads hp hthreads hs' =>
    have hhalt : Sealed s.core (.ended :: rest) := h.join rfl
      (fun q hq => hthreads.symm.subset (List.mem_cons_of_mem _ hq)) trivial
    exact hhalt.of_subset hs'.subset
  | noCrash => exact h
  | env henv => exact (ages_env henv).sealed h

/-! ### The result -/

/-- In runs in which requests and removals stay apart, a removed member is not let in to the team. -/
theorem reach_none_granted {s : State} (h : Reach step Apart Initial s) : s.core.granted = [] := by
  have hsealed : Sealed s.core s.threads := by
    refine h.invariant (I := fun s => Sealed s.core s.threads) (fun s hinit => ?_) fun s a s' hi hok hs =>
      sealed_step hi hok hs
    obtain ⟨hthreads, hcopies, hremoved, hgranted⟩ := hinit
    refine ⟨hcopies, fun x hx => ?_, hgranted, fun p hp => ?_⟩
    · rw [hremoved] at hx
      exact absurd hx List.not_mem_nil
    · rw [hthreads] at hp
      exact absurd hp List.not_mem_nil
  exact hsealed.sound

/-! ### Runs -/

/-- User 5 is a member of team 1, which belongs to user 9, and has the session 0, of which there is no copy. -/
def team : State where
  core := {
    now := 0
    rows := ⟨[⟨⟨0, 5, 100⟩, some 1⟩], by decide⟩
    cache := fun _ => none
    members := ⟨[⟨9, 1, .owner⟩, ⟨5, 1, .member⟩], by decide⟩
    keys := []
    nextKey := 0
    active := fun _ => true
    removed := []
    granted := [] }
  threads := []

theorem initial_team : Initial team := ⟨rfl, fun _ _ h => (by cases h), rfl, rfl⟩

/-- The request with the session 0 is process `t`, and waits for nobody. -/
def requestRun (t : ℕ) (newKey : Bool) : List Act :=
  [.start (.request 0 newKey), .act t .ok, .act t .ok, .act t .ok, .act t .ok, .act t .ok]

/-- User 9 removes user 5, by process `t`. -/
def removeRun (t : ℕ) : List Act :=
  [.start (.removeMember 9 5 1), .act t .ok, .act t .ok, .act t .ok, .act t .ok, .act t .ok, .act t .ok, .act t .ok]

/-- A key is created before the removal, and afterwards session and key are tried. -/
def orderlyRun : List Act :=
  (requestRun 0 true ++ ([.act 0 .ok] : List Act)) ++ (removeRun 1 ++ (requestRun 2 false ++
    ([.start (.withKey 0), .act 3 .ok] : List Act)))

theorem orderly_none_granted :
    (last step team orderlyRun).core.granted = [] ∧ (last step team orderlyRun).core.removed = [(5, 1)] ∧
      (last step team orderlyRun).core.cached 0 = some ⟨⟨0, 5, 100⟩, none⟩ ∧
      (last step team orderlyRun).threads = [.ended, .ended, .ended, .ended] := by
  have hadm : Admits step Apart team orderlyRun := by decide +kernel
  exact ⟨reach_none_granted (.last initial_team hadm), by decide +kernel, by decide +kernel, by decide +kernel⟩

/-- The processes that have not ended, the removals that have returned, and who was let in all the same. -/
def view (s : State) : List Proc × List (ℕ × ℕ) × List (ℕ × ℕ) :=
  (s.threads.filter fun p => decide (p ≠ .ended), s.core.removed, s.core.granted)

/-- User 5 is removed while a `Get` that has found the membership is about to write the copy.  The copy is
bound to the team, and lets the next request in. -/
theorem copy_written_late :
    (exec step team (([.start (.request 0 false), .act 0 .ok, .act 0 .ok, .act 0 .ok, .act 0 .ok] : List Act) ++
      (removeRun 1 ++ ([.act 0 .ok] : List Act)))).map view = some ([], [(5, 1)], []) ∧
    (exec step team (([.start (.request 0 false), .act 0 .ok, .act 0 .ok, .act 0 .ok, .act 0 .ok] : List Act) ++
      (removeRun 1 ++ ([.act 0 .ok, .start (.request 0 false), .act 2 .ok, .act 2 .ok] : List Act)))).map view =
        some ([], [(5, 1)], [(5, 1)]) := by
  constructor <;> decide +kernel

/-- User 5 is removed between the authentication of a `POST /v1/api-keys` and the insert.  The key is valid
from then on. -/
theorem key_inserted_late :
    (exec step team (requestRun 0 true ++ (removeRun 1 ++
      ([.act 0 .ok, .start (.withKey 0), .act 2 .ok, .act 2 .ok] : List Act)))).map view =
        some ([], [(5, 1)], [(5, 1)]) := by
  decide +kernel

end Wrenn.Sessions.Removal
