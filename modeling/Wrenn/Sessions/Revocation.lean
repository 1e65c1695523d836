import Wrenn.Lib.Runs
import Wrenn.Sessions.Model

/-!
# The revocation of a session

A session that was revoked should not be returned by a `Get` that begins afterwards.  Its row is gone, but a
`Get` that had read the row before, or a `Create` that had just inserted it, may still write the copy, and the
next `Get` finds it.

`reach_no_leak` shows that this is the only way: no revoked session is returned in runs in which nobody holds
a session between row and copy when a revocation deletes the copy, no `Get` reads the row between the two
deletions of a revocation, and no `RevokeAllForUser` comes upon the rows of another one that has not come to its
copies.  `revoked_session_returned` is a run outside these bounds.
-/

namespace Wrenn.Sessions.Revocation

open Lib.Runs Lib.Tables Lib.Threads Cache Model Function

/-! ### The condition -/

/-- The process has the session from the database and will write the copy. -/
def holds (sid : ℕ) : Proc → Bool
  | .hydrate sess _ | .writeBack sess _ | .writeNew sess => decide (sess.id = sid)
  | _ => false

/-- The process has deleted the copy and will delete the row, to revoke the session. -/
def revoking (k : Core) (sid : ℕ) : Proc → Bool
  | .deleteRow sid' why => decide (sid' = sid) && k.revokes sid why
  | _ => false

/-- The sessions whose rows the process has deleted. -/
def erased : Proc → List ℕ
  | .delKeys todo gone => todo ++ gone
  | _ => []

/-- The process has deleted the rows of the user's sessions and is deleting the copies. -/
def sweeping (k : Core) (user : ℕ) (p : Proc) : Bool := (erased p).any fun sid => decide (k.owners[sid]? = some user)

def clear (k : Core) (threads : List Proc) : Proc → Bool
  | .del sid why => !k.revokes sid why || !threads.any (holds sid)
  | .delKeys (sid :: _) _ => !threads.any (holds sid)
  | .getRow sid _ _ => !threads.any (revoking k sid)
  | .deleteRows user => !threads.any (sweeping k user)
  | _ => true

/-- All calls succeed; when a revocation deletes the copy of a session, nobody holds the session; no `Get`
reads the row of a session while a revocation is between the copy and the row; and a `RevokeAllForUser` that has
deleted the rows goes on to the copies before another one of the user deletes rows. -/
def Apart (s : State) : Act → Prop
  | .act t r => r = .ok ∧ ∀ p ∈ s.threads[t]?, clear s.core s.threads p = true
  | .crash t => ∀ p ∈ s.threads[t]?, erased p = []
  | _ => True

instance (s : State) : ∀ a, Decidable (Apart s a)
  | .act t r => inferInstanceAs (Decidable (r = .ok ∧ ∀ p ∈ s.threads[t]?, clear s.core s.threads p = true))
  | .crash t => inferInstanceAs (Decidable (∀ p ∈ s.threads[t]?, erased p = []))
  | .start _ | .env _ => isTrue trivial

/-! ### What a step keeps -/

/-- What a step of a process leaves as it is for the sessions there were. -/
structure Keeps (k : Core) (p : Proc) (k' : Core) (p' : Proc) : Prop where
  owners : k.owners <+: k'.owners
  revoked : ∀ sid ∈ k.revoked, sid ∈ k'.revoked
  rows : ∀ sid < k.owners.length, k.rows.select sid = none → k'.rows.select sid = none
  cache : ∀ sid, holds sid p = false → k.cache sid = none → k'.cache sid = none
  held : ∀ sid < k.owners.length, holds sid p' = true → holds sid p = true ∨
    (∃ t late, p = .getRow sid t late) ∧ k.rows.select sid ≠ none

section Keeps

variable {k : Core} {sid : ℕ} {sess : Session} {late : Bool} {ids : List ℕ} {why : Purpose}

theorem cache_del {sid' : ℕ} (h : k.cache sid' = none) : (k.del sid).cache sid' = none := by
  unfold Core.del
  by_cases heq : sid' = sid
  · rw [heq]
    exact update_self ..
  · exact (update_of_ne heq _ _).trans h

theorem select_delete_none {p : Session → Bool} {t : Rows} (h : t.select sid = none) :
    (t.delete p).select sid = none := by
  rw [Table.select_delete, h]
  rfl

theorem completeDelete_frame (k : Core) (sid : ℕ) (why : Purpose) :
    (k.completeDelete sid why).owners = k.owners ∧
    (k.completeDelete sid why).cache = k.cache ∧ (k.completeDelete sid why).leaked = k.leaked ∧
    (k.completeDelete sid why).revoked = (if k.revokes sid why then [sid] else []) ++ k.revoked := by
  cases why <;> exact ⟨rfl, rfl, rfl, rfl⟩

theorem select_completeDelete {sid' : ℕ} (h : k.rows.select sid' = none) :
    (k.completeDelete sid why).rows.select sid' = none := by
  cases why <;> exact select_delete_none h

variable {p p' : Proc} {k' : Core}

/-- A step after which the process holds nothing and that does not write the copy. -/
theorem keeps_of_frame (howners : k'.owners = k.owners) (hrevoked : ∀ sid ∈ k.revoked, sid ∈ k'.revoked)
    (hrows : ∀ sid, k.rows.select sid = none → k'.rows.select sid = none)
    (hcache : ∀ sid, k.cache sid = none → k'.cache sid = none) (hholds : ∀ sid, holds sid p' = false) :
    Keeps k p k' p' :=
  ⟨howners ▸ List.prefix_rfl, hrevoked, fun sid _ => hrows sid, fun sid _ => hcache sid, fun sid _ hh => by
    rw [hholds sid] at hh
    cases hh⟩

theorem keeps_same (hholds : ∀ sid, holds sid p' = false) : Keeps k p k p' :=
  keeps_of_frame rfl (fun _ => id) (fun _ => id) (fun _ => id) hholds

/-- The copy is written by a process that holds the session. -/
theorem keeps_writeCache (hp : ∀ sid, holds sid p = decide (sess.id = sid)) :
    Keeps k p (k.writeCache sess) (.ended (some sess)) := by
  refine ⟨List.prefix_rfl, fun _ => id, fun sid _ => id, fun sid hh h => ?_, fun _ _ => nofun⟩
  rw [hp, decide_eq_false_iff_not] at hh
  exact (writeCache_of_ne hh).trans h

theorem keeps_insert {user t : ℕ} {rows : Rows}
    (h : k.rows.insert ⟨k.owners.length, user, t + absoluteCap⟩ = some rows) :
    Keeps k (.insert user t) { k with rows := rows, owners := k.owners ++ [user] }
      (.writeNew ⟨k.owners.length, user, t + absoluteCap⟩) := by
  refine ⟨List.prefix_append .., fun _ => id, fun sid hlt hnone => ?_, fun _ _ => id, fun sid hlt hh => ?_⟩
  · have hsel := (Table.select_insert (k := sid) h).2
    rw [if_neg (show sid ≠ k.owners.length by omega)] at hsel
    exact hsel.trans hnone
  · have hid : k.owners.length = sid := of_decide_eq_true hh
    omega

theorem keeps_getRow {t : ℕ} {r : Reply} (hrun : run k r (.getRow sid t late) = some (k', p')) :
    Keeps k (.getRow sid t late) k' p' := by
  simp only [run] at hrun
  split at hrun
  case h_1 row hsel =>
    split_ifs at hrun <;> cases hrun
    · exact keeps_same fun _ => rfl
    · refine ⟨List.prefix_rfl, fun _ => id, fun _ _ => id, fun _ _ => id, fun sid' _ hh => .inr ?_⟩
      have hid : row.id = sid' := of_decide_eq_true hh
      obtain rfl : sid = sid' := (Table.select_key hsel).symm.trans hid
      exact ⟨⟨t, late, rfl⟩, by simp [hsel]⟩
  case h_2 =>
    cases hrun
    exact keeps_same fun _ => rfl

theorem keeps_run {r : Reply} (hrun : run k r p = some (k', p')) : Keeps k p k' p' := by
  cases p with
  | getRow sid t late => exact keeps_getRow hrun
  | slide sess late =>
    cases hrun
    split_ifs
    · exact keeps_of_frame rfl (fun _ => id) (fun _ => id) (fun _ => slideIdle_of_none) fun _ => rfl
    · exact keeps_of_frame rfl (fun _ => id) (fun _ => id) (fun _ => id) fun _ => rfl
  | writeBack sess late =>
    cases hrun
    split_ifs
    · obtain ⟨ho, hrev, hrows, hcache, hheld⟩ := keeps_writeCache (k := k) (p := .writeBack sess late) fun _ => rfl
      exact ⟨ho, hrev, hrows, hcache, hheld⟩
    · exact keeps_of_frame rfl (fun _ => id) (fun _ => id) (fun _ => id) fun _ => rfl
  | deleteRow sid why =>
    simp only [run] at hrun
    split_ifs at hrun <;> cases hrun
    · obtain ⟨howners, hcache, -, hrevoked⟩ := completeDelete_frame k sid why
      refine keeps_of_frame howners (fun _ h => hrevoked ▸ List.mem_append_right _ h)
        (fun _ => select_completeDelete) (fun _ => hcache ▸ id) fun _ => ?_
      split <;> rfl
    · exact keeps_same fun _ => rfl
  | insert user t =>
    simp only [run] at hrun
    split_ifs at hrun
    · obtain ⟨rows, hrows, ⟨⟩⟩ := Option.map_eq_some_iff.mp hrun
      exact keeps_insert hrows
    · cases hrun
      exact keeps_same fun _ => rfl
  | delKeys todo gone =>
    cases todo <;> cases hrun
    · exact keeps_of_frame rfl (fun _ => List.mem_append_right _) (fun _ => id) (fun _ => id) fun _ => rfl
    · split_ifs
      · exact keeps_of_frame rfl (fun _ => id) (fun _ => id) (fun _ => cache_del) fun _ => rfl
      · exact keeps_same fun _ => rfl
  | _ =>
    simp only [run] at hrun
    repeat' split at hrun
    all_goals cases hrun
    all_goals first
      | exact keeps_same fun _ => rfl
      | exact keeps_writeCache fun _ => rfl
      | exact keeps_of_frame rfl (fun _ => id) (fun _ => select_delete_none) (fun _ => id) fun _ => rfl
      | exact keeps_of_frame rfl (fun _ => id) (fun _ => id) (fun _ => cache_del) fun _ => rfl
      | exact ⟨List.prefix_rfl, fun _ => id, fun _ _ => id, fun _ _ => id, fun _ _ => .inl⟩

end Keeps

/-! ### The invariant -/

/-- The sessions that a revocation is about. -/
def mentioned : Proc → List ℕ
  | .del _ .expired | .deleteRow _ .expired => []
  | .del sid _ | .deleteRow sid _ => [sid]
  | .delKeys todo gone => todo ++ gone
  | _ => []

/-- The sessions whose copies the process has deleted, to revoke them. -/
def freed (k : Core) : Proc → List ℕ
  | .deleteRow sid why => if k.revokes sid why then [sid] else []
  | .delKeys _ gone => gone
  | _ => []

/-- A `Get` that began after the revocation has not found the session. -/
def OnTime (k : Core) : Proc → Prop
  | .readCache sid _ true | .getRow sid _ true => sid ∈ k.revoked
  | .slide _ true | .hydrate _ true | .writeBack _ true => False
  | _ => True

/-- There is no copy of the session, and nobody will write one. -/
def Dropped (k : Core) (threads : List Proc) (sid : ℕ) : Prop :=
  k.cache sid = none ∧ threads.any (holds sid) = false

structure Fine (k : Core) (threads : List Proc) (p : Proc) : Prop where
  known : ∀ sid ∈ mentioned p, sid < k.owners.length
  absent : ∀ sid ∈ erased p, k.rows.select sid = none
  dropped : ∀ sid ∈ freed k p, Dropped k threads sid
  onTime : OnTime k p

/-- A session whose row a `RevokeAllForUser` has deleted is revoked, or the call has not returned yet. -/
def Swept (k : Core) (threads : List Proc) : Prop :=
  ∀ sid ∈ k.swept, sid ∈ k.revoked ∨ ∃ p ∈ threads, sid ∈ erased p

structure Sealed (k : Core) (threads : List Proc) : Prop where
  owned : ∀ sid r, k.rows.select sid = some r → k.owners[sid]? = some r.user
  known : ∀ sid ∈ k.revoked, sid < k.owners.length
  gone : ∀ sid ∈ k.revoked, k.rows.select sid = none ∧ Dropped k threads sid
  sound : k.leaked = []
  each : ∀ p ∈ threads, Fine k threads p

section Invariant

variable {k k' : Core} {threads threads' rest : List Proc} {p p' q : Proc} {sid : ℕ}

theorem Dropped.perm (h : Dropped k threads sid) (hp : threads.Perm threads') : Dropped k threads' sid :=
  ⟨h.1, hp.any_eq (f := holds sid) ▸ h.2⟩

theorem Sealed.perm (h : Sealed k threads) (hp : threads.Perm threads') : Sealed k threads' :=
  ⟨h.owned, h.known, fun sid hsid => ⟨(h.gone sid hsid).1, (h.gone sid hsid).2.perm hp⟩, h.sound, fun p hmem =>
    have hf := h.each p (hp.mem_iff.mpr hmem)
    ⟨hf.known, hf.absent, fun sid hsid => (hf.dropped sid hsid).perm hp, hf.onTime⟩⟩

theorem Swept.perm (h : Swept k threads) (hp : threads.Perm threads') : Swept k threads' := fun sid hs =>
  (h sid hs).imp_right fun ⟨p, hmem, he⟩ => ⟨p, hp.mem_iff.mp hmem, he⟩

theorem clear_perm (hp : threads.Perm threads') : clear k threads p = clear k threads' p := by
  unfold clear
  split <;> simp only [hp.any_eq]

theorem erased_subset (h : sid ∈ erased p) : sid ∈ mentioned p := by
  cases p with
  | delKeys todo gone => exact h
  | _ => cases h

theorem freed_subset (h : sid ∈ freed k p) : sid ∈ mentioned p := by
  cases p with
  | delKeys todo gone => exact List.mem_append_right _ h
  | deleteRow sid' why =>
    simp only [freed] at h
    split_ifs at h with hrev
    · cases why with
      | expired => cases hrev
      | _ => exact h
    · cases h
  | _ => cases h

/-! ### The other processes -/

theorem lt_of_owners (h : k.owners <+: k'.owners) (hlt : sid < k.owners.length) : sid < k'.owners.length :=
  Nat.lt_of_lt_of_le hlt h.length_le

theorem revokes_of_owners (h : k.owners <+: k'.owners) (hlt : sid < k.owners.length) (why : Purpose) :
    k'.revokes sid why = k.revokes sid why := by
  cases why with
  | forUser user =>
    obtain ⟨l, hl⟩ := h
    simp only [Core.revokes, ← hl, List.getElem?_append_left hlt]
  | _ => rfl

theorem freed_of_owners (h : k.owners <+: k'.owners) (hk : ∀ sid ∈ mentioned q, sid < k.owners.length) :
    freed k' q = freed k q := by
  cases q with
  | deleteRow sid why =>
    cases why with
    | expired => rfl
    | _ => simp only [freed, revokes_of_owners h (hk sid (List.mem_singleton_self sid))]
  | _ => rfl

/-- Nobody brings a copy back, except a `Get` that finds the row. -/
theorem Dropped.keep (h : Dropped k (p :: rest) sid) (hk : Keeps k p k' p') (hlt : sid < k.owners.length)
    (hrow : (∃ t late, p = .getRow sid t late) → k.rows.select sid = none) : Dropped k' (p' :: rest) sid := by
  obtain ⟨hcache, hany⟩ := h
  rw [List.any_cons, Bool.or_eq_false_iff] at hany
  refine ⟨hk.cache sid hany.1 hcache, ?_⟩
  rw [List.any_cons, hany.2, Bool.or_false]
  by_contra hh
  rcases hk.held sid hlt (eq_true_of_ne_false hh) with hp | ⟨hget, hsel⟩
  · rw [hany.1] at hp
    cases hp
  · exact hsel (hrow hget)

/-- A `Get` that may read a row finds none that is being revoked. -/
theorem row_of_freed (hclear : clear k threads p = true) (hq : q ∈ threads) (hfine : Fine k threads q)
    (hsid : sid ∈ freed k q) : (∃ t late, p = .getRow sid t late) → k.rows.select sid = none := by
  rintro ⟨t, late, rfl⟩
  cases q with
  | delKeys todo gone => exact hfine.absent sid (List.mem_append_right _ hsid)
  | deleteRow sid' why =>
    simp only [freed] at hsid
    split_ifs at hsid with hrev
    · obtain rfl := List.mem_singleton.mp hsid
      have hany : threads.any (revoking k sid) = true :=
        List.any_eq_true.mpr ⟨_, hq, by simp [revoking, hrev]⟩
      simp [clear, hany] at hclear
    · cases hsid
  | _ => cases hsid

theorem OnTime.keep (h : OnTime k q) (hrev : ∀ sid ∈ k.revoked, sid ∈ k'.revoked) : OnTime k' q := by
  unfold OnTime at h ⊢
  split <;> first | exact hrev _ h | exact h | trivial

theorem fine_keep (h : Sealed k (p :: rest)) (hclear : clear k (p :: rest) p = true) (hk : Keeps k p k' p')
    (hq : q ∈ rest) : Fine k' (p' :: rest) q := by
  have hmem : q ∈ p :: rest := List.mem_cons_of_mem _ hq
  have hf := h.each q hmem
  refine ⟨fun sid hs => lt_of_owners hk.owners (hf.known sid hs),
    fun sid hs => hk.rows sid (hf.known sid (erased_subset hs)) (hf.absent sid hs), fun sid hs => ?_,
    hf.onTime.keep hk.revoked⟩
  rw [freed_of_owners hk.owners hf.known] at hs
  exact (hf.dropped sid hs).keep hk (hf.known sid (freed_subset hs)) (row_of_freed hclear hmem hf hs)

theorem gone_keep (h : Sealed k (p :: rest)) (hk : Keeps k p k' p') (hs : sid ∈ k.revoked) :
    k'.rows.select sid = none ∧ Dropped k' (p' :: rest) sid := by
  obtain ⟨hsel, hdrop⟩ := h.gone sid hs
  exact ⟨hk.rows sid (h.known sid hs) hsel, hdrop.keep hk (h.known sid hs) fun _ => hsel⟩

end Invariant

section Step

variable {k k' : Core} {threads rest : List Proc} {p p' : Proc} {sid : ℕ}

/-! ### The process itself -/

/-- What a step of `p` adds to the invariant. -/
structure Adds (k k' : Core) (p' : Proc) (rest : List Proc) : Prop where
  owned : ∀ sid r, k'.rows.select sid = some r → k'.owners[sid]? = some r.user
  revoked : ∀ sid ∈ k'.revoked, sid ∈ k.revoked ∨
    (sid < k.owners.length ∧ k'.rows.select sid = none ∧ Dropped k' (p' :: rest) sid)
  sound : k'.leaked = []
  fine : Fine k' (p' :: rest) p'

theorem sealed_of_adds (h : Sealed k (p :: rest)) (hclear : clear k (p :: rest) p = true) (hk : Keeps k p k' p')
    (ha : Adds k k' p' rest) : Sealed k' (p' :: rest) := by
  refine ⟨ha.owned, fun sid hs => ?_, fun sid hs => ?_, ha.sound, fun q hq => ?_⟩
  · rcases ha.revoked sid hs with hold | ⟨hlt, -⟩
    · exact lt_of_owners hk.owners (h.known sid hold)
    · exact lt_of_owners hk.owners hlt
  · rcases ha.revoked sid hs with hold | ⟨-, hnew⟩
    · exact gone_keep h hk hold
    · exact hnew
  · rcases List.mem_cons.mp hq with rfl | hq
    · exact ha.fine
    · exact fine_keep h hclear hk hq

/-- A process with nothing to show for. -/
theorem fine_plain (hm : mentioned p = []) (he : erased p = []) (hf : freed k p = []) (ho : OnTime k p) :
    Fine k threads p := by
  refine ⟨?_, ?_, ?_, ho⟩
  · simp [hm]
  · simp [he]
  · simp [hf]

theorem Sealed.lt_of_row (h : Sealed k threads) {r : Session} (hr : k.rows.select sid = some r) :
    sid < k.owners.length := by
  have hown := h.owned sid r hr
  by_contra hge
  rw [List.getElem?_eq_none (Nat.le_of_not_lt hge)] at hown
  cases hown

theorem owned_delete (h : Sealed k threads) (f : Session → Bool) :
    ∀ sid r, (k.rows.delete f).select sid = some r → k.owners[sid]? = some r.user := by
  intro sid r hsel
  rw [Table.select_delete] at hsel
  exact h.owned sid r (Option.filter_eq_some_iff.mp hsel).1

/-- A step that changes neither the rows nor the revocations. -/
theorem adds_plain (h : Sealed k threads) (howners : k'.owners = k.owners) (hrevoked : k'.revoked = k.revoked)
    (hrows : k'.rows = k.rows) (hleaked : k'.leaked = []) (hfine : Fine k' (p' :: rest) p') :
    Adds k k' p' rest :=
  ⟨fun sid r hsel => by rw [howners]; rw [hrows] at hsel; exact h.owned sid r hsel,
    fun sid hs => .inl (by rwa [hrevoked] at hs), hleaked, hfine⟩

variable {t : ℕ} {why : Purpose}

theorem adds_readCache (h : Sealed k (p :: rest)) {late : Bool} (hp : p = .readCache sid t late)
    (hrun : run k .ok p = some (k', p')) : Adds k k' p' rest := by
  subst hp
  have htime := (h.each _ List.mem_cons_self).onTime
  simp only [run] at hrun
  split at hrun
  case h_1 sess _ hcached =>
    split_ifs at hrun <;> cases hrun
    · exact adds_plain h rfl rfl rfl h.sound (fine_plain rfl rfl rfl trivial)
    · refine adds_plain h rfl rfl rfl h.sound (fine_plain rfl rfl rfl ?_)
      cases late with
      | false => trivial
      | true =>
        rw [Core.cached, readCache_of_none (h.gone sid htime).2.1] at hcached
        cases hcached
  case h_2 =>
    cases hrun
    refine adds_plain h rfl rfl rfl h.sound (fine_plain rfl rfl rfl ?_)
    cases late with
    | false => trivial
    | true => exact htime

theorem adds_getRow (h : Sealed k (p :: rest)) {late : Bool} (hp : p = .getRow sid t late)
    (hrun : run k .ok p = some (k', p')) : Adds k k' p' rest := by
  subst hp
  have htime := (h.each _ List.mem_cons_self).onTime
  simp only [run] at hrun
  split at hrun
  case h_1 row _ hsel =>
    split_ifs at hrun <;> cases hrun
    · exact adds_plain h rfl rfl rfl h.sound (fine_plain rfl rfl rfl trivial)
    · refine adds_plain h rfl rfl rfl h.sound (fine_plain rfl rfl rfl ?_)
      cases late with
      | false => trivial
      | true =>
        rw [(h.gone sid htime).1] at hsel
        cases hsel
  case h_2 =>
    cases hrun
    exact adds_plain h rfl rfl rfl h.sound (fine_plain rfl rfl rfl trivial)

theorem dropped_del (hany : rest.any (holds sid) = false) (hp' : holds sid p' = false) :
    Dropped (k.del sid) (p' :: rest) sid :=
  ⟨update_self .., by rw [List.any_cons, hp', hany]; rfl⟩

theorem adds_del (h : Sealed k (p :: rest)) (hp : p = .del sid why) (hclear : clear k (p :: rest) p = true) :
    Adds k (k.del sid) (.deleteRow sid why) rest := by
  subst hp
  refine adds_plain h rfl rfl rfl h.sound ⟨?_, nofun, fun sid' hs => ?_, trivial⟩
  · have hknown := (h.each _ List.mem_cons_self).known
    cases why <;> exact hknown
  · simp only [freed] at hs
    split_ifs at hs with hrev
    · obtain rfl := List.mem_singleton.mp hs
      have hrev' : k.revokes sid' why = true := hrev
      simp only [clear, hrev', Bool.not_true, Bool.false_or, Bool.not_eq_true', List.any_cons,
        Bool.or_eq_false_iff] at hclear
      exact dropped_del hclear.2 rfl
    · cases hs

theorem select_completeDelete_self (h : Sealed k threads) (hrev : k.revokes sid why = true) :
    (k.completeDelete sid why).rows.select sid = none := by
  have hdel : ∀ f : Session → Bool, (∀ r, k.rows.select sid = some r → f r = true) →
      (k.rows.delete f).select sid = none := by
    intro f hf
    rw [Table.select_delete, Option.filter_eq_none_iff]
    intro r hr
    simp [hf r hr]
  cases why with
  | forUser user =>
    refine hdel _ fun r hr => decide_eq_true ⟨Table.select_key hr, ?_⟩
    have hown := h.owned sid r hr
    rw [of_decide_eq_true hrev, Option.some.injEq] at hown
    exact hown.symm
  | expired => cases hrev
  | revoke | rotate => exact hdel _ fun r hr => decide_eq_true (Table.select_key hr)

theorem adds_deleteRow (h : Sealed k (p :: rest)) (hp : p = .deleteRow sid why) (hk : Keeps k p k' p')
    (hk' : k' = k.completeDelete sid why) (hp' : Fine k' (p' :: rest) p') : Adds k k' p' rest := by
  obtain ⟨howners, -, hleaked, hrevoked⟩ := completeDelete_frame k sid why
  subst hk'
  have hf := h.each p List.mem_cons_self
  refine ⟨?_, fun sid' hs => ?_, hleaked.trans h.sound, hp'⟩
  · rw [howners]
    cases why <;> exact owned_delete h _
  · rw [hrevoked, List.mem_append] at hs
    rcases hs with hs | hs
    · split_ifs at hs with hrev
      · obtain rfl := List.mem_singleton.mp hs
        have hfreed : sid' ∈ freed k p := by
          subst hp
          simp [freed, hrev]
        have hlt := hf.known sid' (freed_subset hfreed)
        refine .inr ⟨hlt, select_completeDelete_self h hrev, (hf.dropped sid' hfreed).keep hk hlt ?_⟩
        rintro ⟨t, late, hget⟩
        rw [hp] at hget
        cases hget
      · cases hs
    · exact .inl hs

theorem adds_insert (h : Sealed k threads) {user : ℕ} {rows : Rows}
    (hins : k.rows.insert ⟨k.owners.length, user, t + absoluteCap⟩ = some rows) :
    Adds k { k with rows := rows, owners := k.owners ++ [user] }
      (.writeNew ⟨k.owners.length, user, t + absoluteCap⟩) rest := by
  refine ⟨fun sid r hsel => ?_, fun sid hs => .inl hs, h.sound, fine_plain rfl rfl rfl trivial⟩
  have hnew := (Table.select_insert (k := sid) hins).2
  change rows.select sid = some r at hsel
  rw [hnew] at hsel
  split_ifs at hsel with hid
  · cases hsel
    rw [hid]
    exact List.getElem?_concat_length
  · rw [List.getElem?_append_left (h.lt_of_row hsel)]
    exact h.owned sid r hsel

theorem row_of_sessionsOf {user : ℕ} (hs : sid ∈ k.sessionsOf user) :
    ∃ r, k.rows.select sid = some r ∧ r.user = user := by
  obtain ⟨r, hr, rfl⟩ := List.mem_map.mp hs
  obtain ⟨hmem, huser⟩ := Table.mem_list.mp hr
  exact ⟨r, Table.select_mem hmem, of_decide_eq_true huser⟩

/-- The sessions of the user whose rows were deleted before are revoked, if no other call is at their copies. -/
theorem revoked_of_sweptOf (h : Swept k threads) {user : ℕ} (hclear : clear k threads (.deleteRows user) = true)
    (hs : sid ∈ k.sweptOf user) : sid ∈ k.revoked := by
  obtain ⟨hswept, huser⟩ := List.mem_filter.mp hs
  rcases h sid hswept with hrev | ⟨q, hq, herased⟩
  · exact hrev
  · have hany : threads.any (sweeping k user) = true :=
      List.any_eq_true.mpr ⟨q, hq, List.any_eq_true.mpr ⟨sid, herased, huser⟩⟩
    simp [clear, hany] at hclear

theorem adds_deleteRows (h : Sealed k (p :: rest)) (hswept : Swept k (p :: rest)) {user : ℕ}
    (hp : p = .deleteRows user) (hclear : clear k (p :: rest) p = true)
    (hk : Keeps k p (k.deleteSessionsByUserID user) (.delKeys (k.sessionsOf user) (k.sweptOf user))) :
    Adds k (k.deleteSessionsByUserID user) (.delKeys (k.sessionsOf user) (k.sweptOf user)) rest := by
  subst hp
  have hrev : ∀ sid ∈ k.sweptOf user, sid ∈ k.revoked := fun sid hs => revoked_of_sweptOf hswept hclear hs
  refine ⟨owned_delete h _, fun sid hs => .inl hs, h.sound, fun sid hs => ?_, fun sid hs => ?_,
    fun sid hs => (gone_keep h hk (hrev sid hs)).2, trivial⟩
  · rcases List.mem_append.mp hs with hs | hs
    · obtain ⟨r, hr, -⟩ := row_of_sessionsOf hs
      exact h.lt_of_row hr
    · exact h.known sid (hrev sid hs)
  · rcases List.mem_append.mp hs with hs | hs
    · obtain ⟨r, hr, huser⟩ := row_of_sessionsOf hs
      change (k.rows.delete _).select sid = none
      rw [Table.select_delete, hr, Option.filter_some_neg (by simp [huser])]
    · exact (gone_keep h hk (hrev sid hs)).1

theorem adds_delKeys (h : Sealed k (p :: rest)) {todo gone : List ℕ} (hp : p = .delKeys (sid :: todo) gone)
    (hclear : clear k (p :: rest) p = true) (hk : Keeps k p (k.del sid) (.delKeys todo (gone ++ [sid]))) :
    Adds k (k.del sid) (.delKeys todo (gone ++ [sid])) rest := by
  have hf := h.each p List.mem_cons_self
  have hsame : ∀ sid', sid' ∈ todo ++ (gone ++ [sid]) → sid' ∈ mentioned p := by
    subst hp
    intro sid' hs
    simp only [mentioned, List.cons_append, List.mem_cons, List.mem_append] at hs ⊢
    tauto
  have herased : erased p = mentioned p := by subst hp; rfl
  refine adds_plain h rfl rfl rfl h.sound ⟨fun sid' hs => hf.known sid' (hsame sid' hs),
    fun sid' hs => hf.absent sid' (herased ▸ hsame sid' hs), fun sid' hs => ?_, trivial⟩
  rcases List.mem_append.mp hs with hs | hs
  · have hfreed : sid' ∈ freed k p := by subst hp; exact hs
    refine (hf.dropped sid' hfreed).keep hk (hf.known sid' (freed_subset hfreed)) ?_
    rintro ⟨t, late, hget⟩
    rw [hp] at hget
    cases hget
  · obtain rfl := List.mem_singleton.mp hs
    subst hp
    simp only [clear, Bool.not_eq_true', List.any_cons, Bool.or_eq_false_iff] at hclear
    exact dropped_del hclear.2 rfl

theorem adds_finish (h : Sealed k (p :: rest)) {gone : List ℕ} (hp : p = .delKeys [] gone)
    (hk : Keeps k p (k.markRevoked gone) (.ended none)) : Adds k (k.markRevoked gone) (.ended none) rest := by
  have hf := h.each p List.mem_cons_self
  subst hp
  refine ⟨h.owned, fun sid hs => ?_, h.sound, fine_plain rfl rfl rfl trivial⟩
  rcases List.mem_append.mp hs with hs | hs
  · refine .inr ⟨hf.known sid hs, hf.absent sid hs, (hf.dropped sid hs).keep hk (hf.known sid hs) ?_⟩
    rintro ⟨t, late, hget⟩
    cases hget
  · exact .inl hs

/-! ### Steps -/

theorem sealed_run (h : Sealed k (p :: rest)) (hswept : Swept k (p :: rest))
    (hclear : clear k (p :: rest) p = true) (hrun : run k .ok p = some (k', p')) : Sealed k' (p' :: rest) := by
  have hk := keeps_run hrun
  have htime := (h.each p List.mem_cons_self).onTime
  refine sealed_of_adds h hclear hk ?_
  cases p with
  | readCache sid t late => exact adds_readCache h rfl hrun
  | getRow sid t late => exact adds_getRow h rfl hrun
  | slide sess late =>
    cases hrun
    cases late with
    | false => exact adds_plain h rfl rfl rfl h.sound (fine_plain rfl rfl rfl trivial)
    | true => exact htime.elim
  | dropRow sid =>
    cases hrun
    exact ⟨owned_delete h _, fun _ => .inl, h.sound, fine_plain rfl rfl rfl trivial⟩
  | hydrate sess late =>
    cases hrun
    cases late with
    | false => exact adds_plain h rfl rfl rfl h.sound (fine_plain rfl rfl rfl trivial)
    | true => exact htime.elim
  | writeBack sess late =>
    cases hrun
    cases late with
    | false => exact adds_plain h rfl rfl rfl h.sound (fine_plain rfl rfl rfl trivial)
    | true => exact htime.elim
  | del sid why =>
    cases hrun
    exact adds_del h rfl hclear
  | deleteRow sid why =>
    cases hrun
    refine adds_deleteRow h rfl hk rfl (fine_plain ?_ ?_ ?_ ?_) <;> cases why <;> first | rfl | trivial
  | insert user t =>
    obtain ⟨rows, hrows, heq⟩ := Option.map_eq_some_iff.mp hrun
    cases heq
    exact adds_insert h hrows
  | writeNew sess =>
    cases hrun
    exact adds_plain h rfl rfl rfl h.sound (fine_plain rfl rfl rfl trivial)
  | deleteRows user =>
    cases hrun
    exact adds_deleteRows h hswept rfl hclear hk
  | delKeys todo gone =>
    cases todo with
    | nil =>
      cases hrun
      exact adds_finish h rfl hk
    | cons sid todo =>
      cases hrun
      exact adds_delKeys h rfl hclear hk
  | ended result => cases hrun

/-- A process joins, or takes the place of another, that holds nothing. -/
theorem Sealed.join (h : Sealed k threads) (hholds : ∀ sid, holds sid p = false)
    (hrest : ∀ q ∈ rest, q ∈ threads) (hfine : Fine k (p :: rest) p) : Sealed k (p :: rest) := by
  have hdrop : ∀ sid, Dropped k threads sid → Dropped k (p :: rest) sid := by
    rintro sid ⟨hcache, hany⟩
    refine ⟨hcache, ?_⟩
    rw [List.any_cons, hholds, Bool.false_or, List.any_eq_false]
    exact fun q hq => List.any_eq_false.mp hany q (hrest q hq)
  refine ⟨h.owned, h.known, fun sid hs => ⟨(h.gone sid hs).1, hdrop sid (h.gone sid hs).2⟩, h.sound,
    fun q hq => ?_⟩
  rcases List.mem_cons.mp hq with rfl | hq
  · exact hfine
  · have hf := h.each q (hrest q hq)
    exact ⟨hf.known, hf.absent, fun sid hs => hdrop sid (hf.dropped sid hs), hf.onTime⟩

theorem sealed_spawn (h : Sealed k threads) {c : Call} (hspawn : spawn k c = some (k', p)) :
    Sealed k' (p :: threads) := by
  have hdel : ∀ sid why, (if sid < k.owners.length then some (k, Proc.del sid why) else none) = some (k', p) →
      Sealed k' (p :: threads) := by
    intro sid why heq
    obtain ⟨hlt, heq⟩ := Option.ite_none_right_eq_some.mp heq
    cases heq
    refine h.join (fun _ => rfl) (fun _ => id) ⟨fun sid' hs => ?_, nofun, nofun, trivial⟩
    cases why with
    | expired => cases hs
    | _ => exact List.mem_singleton.mp hs ▸ hlt
  cases c with
  | get sid =>
    cases hspawn
    refine h.join (fun _ => rfl) (fun _ => id) (fine_plain rfl rfl rfl ?_)
    by_cases hs : sid ∈ k.revoked
    · rw [decide_eq_true hs]
      exact hs
    · rw [decide_eq_false hs]
      trivial
  | create user | revokeAllForUser user =>
    cases hspawn
    exact h.join (fun _ => rfl) (fun _ => id) (fine_plain rfl rfl rfl trivial)
  | revoke sid | deleteForUser sid user | rotate sid user => exact hdel sid _ hspawn

theorem sealed_env (h : Sealed k threads) {e : Env} (henv : env k e = some k') : Sealed k' threads := by
  have hframe : ∀ {rows : Rows} {cache : Copies Session} {now : ℕ},
      (∀ sid r, rows.select sid = some r → k.owners[sid]? = some r.user) →
      (∀ sid, k.rows.select sid = none → rows.select sid = none) →
      (∀ sid, k.cache sid = none → cache sid = none) →
      Sealed { k with rows := rows, cache := cache, now := now } threads := by
    intro rows cache now howned hrows hcache
    have hdrop : ∀ sid, Dropped k threads sid →
        Dropped { k with rows := rows, cache := cache, now := now } threads sid :=
      fun sid hd => ⟨hcache sid hd.1, hd.2⟩
    refine ⟨howned, h.known, fun sid hs => ⟨hrows sid (h.gone sid hs).1, hdrop sid (h.gone sid hs).2⟩, h.sound,
      fun q hq => ?_⟩
    have hf := h.each q hq
    exact ⟨hf.known, fun sid hs => hrows sid (hf.absent sid hs), fun sid hs => hdrop sid (hf.dropped sid hs),
      hf.onTime⟩
  cases e with
  | tick d =>
    cases henv
    exact hframe h.owned (fun _ => id) (fun _ => id)
  | evict sid =>
    cases henv
    exact hframe h.owned (fun _ => id) (fun _ => cache_del)
  | clean =>
    cases henv
    exact hframe (owned_delete h _) (fun _ => select_delete_none) (fun _ => id)

end Step

theorem sealed_step {s s' : State} {a : Act} (h : Sealed s.core s.threads) (hswept : Swept s.core s.threads)
    (hok : Apart s a) (hs : step s a = some s') : Sealed s'.core s'.threads := by
  cases moves_of_step hs with
  | start hspawn hs' => exact (sealed_spawn h hspawn).perm hs'.symm
  | @act t r k p p' rest threads hp hrun hthreads hs' =>
    obtain ⟨rfl, hclear⟩ := hok
    have hclear' := hclear p hp
    rw [clear_perm hthreads] at hclear'
    exact (sealed_run (h.perm hthreads) (hswept.perm hthreads) hclear' hrun).perm hs'.symm
  | @crash t p rest threads hp hthreads hs' =>
    have hhalt : Sealed s.core (.ended none :: rest) := h.join (fun _ => rfl)
      (fun q hq => hthreads.mem_iff.mpr (List.mem_cons_of_mem _ hq)) (fine_plain rfl rfl rfl trivial)
    exact hhalt.perm hs'.symm
  | noCrash => exact h
  | env henv => exact sealed_env h henv

/-! ### The rows that were deleted -/

theorem swept_completeDelete (k : Core) (sid : ℕ) (why : Purpose) : (k.completeDelete sid why).swept = k.swept := by
  cases why <;> rfl

/-- A process deletes rows only of sessions that it then has to do with. -/
theorem swept_of_run {k k' : Core} {p p' : Proc} {sid : ℕ} (hrun : run k .ok p = some (k', p'))
    (hs : sid ∈ k'.swept) : sid ∈ k.swept ∨ sid ∈ erased p' := by
  cases p with
  | deleteRows user =>
    cases hrun
    exact (List.mem_append.mp hs).symm.imp_right (List.mem_append_left _)
  | insert user t =>
    obtain ⟨rows, -, heq⟩ := Option.map_eq_some_iff.mp hrun
    cases heq
    exact .inl hs
  | delKeys todo gone =>
    cases todo <;> cases hrun <;> exact .inl hs
  | _ =>
    simp only [run] at hrun
    repeat' split at hrun
    all_goals cases hrun
    all_goals first
      | exact .inl hs
      | exact .inl (swept_completeDelete k _ _ ▸ hs)

/-- `RevokeAllForUser` has to do with the sessions until it returns, and then they are revoked. -/
theorem revoked_of_erased {k k' : Core} {p p' : Proc} {sid : ℕ} (hrun : run k .ok p = some (k', p'))
    (hs : sid ∈ erased p) : sid ∈ k'.revoked ∨ sid ∈ erased p' := by
  cases p with
  | delKeys todo gone =>
    cases todo with
    | nil =>
      cases hrun
      exact .inl (List.mem_append_left _ hs)
    | cons sid' todo =>
      cases hrun
      simp only [erased, List.cons_append, List.mem_cons, List.mem_append] at hs ⊢
      tauto
  | _ => cases hs

theorem swept_run {k k' : Core} {p p' : Proc} {rest : List Proc} (h : Swept k (p :: rest))
    (hrun : run k .ok p = some (k', p')) : Swept k' (p' :: rest) := by
  intro sid hs
  rcases swept_of_run hrun hs with hold | hnew
  · rcases h sid hold with hrev | ⟨q, hq, he⟩
    · exact .inl ((keeps_run hrun).revoked sid hrev)
    · rcases List.mem_cons.mp hq with rfl | hq
      · exact (revoked_of_erased hrun he).imp_right fun he' => ⟨p', List.mem_cons_self, he'⟩
      · exact .inr ⟨q, List.mem_cons_of_mem _ hq, he⟩
  · exact .inr ⟨p', List.mem_cons_self, hnew⟩

theorem swept_step {s s' : State} {a : Act} (h : Swept s.core s.threads) (hok : Apart s a)
    (hs : step s a = some s') : Swept s'.core s'.threads := by
  cases moves_of_step hs with
  | @start c k p threads hspawn hs' =>
    have hk : k = s.core := by
      cases c <;> simp only [prog, spawn] at hspawn <;> (try split_ifs at hspawn) <;> cases hspawn <;> rfl
    subst hk
    exact Swept.perm (fun sid hs => (h sid hs).imp_right fun ⟨q, hq, he⟩ => ⟨q, List.mem_cons_of_mem _ hq, he⟩)
      hs'.symm
  | @act t r k p p' rest threads hp hrun hthreads hs' =>
    obtain ⟨rfl, -⟩ := hok
    exact (swept_run (h.perm hthreads) hrun).perm hs'.symm
  | @crash t p rest threads hp hthreads hs' =>
    have hidle := hok p hp
    refine Swept.perm (fun sid hs => ?_) hs'.symm
    refine ((h.perm hthreads) sid hs).imp_right fun ⟨q, hq, he⟩ => ?_
    rcases List.mem_cons.mp hq with rfl | hq
    · rw [hidle] at he
      cases he
    · exact ⟨q, List.mem_cons_of_mem _ hq, he⟩
  | noCrash => exact h
  | @env e k henv =>
    cases e <;> cases henv <;> exact h

/-! ### The result -/

/-- In runs in which readers and revocations of a session stay apart, no `Get` that begins after a revocation
returns the session. -/
theorem reach_no_leak {s : State} (h : Reach step Apart Initial s) : s.core.leaked = [] := by
  have hsealed : Sealed s.core s.threads ∧ Swept s.core s.threads := by
    refine h.invariant (I := fun s => Sealed s.core s.threads ∧ Swept s.core s.threads) ?_
      fun s a s' hi hok hs => ⟨sealed_step hi.1 hi.2 hok hs, swept_step hi.2 hok hs⟩
    rintro s ⟨now, rfl⟩
    exact ⟨⟨nofun, nofun, nofun, rfl, nofun⟩, nofun⟩
  exact hsealed.1.sound

/-! ### Runs -/

def nobody : State := ⟨noSessions, []⟩

/-- A session is created, and its copy is evicted. -/
def createdRun : List Act := [.start (.create 5), .act 0 .ok, .act 0 .ok, .env (.evict 0)]

/-- A `Get` comes back before the session is revoked, the next one begins afterwards. -/
def orderlyRun : List Act :=
  createdRun ++ ([.start (.get 0), .act 1 .ok, .act 1 .ok, .act 1 .ok, .act 1 .ok, .start (.revoke 0), .act 2 .ok,
    .act 2 .ok, .start (.get 0), .act 3 .ok, .act 3 .ok] : List Act)

theorem orderly_run_no_leak :
    (last step nobody orderlyRun).core.leaked = [] ∧ (last step nobody orderlyRun).core.revoked = [0] ∧
      (last step nobody orderlyRun).threads[3]? = some (.ended none) := by
  have hadm : Admits step Apart nobody orderlyRun := by decide +kernel
  exact ⟨reach_no_leak (.last ⟨0, rfl⟩ hadm), by decide +kernel, by decide +kernel⟩

/-- The revoked sessions, the rows there are, and the sessions returned too late. -/
def view (s : State) : List ℕ × List ℕ × List ℕ :=
  (s.core.revoked, s.core.rows.rows.map Session.id, s.core.leaked)

/-- The session is revoked while a `Get` that has read the row refreshes the identity.  The `Get` then writes
the copy, and a `Get` that begins later returns the session. -/
theorem revoked_session_returned :
    (exec step nobody (createdRun ++ ([.start (.get 0), .act 1 .ok, .act 1 .ok, .start (.revoke 0), .act 2 .ok,
      .act 2 .ok, .act 1 .ok, .act 1 .ok] : List Act))).map view = some ([0], [], []) ∧
    (exec step nobody (createdRun ++ ([.start (.get 0), .act 1 .ok, .act 1 .ok, .start (.revoke 0), .act 2 .ok,
      .act 2 .ok, .act 1 .ok, .act 1 .ok, .start (.get 0), .act 3 .ok, .act 3 .ok] : List Act))).map view =
        some ([0], [], [0]) := by
  constructor <;> decide +kernel

end Wrenn.Sessions.Revocation
