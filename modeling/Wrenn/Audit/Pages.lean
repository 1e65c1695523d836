import Mathlib.Data.List.Sort
import Mathlib.Data.Int.Notation
import Wrenn.Lib.Tables

/-!
# Pages of the audit log

The log is listed newest first, and the cursor of the next page is made of the time and the ID of the last
row of a page. The time goes into the cursor as RFC 3339 text without a fraction; the column has
microseconds.

A time is in microseconds since 1970, its text is the number of its second, and an ID is the number of its UUID.

* `follow_exact_iff`: the pages are exact if and only if at the end of each page the rest is behind its cursor.
-/

namespace Wrenn.Audit.Pages

open Lib.Tables

structure Row where
  id : ℕ
  team : ℕ
  scope : String
  resourceType : String
  action : String
  createdAt : ℤ
  deriving DecidableEq, Repr

abbrev AuditLogs := Table Row.id

structure AuditListParams where
  team : ℕ
  adminScoped : Bool
  resourceTypes : List String
  actions : List String
  limit : Option ℤ

structure Cursor where
  before : ℤ
  beforeID : ℕ
  deriving DecidableEq, Repr

def auditMaxLimit : ℤ := 200

/-- What `parseAuditParams` and `List` make of the parameter. -/
def pageLimit : Option ℤ → Option ℕ
  | none => some 50
  | some n => if n < 1 then none else some (min n auditMaxLimit).toNat

def formatTime (t : ℤ) : ℤ := t / 1000000

/-- The texts of the years 0 to 9999 are parsed. -/
def parseTime (text : ℤ) : Option ℤ :=
  if -62167219200 ≤ text ∧ text < 253402300800 then some (text * 1000000) else none

/-- The zero `time.Time`, which stands for no cursor. -/
def zeroTime : ℤ := -62135596800 * 1000000

def AuditListParams.accepts (p : AuditListParams) (r : Row) : Bool :=
  decide (r.team = p.team) && (if p.adminScoped then ["team", "admin"] else ["team"]).contains r.scope &&
    (p.resourceTypes.isEmpty || p.resourceTypes.contains r.resourceType) &&
    (p.actions.isEmpty || p.actions.contains r.action)

/-- The last condition of the query. -/
def behind : Option ℤ → ℕ → Row → Bool
  | none, _, _ => true
  | some before, beforeID, r => decide (r.createdAt < before ∨ r.createdAt = before ∧ r.id < beforeID)

/-- `ORDER BY created_at DESC, id DESC`. -/
def Newer (a b : Row) : Prop := b.createdAt < a.createdAt ∨ b.createdAt = a.createdAt ∧ b.id ≤ a.id

instance : DecidableRel Newer := fun _ _ => inferInstanceAs (Decidable (_ ∨ _))

def listAuditLogs (t : AuditLogs) (p : AuditListParams) (before : Option ℤ) (beforeID limit : ℕ) : List Row :=
  ((t.list fun r => p.accepts r && behind before beforeID r).insertionSort Newer).take limit

/-- One request; `none` is a refusal. -/
def list (t : AuditLogs) (p : AuditListParams) (c : Option Cursor) : Option (List Row) :=
  (pageLimit p.limit).bind fun limit =>
    match c with
    | none => some (listAuditLogs t p none 0 limit)
    | some c => (parseTime c.before).map fun before =>
      listAuditLogs t p (if before = zeroTime then none else some before) c.beforeID limit

/-- The cursor that `writeAuditResponse` makes of the last row. -/
def Row.next (r : Row) : Cursor := ⟨formatTime r.createdAt, r.id⟩

/-- The rows of all pages from the cursor on, with `n` requests at most. -/
def follow (t : AuditLogs) (p : AuditListParams) : ℕ → Option Cursor → Option (List Row)
  | 0, _ => none
  | n + 1, c => (list t p c).bind fun page =>
    match page.getLast? with
    | none => some []
    | some r => (follow t p n (some r.next)).map (page ++ ·)

/-! ### The rows behind a row -/

/-- After the row `r` the cursor leads to the rows `older`: its time, cut to the second, is not the zero time and can be
parsed, and the rows come before it. -/
structure Clean (r : Row) (older : List Row) : Prop where
  year : -62167219200 ≤ formatTime r.createdAt ∧ formatTime r.createdAt < 253402300800 ∧
    formatTime r.createdAt * 1000000 ≠ zeroTime
  behind : ∀ x ∈ older, behind (some (formatTime r.createdAt * 1000000)) r.id x = true

/-- Each page of the rows has such an end. -/
inductive Cuts (limit : ℕ) : List Row → Prop
  | nil : Cuts limit []
  | page {rows : List Row} {r : Row} (hlast : (rows.take limit).getLast? = some r)
      (hclean : Clean r (rows.drop limit)) (hrest : Cuts limit (rows.drop limit)) : Cuts limit rows

instance : Std.Total Newer := ⟨fun a b => by unfold Newer; omega⟩

instance : IsTrans Row Newer := ⟨fun a b c hab hbc => by unfold Newer at *; omega⟩

/-- The rows that the parameters ask for. -/
def found (t : AuditLogs) (p : AuditListParams) : List Row := (t.list p.accepts).insertionSort Newer

variable {t : AuditLogs} {p : AuditListParams} {limit : ℕ}

theorem found_perm : (found t p).Perm (t.list p.accepts) := List.perm_insertionSort Newer _

theorem found_newer : (found t p).Pairwise Newer := List.pairwise_insertionSort Newer _

/-- Each page is cut out of the rows found. -/
theorem listAuditLogs_eq (before : Option ℤ) (beforeID : ℕ) :
    listAuditLogs t p before beforeID limit = ((found t p).filter (behind before beforeID)).take limit := by
  unfold listAuditLogs
  congr 1
  have hsorted : ((found t p).filter (behind before beforeID)).Pairwise Newer := found_newer.sublist List.filter_sublist
  refine List.Perm.eq_of_pairwise (fun a b ha hb hab hba => ?_) (List.pairwise_insertionSort Newer _) hsorted ?_
  · -- The table has no two rows with one ID.
    have ha' := Table.mem_list.mp ((List.perm_insertionSort Newer _).mem_iff.mp ha)
    have hb' := Table.mem_list.mp (found_perm.mem_iff.mp (List.mem_filter.mp hb).1)
    exact Table.eq_of_key ha'.1 hb'.1 (by unfold Newer at *; omega)
  · refine (List.perm_insertionSort Newer _).trans ((found_perm.filter _).trans (List.Perm.of_eq ?_)).symm
    rw [Table.list, List.filter_filter]
    exact List.filter_congr fun r _ => Bool.and_comm ..

theorem found_nodup : (found t p).Nodup :=
  found_perm.nodup_iff.mpr ((List.Nodup.of_map _ t.nodup).filter _)

theorem list_cursor {r : Row} (hyear : -62167219200 ≤ formatTime r.createdAt ∧ formatTime r.createdAt < 253402300800)
    (hl : pageLimit p.limit = some limit) :
    list t p (some r.next) = some (((found t p).filter (behind (if formatTime r.createdAt * 1000000 = zeroTime then none
      else some (formatTime r.createdAt * 1000000)) r.id)).take limit) := by
  have hparse : parseTime r.next.before = some (formatTime r.createdAt * 1000000) := if_pos hyear
  simp only [list, hl, Option.bind_some, hparse, Option.map_some, listAuditLogs_eq]
  rfl

/-- Behind the cursor of a row are just the rows after it. -/
theorem list_next {older newer : List Row} {r : Row} (hf : found t p = newer ++ r :: older) (h : Clean r older)
    (hl : pageLimit p.limit = some limit) : list t p (some r.next) = some (older.take limit) := by
  have hpair := found_newer (t := t) (p := p)
  rw [hf] at hpair
  obtain ⟨-, -, hcross⟩ := List.pairwise_append.mp hpair
  rw [list_cursor ⟨h.year.1, h.year.2.1⟩ hl, if_neg h.year.2.2, hf, List.filter_append, List.filter_cons_of_neg,
    List.filter_eq_nil_iff.mpr, List.filter_eq_self.mpr h.behind, List.nil_append]
  · intro x hx hb
    have hnewer : Newer x r := hcross x hx r List.mem_cons_self
    have hb := of_decide_eq_true hb
    unfold Newer formatTime at *
    omega
  · intro hb
    have hb := of_decide_eq_true hb
    unfold formatTime at *
    omega

/-! ### All pages -/

theorem one_le_pageLimit (hl : pageLimit p.limit = some limit) : 1 ≤ limit := by
  unfold pageLimit auditMaxLimit at hl
  split at hl
  · cases hl
    decide
  · split_ifs at hl
    cases hl
    omega

/-- The last row of a page, and the rest. -/
theorem split_page {older : List Row} {r : Row} (hlast : (older.take limit).getLast? = some r) :
    ∃ init, older.take limit = init ++ [r] ∧ older = init ++ r :: older.drop limit := by
  obtain ⟨init, hpage⟩ := List.getLast?_eq_some_iff.mp hlast
  refine ⟨init, hpage, ?_⟩
  conv_lhs => rw [← List.take_append_drop limit older, hpage]
  simp

/-- A cursor that leads to the rows `older` leads through all of them. -/
theorem follow_eq (hl : pageLimit p.limit = some limit) {older : List Row} (h : Cuts limit older) :
    ∀ (c : Option Cursor) (newer : List Row), found t p = newer ++ older → list t p c = some (older.take limit) →
      ∃ n, follow t p n c = some older := by
  induction h with
  | nil =>
    intro c newer hf hlist
    exact ⟨1, by rw [follow, hlist, List.take_nil]; rfl⟩
  | @page rows r hlast hclean hrest ih =>
    intro c newer hf hlist
    obtain ⟨init, hpage, hsplit⟩ := split_page hlast
    have hf' : found t p = (newer ++ init) ++ r :: rows.drop limit := by rw [hf, List.append_assoc, ← hsplit]
    obtain ⟨n, hn⟩ := ih (some r.next) (newer ++ init ++ [r]) (by rw [hf']; simp) (list_next hf' hclean hl)
    refine ⟨n + 1, ?_⟩
    rw [follow, hlist, Option.bind_some, hlast]
    dsimp only
    rw [hn, Option.map_some, List.take_append_drop]

/-- A cursor from which the older rows are listed, each once, has them behind it. -/
theorem clean_of_follow (hl : pageLimit p.limit = some limit) {n : ℕ} : ∀ {r : Row} {newer older : List Row},
    found t p = newer ++ r :: older → follow t p n (some r.next) = some older → Clean r older := by
  induction n with
  | zero => exact fun _ h => by cases h
  | succ n ih =>
    intro r newer older hf h
    obtain ⟨page, hpage, hrest⟩ := Option.bind_eq_some_iff.mp h
    have hyear : -62167219200 ≤ formatTime r.createdAt ∧ formatTime r.createdAt < 253402300800 := by
      by_contra hno
      have hparse : parseTime r.next.before = none := if_neg hno
      simp [list, hl, hparse] at hpage
    rw [list_cursor hyear hl] at hpage
    have hsub : page ⊆ older := by
      cases hlast : page.getLast? with
      | none => rw [List.getLast?_eq_none_iff.mp hlast]; exact List.nil_subset _
      | some r' =>
        rw [hlast] at hrest
        obtain ⟨rest, -, rfl⟩ := Option.map_eq_some_iff.mp hrest
        exact List.subset_append_left _ _
    have hzero : formatTime r.createdAt * 1000000 ≠ zeroTime := by
      -- the first page would come again
      intro hz
      obtain ⟨x, l, hx⟩ : ∃ x l, found t p = x :: l := List.exists_cons_of_ne_nil (by rw [hf]; simp)
      have hxpage : x ∈ page := by
        have hall : (found t p).filter (behind none r.id) = found t p := List.filter_eq_self.mpr fun _ _ => rfl
        rw [if_pos hz, hall, hx] at hpage
        cases hpage
        obtain ⟨m, hm⟩ := Nat.exists_eq_add_of_le' (one_le_pageLimit hl)
        rw [hm]
        exact List.mem_cons_self
      have hnodup := found_nodup (t := t) (p := p)
      rw [hf, ← List.singleton_append, ← List.append_assoc] at hnodup
      refine (List.disjoint_of_nodup_append hnodup) ?_ (hsub hxpage)
      rw [hf] at hx
      cases newer with
      | nil => cases hx; exact List.mem_cons_self
      | cons y newer => cases hx; exact List.mem_cons_self
    rw [if_neg hzero] at hpage
    refine ⟨⟨hyear.1, hyear.2, hzero⟩, fun x hx => ?_⟩
    have hbehind : ∀ y ∈ page, behind (some (formatTime r.createdAt * 1000000)) r.id y = true := by
      cases hpage
      exact fun y hy => (List.mem_filter.mp (List.mem_of_mem_take hy)).2
    cases hlast : page.getLast? with
    | none =>
      rw [hlast] at hrest
      cases hrest
      cases hx
    | some r' =>
      rw [hlast] at hrest
      obtain ⟨rest, hfollow, rfl⟩ := Option.map_eq_some_iff.mp hrest
      obtain ⟨init, rfl⟩ := List.getLast?_eq_some_iff.mp hlast
      rcases List.mem_append.mp hx with hx | hx
      · exact hbehind x hx
      · have hf' : found t p = (newer ++ r :: init) ++ r' :: rest := by rw [hf]; simp
        have hnext := (ih hf' hfollow).behind x hx
        have hr' := of_decide_eq_true (hbehind r' (by simp))
        have hx' := of_decide_eq_true hnext
        refine decide_eq_true ?_
        unfold formatTime at *
        omega

theorem cuts_of_follow (hl : pageLimit p.limit = some limit) {n : ℕ} : ∀ {c : Option Cursor} {newer older : List Row},
    found t p = newer ++ older → list t p c = some (older.take limit) → follow t p n c = some older →
      Cuts limit older := by
  induction n with
  | zero => exact fun _ _ h => by cases h
  | succ n ih =>
    intro c newer older hf hlist h
    rw [follow, hlist, Option.bind_some] at h
    cases hlast : (older.take limit).getLast? with
    | none =>
      have hnil := List.getLast?_eq_none_iff.mp hlast
      have hlimit := one_le_pageLimit hl
      rw [List.take_eq_nil_iff] at hnil
      rw [hnil.resolve_left (by omega)]
      exact .nil
    | some r =>
      obtain ⟨init, hpage, hsplit⟩ := split_page hlast
      have hf' : found t p = (newer ++ init) ++ r :: older.drop limit := by rw [hf, List.append_assoc, ← hsplit]
      rw [hlast] at h
      obtain ⟨rest, hfollow, hrest⟩ := Option.map_eq_some_iff.mp h
      have hdrop : rest = older.drop limit :=
        List.append_cancel_left (hrest.trans (List.take_append_drop limit older).symm)
      rw [hdrop] at hfollow
      have hclean := clean_of_follow hl hf' hfollow
      have hsplit' : found t p = (newer ++ init ++ [r]) ++ older.drop limit := by rw [hf']; simp
      exact .page hlast hclean (ih hsplit' (list_next hf' hclean hl) hfollow)

/-- **Pages are exact**, that is, following the cursors ends and gives every row that the parameters ask
for once, newest first, if and only if at the end of every page the remaining rows are behind the cursor.
-/
theorem follow_exact_iff (hl : pageLimit p.limit = some limit) :
    (∃ n rows, follow t p n none = some rows ∧ rows.Perm (t.list p.accepts) ∧ rows.Nodup ∧ rows.Pairwise Newer) ↔
      Cuts limit (found t p) := by
  have hall : (found t p).filter (behind none 0) = found t p := List.filter_eq_self.mpr fun _ _ => rfl
  have hfirst : list t p none = some ((found t p).take limit) := by
    simp only [list, hl, Option.bind_some, listAuditLogs_eq, hall]
  constructor
  · rintro ⟨n, rows, hn, hperm, -, hnewer⟩
    have hrows : rows = found t p := by
      refine List.Perm.eq_of_pairwise (fun a b ha hb hab hba => ?_) hnewer found_newer (hperm.trans found_perm.symm)
      have ha' := Table.mem_list.mp (hperm.mem_iff.mp ha)
      have hb' := Table.mem_list.mp (found_perm.mem_iff.mp hb)
      exact Table.eq_of_key ha'.1 hb'.1 (by unfold Newer at *; omega)
    exact cuts_of_follow hl (List.nil_append _).symm hfirst (hrows ▸ hn)
  · intro h
    obtain ⟨n, hn⟩ := follow_eq hl h none [] rfl hfirst
    exact ⟨n, found t p, hn, found_perm, found_nodup, found_newer⟩

/-- A log of one team. -/
def logOf (times : List ℤ) : List Row := times.mapIdx fun i time => ⟨i, 0, "team", "sandbox", "create", time⟩

def wholeSeconds : AuditLogs := ⟨logOf [20000000, 20000000, 31500000], by decide⟩

def pairs : AuditListParams := ⟨0, false, [], ["create"], some 2⟩

theorem wholeSeconds_exact : ∃ n rows, follow wholeSeconds pairs n none = some rows ∧ rows.Perm wholeSeconds.rows := by
  have hcuts : Cuts 2 (found wholeSeconds pairs) :=
    .page (r := ⟨1, 0, "team", "sandbox", "create", 20000000⟩) (by decide) ⟨by decide, by decide⟩
      (.page (r := ⟨0, 0, "team", "sandbox", "create", 20000000⟩) (by decide) ⟨by decide, by decide⟩ .nil)
  obtain ⟨n, rows, hn, hperm, -⟩ := (follow_exact_iff (t := wholeSeconds) (p := pairs) rfl).mpr hcuts
  exact ⟨n, rows, hn, hperm⟩

def oneSecond : AuditLogs := ⟨logOf [20200000, 20500000], by decide⟩

/-- **A row is skipped.**  With pages of one row, the cursor of the newer row is the begin of the second
in which both rows are. -/
theorem same_second_skipped :
    ∃ r ∈ oneSecond.rows, ∃ p : AuditListParams, p.accepts r = true ∧
      follow oneSecond p 2 none = some [⟨1, 0, "team", "sandbox", "create", 20500000⟩] ∧ r.id = 0 :=
  ⟨⟨0, 0, "team", "sandbox", "create", 20200000⟩, by decide, ⟨0, false, [], [], some 1⟩, by decide, by decide, rfl⟩

end Wrenn.Audit.Pages
