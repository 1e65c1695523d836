import Wrenn.Accounts.Database
import Wrenn.Lib.Runs

/-!
# The owner of a team

A team is created with its owner; from then on `AddMember`, `RemoveMember`, `UpdateMemberRole` and `LeaveTeam` add
and remove others, `DeleteTeam` deletes the team, and `DeleteAccount` deletes the teams that nobody shares before it
deletes the user.  The calls run concurrently, and every statement is a step.  Each checks roles and members in
statements before the one that writes.

* `owner_remains`: a live team has one owner, whose account is not deleted, if nobody joins a team between the count
  and the list of its owner's `DeleteAccount`, and nobody founds a team after that list;
* `owner_deleted`: a member that joins in between keeps the team alive without its owner.
-/

namespace Wrenn.Accounts.Owners

open Lib.Tables Lib.Threads Lib.Runs Database
open Sessions.Members (Member Role)

/-! ### Statements -/

/-- Both foreign keys and the primary key are checked. -/
def insertTeamMember (db : Db) (m : Member) : Option Db :=
  if (db.users.select m.user).isSome && (db.teams.select m.team).isSome then
    (db.members.insert m).map fun t => { db with members := t }
  else none

/-- The transaction of `CreateTeam`. -/
def createTeam (db : Db) (u team : ℕ) : Option Db :=
  (db.teams.insert ⟨team, false⟩).bind fun t => insertTeamMember { db with teams := t } ⟨u, team, .owner⟩

def deleteTeamMember (db : Db) (u team : ℕ) : Db :=
  { db with members := db.members.delete fun m => m.user == u && m.team == team }

def setRole (role : Role) (m : Member) : Member := { m with role := role }

theorem setRole_key (role : Role) (m : Member) : (setRole role m).key = m.key := rfl

def updateMemberRole (db : Db) (u team : ℕ) (role : Role) : Db :=
  { db with
    members := db.members.update (fun m => m.user == u && m.team == team) (setRole role) (setRole_key role) }

/-! ### The calls -/

/-- The role that `UpdateMemberRole` accepts. -/
structure NewRole where
  role : Role
  ok : role ≠ .owner
  deriving DecidableEq, Repr

inductive Request
  | addMember (target : ℕ)
  | removeMember (target : ℕ)
  | updateMemberRole (target : ℕ) (role : NewRole)
  | leaveTeam
  | deleteTeam
  deriving DecidableEq, Repr

inductive Proc
  | createTeam (u team : ℕ)
  | callerRole (caller team : ℕ) (r : Request)
  /-- `GetUserByEmail` of `AddMember` -/
  | getUser (target team : ℕ)
  | membership (target team : ℕ)
  | insertMember (target team : ℕ)
  /-- `GetTeamMembership` of the target -/
  | toRemove (target team : ℕ)
  | toUpdate (target team : ℕ) (role : NewRole)
  | deleteMember (u team : ℕ)
  | setRole (u team : ℕ) (role : NewRole)
  | deleteTeam (team : ℕ)
  | deletion (d : Deletion)
  deriving DecidableEq, Repr

abbrev Proc.ended : Proc := .deletion .ended

/-- What a call does after the role of its caller is read. -/
def Request.next (caller team : ℕ) (role : Role) : Request → Proc
  | .addMember target => if role = .member then .ended else .getUser target team
  | .removeMember target => if role = .member then .ended else .toRemove target team
  | .updateMemberRole target new => if role = .member then .ended else .toUpdate target team new
  | .leaveTeam => if role = .owner then .ended else .deleteMember caller team
  | .deleteTeam => if role = .owner then .deleteTeam team else .ended

/-- The membership of someone who is not the owner. -/
def below (db : Db) (u team : ℕ) : Bool := (db.members.select (u, team)).any fun m => m.role != .owner

def run (db : Db) : Proc → Db × Proc
  | .createTeam u team => ((createTeam db u team).getD db, .ended)
  | .callerRole caller team r =>
    match db.members.select (caller, team) with
    | none => (db, .ended)
    | some m => (db, r.next caller team m.role)
  | .getUser target team => (db, if (db.getUserByID target).isSome then .membership target team else .ended)
  | .membership target team =>
    (db, if (db.members.select (target, team)).isSome then .ended else .insertMember target team)
  | .insertMember target team => ((insertTeamMember db ⟨target, team, .member⟩).getD db, .ended)
  | .toRemove target team => (db, if below db target team then .deleteMember target team else .ended)
  | .toUpdate target team role => (db, if below db target team then .setRole target team role else .ended)
  | .deleteMember u team => (deleteTeamMember db u team, .ended)
  | .setRole u team role => (updateMemberRole db u team role.role, .ended)
  | .deleteTeam team => (db.softDeleteTeam team, .ended)
  | .deletion d => ((d.run db).1, .deletion (d.run db).2)

inductive Call
  | createTeam (u team : ℕ)
  | request (caller team : ℕ) (r : Request)
  | deleteAccount (u : ℕ)
  deriving DecidableEq, Repr

/-- Accounts are created. -/
def prog : Prog Db Proc Call Unit User where
  spawn db
    | .createTeam u team => some (db, .createTeam u team)
    | .request caller team r => some (db, .callerRole caller team r)
    | .deleteAccount u => some (db, .deletion (.getUser u))
  run db _ p := some (run db p)
  halt := .ended
  env db r := (db.users.insert r).map fun t => { db with users := t }

abbrev Step := Label Call Unit User

/-! ### One owner -/

def OwnerOf (db : Db) (team : ℕ) (m : Member) : Prop := m ∈ db.members.rows ∧ m.team = team ∧ m.role = .owner

/-- Every live team has one owner, whose account is not deleted; a member is one of a team. -/
structure Owned (db : Db) : Prop where
  team : ∀ m ∈ db.members.rows, (db.teams.select m.team).isSome
  one : ∀ team, db.live team = true → ∃! m, OwnerOf db team m
  alive : ∀ team m, db.live team = true → OwnerOf db team m → (db.getUserByID m.user).isSome

/-- A `DeleteAccount` of the user that has counted and not listed. -/
def Proc.counted (u : ℕ) : Proc → Bool
  | .deletion (.listTeams v) => v == u
  | _ => false

/-- A `DeleteAccount` of the user that has listed. -/
def Proc.listed (u : ℕ) : Proc → Bool
  | .deletion (.deleteTeams v _) => v == u
  | .deletion (.softDelete v) => v == u
  | _ => false

/-- When a statement may run. -/
def ordered (s : Sys Db Proc) : Proc → Bool
  | .createTeam u _ => (s.core.getUserByID u).isSome && s.threads.all fun p => !p.listed u
  | .insertMember _ team =>
    s.core.members.rows.all fun m =>
      !(m.team == team && m.role == .owner && s.threads.any fun p => p.counted m.user)
  | _ => true

/-- The guard of a run. -/
def Ordered (s : Sys Db Proc) : Step → Prop
  | .act t _ => (s.threads[t]?).all (ordered s) = true
  | _ => True

variable {db db' : Db} {s s' : Sys Db Proc} {u v team t : ℕ} {m m' : Member}

/-- The user is not the owner of the team, which is there. -/
def NotOwner (db : Db) (u team : ℕ) : Prop := (db.teams.select team).isSome ∧ ∀ m, OwnerOf db team m → m.user ≠ u

/-- The live teams of the owner. -/
def Leaves (db : Db) (u : ℕ) (P : ℕ → Prop) : Prop :=
  ∀ team m, db.live team = true → OwnerOf db team m → m.user = u → P team

/-- What a call knows after its reads. -/
def Fit (db : Db) : Proc → Prop
  | .deleteMember u team => NotOwner db u team
  | .setRole u team _ => NotOwner db u team
  | .deletion (.listTeams u) => Leaves db u fun team => db.shared team u = false
  | .deletion (.deleteTeams u todo) => Leaves db u (· ∈ todo)
  | .deletion (.softDelete u) => Leaves db u fun _ => False
  | _ => True

/-! ### Statements that leave the owners alone -/

structure Frame (db db' : Db) : Prop where
  owner : ∀ team m, OwnerOf db' team m ↔ OwnerOf db team m
  live : ∀ team, db'.live team = true → db.live team = true
  team : ∀ team, (db.teams.select team).isSome → (db'.teams.select team).isSome

theorem Frame.leaves {P : ℕ → Prop} (hf : Frame db db') (h : Leaves db u P) : Leaves db' u P :=
  fun team m hl ho => h team m (hf.live team hl) ((hf.owner team m).mp ho)

theorem Frame.notOwner (hf : Frame db db') (h : NotOwner db u team) : NotOwner db' u team :=
  ⟨hf.team team h.1, fun m ho => h.2 m ((hf.owner team m).mp ho)⟩

theorem Frame.owned (hf : Frame db db') (hu : db'.users = db.users)
    (hteam : ∀ m ∈ db'.members.rows, (db'.teams.select m.team).isSome) (h : Owned db) : Owned db' where
  team := hteam
  one := by
    intro team hl
    simpa only [hf.owner] using h.one team (hf.live team hl)
  alive := by
    intro team m hl ho
    rw [Db.getUserByID, hu]
    exact h.alive team m (hf.live team hl) ((hf.owner team m).mp ho)

/-- No team gets a member while its owner is between the count and the list. -/
theorem Frame.fit {p : Proc} (hf : Frame db db') (h : Fit db p)
    (hshared : ∀ u team m, p.counted u = true → OwnerOf db team m → m.user = u → db.shared team u = false →
      db'.shared team u = false) : Fit db' p := by
  cases p with
  | deleteMember u team => exact hf.notOwner h
  | setRole u team role => exact hf.notOwner h
  | deletion d =>
    cases d with
    | listTeams u =>
      intro team m hl ho hu
      have ho := (hf.owner team m).mp ho
      exact hshared u team m (beq_self_eq_true u) ho hu (h team m (hf.live team hl) ho hu)
    | deleteTeams u todo => exact hf.leaves h
    | softDelete u => exact hf.leaves h
    | _ => trivial
  | _ => trivial

theorem shared_eq_false : db.shared team u = false ↔ ∀ m ∈ db.members.rows, m.team = team → m.user = u := by
  simp [Db.shared]

/-- Fewer members. -/
theorem shared_of_subset (hsub : ∀ m ∈ db'.members.rows, ∃ m' ∈ db.members.rows, m'.key = m.key)
    (h : db.shared team u = false) : db'.shared team u = false := by
  refine shared_eq_false.mpr fun m hm ht => ?_
  obtain ⟨m', hm', hkey⟩ := hsub m hm
  rw [← (Prod.mk.inj hkey).1]
  exact shared_eq_false.mp h m' hm' ((Prod.mk.inj hkey).2.trans ht)

/-- What the statements do that only take members away or change their roles. -/
theorem Frame.of_members {t : Table Member.key} (h : Owned db)
    (hown : ∀ m, m.role = .owner → (m ∈ t.rows ↔ m ∈ db.members.rows))
    (hsub : ∀ m ∈ t.rows, ∃ m' ∈ db.members.rows, m'.key = m.key) :
    Owned { db with members := t } ∧ ∀ p, Fit db p → Fit { db with members := t } p := by
  have hf : Frame db { db with members := t } := by
    refine ⟨fun team m => ⟨fun ho => ?_, fun ho => ?_⟩, fun _ => id, fun _ => id⟩
    · exact ⟨(hown m ho.2.2).mp ho.1, ho.2⟩
    · exact ⟨(hown m ho.2.2).mpr ho.1, ho.2⟩
  refine ⟨hf.owned rfl (fun m hm => ?_) h, fun p hp => hf.fit hp fun u team m _ _ _ => shared_of_subset hsub⟩
  obtain ⟨m', hm', hkey⟩ := hsub m hm
  rw [← (Prod.mk.inj hkey).2]
  exact h.team m' hm'

theorem deleteTeamMember_keeps (hn : NotOwner db u team) (h : Owned db) :
    Owned (deleteTeamMember db u team) ∧ ∀ p, Fit db p → Fit (deleteTeamMember db u team) p := by
  refine Frame.of_members h (fun m hm => ⟨fun hmem => (List.mem_filter.mp hmem).1, fun hmem => ?_⟩) fun m hmem =>
    ⟨m, (List.mem_filter.mp hmem).1, rfl⟩
  refine List.mem_filter.mpr ⟨hmem, ?_⟩
  by_cases ht : m.team = team
  · simp [hn.2 m ⟨hmem, ht, hm⟩]
  · simp [ht]

theorem updateMemberRole_keeps {role : NewRole} (hn : NotOwner db u team) (h : Owned db) :
    Owned (updateMemberRole db u team role.role) ∧
      ∀ p, Fit db p → Fit (updateMemberRole db u team role.role) p := by
  refine Frame.of_members h (fun m hm => ⟨fun hmem => ?_, fun hmem => ?_⟩) fun m hmem => ?_
  · obtain ⟨m', hm', rfl⟩ := List.mem_map.mp hmem
    split_ifs at hm ⊢
    · exact absurd hm role.ok
    · exact hm'
  · refine List.mem_map.mpr ⟨m, hmem, if_neg fun hc => ?_⟩
    simp only [Bool.and_eq_true, beq_iff_eq] at hc
    exact hn.2 m ⟨hmem, hc.2, hm⟩ hc.1
  · obtain ⟨m', hm', rfl⟩ := List.mem_map.mp hmem
    refine ⟨m', hm', ?_⟩
    split_ifs <;> rfl

theorem live_softDeleteTeam : (db.softDeleteTeam t).live team = true ↔ db.live team = true ∧ team ≠ t := by
  rw [Db.live, Db.softDeleteTeam, Table.select_update, Db.live]
  cases hs : db.teams.select team with
  | none => simp
  | some r =>
    have hid : r.id = team := Table.select_key hs
    by_cases ht : team = t <;> simp [hid, ht, markDeleted]

theorem Frame.softDeleteTeam : Frame db (db.softDeleteTeam t) where
  owner _ _ := Iff.rfl
  live team hl := (live_softDeleteTeam.mp hl).1
  team team hs := by
    rw [Db.softDeleteTeam, Table.select_update, Option.isSome_map]
    exact hs

theorem softDeleteTeam_keeps (h : Owned db) :
    Owned (db.softDeleteTeam t) ∧ ∀ p, Fit db p → Fit (db.softDeleteTeam t) p :=
  ⟨Frame.softDeleteTeam.owned rfl (fun m hm => Frame.softDeleteTeam.team _ (h.team m hm)) h,
    fun _ hp => Frame.softDeleteTeam.fit hp fun _ _ _ _ _ _ => id⟩

/-! ### Statements that add members -/

theorem insertTeamMember_spec (h : insertTeamMember db m = some db') :
    (db.teams.select m.team).isSome ∧ ∃ t, db.members.insert m = some t ∧ db' = { db with members := t } := by
  unfold insertTeamMember at h
  split_ifs at h with hc
  obtain ⟨t, ht, rfl⟩ := Option.map_eq_some_iff.mp h
  exact ⟨(Bool.and_eq_true_iff.mp hc).2, t, ht, rfl⟩

/-- **`AddMember`.** -/
theorem insertMember_keeps (h : Owned db) (hm : m.role ≠ .owner) (hdb : insertTeamMember db m = some db') :
    Owned db' ∧ ∀ p, Fit db p → (∀ m', OwnerOf db m.team m' → p.counted m'.user = false) → Fit db' p := by
  obtain ⟨hteam, t, ht, rfl⟩ := insertTeamMember_spec hdb
  have hf : Frame db { db with members := t } := by
    refine ⟨fun team m' => ⟨fun ho => ⟨?_, ho.2⟩, fun ho => ⟨(Table.mem_insert ht).mpr (.inr ho.1), ho.2⟩⟩,
      fun _ => id, fun _ => id⟩
    rcases (Table.mem_insert ht).mp ho.1 with rfl | hmem
    · exact absurd ho.2.2 hm
    · exact hmem
  refine ⟨hf.owned rfl (fun m' hm' => ?_) h, fun p hp hcount => hf.fit hp fun u team m' hu ho he hs => ?_⟩
  · rcases (Table.mem_insert ht).mp hm' with rfl | hmem
    · exact hteam
    · exact h.team m' hmem
  · refine shared_eq_false.mpr fun m0 hm0 ht0 => ?_
    rcases (Table.mem_insert ht).mp hm0 with rfl | hmem
    · subst ht0 he
      rw [hcount m' ho] at hu
      cases hu
    · exact shared_eq_false.mp hs m0 hmem ht0

/-- What `CreateTeam` adds. -/
structure Founded (db db' : Db) (u team : ℕ) : Prop where
  users : db'.users = db.users
  fresh : ∀ m ∈ db.members.rows, m.team ≠ team
  none : db.teams.select team = none
  mem : ∀ m, m ∈ db'.members.rows ↔ m = ⟨u, team, .owner⟩ ∨ m ∈ db.members.rows
  select : ∀ t, db'.teams.select t = if t = team then some ⟨team, false⟩ else db.teams.select t

theorem createTeam_spec (h : Owned db) (hdb : createTeam db u team = some db') : Founded db db' u team := by
  obtain ⟨t, ht, hdb⟩ := Option.bind_eq_some_iff.mp hdb
  obtain ⟨_, t', ht', rfl⟩ := insertTeamMember_spec hdb
  have hnone : db.teams.select team = none := (Table.select_insert (k := team) ht).1
  refine ⟨rfl, fun m hm he => ?_, hnone, fun m => Table.mem_insert ht', fun t0 => (Table.select_insert ht).2⟩
  have hsome := h.team m hm
  rw [he, hnone] at hsome
  cases hsome

namespace Founded

variable (hf : Founded db db' u team)
include hf

theorem owner : OwnerOf db' t m ↔ (t = team ∧ m = ⟨u, team, .owner⟩) ∨ (t ≠ team ∧ OwnerOf db t m) := by
  constructor
  · rintro ⟨hmem, rfl, hrole⟩
    rcases (hf.mem m).mp hmem with rfl | hmem
    · exact .inl ⟨rfl, rfl⟩
    · exact .inr ⟨hf.fresh m hmem, hmem, rfl, hrole⟩
  · rintro (⟨rfl, rfl⟩ | ⟨_, ho⟩)
    · exact ⟨(hf.mem _).mpr (.inl rfl), rfl, rfl⟩
    · exact ⟨(hf.mem m).mpr (.inr ho.1), ho.2⟩

theorem live (ht : t ≠ team) : db'.live t = db.live t := by
  rw [Db.live, hf.select, if_neg ht, Db.live]

theorem ne_of_isSome (h : (db.teams.select t).isSome) : t ≠ team := by
  rintro rfl
  rw [hf.none] at h
  cases h

theorem owned (h : Owned db) (hu : (db.getUserByID u).isSome) : Owned db' where
  team := by
    intro m hm
    rw [hf.select]
    split_ifs with ht
    · rfl
    · rcases (hf.mem m).mp hm with rfl | hm
      · exact absurd rfl ht
      · exact h.team m hm
  one := by
    intro t hl
    simp only [hf.owner]
    by_cases ht : t = team
    · exact ⟨⟨u, team, .owner⟩, .inl ⟨ht, rfl⟩, fun m hm => (hm.resolve_right fun hr => hr.1 ht).2⟩
    · obtain ⟨m, hm, huniq⟩ := h.one t (hf.live ht ▸ hl)
      exact ⟨m, .inr ⟨ht, hm⟩, fun m' hm' => huniq m' (hm'.resolve_left fun hr => ht hr.1).2⟩
  alive := by
    intro t m hl ho
    rw [Db.getUserByID, hf.users]
    rcases hf.owner.mp ho with ⟨_, rfl⟩ | ⟨ht, ho⟩
    · exact hu
    · exact h.alive t m (hf.live ht ▸ hl) ho

theorem leaves {P Q : ℕ → Prop} (h : Leaves db v P) (hnew : v = u → Q team)
    (hPQ : ∀ t ≠ team, P t → Q t) : Leaves db' v Q := by
  intro t m hl ho hv
  rcases hf.owner.mp ho with ⟨rfl, rfl⟩ | ⟨ht, ho⟩
  · exact hnew hv.symm
  · exact hPQ t ht (h t m (hf.live ht ▸ hl) ho hv)

theorem notOwner (h : NotOwner db v t) : NotOwner db' v t := by
  have ht := hf.ne_of_isSome h.1
  refine ⟨by rw [hf.select, if_neg ht]; exact h.1, fun m ho => ?_⟩
  exact h.2 m ((hf.owner.mp ho).resolve_left fun hl => ht hl.1).2

/-- The new team is shared with nobody, so that only the calls that have listed the teams do not know it. -/
theorem fit {p : Proc} (h : Fit db p) (hp : p.listed u = false) : Fit db' p := by
  cases p with
  | deleteMember v t => exact hf.notOwner h
  | setRole v t role => exact hf.notOwner h
  | deletion d =>
    cases d with
    | listTeams v =>
      refine hf.leaves h (fun he => shared_eq_false.mpr fun m hm hmt => ?_) fun t ht hs =>
        shared_eq_false.mpr fun m hm hmt => ?_
      · rcases (hf.mem m).mp hm with rfl | hm
        · exact he.symm
        · exact absurd hmt (hf.fresh m hm)
      · rcases (hf.mem m).mp hm with rfl | hm
        · exact absurd hmt.symm ht
        · exact shared_eq_false.mp hs m hm hmt
    | deleteTeams v todo => exact hf.leaves h (fun he => by simp [Proc.listed, he] at hp) fun _ _ => id
    | softDelete v => exact hf.leaves h (fun he => by simp [Proc.listed, he] at hp) fun _ _ => id
    | _ => trivial
  | _ => trivial

end Founded

/-! ### Accounts -/

/-- **`SoftDeleteUser`** of a user who owns no live team. -/
theorem Owned.softDeleteUser (h : Owned db) (hu : Leaves db u fun _ => False) : Owned (db.softDeleteUser u) where
  team := h.team
  one := h.one
  alive := by
    intro team m hl ho
    have hne : m.user ≠ u := hu team m hl ho
    have hsome := h.alive team m hl ho
    rw [Db.getUserByID] at hsome ⊢
    rw [Db.softDeleteUser, Db.setUserStatus, Table.select_update]
    cases hs : db.users.select m.user with
    | none =>
      rw [hs] at hsome
      cases hsome
    | some r =>
      have hid : r.id ≠ u := (Table.select_key hs).trans_ne hne
      rw [hs] at hsome
      simpa [hid] using hsome

theorem Owned.insertUser {r : User} {t : Table User.id} (h : Owned db) (ht : db.users.insert r = some t) :
    Owned { db with users := t } where
  team := h.team
  one := h.one
  alive := by
    intro team m hl ho
    have hsome := h.alive team m hl ho
    obtain ⟨hnone, hsel⟩ := Table.select_insert (k := m.user) ht
    rw [Db.getUserByID] at hsome ⊢
    show ((t.select m.user).filter _).isSome
    rw [hsel, if_neg]
    · exact hsome
    · intro he
      rw [he, hnone] at hsome
      cases hsome

/-! ### Runs -/

theorem Fit.of_users {t : Table User.id} {p : Proc} (h : Fit db p) : Fit { db with users := t } p := by
  cases p with
  | deletion d => cases d <;> exact h
  | _ => exact h

theorem notOwner_of_below (h : Owned db) (hb : below db u team = true) : NotOwner db u team := by
  unfold below at hb
  cases hs : db.members.select (u, team) with
  | none =>
    rw [hs] at hb
    cases hb
  | some m =>
    obtain ⟨hmem, hkey⟩ := Table.select_eq_some.mp hs
    rw [hs] at hb
    refine ⟨(Prod.mk.inj hkey).2 ▸ h.team m hmem, fun m' ho hu => ?_⟩
    have he : m' = m := Table.eq_of_key ho.1 hmem ((Prod.ext hu ho.2.1).trans hkey.symm)
    simp [← he, ho.2.2] at hb

/-- **One statement**, seen by its own call. -/
theorem fit_run {p : Proc} (h : Owned db) (hp : Fit db p) : Fit (run db p).1 (run db p).2 := by
  cases p with
  | callerRole caller team r =>
    simp only [run]
    split
    · trivial
    next m hs =>
      cases r with
      | leaveTeam =>
        simp only [Request.next]
        split_ifs with ho
        · trivial
        · exact notOwner_of_below h (by simp [below, hs, ho])
      | _ => simp only [Request.next]; split_ifs <;> trivial
  | toRemove target team =>
    simp only [run]
    split_ifs with hb
    · exact notOwner_of_below h hb
    · trivial
  | toUpdate target team role =>
    simp only [run]
    split_ifs with hb
    · exact notOwner_of_below h hb
    · trivial
  | getUser target team => simp only [run]; split_ifs <;> trivial
  | membership target team => simp only [run]; split_ifs <;> trivial
  | deletion d =>
    cases d with
    | getUser u => simp only [run, Deletion.run]; split_ifs <;> trivial
    | countTeams u =>
      simp only [run, Deletion.run]
      split_ifs with hs
      · trivial
      · rintro team m - ⟨hmem, rfl, hrole⟩ rfl
        simp only [Db.ownsShared, List.any_eq_true, not_exists, not_and] at hs
        simpa [hrole] using hs m hmem
    | listTeams u =>
      rintro team m (hl : db.live team = true) ho rfl
      have hs := hp team m hl ho rfl
      obtain ⟨hmem, rfl, hrole⟩ := ho
      exact List.mem_map_of_mem (Table.mem_list.mpr ⟨hmem, by simp [hrole, hl, hs]⟩)
    | deleteTeams u todo =>
      cases todo with
      | nil => exact fun team m hl ho hu => absurd (hp team m hl ho hu) List.not_mem_nil
      | cons t ts =>
        intro team m hl ho hu
        obtain ⟨hl, ht⟩ := live_softDeleteTeam.mp hl
        exact (List.mem_cons.mp (hp team m hl ho hu)).resolve_left ht
    | softDelete u => trivial
    | ended => trivial
  | _ => trivial

/-- **One statement**, seen by the teams and by the other calls. -/
theorem owned_run {p : Proc} {rest : List Proc} (hok : ordered s p = true) (h : Owned s.core) (hp : Fit s.core p)
    (hperm : s.threads.Perm (p :: rest)) (hrest : ∀ q ∈ rest, Fit s.core q) :
    Owned (run s.core p).1 ∧ ∀ q ∈ rest, Fit (run s.core p).1 q := by
  have hmem : ∀ q ∈ rest, q ∈ s.threads := fun q hq => hperm.mem_iff.mpr (List.mem_cons_of_mem _ hq)
  cases p with
  | createTeam u team =>
    simp only [run]
    cases hdb : createTeam s.core u team with
    | none => exact ⟨h, hrest⟩
    | some db' =>
      simp only [ordered, Bool.and_eq_true, List.all_eq_true, Bool.not_eq_true'] at hok
      have hf := createTeam_spec h hdb
      exact ⟨hf.owned h hok.1, fun q hq => hf.fit (hrest q hq) (hok.2 q (hmem q hq))⟩
  | insertMember target team =>
    simp only [run]
    cases hdb : insertTeamMember s.core ⟨target, team, .member⟩ with
    | none => exact ⟨h, hrest⟩
    | some db' =>
      obtain ⟨hown, hfit⟩ := insertMember_keeps h Role.noConfusion hdb
      refine ⟨hown, fun q hq => hfit q (hrest q hq) fun m ho => ?_⟩
      have hm := List.all_eq_true.mp hok m ho.1
      simp only [ho.2.1, ho.2.2, beq_self_eq_true, Bool.true_and, Bool.not_eq_true', List.any_eq_false] at hm
      simpa using hm q (hmem q hq)
  | deleteMember u team => exact (deleteTeamMember_keeps hp h).imp_right fun hfit q hq => hfit q (hrest q hq)
  | setRole u team role => exact (updateMemberRole_keeps hp h).imp_right fun hfit q hq => hfit q (hrest q hq)
  | deleteTeam team => exact (softDeleteTeam_keeps h).imp_right fun hfit q hq => hfit q (hrest q hq)
  | callerRole caller team r =>
    simp only [run]
    split <;> exact ⟨h, hrest⟩
  | deletion d =>
    cases d with
    | deleteTeams u todo =>
      cases todo with
      | nil => exact ⟨h, hrest⟩
      | cons t ts => exact (softDeleteTeam_keeps h).imp_right fun hfit q hq => hfit q (hrest q hq)
    | softDelete u => exact ⟨h.softDeleteUser hp, fun q hq => (hrest q hq).of_users⟩
    | _ => exact ⟨h, hrest⟩
  | _ => exact ⟨h, hrest⟩

theorem fits_of_step {a : Step} (hok : Ordered s a) (h : Fits Owned Fit s) (hs : prog.step s a = some s') :
    Fits Owned Fit s' := by
  refine fits_step (P := prog) ?_ ?_ (fun _ => trivial) ?_ h hs
  · intro i k p _ hp
    cases i <;> cases hp <;> exact ⟨h.1, trivial, h.2⟩
  · rintro t c p k p' rest rfl hp hr hperm
    have hord : ordered s p = true := by simpa [Ordered, hp] using hok
    have hfit := h.2 p (hperm.mem_iff.mpr List.mem_cons_self)
    obtain ⟨hown, hrest⟩ := owned_run hord h.1 hfit hperm fun q hq =>
      h.2 q (hperm.mem_iff.mpr (List.mem_cons_of_mem _ hq))
    obtain rfl : (run s.core p).1 = k := congrArg Prod.fst (Option.some.inj hr)
    obtain rfl : (run s.core p).2 = p' := congrArg Prod.snd (Option.some.inj hr)
    exact ⟨hown, fit_run h.1 hfit, hrest⟩
  · intro r k _ he
    obtain ⟨t, ht, rfl⟩ := Option.map_eq_some_iff.mp he
    exact ⟨h.1.insertUser ht, fun q hq => (h.2 q hq).of_users⟩

/-- **Every live team has one owner**, whose account is not deleted, in every run of such statements. -/
theorem owner_remains (h : Reach prog.step Ordered (fun s => Owned s.core ∧ s.threads = []) s)
    (hl : s.core.live team = true) :
    ∃ m, (∀ m', OwnerOf s.core team m' ↔ m' = m) ∧ (s.core.getUserByID m.user).isSome := by
  have hI : Fits Owned Fit s := by
    refine Reach.invariant (fun s hs => ⟨hs.1, fun p hp => ?_⟩) (fun s a s' hI hok hs => fits_of_step hok hI hs) h
    rw [hs.2] at hp
    exact absurd hp List.not_mem_nil
  obtain ⟨m, ho, huniq⟩ := hI.1.one team hl
  refine ⟨m, fun m' => ⟨huniq m', ?_⟩, hI.1.alive team m hl ho⟩
  rintro rfl
  exact ho

instance decidableOrdered (s : Sys Db Proc) (a : Step) : Decidable (Ordered s a) := by
  unfold Ordered
  split <;> infer_instance

/-- Two users, no team. -/
def two : Sys Db Proc := ⟨⟨⟨[⟨1, .active, false⟩, ⟨2, .active, false⟩], by decide⟩, .empty, .empty⟩, []⟩

theorem two_owned : Owned two.core where
  team m hm := absurd hm List.not_mem_nil
  one team hl := by cases hl
  alive team m hl := by cases hl

/-- User 1 founds team 7 and adds user 2, who leaves the team and deletes their account. -/
def shared : List Step :=
  [.start (.createTeam 1 7), .act 0 (), .start (.request 1 7 (.addMember 2)), .act 1 (), .act 1 (), .act 1 (),
    .act 1 (), .start (.request 2 7 .leaveTeam), .act 2 (), .act 2 (), .start (.deleteAccount 2), .act 3 (), .act 3 (),
    .act 3 (), .act 3 (), .act 3 ()]

theorem shared_keeps_owner : ∃ m, (∀ m', OwnerOf (last prog.step two shared).core 7 m' ↔ m' = m) ∧
    ((last prog.step two shared).core.getUserByID m.user).isSome := by
  have hadm : Admits prog.step Ordered two shared := by decide +kernel
  exact owner_remains (.last ⟨two_owned, rfl⟩ hadm) (by decide +kernel)

/-- User 1, the owner of team 7, deletes the account; user 2 joins the team after the count, so that it is not among
the teams to be deleted. -/
theorem owner_deleted :
    (exec prog.step two
      [.start (.createTeam 1 7), .act 0 (), .start (.request 1 7 (.addMember 2)), .act 1 (), .act 1 (), .act 1 (),
        .start (.deleteAccount 1), .act 2 (), .act 2 (), .act 1 (), .act 2 (), .act 2 (), .act 2 ()]).map
      (fun s => (s.core.live 7, s.core.members.rows, (s.core.getUserByID 1).isSome)) =
      some (true, [⟨2, 7, .member⟩, ⟨1, 7, .owner⟩], false) := by
  decide +kernel

end Wrenn.Accounts.Owners
