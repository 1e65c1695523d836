import Wrenn.Volumes.Names

/-!
# The reservation of volumes for a create

`reserveVolumesForCreate` resolves the references one after the other, claims each volume that it has not seen yet,
and on any failure releases what it has claimed.  A statement may fail, or be executed although its caller gets an
error; both happen when the context is cancelled, which is also the context of the release.

* `Reserved`: the table and the result after some of the references, against the table of the beginning;
* `reserve_all_or_nothing_iff`: after a success exactly the volumes of the references are claimed; after a failure
  none is, exactly if at the reference where the call stops no claim is executed behind its back and every release is.
-/

namespace Wrenn.Volumes.Reservation

open Lib.Tables Names
open Ids.Base36 (UUID)
open ControlPlane.Database (VolumeStatus)

/-- The end of a statement, for its caller; `lost`: it was executed all the same. -/
inductive Reply
  | ok
  | failed
  | lost
  deriving DecidableEq, Repr

/-- The statements of a call: for the `i`-th reference, and the release of a volume. -/
inductive Statement
  | lookup (i : ℕ)
  | reserve (i : ℕ)
  | release (id : UUID)
  deriving DecidableEq

inductive Refusal
  | tooMany (max : ℕ)
  | unavailable
  | unresolved (e : Failure)
  | hostMismatch
  | inUse (name : List Char)
  deriving DecidableEq, Repr

def maxVolumesPerSandbox : ℕ := 4

structure ReservedVolume where
  id : UUID
  team : ℕ
  sizeMB : ℤ
  mountPath : List Char
  deriving DecidableEq

/-- `id.DefaultVolumeMountPath` -/
def defaultVolumeMountPath (id : UUID) : List Char := "/mnt/".toList ++ prefixVolume ++ numeral id

def reservedVolume (team : ℕ) (v : Volume) : ReservedVolume := ⟨v.id, team, v.sizeMB, defaultVolumeMountPath v.id⟩

/-- The variables of the loop, and the table. -/
structure Claim where
  rows : Rows
  seen : List UUID
  reserved : List ReservedVolume
  pinnedHost : Option ℕ

def setStatus (st : VolumeStatus) (v : Volume) : Volume := { v with status := st }

theorem setStatus_id (st : VolumeStatus) (v : Volume) : (setStatus st v).id = v.id := rfl

def reserveVolumeForAttach (d : Rows) (id : UUID) : Rows :=
  d.update (fun v => decide (v.id = id ∧ v.status = .detached)) (setStatus .attaching) (setStatus_id _)

def releaseVolumeReservation (d : Rows) (id : UUID) : Rows :=
  d.update (fun v => decide (v.id = id ∧ v.status = .attaching)) (setStatus .detached) (setStatus_id _)

section Code

variable (x : Text) (env : Statement → Reply) (team : ℕ)

/-- `Resolve`, whose only statement is its last step -/
def lookup (r : Reply) (d : Rows) (ref : List Char) : Except Failure Volume :=
  if r = .ok then resolve x d team ref else (resolve x d team ref).bind fun _ => .error .notFound

/-- The part of a turn of the loop that follows the lookup. -/
def claimVolume (i : ℕ) (c : Claim) (v : Volume) : Except (Refusal × Rows) Claim :=
  if v.id ∈ c.seen then .ok c
  else if ∃ h ∈ v.host, ∃ g ∈ c.pinnedHost, g ≠ h then .error (.hostMismatch, c.rows)
  else if env (.reserve i) = .failed ∨ ¬ ∃ r ∈ c.rows.select v.id, r.status = .detached then
    .error (.inUse v.name, c.rows)
  else if env (.reserve i) = .lost then .error (.inUse v.name, reserveVolumeForAttach c.rows v.id)
  else .ok ⟨reserveVolumeForAttach c.rows v.id, c.seen ++ [v.id],
    c.reserved ++ [reservedVolume team v], v.host <|> c.pinnedHost⟩

def turn (i : ℕ) (c : Claim) (ref : List Char) : Except (Refusal × Rows) Claim :=
  match lookup x team (env (.lookup i)) c.rows ref with
  | .error e => .error (.unresolved e, c.rows)
  | .ok v => claimVolume env team i c v

/-- A failed release is only logged. -/
def releaseVolumeReservations : List UUID → Rows → Rows
  | [], d => d
  | id :: ids, d =>
    releaseVolumeReservations ids (if env (.release id) = .failed then d else releaseVolumeReservation d id)

def loop : ℕ → List (List Char) → Claim → Rows × Except Refusal (List ReservedVolume × Option ℕ)
  | _, [], c => (c.rows, .ok (c.reserved, c.pinnedHost))
  | i, ref :: refs, c =>
    match turn x env team i c ref with
    | .error (e, d) => (releaseVolumeReservations env (c.reserved.map ReservedVolume.id) d, .error e)
    | .ok c' => loop (i + 1) refs c'

/-- `available`: the deployment has a `VolumeService`. -/
def reserveVolumesForCreate (available : Bool) (d : Rows) (volumeRefs : List (List Char)) :
    Rows × Except Refusal (List ReservedVolume × Option ℕ) :=
  if volumeRefs = [] then (d, .ok ([], none))
  else if maxVolumesPerSandbox < volumeRefs.length then (d, .error (.tooMany maxVolumesPerSandbox))
  else if available = false then (d, .error .unavailable)
  else loop x env team 0 volumeRefs ⟨d, [], [], none⟩

end Code

/-! ### Claimed rows -/

/-- The table with the volumes `ids` claimed. -/
def attach (d : Rows) (ids : List UUID) : Rows :=
  d.update (fun v => decide (v.id ∈ ids)) (setStatus .attaching) (setStatus_id _)

variable {x : Text} {env : Statement → Reply} {team : ℕ} {d : Rows} {id : UUID} {ids : List UUID}

theorem rows_ext {t t' : Rows} (h : t.rows = t'.rows) : t = t' := by
  cases t; cases t'; cases h; rfl

/-- What a reference means does not depend on the statuses. -/
theorem resolve_update {p : Volume → Bool} {st : VolumeStatus} {ref : List Char} :
    resolve x (d.update p (setStatus st) (setStatus_id st)) team ref =
      (resolve x d team ref).map fun v => if p v then setStatus st v else v := by
  have hfind : ∀ q : Volume → Bool, (∀ v, q (if p v then setStatus st v else v) = q v) →
      ((d.update p (setStatus st) (setStatus_id st)).rows.find? q) =
        (d.rows.find? q).map fun v => if p v then setStatus st v else v := by
    intro q hq
    simp only [Table.update, List.find?_map, Function.comp_def, hq]
  have hsplit : ∀ v, (if p v then setStatus st v else v).id = v.id ∧
      (if p v then setStatus st v else v).team = v.team ∧ (if p v then setStatus st v else v).name = v.name := by
    intro v
    split_ifs <;> exact ⟨rfl, rfl, rfl⟩
  unfold resolve
  split_ifs
  · rfl
  · cases parseVolumeID (trimSpace x ref) with
    | error e => rfl
    | ok id =>
      simp only [Except.bind, Names.get, getVolumeByTeam]
      rw [hfind _ fun v => by rw [(hsplit v).1, (hsplit v).2.1]]
      cases d.rows.find? _ <;> rfl
  · unfold resolveName
    cases volumeName x (trimSpace x ref) with
    | error e => rfl
    | ok n =>
      simp only [getVolumeByTeamAndName]
      rw [hfind _ fun v => by rw [(hsplit v).2.1, (hsplit v).2.2]]
      cases d.rows.find? _ <;> rfl

theorem reserve_attach (hid : id ∉ ids) (hrow : ∀ v ∈ d.rows, v.id = id → v.status = .detached) :
    reserveVolumeForAttach (attach d ids) id = attach d (ids ++ [id]) := by
  refine rows_ext ?_
  simp only [reserveVolumeForAttach, attach, Table.update, List.map_map]
  refine List.map_congr_left fun v hv => ?_
  simp only [Function.comp_apply, List.mem_append, List.mem_singleton, decide_eq_true_eq]
  by_cases hmem : v.id ∈ ids
  · have hne : v.id ≠ id := fun he => hid (he ▸ hmem)
    simp [hmem, setStatus, hne]
  · by_cases he : v.id = id
    · simp [he, hid, setStatus, hrow v hv he]
    · simp [hmem, he]

theorem release_attach (hid : id ∉ ids) (hrow : ∀ v ∈ d.rows, v.id = id → v.status = .detached) :
    releaseVolumeReservation (attach d (id :: ids)) id = attach d ids := by
  refine rows_ext ?_
  simp only [releaseVolumeReservation, attach, Table.update, List.map_map]
  refine List.map_congr_left fun v hv => ?_
  simp only [Function.comp_apply, List.mem_cons, decide_eq_true_eq]
  by_cases he : v.id = id
  · have hst : setStatus .detached v = v := by
      rw [← hrow v hv he]
      rfl
    simpa [he, hid, setStatus] using hst
  · simp only [he, false_or]
    rw [if_neg]
    rintro ⟨hid', -⟩
    split_ifs at hid' <;> exact he hid'

theorem release_all : ∀ {ids : List UUID}, (∀ id ∈ ids, env (.release id) ≠ .failed) → ids.Nodup →
    (∀ v ∈ d.rows, v.id ∈ ids → v.status = .detached) → releaseVolumeReservations env ids (attach d ids) = d := by
  intro ids
  induction ids with
  | nil =>
    intro _ _ _
    refine rows_ext ?_
    simp [releaseVolumeReservations, attach, Table.update]
  | cons id ids ih =>
    intro henv hnd hrow
    obtain ⟨hid, hnd⟩ := List.nodup_cons.mp hnd
    rw [releaseVolumeReservations, if_neg (henv id List.mem_cons_self),
      release_attach hid fun v hv he => hrow v hv (he ▸ List.mem_cons_self)]
    exact ih (fun i hi => henv i (List.mem_cons_of_mem _ hi)) hnd
      fun v hv hmem => hrow v hv (List.mem_cons_of_mem _ hmem)

/-- A claimed row that is not released. -/
theorem attaching_stays : ∀ {ids : List UUID} {t : Rows}, (id ∈ ids → env (.release id) = .failed) →
    (∃ r ∈ t.select id, r.status = .attaching) →
    ∃ r ∈ (releaseVolumeReservations env ids t).select id, r.status = .attaching := by
  intro ids
  induction ids with
  | nil => exact fun _ h => h
  | cons i ids ih =>
    intro t hid ht
    refine ih (fun h => hid (List.mem_cons_of_mem _ h)) ?_
    split_ifs with hrel
    · exact ht
    · have hne : id ≠ i := fun he => hrel (he ▸ hid (he ▸ List.mem_cons_self))
      obtain ⟨r, hr, hst⟩ := ht
      refine ⟨r, ?_, hst⟩
      rw [releaseVolumeReservation, Table.select_update, Option.mem_def.mp hr, Option.map_some, if_neg]
      · rfl
      · simp [Table.select_key hr, hne]

theorem release_ne {v : Volume} {t : Rows} (hmem : v ∈ d.rows) (hst : v.status = .detached)
    (hid : v.id ∈ ids → env (.release v.id) = .failed) (ht : t.select v.id = some (setStatus .attaching v)) :
    releaseVolumeReservations env ids t ≠ d := by
  rintro rfl
  obtain ⟨r, hr, hra⟩ := attaching_stays hid ⟨_, ht, rfl⟩
  rw [Table.select_mem hmem] at hr
  cases hr
  rw [hst] at hra
  cases hra

/-! ### The loop -/

/-- The volumes `rs` of the references `refs`, and they alone, have been claimed in `d`, which is `d'` now. -/
structure Reserved (x : Text) (team : ℕ) (d : Rows) (refs : List (List Char)) (rs : List ReservedVolume)
    (host : Option ℕ) (d' : Rows) : Prop where
  nodup : (rs.map ReservedVolume.id).Nodup
  meant : ∀ id, id ∈ rs.map ReservedVolume.id ↔ ∃ ref ∈ refs, ∃ v, resolve x d team ref = .ok v ∧ v.id = id
  detached : ∀ v ∈ d.rows, v.id ∈ rs.map ReservedVolume.id → v.status = .detached
  pinned : ∀ v ∈ d.rows, v.id ∈ rs.map ReservedVolume.id → ∀ h ∈ v.host, host = some h
  pinner : ∀ h ∈ host, ∃ v ∈ d.rows, v.id ∈ rs.map ReservedVolume.id ∧ h ∈ v.host
  rows : d' = attach d (rs.map ReservedVolume.id)

theorem reserved_nil : Reserved x team d [] [] none d where
  nodup := List.nodup_nil
  meant := by simp
  detached := fun _ _ h => absurd h List.not_mem_nil
  pinned := fun _ _ h => absurd h List.not_mem_nil
  pinner := nofun
  rows := rows_ext (by simp [attach, Table.update])

/-- The loop over `d` after the references `done`. -/
def Claimed (x : Text) (team : ℕ) (d : Rows) (done : List (List Char)) (c : Claim) : Prop :=
  c.seen = c.reserved.map ReservedVolume.id ∧ Reserved x team d done c.reserved c.pinnedHost c.rows

theorem mem_rows_of_resolve {ref : List Char} {v : Volume} (h : resolve x d team ref = .ok v) : v ∈ d.rows := by
  unfold resolve at h
  split_ifs at h
  · cases hp : parseVolumeID (trimSpace x ref) with
    | error e => rw [hp] at h; cases h
    | ok id =>
      rw [hp] at h
      simp only [Except.bind, Names.get] at h
      split at h
      · cases h
      · next hr => cases h; exact List.mem_of_find?_eq_some hr
  · unfold resolveName at h
    repeat' split at h
    all_goals cases h
    next hr => exact List.mem_of_find?_eq_some hr

theorem select_attach {v : Volume} (hv : v ∈ d.rows) (hid : v.id ∉ ids) : (attach d ids).select v.id = some v := by
  rw [attach, Table.select_update, Table.select_mem hv, Option.map_some, if_neg (by simpa using hid)]

/-- The lookup gives the row of the beginning, but for its status. -/
theorem lookup_attach (x : Text) (team : ℕ) (d : Rows) (ids : List UUID) (r : Reply) (ref : List Char) :
    (∃ v v', r = .ok ∧ resolve x d team ref = .ok v ∧ lookup x team r (attach d ids) ref = .ok v' ∧
      v'.id = v.id ∧ v'.host = v.host) ∨
    (∀ v, r = .ok → resolve x d team ref ≠ .ok v) ∧ ∃ e, lookup x team r (attach d ids) ref = .error e := by
  unfold lookup
  rw [attach, resolve_update]
  cases resolve x d team ref with
  | error e => exact .inr ⟨nofun, e, by split_ifs <;> rfl⟩
  | ok v =>
    by_cases hr : r = .ok
    · refine .inl ⟨v, _, hr, rfl, if_pos hr, ?_⟩
      dsimp only
      split_ifs <;> exact ⟨rfl, rfl⟩
    · exact .inr ⟨fun _ h => absurd h hr, .notFound, if_neg hr⟩

/-! ### Where a call stops -/

section Stops

variable (x : Text) (env : Statement → Reply) (team : ℕ) (d : Rows)

def Meant (refs : List (List Char)) (v : Volume) : Prop := ∃ ref ∈ refs, resolve x d team ref = .ok v

/-- After the references `done`: the volume is new, free, and on no other host than they. -/
def Claimable (done : List (List Char)) (v : Volume) : Prop :=
  ¬ Meant x team d done v ∧ v.status = .detached ∧
    ∀ w, Meant x team d done w → ∀ h ∈ v.host, ∀ g ∈ w.host, g = h

/-- The reference after `done` is looked up, and its volume is claimed with the reply `r`. -/
def Claims (r : Reply) (done : List (List Char)) (ref : List Char) : Prop :=
  env (.lookup done.length) = .ok ∧ ∃ v, resolve x d team ref = .ok v ∧ Claimable x team d done v ∧
    env (.reserve done.length) = r

def GoesOn (done : List (List Char)) (ref : List Char) : Prop :=
  (env (.lookup done.length) = .ok ∧ ∃ v, resolve x d team ref = .ok v ∧ Meant x team d done v) ∨
    Claims x env team d .ok done ref

/-- At the first reference that does not go on, no claim is executed that is reported as failed, and the volumes of the
references before it are released. -/
def GivesBack : List (List Char) → List (List Char) → Prop
  | _, [] => True
  | done, ref :: refs =>
    (GoesOn x env team d done ref → GivesBack (done ++ [ref]) refs) ∧
    (¬ GoesOn x env team d done ref →
      ¬ Claims x env team d .lost done ref ∧ ∀ v, Meant x team d done v → env (.release v.id) ≠ .failed)

end Stops

section Loop

variable {done : List (List Char)} {c c' : Claim} {i : ℕ} {ref : List Char}

theorem Claimed.mem_seen {v : Volume} (h : Claimed x team d done c) (hv : v ∈ d.rows) :
    v.id ∈ c.seen ↔ Meant x team d done v := by
  rw [h.1, h.2.meant]
  constructor
  · rintro ⟨ref, href, w, hw, hid⟩
    cases Table.eq_of_key (mem_rows_of_resolve hw) hv hid
    exact ⟨ref, href, hw⟩
  · rintro ⟨ref, href, hw⟩
    exact ⟨ref, href, v, hw, rfl⟩

/-- The host that the earlier volumes are on, if any. -/
theorem Claimed.mismatch {v : Volume} (h : Claimed x team d done c) :
    (∃ g ∈ v.host, ∃ k ∈ c.pinnedHost, k ≠ g) ↔
      ¬ ∀ w, Meant x team d done w → ∀ g ∈ v.host, ∀ k ∈ w.host, k = g := by
  push Not
  constructor
  · rintro ⟨g, hg, k, hk, hne⟩
    obtain ⟨w, hw, hid, hkw⟩ := h.2.pinner k hk
    exact ⟨w, (h.mem_seen hw).mp (h.1 ▸ hid), g, hg, k, hkw, hne⟩
  · rintro ⟨w, hw, g, hg, k, hk, hne⟩
    obtain ⟨ref, href, hres⟩ := id hw
    have hrow := mem_rows_of_resolve hres
    exact ⟨g, hg, k, h.2.pinned w hrow (h.1 ▸ (h.mem_seen hrow).mpr hw) k hk, hne⟩

/-- The volume of a claim that has just been made. -/
theorem Claimed.claim {v v' : Volume} (h : Claimed x team d done c) (hv : resolve x d team ref = .ok v)
    (hid : v'.id = v.id) (hhost : v'.host = v.host) (hc : Claimable x team d done v) :
    Claimed x team d (done ++ [ref]) ⟨reserveVolumeForAttach c.rows v'.id, c.seen ++ [v'.id],
      c.reserved ++ [reservedVolume team v'], v'.host <|> c.pinnedHost⟩ := by
  have hmem := mem_rows_of_resolve hv
  have hnew : v.id ∉ c.reserved.map ReservedVolume.id := h.1 ▸ fun hin => hc.1 ((h.mem_seen hmem).mp hin)
  have hfree : ∀ w ∈ d.rows, w.id = v.id → w.status = .detached := fun w hw he =>
    Table.eq_of_key hw hmem he ▸ hc.2.1
  have hmap : (c.reserved ++ [reservedVolume team v']).map ReservedVolume.id =
      c.reserved.map ReservedVolume.id ++ [v.id] := by
    rw [List.map_append, ← hid]
    rfl
  have hids : ∀ i, i ∈ (c.reserved ++ [reservedVolume team v']).map ReservedVolume.id ↔
      i ∈ c.reserved.map ReservedVolume.id ∨ i = v.id := fun i => by
    rw [hmap, List.mem_append, List.mem_singleton]
  rw [hid, hhost]
  refine ⟨by rw [hmap, h.1], ?_, fun i => ?_, fun w hw hin => ?_, fun w hw hin g hg => ?_, fun g hg => ?_, ?_⟩
  · rw [hmap]
    exact h.2.nodup.append (List.nodup_singleton _) (List.disjoint_singleton.mpr hnew)
  · rw [hids, h.2.meant i]
    simp only [List.mem_append, List.mem_singleton, or_and_right, exists_or, exists_eq_left, hv, Except.ok.injEq,
      exists_eq_left', eq_comm (a := i)]
  · exact ((hids _).mp hin).elim (h.2.detached w hw) (hfree w hw)
  · rcases (hids _).mp hin with hin | hin
    · have hpin := h.2.pinned w hw hin g hg
      cases hn : v.host with
      | none => exact hpin
      | some g' => exact congrArg some (hc.2.2 w ((h.mem_seen hw).mp (h.1 ▸ hin)) g' hn g hg).symm
    · cases Table.eq_of_key hw hmem hin
      rw [Option.mem_def.mp hg]
      rfl
  · cases hn : v.host with
    | none =>
      rw [hn] at hg
      obtain ⟨w, hw, hin, hgw⟩ := h.2.pinner g hg
      exact ⟨w, hw, (hids _).mpr (.inl hin), hgw⟩
    | some g' =>
      rw [hn] at hg
      cases hg
      exact ⟨v, hmem, (hids _).mpr (.inr rfl), hn⟩
  · rw [h.2.rows, hmap]
    exact reserve_attach hnew hfree

theorem Claimed.again {v : Volume} (h : Claimed x team d done c) (hv : resolve x d team ref = .ok v)
    (hold : Meant x team d done v) : Claimed x team d (done ++ [ref]) c := by
  refine ⟨h.1, h.2.nodup, fun i => ?_, h.2.detached, h.2.pinned, h.2.pinner, h.2.rows⟩
  have hin := (h.mem_seen (mem_rows_of_resolve hv)).mpr hold
  rw [h.1] at hin
  constructor
  · intro hi
    obtain ⟨r, hr, hw⟩ := (h.2.meant i).mp hi
    exact ⟨r, List.mem_append_left _ hr, hw⟩
  · rintro ⟨r, hr, w, hw, rfl⟩
    rcases List.mem_append.mp hr with hr | hr
    · exact (h.2.meant w.id).mpr ⟨r, hr, w, hw, rfl⟩
    · cases List.mem_singleton.mp hr
      cases hv.symm.trans hw
      exact hin

/-- **A turn of the loop.**  It goes on, claims behind its back, or leaves the table as it is. -/
theorem claimed_turn (env : Statement → Reply) (ref : List Char) (h : Claimed x team d done c) :
    (GoesOn x env team d done ref ∧
      ∃ c', turn x env team done.length c ref = .ok c' ∧ Claimed x team d (done ++ [ref]) c') ∨
    ¬ GoesOn x env team d done ref ∧ ∃ e d', turn x env team done.length c ref = .error (e, d') ∧
      (Claims x env team d .lost done ref ∧ (∃ v ∈ d.rows, ¬ Meant x team d done v ∧ v.status = .detached ∧
          d' = reserveVolumeForAttach c.rows v.id) ∨
        ¬ Claims x env team d .lost done ref ∧ d' = c.rows) := by
  unfold turn
  rcases lookup_attach x team d (c.reserved.map ReservedVolume.id) (env (.lookup done.length)) ref with
    ⟨v, v', hr, hv, hlook, hid, hhost⟩ | ⟨hno, e, hlook⟩
  · have hmem := mem_rows_of_resolve hv
    have hclaims : ∀ r, Claims x env team d r done ref ↔
        Claimable x team d done v ∧ env (.reserve done.length) = r := fun r => by
      simp [Claims, hr, hv]
    have hgoes : GoesOn x env team d done ref ↔
        Meant x team d done v ∨ Claimable x team d done v ∧ env (.reserve done.length) = .ok := by
      simp [GoesOn, hclaims, hr, hv]
    rw [← h.2.rows] at hlook
    rw [hlook, hgoes, hclaims]
    have hseen := h.mem_seen hmem
    have hhosts := h.mismatch (v := v)
    dsimp only [claimVolume]
    rw [hid, hhost]
    by_cases hold : Meant x team d done v
    · rw [if_pos (hseen.mpr hold)]
      exact .inl ⟨.inl hold, c, rfl, h.again hv hold⟩
    have hsel : c.rows.select v.id = some v := by
      rw [h.2.rows]
      exact select_attach hmem (h.1 ▸ mt hseen.mp hold)
    rw [if_neg (mt hseen.mp hold), hsel]
    by_cases hc : Claimable x team d done v
    · rw [if_neg fun hm => hhosts.mp hm hc.2.2]
      cases hrep : env (.reserve done.length) with
      | ok =>
        rw [if_neg (by simp [hc.2.1]), if_neg nofun]
        have hnext := h.claim hv hid hhost hc
        rw [hid, hhost] at hnext
        exact .inl ⟨.inr ⟨hc, rfl⟩, _, rfl, hnext⟩
      | failed =>
        rw [if_pos (.inl rfl)]
        exact .inr ⟨by simp [hold], _, _, rfl, .inr ⟨by simp, rfl⟩⟩
      | lost =>
        rw [if_neg (by simp [hc.2.1]), if_pos rfl]
        exact .inr ⟨by simp [hold], _, _, rfl, .inl ⟨⟨hc, rfl⟩, v, hmem, hold, hc.2.1, rfl⟩⟩
    · refine .inr ⟨by simp [hold, hc], ?_⟩
      split_ifs with hmis hres
      · exact ⟨_, _, rfl, .inr ⟨fun hl => hc hl.1, rfl⟩⟩
      · exact ⟨_, _, rfl, .inr ⟨fun hl => hc hl.1, rfl⟩⟩
      all_goals
        refine absurd ⟨hold, ?_, not_not.mp fun hn => hmis (hhosts.mpr hn)⟩ hc
        simpa using (not_or.mp hres).2
  · rw [← h.2.rows] at hlook
    have hnone : ∀ p : Volume → Prop,
        ¬ (env (.lookup done.length) = .ok ∧ ∃ v, resolve x d team ref = .ok v ∧ p v) :=
      fun p ⟨hr, v, hv, _⟩ => hno v hr hv
    rw [hlook]
    exact .inr ⟨not_or.mpr ⟨hnone _, hnone _⟩, _, _, rfl, .inr ⟨hnone _, rfl⟩⟩

/-- The release of what has been claimed. -/
theorem Claimed.release_iff (h : Claimed x team d done c) :
    releaseVolumeReservations env (c.reserved.map ReservedVolume.id) c.rows = d ↔
      ∀ v, Meant x team d done v → env (.release v.id) ≠ .failed := by
  constructor
  · intro heq v hv hrel
    obtain ⟨ref, href, hres⟩ := id hv
    have hmem := mem_rows_of_resolve hres
    have hin := h.1 ▸ (h.mem_seen hmem).mpr hv
    refine release_ne hmem (h.2.detached v hmem hin) (fun _ => hrel) ?_ heq
    rw [h.2.rows, attach, Table.select_update, Table.select_mem hmem, Option.map_some, if_pos (by simpa using hin)]
  · intro hrel
    rw [h.2.rows]
    refine release_all (fun i hi => ?_) h.2.nodup h.2.detached
    obtain ⟨ref, href, v, hv, rfl⟩ := (h.2.meant i).mp hi
    exact hrel v ⟨ref, href, hv⟩

/-- **The loop.** -/
theorem claimed_loop (env : Statement → Reply) : ∀ (refs : List (List Char)) {done : List (List Char)} {c : Claim},
    Claimed x team d done c →
    ((∀ e, (loop x env team done.length refs c).2 = .error e → (loop x env team done.length refs c).1 = d) ↔
      GivesBack x env team d done refs) ∧
    ∀ rs host, (loop x env team done.length refs c).2 = .ok (rs, host) →
      Reserved x team d (done ++ refs) rs host (loop x env team done.length refs c).1 := by
  intro refs
  induction refs with
  | nil =>
    intro done c h
    refine ⟨iff_of_true (fun e he => (by cases he)) trivial, fun rs host he => ?_⟩
    cases he
    rw [List.append_nil]
    exact h.2
  | cons ref refs ih =>
    intro done c h
    unfold loop GivesBack
    rcases claimed_turn env ref h with ⟨hgo, c', ht, h'⟩ | ⟨hgo, e, d', ht, hlost⟩
    · have hnext := ih h'
      rw [List.length_append, List.append_assoc] at hnext
      rw [ht]
      simpa [hgo] using hnext
    · rw [ht]
      refine ⟨?_, fun rs host he => (by cases he)⟩
      simp only [hgo, false_implies, not_false_eq_true, true_implies, true_and, Except.error.injEq, forall_eq']
      rcases hlost with ⟨hl, v, hmem, hnew, hst, rfl⟩ | ⟨hl, rfl⟩
      · refine iff_of_false (fun heq => ?_) fun hr => hr.1 hl
        have hin := mt (h.mem_seen hmem).mp hnew
        rw [h.1] at hin
        refine release_ne hmem hst (fun hid => absurd hid hin) ?_ heq
        rw [reserveVolumeForAttach, Table.select_update, h.2.rows, select_attach hmem hin, Option.map_some,
          if_pos (by simp [hst])]
      · rw [h.release_iff]
        exact (and_iff_right hl).symm

end Loop

/-! ### The result -/

/-- If the call fails, no row has changed, exactly if it gives back what it claimed.  If it succeeds, exactly the
volumes that the references mean are claimed, each once and from `detached`, and the pinned ones among them are all
pinned to the host that is returned. -/
theorem reserve_all_or_nothing_iff (x : Text) (env : Statement → Reply) (team : ℕ) (available : Bool) (d : Rows)
    (refs : List (List Char)) :
    ((∀ e, (reserveVolumesForCreate x env team available d refs).2 = .error e →
        (reserveVolumesForCreate x env team available d refs).1 = d) ↔
      (available = true → refs.length ≤ maxVolumesPerSandbox → GivesBack x env team d [] refs)) ∧
    ∀ rs host, (reserveVolumesForCreate x env team available d refs).2 = .ok (rs, host) →
      Reserved x team d refs rs host (reserveVolumesForCreate x env team available d refs).1 := by
  unfold reserveVolumesForCreate
  split_ifs with hnil hmany havail
  · subst hnil
    refine ⟨iff_of_true (fun e he => (by cases he)) fun _ _ => trivial, fun rs host he => ?_⟩
    cases he
    exact reserved_nil
  · exact ⟨iff_of_true (fun _ _ => rfl) fun _ h => absurd hmany (not_lt.mpr h), fun rs host he => (by cases he)⟩
  · exact ⟨iff_of_true (fun _ _ => rfl) fun h => by simp [h] at havail, fun rs host he => (by cases he)⟩
  · have hstart : Claimed x team d [] ⟨d, [], [], none⟩ := ⟨rfl, reserved_nil⟩
    have hloop := claimed_loop env refs hstart
    rwa [forall_prop_of_true (by simpa using havail), forall_prop_of_true (not_lt.mp hmany)]

/-! ### Runs -/

/-- Two volumes of a team, the second one in use. -/
def twoVolumes : Rows :=
  ⟨[⟨firstID, 7, "vl-a".toList, 100, .detached, none⟩,
    ⟨⟨List.replicate 16 2, rfl⟩, 7, "vl-b".toList, 100, .attached, some 3⟩], by decide⟩

/-- The context of a request that is cancelled after its first reservation. -/
def cancelled : Statement → Reply
  | .lookup 0 | .reserve 0 => .ok
  | _ => .failed

/-- **A reservation that stays.**  The second lookup fails because the context is cancelled, and so does the release. -/
theorem cancelled_keeps_reservation :
    (reserveVolumesForCreate ascii cancelled 7 true twoVolumes ["a".toList, "b".toList]).2 =
        .error (.unresolved .notFound) ∧
      (reserveVolumesForCreate ascii cancelled 7 true twoVolumes ["a".toList, "b".toList]).1.rows.map Volume.status =
        [.attaching, .attached] :=
  ⟨rfl, rfl⟩

end Wrenn.Volumes.Reservation
