import Mathlib.Data.List.DropRight
import Wrenn.ControlPlane.Database
import Wrenn.Ids.Base36

/-!
# Names of volumes

`VolumeName` brings a name to its normal form, `Create` files a volume under this form, and `Resolve` finds the
volume that a reference means.  A reference that begins with `vol-` is an id, whatever follows; every other one
is a name.

Strings are lists of characters.  `Text` is what `strings.ToLower` and `strings.TrimSpace` know of Unicode, of
which only the characters of a slug matter.

* `volumeName_idempotent`: a normal form is its own;
* `create_resolve_iff`: a volume is found under the name that it was created with exactly if that does not look like
  an id, or is its own.
-/

namespace Wrenn.Volumes.Names

open Lib.Tables
open Ids.Base36 (UUID uuidToBase36 formatUUID parseUUID parseUUID_formatUUID formatUUID_of_parseUUID)
open ControlPlane.Database (VolumeStatus)

/-! ### `validate.VolumeName` -/

/-- `[a-z0-9]` -/
def slugChar (c : Char) : Bool := ('a' ≤ c && c ≤ 'z') || ('0' ≤ c && c ≤ '9')

structure Text where
  lower : Char → Char
  space : Char → Bool
  lower_slug : ∀ c, slugChar c = true ∨ c = '-' → lower c = c
  space_slug : ∀ c, slugChar c = true ∨ c = '-' → space c = false

/-- The ASCII part of the tables. -/
def ascii : Text where
  lower := Char.toLower
  space := Char.isWhitespace
  lower_slug := by
    rintro c (h | rfl)
    · simp only [slugChar, Bool.or_eq_true, Bool.and_eq_true, decide_eq_true_eq, Char.le_def] at h
      unfold Char.toLower
      rw [dif_neg]
      rintro ⟨h1, h2⟩
      rcases h with h | h
      · exact absurd (UInt32.le_trans h.1 h2) (by decide)
      · exact absurd (UInt32.le_trans h1 h.2) (by decide)
    · rfl
  space_slug := by
    rintro c (h | rfl)
    · by_contra hs
      simp only [Bool.not_eq_false, Char.isWhitespace, Bool.or_eq_true, decide_eq_true_eq] at hs
      rcases hs with ((rfl | rfl) | rfl) | rfl <;> exact absurd h (by decide)
    · rfl

variable (x : Text)

def trimSpace (s : List Char) : List Char := (s.dropWhile x.space).rdropWhile x.space

def trimPrefix (p s : List Char) : List Char := if p.isPrefixOf s then s.drop p.length else s

def volumeNamePrefix : List Char := ['v', 'l', '-']

/-- `^[a-z0-9]+(-[a-z0-9]+)*$`; `first` at the first character of a group -/
def slugFrom (first : Bool) : List Char → Bool
  | [] => !first
  | c :: s => if slugChar c then slugFrom false s else c == '-' && !first && slugFrom true s

def slugRe (s : List Char) : Bool := slugFrom true s

/-- `len` counts bytes. -/
def len (s : List Char) : ℕ := (s.map Char.utf8Size).sum

def checkBody (body : List Char) : Except String (List Char) :=
  if body = [] then .error "volume name must have something after \"vl-\""
  else if 40 < len (volumeNamePrefix ++ body) then
    .error "volume name must be at most 40 characters including the \"vl-\" prefix"
  else if slugRe (volumeNamePrefix ++ body) then .ok (volumeNamePrefix ++ body)
  else
    .error ("volume name may only contain lowercase letters, numbers, and dashes " ++
      "(no leading, trailing, or repeated dashes)")

def normalized (name : List Char) : List Char := (trimSpace x name).map x.lower

def volumeName (name : List Char) : Except String (List Char) :=
  if normalized x name = [] then .error "volume name must not be empty"
  else checkBody (trimPrefix volumeNamePrefix (normalized x name))

/-! ### The table and the service -/

structure Volume where
  id : UUID
  team : ℕ
  name : List Char
  sizeMB : ℤ
  status : VolumeStatus
  /-- `host_id`, the pin -/
  host : Option ℕ
  deriving DecidableEq

abbrev Rows := Table Volume.id

/-- `UNIQUE (team_id, name)`, and the primary key -/
def insertVolume (d : Rows) (v : Volume) : Option Rows :=
  if d.rows.any fun r => decide (r.team = v.team ∧ r.name = v.name) then none else d.insert v

def getVolumeByTeam (d : Rows) (id : UUID) (team : ℕ) : Option Volume :=
  d.rows.find? fun r => decide (r.id = id ∧ r.team = team)

def getVolumeByTeamAndName (d : Rows) (team : ℕ) (name : List Char) : Option Volume :=
  d.rows.find? fun r => decide (r.team = team ∧ r.name = name)

inductive Failure
  | teamRequired
  /-- with the bound of the message -/
  | tooSmall (min : ℤ)
  | tooLarge (max : ℤ)
  | invalidName (why : String)
  | nameTaken (name : List Char)
  | referenceRequired
  | invalidID
  | invalidReference (why : String)
  | notFound
  /-- `base36ToUUID`, of a number that has more than 16 bytes -/
  | panics
  deriving DecidableEq, Repr

def prefixVolume : List Char := ['v', 'o', 'l', '-']

def utf8 (s : List Char) : List UInt8 := s.flatMap String.utf8EncodeChar

def parseVolumeID (s : List Char) : Except Failure UUID :=
  match parseUUID (utf8 prefixVolume) (utf8 s) with
  | .ok id => .ok id
  | .error _ => .error .invalidID
  | .panic => .error .panics

/-- The digits of an id. -/
def numeral (id : UUID) : List Char := (uuidToBase36 id).map fun b => Char.ofNat b.toNat

def minVolumeSizeMB : ℤ := 100

/-- The name that `Create` validates: a nameless volume is named after itself. -/
def givenName (id : UUID) (name : List Char) : List Char :=
  if trimSpace x name = [] then volumeNamePrefix ++ numeral id else name

/-- `VolumeService.Create`; `id` is what `id.NewVolumeID` gives. -/
def create (d : Rows) (maxSizeMB : ℤ) (id : UUID) (team : Option ℕ) (name : List Char) (sizeMB : ℤ) :
    Except Failure (Rows × Volume) :=
  match team with
  | none => .error .teamRequired
  | some team =>
    if sizeMB < minVolumeSizeMB then .error (.tooSmall minVolumeSizeMB)
    else if maxSizeMB < sizeMB then .error (.tooLarge maxSizeMB)
    else match volumeName x (givenName x id name) with
      | .error why => .error (.invalidName why)
      | .ok n =>
        match insertVolume d ⟨id, team, n, sizeMB, .detached, none⟩ with
        | none => .error (.nameTaken n)
        | some d' => .ok (d', ⟨id, team, n, sizeMB, .detached, none⟩)

def get (d : Rows) (id : UUID) (team : ℕ) : Except Failure Volume :=
  match getVolumeByTeam d id team with
  | none => .error .notFound
  | some v => .ok v

def resolveName (d : Rows) (team : ℕ) (ref : List Char) : Except Failure Volume :=
  match volumeName x ref with
  | .error why => .error (.invalidReference why)
  | .ok n =>
    match getVolumeByTeamAndName d team n with
    | none => .error .notFound
    | some v => .ok v

/-- `VolumeService.Resolve` -/
def resolve (d : Rows) (team : ℕ) (ref : List Char) : Except Failure Volume :=
  if trimSpace x ref = [] then .error .referenceRequired
  else if prefixVolume.isPrefixOf (trimSpace x ref) then
    (parseVolumeID (trimSpace x ref)).bind fun id => get d id team
  else resolveName x d team (trimSpace x ref)

/-! ### Normal forms -/

variable {x} {s n name ref : List Char}

theorem slugFrom_chars : ∀ {s : List Char} {first : Bool}, slugFrom first s = true →
    ∀ c ∈ s, slugChar c = true ∨ c = '-' := by
  intro s
  induction s with
  | nil => exact fun _ c hc => absurd hc List.not_mem_nil
  | cons a s ih =>
    intro first h c hc
    unfold slugFrom at h
    rcases List.mem_cons.mp hc with rfl | hc
    · split_ifs at h with ha
      · exact .inl ha
      · simp only [Bool.and_eq_true, beq_iff_eq] at h
        exact .inr h.1.1
    · split_ifs at h with ha
      · exact ih h c hc
      · simp only [Bool.and_eq_true] at h
        exact ih h.2 c hc

theorem trimSpace_of_chars (h : ∀ c ∈ s, x.space c = false) : trimSpace x s = s := by
  have hfst : s.dropWhile x.space = s := by
    cases s with
    | nil => rfl
    | cons a s => exact List.dropWhile_cons_of_neg (by simp [h a List.mem_cons_self])
  have hlast : s.rdropWhile x.space = s :=
    List.rdropWhile_eq_self_iff.mpr fun hne => by simp [h _ (List.getLast_mem hne)]
  rw [trimSpace, hfst, hlast]

theorem trimSpace_trimSpace : trimSpace x (trimSpace x s) = trimSpace x s := by
  have hfst : (trimSpace x s).dropWhile x.space = trimSpace x s := by
    refine List.dropWhile_eq_self_iff.mpr fun hpos => ?_
    have hpre : trimSpace x s <+: s.dropWhile x.space := List.rdropWhile_prefix _ _
    obtain ⟨tail, htail⟩ := hpre
    have hne : s.dropWhile x.space ≠ [] := by
      rintro he
      rw [he] at htail
      simp [(List.append_eq_nil_iff.mp htail).1] at hpos
    have hhead := List.head_dropWhile_not x.space hne
    rw [List.head_eq_getElem] at hhead
    simpa [← htail, List.getElem_append_left hpos] using hhead
  rw [trimSpace, hfst, trimSpace, List.rdropWhile_idempotent]

theorem normalized_trimSpace : normalized x (trimSpace x s) = normalized x s := by
  rw [normalized, trimSpace_trimSpace, normalized]

theorem volumeName_trimSpace : volumeName x (trimSpace x s) = volumeName x s := by
  rw [volumeName, normalized_trimSpace, volumeName]

theorem checkBody_ok (h : checkBody s = .ok n) : n = volumeNamePrefix ++ s ∧ s ≠ [] ∧ slugRe n = true := by
  unfold checkBody at h
  split_ifs at h with hne hlen hre
  cases h
  exact ⟨rfl, hne, hre⟩

/-- **A normal form is its own normal form.** -/
theorem volumeName_idempotent (h : volumeName x s = .ok n) : volumeName x n = .ok n := by
  unfold volumeName at h
  split_ifs at h with hempty
  obtain ⟨hn, -, hre⟩ := checkBody_ok h
  have hchars := slugFrom_chars hre
  have hself : normalized x n = n := by
    rw [normalized, trimSpace_of_chars fun c hc => x.space_slug c (hchars c hc)]
    exact List.map_congr_left (fun c hc => x.lower_slug c (hchars c hc)) |>.trans (List.map_id n)
  have hbody : trimPrefix volumeNamePrefix n = trimPrefix volumeNamePrefix (normalized x s) := by
    rw [hn, trimPrefix, if_pos (List.isPrefixOf_iff_prefix.mpr (List.prefix_append ..)), List.drop_left]
  rw [volumeName, hself, if_neg (by rw [hn]; exact List.cons_ne_nil _ _), hbody]
  exact h

/-! ### Create and resolve -/

/-- The reference is a name: it is not blank and does not begin with `vol-`. -/
def NameRef (x : Text) (ref : List Char) : Prop := trimSpace x ref ≠ [] ∧ ¬ prefixVolume <+: trimSpace x ref

instance : Decidable (NameRef x ref) := inferInstanceAs (Decidable (_ ∧ _))

variable {d d' : Rows} {maxSizeMB sizeMB : ℤ} {id : UUID} {team : ℕ} {v : Volume}

theorem resolve_of_nameRef (h : NameRef x ref) : resolve x d team ref = resolveName x d team ref := by
  rw [resolve, if_neg h.1, if_neg (by simpa using h.2), resolveName, volumeName_trimSpace, resolveName]

theorem resolveName_ok (h : resolveName x d team ref = .ok v) : volumeName x ref = .ok v.name := by
  unfold resolveName at h
  split at h
  · cases h
  · next n hn =>
    split at h
    · cases h
    · next r hr =>
      cases h
      have hrow := List.find?_some hr
      rw [hn, (of_decide_eq_true hrow).2]

theorem find_insertVolume (h : insertVolume d v = some d') {p : Volume → Bool} (hp : p v = true) :
    d'.rows.find? p = some v := by
  unfold insertVolume Table.insert at h
  split_ifs at h
  cases h
  exact List.find?_cons_of_pos hp

theorem create_ok (h : create x d maxSizeMB id (some team) name sizeMB = .ok (d', v)) :
    insertVolume d v = some d' ∧ v.id = id ∧ v.team = team ∧ volumeName x (givenName x id name) = .ok v.name := by
  simp only [create] at h
  split_ifs at h
  split at h
  · cases h
  · next n hn =>
    split at h
    · cases h
    · next hins =>
      cases h
      exact ⟨hins, rfl, rfl, hn⟩

theorem parseVolumeID_iff : parseVolumeID s = .ok id ↔ utf8 s = formatUUID (utf8 prefixVolume) id := by
  unfold parseVolumeID
  constructor
  · intro h
    split at h
    · next u hu =>
      cases h
      exact (formatUUID_of_parseUUID hu).symm
    · cases h
    · cases h
  · intro h
    rw [h, parseUUID_formatUUID]

/-- **A created volume is found under its name** exactly if that is neither blank nor looks like an id, or is the id of
the volume; and two names mean one volume exactly if their normal forms, which are their own, agree. -/
theorem create_resolve_iff (h : create x d maxSizeMB id (some team) name sizeMB = .ok (d', v)) :
    (resolve x d' team name = .ok v ↔
      NameRef x name ∨ utf8 (trimSpace x name) = formatUUID (utf8 prefixVolume) id) ∧
    (∀ s n, volumeName x s = .ok n → volumeName x n = .ok n) ∧
    ∀ r₁ r₂ v₁ v₂, NameRef x r₁ → NameRef x r₂ → resolve x d' team r₁ = .ok v₁ → resolve x d' team r₂ = .ok v₂ →
      (v₁ = v₂ ↔ volumeName x r₁ = volumeName x r₂) := by
  obtain ⟨hins, rfl, rfl, hn⟩ := create_ok h
  refine ⟨?_, fun s n => volumeName_idempotent, fun r₁ r₂ v₁ v₂ hr₁ hr₂ h₁ h₂ => ?_⟩
  · by_cases hname : NameRef x name
    · rw [givenName, if_neg hname.1] at hn
      refine iff_of_true ?_ (.inl hname)
      rw [resolve_of_nameRef hname, resolveName, hn]
      dsimp only
      rw [getVolumeByTeamAndName, find_insertVolume hins (by simp)]
    · rw [or_iff_right hname, resolve]
      by_cases hblank : trimSpace x name = []
      · rw [if_pos hblank, hblank]
        exact iff_of_false nofun nofun
      · rw [if_neg hblank, if_pos (by simpa [NameRef, hblank] using hname), ← parseVolumeID_iff]
        constructor
        · intro hr
          cases hp : parseVolumeID (trimSpace x name) with
          | error e => rw [hp] at hr; cases hr
          | ok u =>
            rw [hp] at hr
            simp only [Except.bind, get] at hr
            split at hr
            · cases hr
            · next hfind =>
              cases hr
              have hrow := List.find?_some hfind
              rw [(of_decide_eq_true hrow).1]
        · intro hp
          rw [hp]
          simp only [Except.bind, get, getVolumeByTeam]
          rw [find_insertVolume hins (by simp)]
  · rw [resolve_of_nameRef hr₁] at h₁
    rw [resolve_of_nameRef hr₂] at h₂
    constructor
    · rintro rfl
      rw [resolveName_ok h₁, resolveName_ok h₂]
    · intro hn
      rw [resolveName, ← hn, ← resolveName, h₁] at h₂
      cases h₂
      rfl

def firstID : UUID := ⟨List.replicate 16 1, rfl⟩

/-- `Cache` is filed as `vl-cache`, and found. -/
theorem cache_resolves : NameRef ascii "Cache ".toList ∧
    ∃ d' v, create ascii Table.empty 20480 firstID (some 7) "Cache ".toList 100 = .ok (d', v) ∧
      v.name = "vl-cache".toList ∧ resolve ascii d' 7 "Cache ".toList = .ok v := by
  have href : NameRef ascii "Cache ".toList := by decide +kernel
  obtain ⟨d', v, hc⟩ : ∃ d' v, create ascii Table.empty 20480 firstID (some 7) "Cache ".toList 100 = .ok (d', v) :=
    ⟨_, _, rfl⟩
  refine ⟨href, d', v, hc, ?_, (create_resolve_iff hc).1.mpr (.inl href)⟩
  cases hc
  rfl

/-- **A name that looks like an id.**  `vol-cache` is filed as `vl-vol-cache`; as a reference it is an id, and not a
valid one.  The blank name is accepted by `Create` and refused by `Resolve`. -/
theorem vol_name_lost :
    (∃ d' v, create ascii Table.empty 20480 firstID (some 7) "vol-cache".toList 100 = .ok (d', v) ∧
      v.name = "vl-vol-cache".toList ∧ resolve ascii d' 7 "vol-cache".toList = .error .invalidID) ∧
    ∃ d' v, create ascii Table.empty 20480 firstID (some 7) [] 100 = .ok (d', v) ∧
      resolve ascii d' 7 [] = .error .referenceRequired :=
  ⟨⟨_, _, rfl, rfl, rfl⟩, ⟨_, _, rfl, rfl⟩⟩

end Wrenn.Volumes.Names
