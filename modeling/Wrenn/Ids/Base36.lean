import Wrenn.Lib.Numerals

/-!
# Identifiers

Outside the database an object is named by the kind of its identifier and its UUID in 25 digits of base 36.  A
string is the list of its bytes.  `base36ToUUID` reads runes, not bytes, but a byte outside ASCII begins a rune
outside the alphabet, so that the loop ends there either way.

* `parseUUID_formatUUID`: an identifier that was written is read back;
* `parseUUID_panics_iff`: there are more numerals than UUIDs, and the reader has no case for the others.
-/

namespace Wrenn.Ids.Base36

open Lib.Numerals

abbrev Text := List UInt8

def base36Alphabet : Text :=
  ['0', '1', '2', '3', '4', '5', '6', '7', '8', '9', 'a', 'b', 'c', 'd', 'e', 'f', 'g', 'h', 'i', 'j', 'k', 'l', 'm',
    'n', 'o', 'p', 'q', 'r', 's', 't', 'u', 'v', 'w', 'x', 'y', 'z'].map Char.toUInt8

def base36IDLen : ℕ := 25

structure UUID where
  bytes : Text
  size : bytes.length = 16
  deriving DecidableEq

/-- `big.Int.SetBytes` -/
def setBytes (b : Text) : ℕ := value 256 (b.map UInt8.toNat)

/-- `big.Int.Bytes`, without leading zeros -/
def bytes (n : ℕ) : Text := (Nat.digits 256 n).reverse.map UInt8.ofNat

def letter (d : ℕ) : UInt8 := base36Alphabet.getD d 0

/-- The loop fills its buffer from the last digit to the first. -/
def uuidToBase36 (u : UUID) : Text := (digits 36 base36IDLen (setBytes u.bytes)).map letter

inductive ParseError where
  /-- `expected %q prefix, got %q` -/
  | otherKind (kind s : Text)
  /-- `expected 25-char base36 ID, got %d` -/
  | length (got : ℕ)
  /-- `invalid base36 character: %c`; the rune is the first one of `rest`. -/
  | character (rest : Text)
  deriving DecidableEq

inductive Parsed where
  | ok (u : UUID)
  | error (e : ParseError)
  | panic
  deriving DecidableEq

/-- The loop over the digits, with the number read so far. -/
def readDigits : Text → ℕ → Except ParseError ℕ
  | [], n => .ok n
  | c :: rest, n =>
    match base36Alphabet.idxOf? c with
    | none => .error (.character (c :: rest))
    | some idx => readDigits rest (n * 36 + idx)

/-- `out[16-len(b):]` panics if `b` is longer than `out`. -/
def rightAlign (b : Text) : Parsed :=
  if h : b.length ≤ 16 then
    .ok ⟨List.replicate (16 - b.length) 0 ++ b, by rw [List.length_append, List.length_replicate, Nat.sub_add_cancel h]⟩
  else .panic

def base36ToUUID (s : Text) : Parsed :=
  if s.length ≠ base36IDLen then .error (.length s.length)
  else
    match readDigits s 0 with
    | .error e => .error e
    | .ok n => rightAlign (bytes n)

def formatUUID (kind : Text) (u : UUID) : Text := kind ++ uuidToBase36 u

def parseUUID (kind s : Text) : Parsed :=
  if s.take kind.length ≠ kind then .error (.otherKind kind s) else base36ToUUID (s.drop kind.length)

/-! ### Digits and letters -/

theorem idxOf_letter : ∀ d < 36, base36Alphabet.idxOf? (letter d) = some d := by decide

theorem letter_lt_iff : ∀ d < 36, ∀ e < 36, letter d < letter e ↔ d < e := by decide

theorem letter_inj : ∀ d < 36, ∀ e < 36, letter d = letter e → d = e := by decide

theorem letter_mem : ∀ d < 36, letter d ∈ base36Alphabet := by decide

theorem exists_letter : ∀ c ∈ base36Alphabet, ∃ d < 36, c = letter d := by decide +kernel

variable {s : Text} {ds : List ℕ} {n : ℕ}

theorem exists_digits (h : ∀ c ∈ s, c ∈ base36Alphabet) : ∃ ds : List ℕ, (∀ d ∈ ds, d < 36) ∧ s = ds.map letter := by
  induction s with
  | nil => exact ⟨[], List.forall_mem_nil _, rfl⟩
  | cons c s ih =>
    obtain ⟨ds, hds, rfl⟩ := ih fun c hc => h c (List.mem_cons_of_mem _ hc)
    obtain ⟨d, hd, rfl⟩ := exists_letter c (h c List.mem_cons_self)
    exact ⟨d :: ds, List.forall_mem_cons.mpr ⟨hd, hds⟩, rfl⟩

theorem readDigits_letters (h : ∀ d ∈ ds, d < 36) (n : ℕ) :
    readDigits (ds.map letter) n = .ok (ds.foldl (fun n d => n * 36 + d) n) := by
  induction ds generalizing n with
  | nil => rfl
  | cons d ds ih =>
    rw [List.map_cons, readDigits, idxOf_letter d (h d List.mem_cons_self)]
    exact ih (fun d hd => h d (List.mem_cons_of_mem _ hd)) _

theorem mem_of_readDigits {v : ℕ} (h : readDigits s n = .ok v) : ∀ c ∈ s, c ∈ base36Alphabet := by
  induction s generalizing n with
  | nil => exact List.forall_mem_nil _
  | cons c s ih =>
    rw [readDigits] at h
    rcases hi : base36Alphabet.idxOf? c with _ | idx
    · rw [hi] at h; cases h
    · rw [hi] at h
      refine List.forall_mem_cons.mpr ⟨?_, ih h⟩
      have : (base36Alphabet.idxOf? c).isSome := by rw [hi]; rfl
      exact List.isSome_idxOf?.mp this

/-! ### Bytes -/

theorem toNat_lt_of_mem {b : Text} : ∀ d ∈ b.map UInt8.toNat, d < 256 := by
  intro d hd
  obtain ⟨c, -, rfl⟩ := List.mem_map.mp hd
  exact c.toNat_lt

theorem setBytes_lt (u : UUID) : setBytes u.bytes < 256 ^ 16 := by
  have h := value_lt (b := 256) (by decide) (toNat_lt_of_mem (b := u.bytes))
  rwa [List.length_map, u.size] at h

theorem setBytes_lt_pow (u : UUID) : setBytes u.bytes < 36 ^ base36IDLen := (setBytes_lt u).trans (by decide +kernel)

theorem setBytes_inj {u v : UUID} (h : setBytes u.bytes = setBytes v.bytes) : u = v := by
  have hmap := value_inj (by decide) (by rw [List.length_map, List.length_map, u.size, v.size]) toNat_lt_of_mem
    toNat_lt_of_mem h
  have hbytes : u.bytes = v.bytes := List.map_injective_iff.mpr (fun _ _ => UInt8.toNat.inj) hmap
  cases u
  cases v
  cases hbytes
  rfl

theorem setBytes_lt_iff (u v : UUID) : setBytes u.bytes < setBytes v.bytes ↔ u.bytes < v.bytes := by
  rw [setBytes, setBytes, value_lt_value_iff (by decide) (by rw [List.length_map, List.length_map, u.size, v.size])
    toNat_lt_of_mem toNat_lt_of_mem]
  exact lex_map_iff (fun _ _ _ _ => UInt8.lt_iff_toNat_lt.symm) fun _ _ _ _ => UInt8.toNat.inj

theorem length_bytes_le_iff : (bytes n).length ≤ 16 ↔ n < 256 ^ 16 := by
  rw [bytes, List.length_map, List.length_reverse, Nat.digits_length_le_iff (by decide)]

/-- The leading zeros that `big.Int.Bytes` strips come back. -/
theorem rightAlign_bytes (h : n < 256 ^ 16) : ∃ u, rightAlign (bytes n) = .ok u ∧ setBytes u.bytes = n := by
  refine ⟨_, dif_pos (length_bytes_le_iff.mpr h), ?_⟩
  have hdigits : (bytes n).map UInt8.toNat = (Nat.digits 256 n).reverse := by
    rw [bytes, List.map_map]
    refine (List.map_congr_left fun d hd => ?_).trans (List.map_id _)
    exact UInt8.toNat_ofNat_of_lt' (Nat.digits_lt_base (by decide) (List.mem_reverse.mp hd))
  rw [setBytes, List.map_append, hdigits, List.map_replicate, value_append, value_eq_ofDigits, value_eq_ofDigits,
    List.reverse_replicate, List.reverse_reverse, Nat.ofDigits_digits]
  simp

theorem rightAlign_bytes_panics (h : 256 ^ 16 ≤ n) : rightAlign (bytes n) = .panic :=
  dif_neg fun hlen => absurd (length_bytes_le_iff.mp hlen) (Nat.not_lt.mpr h)

/-! ### Reading and writing -/

theorem base36ToUUID_letters (hlen : ds.length = base36IDLen) (h : ∀ d ∈ ds, d < 36) :
    base36ToUUID (ds.map letter) = rightAlign (bytes (value 36 ds)) := by
  rw [base36ToUUID, if_neg (by rw [List.length_map]; exact not_not.mpr hlen), readDigits_letters h]
  rfl

theorem parseUUID_append (kind ds : Text) : parseUUID kind (kind ++ ds) = base36ToUUID ds := by
  rw [parseUUID, List.take_left, List.drop_left, if_neg (not_not.mpr rfl)]

theorem append_of_parseUUID (kind s : Text) (h : ∀ e, parseUUID kind s ≠ .error e) :
    ∃ ds : List ℕ, s = kind ++ ds.map letter ∧ ds.length = base36IDLen ∧ ∀ d ∈ ds, d < 36 := by
  by_cases hk : s.take kind.length = kind
  · have hs : s.take kind.length ++ s.drop kind.length = s := List.take_append_drop ..
    rw [hk] at hs
    obtain ⟨t, rfl⟩ : ∃ t, s = kind ++ t := ⟨_, hs.symm⟩
    rw [parseUUID_append] at h
    by_cases hlen : t.length = base36IDLen
    · rcases hr : readDigits t 0 with e | n
      · refine absurd ?_ (h e)
        rw [base36ToUUID, if_neg (not_not.mpr hlen), hr]
      · obtain ⟨ds, hds, rfl⟩ := exists_digits (mem_of_readDigits hr)
        exact ⟨ds, rfl, by rwa [List.length_map] at hlen, hds⟩
    · exact absurd (if_pos hlen) (h _)
  · exact absurd (if_pos hk) (h _)

theorem parseUUID_formatUUID (kind : Text) (u : UUID) : parseUUID kind (formatUUID kind u) = .ok u := by
  obtain ⟨v, hv, hval⟩ := rightAlign_bytes (setBytes_lt u)
  rw [formatUUID, parseUUID_append, uuidToBase36,
    base36ToUUID_letters (length_digits ..) (lt_of_mem_digits (by decide)),
    value_digits (setBytes_lt_pow u), hv, setBytes_inj hval]

/-- An identifier that is read without a panic is the one that is written for its UUID. -/
theorem formatUUID_of_parseUUID {kind : Text} {u : UUID} (h : parseUUID kind s = .ok u) : formatUUID kind u = s := by
  obtain ⟨ds, rfl, hlen, hds⟩ := append_of_parseUUID kind s fun e he => by rw [h] at he; cases he
  rw [parseUUID_append, base36ToUUID_letters hlen hds] at h
  rcases Nat.lt_or_ge (value 36 ds) (256 ^ 16) with hv | hv
  · obtain ⟨v, hok, hval⟩ := rightAlign_bytes hv
    cases hok.symm.trans h
    rw [formatUUID, uuidToBase36, hval, digits_value (by decide) hds hlen]
  · rw [rightAlign_bytes_panics hv] at h
    cases h

theorem letters_lt_iff {es : List ℕ} (hd : ∀ d ∈ ds, d < 36) (he : ∀ d ∈ es, d < 36) :
    ds.map letter < es.map letter ↔ ds < es :=
  lex_map_iff (fun d h e h' => letter_lt_iff d (hd d h) e (he e h')) fun d h e h' => letter_inj d (hd d h) e (he e h')

theorem append_lt_append_iff (kind : Text) {t : Text} : kind ++ s < kind ++ t ↔ s < t := by
  induction kind with
  | nil => rfl
  | cons c kind ih => rw [List.cons_append, List.cons_append, List.cons_lt_cons_iff, ih]; simp

/-- **Identifiers.**  Every UUID has one identifier of each kind, in 25 digits, from which it is read back, and
identifiers are ordered like the bytes of the UUIDs. -/
theorem identifier_roundtrip (kind : Text) (u v : UUID) :
    parseUUID kind (formatUUID kind u) = .ok u ∧
      (∃ s, formatUUID kind u = kind ++ s ∧ s.length = 25 ∧ ∀ c ∈ s, c ∈ base36Alphabet) ∧
      (u ≠ v → formatUUID kind u ≠ formatUUID kind v) ∧
      (formatUUID kind u < formatUUID kind v ↔ u.bytes < v.bytes) := by
  refine ⟨parseUUID_formatUUID kind u, ⟨_, rfl, ?_, ?_⟩, fun hne h => hne ?_, ?_⟩
  · rw [uuidToBase36, List.length_map, length_digits]; rfl
  · intro c hc
    obtain ⟨d, hd, rfl⟩ := List.mem_map.mp hc
    exact letter_mem d (lt_of_mem_digits (by decide) d hd)
  · have := parseUUID_formatUUID kind u
    rw [h, parseUUID_formatUUID] at this
    cases this
    rfl
  · rw [formatUUID, formatUUID, append_lt_append_iff, uuidToBase36, uuidToBase36,
      letters_lt_iff (lt_of_mem_digits (by decide)) (lt_of_mem_digits (by decide)),
      digits_lt_iff (by decide) (setBytes_lt_pow u) (setBytes_lt_pow v), setBytes_lt_iff]

/-! ### Numerals without a UUID -/

def largest : UUID := ⟨List.replicate 16 255, rfl⟩

/-- After the kind stand 25 digits of a number that needs more than 16 bytes. -/
def Oversized (kind s : Text) : Prop :=
  ∃ ds, s = kind ++ ds ∧ ds.length = 25 ∧ (∀ c ∈ ds, c ∈ base36Alphabet) ∧ uuidToBase36 largest < ds

theorem largest_lt_iff (hlen : ds.length = base36IDLen) (h : ∀ d ∈ ds, d < 36) :
    uuidToBase36 largest < ds.map letter ↔ 256 ^ 16 ≤ value 36 ds := by
  have hval : setBytes largest.bytes + 1 = 256 ^ 16 := by decide +kernel
  rw [uuidToBase36, letters_lt_iff (lt_of_mem_digits (by decide)) h,
    ← value_lt_value_iff (by decide) (by rw [length_digits, hlen]) (lt_of_mem_digits (by decide)) h,
    value_digits (setBytes_lt_pow largest), ← hval, Nat.succ_le_iff]

theorem parseUUID_panics_iff (kind s : Text) : parseUUID kind s = .panic ↔ Oversized kind s := by
  constructor
  · intro h
    obtain ⟨ds, rfl, hlen, hds⟩ := append_of_parseUUID kind s fun e he => by rw [h] at he; cases he
    refine ⟨_, rfl, by rw [List.length_map]; exact hlen, ?_, (largest_lt_iff hlen hds).mpr ?_⟩
    · intro c hc
      obtain ⟨d, hd, rfl⟩ := List.mem_map.mp hc
      exact letter_mem d (hds d hd)
    · rw [parseUUID_append, base36ToUUID_letters hlen hds] at h
      by_contra hv
      obtain ⟨u, hu, -⟩ := rightAlign_bytes (Nat.not_le.mp hv)
      cases hu.symm.trans h
  · rintro ⟨t, rfl, hlen, hmem, hlt⟩
    obtain ⟨ds, hds, rfl⟩ := exists_digits hmem
    rw [List.length_map] at hlen
    rw [parseUUID_append, base36ToUUID_letters hlen hds, rightAlign_bytes_panics ((largest_lt_iff hlen hds).mp hlt)]

/-- **Reading an identifier.**  It is safe and accepts only what is written, unless the number is too large. -/
theorem parseUUID_canonical_iff (kind s : Text) :
    (parseUUID kind s ≠ .panic ∧ (∀ u, parseUUID kind s = .ok u → formatUUID kind u = s) ∧
      ∀ t u, parseUUID kind s = .ok u → parseUUID kind t = .ok u → s = t) ↔ ¬ Oversized kind s := by
  rw [← parseUUID_panics_iff]
  refine ⟨fun h => h.1, fun h => ⟨h, fun u => formatUUID_of_parseUUID, fun t u hs ht => ?_⟩⟩
  rw [← formatUUID_of_parseUUID hs, formatUUID_of_parseUUID ht]

/-- Twenty-five `z` behind the kind of a sandbox. -/
theorem largest_numeral_panics :
    parseUUID (['c', 'l', '-'].map Char.toUInt8)
        (['c', 'l', '-'].map Char.toUInt8 ++ List.replicate 25 (Char.toUInt8 'z')) =
      .panic := by
  decide +kernel

end Wrenn.Ids.Base36
