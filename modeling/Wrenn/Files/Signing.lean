import Mathlib

/-!
# Signed file URLs

A signature is the hash of path, operation, user name, access token and, if it expires, the expiration, joined by
colons.  The hash is a parameter without collisions, so the question is what the joined text determines.

* `signature_binds_iff`: two requests are told apart, whatever the token, exactly if their fields without the token make
  different texts; they do if neither a user name nor an operation has a colon in it and no user is called like an
  operation;
* `colon_user_reused`: two requests with one text.
-/

namespace Wrenn.Files.Signing

structure Request where
  path : List Char
  operation : List Char
  username : List Char
  expiration : Option ℤ
  deriving DecidableEq, Repr

variable (sha256 : List Char → List Char) (lossy : List UInt8 → List Char)

/-- The text that is hashed; `token` has been read as UTF-8. -/
def payload (token : List Char) (r : Request) : List Char :=
  r.path ++ ':' :: (r.operation ++ ':' :: (r.username ++ ':' :: (token ++
    match r.expiration with
    | some exp => ':' :: exp.repr.toList
    | none => [])))

/-- `generate_signature`; `lossy` is `String::from_utf8_lossy`. -/
def generateSignature (token : Option (List UInt8)) (r : Request) : Except String (List Char) :=
  match token with
  | none => .error "access token is not set"
  | some bytes => .ok (['v', '1', '_'] ++ sha256 (payload (lossy bytes) r))

/-- `validate_signing`, at the time `now` in seconds -/
def validateSigning (token : Option (List UInt8)) (headerToken signature : Option (List Char)) (r : Request) (now : ℤ) :
    Except String Unit :=
  match token with
  | none => .ok ()
  | some bytes =>
    match headerToken.filter (· ≠ []) with
    | some ht =>
      if bytes = (String.ofList ht).toUTF8.toList then .ok ()
      else .error "access token present in header but does not match"
    | none =>
      match signature with
      | none => .error "missing signature query parameter"
      | some sig =>
        match generateSignature sha256 lossy token r with
        | .error e => .error ("error generating signing key: " ++ e)
        | .ok expected =>
          if expected ≠ sig then .error "invalid signature"
          else if ∃ exp ∈ r.expiration, exp < now then .error "signature is already expired"
          else .ok ()

/-! ### The joined text -/

theorem colon_not_mem_repr (z : ℤ) : ':' ∉ z.repr.toList := by
  have hnat : ∀ n : ℕ, ':' ∉ n.repr.toList := by
    intro n h
    rw [Nat.repr, String.toList_ofList] at h
    exact absurd (Nat.isDigit_of_mem_toDigits (by decide) (by decide) h) (by decide)
  cases z with
  | ofNat n => exact hnat n
  | negSucc n =>
    rw [Int.repr, String.toList_append, List.mem_append, not_or]
    exact ⟨by decide, hnat _⟩

/-- The last field of a joined text. -/
theorem last_field {a b s t : List Char} (h : a ++ ':' :: s = b ++ ':' :: t) (hs : ':' ∉ s) (ht : ':' ∉ t) :
    a = b ∧ s = t := by
  rcases List.append_eq_append_iff.mp h with ⟨m, rfl, hm⟩ | ⟨m, rfl, hm⟩
  all_goals
    cases m with
    | nil => simpa [eq_comm] using hm
    | cons c m =>
      simp only [List.cons_append, List.cons.injEq] at hm
      simp [hm.2] at hs ht

theorem first_field {a b s t : List Char} (h : a ++ ':' :: s = b ++ ':' :: t) (ha : ':' ∉ a) (hb : ':' ∉ b) :
    a = b ∧ s = t := by
  have hrev := congrArg List.reverse h
  simp only [List.reverse_append, List.reverse_cons, List.append_assoc, List.singleton_append] at hrev
  obtain ⟨hs, ha⟩ := last_field hrev (by simpa using ha) (by simpa using hb)
  exact ⟨List.reverse_injective ha, List.reverse_injective hs⟩

/-- A token that a field can be taken from on the left and put on the right consists of it. -/
theorem rotated {t e : List Char} (ht : ':' ∉ t) (he : ':' ∉ e) :
    ∀ (n : ℕ) (token : List Char), token.length ≤ n → token ++ ':' :: e = t ++ ':' :: token → t = e := by
  intro n
  induction n with
  | zero =>
    intro token hlen h
    rw [List.length_eq_zero_iff.mp (Nat.le_zero.mp hlen)] at h
    obtain ⟨rfl, rfl⟩ := first_field h List.not_mem_nil ht
    rfl
  | succ n ih =>
    intro token hlen h
    by_cases hc : ':' ∈ token
    · obtain ⟨a, b, rfl, ha⟩ := List.eq_append_cons_of_mem hc
      rw [List.append_assoc, List.cons_append] at h
      obtain ⟨rfl, hrest⟩ := first_field h ha ht
      simp only [List.length_append, List.length_cons] at hlen
      exact ih b (by omega) hrest
    · obtain ⟨rfl, rfl⟩ := first_field h hc ht
      rfl

variable {token : List Char} {r₁ r₂ : Request}

/-- The text without token and expiration. -/
def head (r : Request) : List Char := (r.path ++ ':' :: r.operation) ++ ':' :: r.username

/-- The text without the token. -/
def joined (r : Request) : List Char := head r ++ r.expiration.elim [] fun exp => ':' :: exp.repr.toList

theorem payload_some {exp : ℤ} (h : r₁.expiration = some exp) :
    payload token r₁ = (head r₁ ++ ':' :: token) ++ ':' :: exp.repr.toList := by
  simp [payload, head, h]

theorem payload_none (h : r₁.expiration = none) : payload token r₁ = head r₁ ++ ':' :: token := by
  simp [payload, head, h]

theorem joined_some {exp : ℤ} (h : r₁.expiration = some exp) : joined r₁ = head r₁ ++ ':' :: exp.repr.toList := by
  rw [joined, h, Option.elim_some]

theorem joined_none (h : r₁.expiration = none) : joined r₁ = head r₁ := by
  rw [joined, h, Option.elim_none, List.append_nil]

/-- A text that ends in an expiration is one that ends in the token only if the expiration stands before it too. -/
theorem head_of_expiring {exp : ℤ}
    (h : (head r₁ ++ ':' :: token) ++ ':' :: exp.repr.toList = head r₂ ++ ':' :: token) :
    head r₂ = head r₁ ++ ':' :: exp.repr.toList := by
  -- the text before the token is longer by a field `t` on the right
  obtain ⟨t, ht, htok⟩ : ∃ t, head r₂ = head r₁ ++ ':' :: t ∧ token ++ ':' :: exp.repr.toList = t ++ ':' :: token := by
    have hlen := congrArg List.length h
    simp only [List.length_append, List.length_cons] at hlen
    rw [List.append_assoc, List.cons_append] at h
    rcases List.append_eq_append_iff.mp h with ⟨m, hm, hm'⟩ | ⟨m, hm, -⟩
    · cases m with
      | nil =>
        rw [hm, List.append_nil] at hlen
        omega
      | cons c t =>
        simp only [List.cons_append, List.cons.injEq] at hm'
        exact ⟨t, hm'.1 ▸ hm, hm'.2⟩
    · rw [hm, List.length_append] at hlen
      omega
  -- it has no colon, since the expiration has none
  have hcolon : ':' ∉ t := by
    have hcount := congrArg (List.count ':') htok
    simp only [List.count_append, List.count_cons_self,
      List.count_eq_zero_of_not_mem (colon_not_mem_repr exp)] at hcount
    exact List.count_eq_zero.mp (by omega)
  rw [ht, rotated hcolon (colon_not_mem_repr exp) _ token le_rfl htok]

theorem joined_of_payload (h : payload token r₁ = payload token r₂) : joined r₁ = joined r₂ := by
  cases h₁ : r₁.expiration <;> cases h₂ : r₂.expiration
  · rw [payload_none h₁, payload_none h₂] at h
    rw [joined_none h₁, joined_none h₂, List.append_cancel_right h]
  · rw [payload_none h₁, payload_some h₂] at h
    rw [joined_none h₁, joined_some h₂, head_of_expiring h.symm]
  · rw [payload_some h₁, payload_none h₂] at h
    rw [joined_some h₁, joined_none h₂, head_of_expiring h]
  · rw [payload_some h₁, payload_some h₂] at h
    obtain ⟨h, hrepr⟩ := last_field h (colon_not_mem_repr _) (colon_not_mem_repr _)
    rw [joined_some h₁, joined_some h₂, List.append_cancel_right h, hrepr]

/-- With the expiration for a token the texts agree. -/
theorem payload_of_joined (h : joined r₁ = joined r₂) :
    ∃ exp : ℤ, payload exp.repr.toList r₁ = payload exp.repr.toList r₂ := by
  cases h₁ : r₁.expiration with
  | none =>
    rw [joined_none h₁] at h
    cases h₂ : r₂.expiration with
    | none => exact ⟨0, by rw [payload_none h₁, payload_none h₂, h, joined_none h₂]⟩
    | some exp => exact ⟨exp, by rw [payload_none h₁, payload_some h₂, h, joined_some h₂]⟩
  | some exp =>
    rw [joined_some h₁] at h
    cases h₂ : r₂.expiration with
    | none => exact ⟨exp, by rw [payload_some h₁, payload_none h₂, h, joined_none h₂]⟩
    | some exp' =>
      rw [joined_some h₂] at h
      obtain ⟨h, hrepr⟩ := last_field h (colon_not_mem_repr _) (colon_not_mem_repr _)
      exact ⟨exp, by rw [payload_some h₁, payload_some h₂, h, hrepr]⟩

/-- The two requests cannot be taken for each other. -/
structure Clear (r₁ r₂ : Request) : Prop where
  operation : ':' ∉ r₁.operation ∧ ':' ∉ r₂.operation
  username : ':' ∉ r₁.username ∧ ':' ∉ r₂.username
  apart : r₁.username ≠ r₂.operation ∧ r₂.username ≠ r₁.operation

theorem joined_inj (hc : Clear r₁ r₂) (h : joined r₁ = joined r₂) : r₁ = r₂ := by
  have hall : head r₁ = head r₂ → r₁.expiration = r₂.expiration → r₁ = r₂ := by
    intro hhead hexp
    obtain ⟨hrest, husr⟩ := last_field hhead hc.username.1 hc.username.2
    obtain ⟨hpath, hop⟩ := last_field hrest hc.operation.1 hc.operation.2
    cases r₁; cases r₂
    simp_all
  cases h₁ : r₁.expiration <;> cases h₂ : r₂.expiration
  · rw [joined_none h₁, joined_none h₂] at h
    exact hall h (h₁.trans h₂.symm)
  · rw [joined_none h₁, joined_some h₂] at h
    obtain ⟨hrest, -⟩ := last_field h hc.username.1 (colon_not_mem_repr _)
    exact absurd (last_field hrest hc.operation.1 hc.username.2).2.symm hc.apart.2
  · rw [joined_some h₁, joined_none h₂] at h
    obtain ⟨hrest, -⟩ := last_field h (colon_not_mem_repr _) hc.username.2
    exact absurd (last_field hrest hc.username.1 hc.operation.2).2 hc.apart.1
  · rw [joined_some h₁, joined_some h₂] at h
    obtain ⟨h, hrepr⟩ := last_field h (colon_not_mem_repr _) (colon_not_mem_repr _)
    exact hall h (by rw [h₁, h₂, Int.repr_inj.mp (String.toList_inj.mp hrepr)])

/-! ### The result -/

variable {sha256 : List Char → List Char} {lossy : List UInt8 → List Char}

/-- A signature of `r₁` is accepted, by itself, for `r₂`. -/
def Reused (sha256 : List Char → List Char) (lossy : List UInt8 → List Char) (r₁ r₂ : Request) : Prop :=
  ∃ token headerToken sig now, headerToken.getD [] = [] ∧ generateSignature sha256 lossy token r₁ = .ok sig ∧
    validateSigning sha256 lossy token headerToken (some sig) r₂ now = .ok ()

theorem reused_iff (hsha : Function.Injective sha256) :
    Reused sha256 lossy r₁ r₂ ↔ ∃ bytes, payload (lossy bytes) r₁ = payload (lossy bytes) r₂ := by
  constructor
  · rintro ⟨token, headerToken, sig, now, hheader, hgen, hval⟩
    cases token with
    | none => cases hgen
    | some bytes =>
      have hnone : headerToken.filter (· ≠ []) = none := by
        cases headerToken with
        | none => rfl
        | some ht => simpa using hheader
      cases hgen
      simp only [validateSigning, hnone, generateSignature] at hval
      split_ifs at hval with hsig
      rw [not_not, List.append_cancel_left_eq] at hsig
      exact ⟨bytes, (hsha hsig).symm⟩
  · rintro ⟨bytes, h⟩
    refine ⟨some bytes, none, _, r₂.expiration.getD 0, rfl, rfl, ?_⟩
    simp only [validateSigning, Option.filter_none, generateSignature, h]
    rw [if_neg (not_not.mpr rfl), if_neg]
    rintro ⟨exp, hexp, hlt⟩
    rw [Option.mem_def.mp hexp] at hlt
    exact lt_irrefl _ hlt

/-- **A signature binds the request**, whatever the token and the time, exactly if no other request has the same text
without the token; and none has if user names and operations have no colon and no user is called like an operation. -/
theorem signature_binds_iff (hsha : Function.Injective sha256)
    (hlossy : ∀ exp : ℤ, ∃ bytes, lossy bytes = exp.repr.toList) :
    ((Reused sha256 lossy r₁ r₂ → r₁ = r₂) ↔ (joined r₁ = joined r₂ → r₁ = r₂)) ∧
      (Clear r₁ r₂ → joined r₁ = joined r₂ → r₁ = r₂) := by
  refine ⟨imp_congr_left ?_, joined_inj⟩
  rw [reused_iff hsha]
  constructor
  · rintro ⟨bytes, h⟩
    exact joined_of_payload h
  · intro h
    obtain ⟨exp, hexp⟩ := payload_of_joined h
    obtain ⟨bytes, hbytes⟩ := hlossy exp
    exact ⟨bytes, hbytes ▸ hexp⟩

/-! ### Two requests -/

/-- A request, with the operation of the source. -/
def read (path username : String) (expiration : Option ℤ) : Request :=
  ⟨path.toList, "read".toList, username.toList, expiration⟩

/-- The token `secret`. -/
def secret : Option (List UInt8) := some "secret".toUTF8.toList

def latin (bytes : List UInt8) : List Char := bytes.map fun b => Char.ofNat b.toNat

theorem latin_repr (exp : ℤ) : latin (exp.repr.toList.map fun c => UInt8.ofNat c.toNat) = exp.repr.toList := by
  have hbyte : ∀ c : Char, c.isDigit = true ∨ c = '-' → Char.ofNat (UInt8.ofNat c.toNat).toNat = c := by
    intro c hc
    have hlt : c.toNat < 256 := by
      rcases hc with hc | rfl
      · exact lt_of_le_of_lt (Char.isDigit_iff_toNat.mp hc).2 (by decide)
      · decide
    rw [UInt8.toNat_ofNat_of_lt' hlt, Char.ofNat_toNat]
  have hdigit : ∀ (n : ℕ), ∀ c ∈ n.repr.toList, c.isDigit = true := by
    intro n c hc
    rw [Nat.repr, String.toList_ofList] at hc
    exact Nat.isDigit_of_mem_toDigits (by decide) (by decide) hc
  rw [latin, List.map_map]
  refine (List.map_congr_left fun c hc => hbyte c ?_).trans (List.map_id _)
  cases exp with
  | ofNat n => exact .inl (hdigit n c hc)
  | negSucc n =>
    rw [Int.repr, String.toList_append, List.mem_append] at hc
    exact hc.symm.imp (hdigit _ c) fun h => by simpa using h

/-- Another path is told apart, also with a colon in the user name. -/
theorem other_path_refused : ¬ Reused id latin (read "/x" "a:b" none) (read "/y" "a:b" none) := fun h =>
  absurd ((signature_binds_iff Function.injective_id fun exp => ⟨_, latin_repr exp⟩).1.mpr
    (fun hj => absurd hj (by decide +kernel)) h) (by decide +kernel)

/-- **A signature for another file and another user.**  With the token `5:5` an expiring one is also accepted
without its expiration. -/
theorem colon_user_reused :
    (∃ sig, generateSignature id latin secret (read "/a" "u:read:root" none) = .ok sig ∧
      validateSigning id latin secret none (some sig) (read "/a:read:u" "root" none) 5 = .ok ()) ∧
    ∃ sig, generateSignature id latin (some "5:5".toUTF8.toList) (read "/a" "u" (some 5)) = .ok sig ∧
      validateSigning id latin (some "5:5".toUTF8.toList) none (some sig) (read "/a" "u:5" none) 9 = .ok () :=
  ⟨⟨_, rfl, by decide +kernel⟩, ⟨_, rfl, by decide +kernel⟩⟩

end Wrenn.Files.Signing
