import Mathlib.Data.List.Basic

/-!
# Percent encoding

`encode esc` writes every byte that `esc` names as `%` and two digits, and keeps the others; `decode` reads such a
text, and fails at a `%` without two digits after it.

* `decode_encode`: what is encoded can be read again, if `%` is among the bytes that are written so.
-/

namespace Wrenn.Lib.Percent

abbrev Text := List UInt8

def hexDigit (n : ℕ) : UInt8 := UInt8.ofNat (if n < 10 then 48 + n else 55 + n)

def unhex (c : UInt8) : Option ℕ :=
  if 48 ≤ c.toNat ∧ c.toNat ≤ 57 then some (c.toNat - 48)
  else if 65 ≤ c.toNat ∧ c.toNat ≤ 70 then some (c.toNat - 55)
  else if 97 ≤ c.toNat ∧ c.toNat ≤ 102 then some (c.toNat - 87)
  else none

def encodeByte (esc : UInt8 → Bool) (c : UInt8) : Text :=
  if esc c then [37, hexDigit (c.toNat / 16), hexDigit (c.toNat % 16)] else [c]

def encode (esc : UInt8 → Bool) (s : Text) : Text := s.flatMap (encodeByte esc)

def decode : Text → Option Text
  | [] => some []
  | c :: rest =>
    if c = 37 then
      match rest with
      | a :: b :: rest' =>
        match unhex a, unhex b with
        | some x, some y => (decode rest').map (UInt8.ofNat (16 * x + y) :: ·)
        | _, _ => none
      | _ => none
    else (decode rest).map (c :: ·)

variable {esc : UInt8 → Bool} {s t : Text} {c : UInt8}

theorem encode_append : encode esc (s ++ t) = encode esc s ++ encode esc t := List.flatMap_append

theorem encode_plain (h : ∀ c ∈ s, esc c = false) : encode esc s = s := by
  induction s with
  | nil => rfl
  | cons c s ih =>
    rw [encode, List.flatMap_cons, encodeByte, if_neg (by rw [h c List.mem_cons_self]; exact Bool.false_ne_true)]
    exact congrArg (c :: ·) (ih fun d hd => h d (List.mem_cons_of_mem _ hd))

theorem unhex_hexDigit : ∀ n < 16, unhex (hexDigit n) = some n := by decide

theorem decode_cons_ne (h : c ≠ 37) : decode (c :: s) = (decode s).map (c :: ·) := by
  conv_lhs => rw [decode.eq_def]
  exact if_neg h

/-- **Round trip.** -/
theorem decode_encode (hesc : esc 37 = true) : decode (encode esc s) = some s := by
  induction s with
  | nil => rfl
  | cons c s ih =>
    rw [encode, List.flatMap_cons]
    change decode (encodeByte esc c ++ encode esc s) = _
    unfold encodeByte
    split_ifs with hc
    · have hlt : c.toNat < 256 := c.toNat_lt
      have hdiv : 16 * (c.toNat / 16) + c.toNat % 16 = c.toNat := Nat.div_add_mod ..
      simp only [List.cons_append, List.nil_append, decode, if_true, unhex_hexDigit _ (show c.toNat / 16 < 16 by omega),
        unhex_hexDigit _ (show c.toNat % 16 < 16 by omega), ih, hdiv, UInt8.ofNat_toNat, Option.map_some]
    · have hne : c ≠ 37 := by
        rintro rfl
        exact hc hesc
      rw [List.cons_append, List.nil_append, decode_cons_ne hne, ih]
      rfl

end Wrenn.Lib.Percent
