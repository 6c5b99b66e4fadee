import Mathlib.Data.List.DropRight

/-! The URL-safe base64 of bytes.

Three bytes are four digits of six bits; at the end one or two bytes are padded with `=` to four
characters. The decoder is a lenient one: a machine over the characters that holds the digits of the
current group, skips what is no digit, and stops when the padding fills the group (`decodeFrom`). It gives
every encoding back (`decode_encode`), also when the padding was stripped and put back by the length alone
(`decode_padded`). -/
namespace Base64

def alphabet : List Char := "ABCDEFGHIJKLMNOPQRSTUVWXYZabcdefghijklmnopqrstuvwxyz0123456789-_".toList

/-- The digit of six bits. -/
def digit (v : Nat) : Char := alphabet.getD v 'A'

/-- The value of a digit, of this alphabet or of the standard one. -/
def valueOf (c : Char) : Option Nat :=
  if c = '+' then some 62
  else if c = '/' then some 63
  else alphabet.idxOf? c

/-! ### Encoding -/

/-- The digits without their padding. -/
def digits : List UInt8 → List Char
  | [] => []
  | [a] => [digit (a.toNat / 4), digit (a.toNat % 4 * 16)]
  | [a, b] => [digit (a.toNat / 4), digit (a.toNat % 4 * 16 + b.toNat / 16), digit (b.toNat % 16 * 4)]
  | a :: b :: c :: rest =>
    digit (a.toNat / 4) :: digit (a.toNat % 4 * 16 + b.toNat / 16) ::
      digit (b.toNat % 16 * 4 + c.toNat / 64) :: digit (c.toNat % 64) :: digits rest

/-- The padding that fills the last group. -/
def padding (length : Nat) : List Char := List.replicate ((4 - length % 4) % 4) '='

def encode (raw : List UInt8) : List Char := digits raw ++ padding (digits raw).length

/-! ### Decoding -/

/-- The decoder from a place in a group on: how many digits it has, the bits of them that are not yet in a
byte, and the padding since the last. -/
def decodeFrom : List Char → Nat → Nat → Nat → Option (List UInt8)
  | [], quadPos, _, _ => if quadPos = 0 then some [] else none
  | ch :: rest, quadPos, leftchar, pads =>
    if ch = '=' then
      if 2 ≤ quadPos then
        if 4 ≤ quadPos + (pads + 1) then some [] else decodeFrom rest quadPos leftchar (pads + 1)
      else decodeFrom rest quadPos leftchar pads
    else
      match valueOf ch with
      | none => decodeFrom rest quadPos leftchar pads
      | some v =>
        match quadPos with
        | 0 => decodeFrom rest 1 v 0
        | 1 => (decodeFrom rest 2 (v % 16) 0).map (UInt8.ofNat (leftchar * 4 + v / 16) :: ·)
        | 2 => (decodeFrom rest 3 (v % 4) 0).map (UInt8.ofNat (leftchar * 16 + v / 4) :: ·)
        | _ => (decodeFrom rest 0 0 0).map (UInt8.ofNat (leftchar * 64 + v) :: ·)

def decode (text : List Char) : Option (List UInt8) := decodeFrom text 0 0 0

/-! ### The digits -/

theorem digit_spec : ∀ v < 64, valueOf (digit v) = some v ∧ digit v ≠ '=' ∧ digit v ≠ '$' := by
  decide +kernel

theorem digit_ne_pad (v : Nat) (h : v < 64) : digit v ≠ '=' := (digit_spec v h).2.1

theorem digits_of_six_bits (raw : List UInt8) : ∀ ch ∈ digits raw, ∃ v < 64, ch = digit v := by
  induction raw using digits.induct with
  | case1 => simp [digits]
  | case2 a =>
    have ha := a.toNat_lt
    simp only [digits, List.forall_mem_cons]
    exact ⟨⟨_, by omega, rfl⟩, ⟨_, by omega, rfl⟩, by simp⟩
  | case3 a b =>
    have ha := a.toNat_lt
    have hb := b.toNat_lt
    simp only [digits, List.forall_mem_cons]
    exact ⟨⟨_, by omega, rfl⟩, ⟨_, by omega, rfl⟩, ⟨_, by omega, rfl⟩, by simp⟩
  | case4 a b c rest ih =>
    have ha := a.toNat_lt
    have hb := b.toNat_lt
    have hc := c.toNat_lt
    simp only [digits, List.forall_mem_cons]
    exact ⟨⟨_, by omega, rfl⟩, ⟨_, by omega, rfl⟩, ⟨_, by omega, rfl⟩, ⟨_, by omega, rfl⟩, ih⟩

/-! ### The round trip -/

section Steps
variable {v leftchar pads : Nat} (rest : List Char)

theorem decodeFrom_zero (h : v < 64) : decodeFrom (digit v :: rest) 0 leftchar pads = decodeFrom rest 1 v 0 := by
  rw [decodeFrom, if_neg (digit_ne_pad v h), (digit_spec v h).1]
  rfl

theorem decodeFrom_one (h : v < 64) : decodeFrom (digit v :: rest) 1 leftchar pads =
    (decodeFrom rest 2 (v % 16) 0).map (UInt8.ofNat (leftchar * 4 + v / 16) :: ·) := by
  rw [decodeFrom, if_neg (digit_ne_pad v h), (digit_spec v h).1]
  rfl

theorem decodeFrom_two (h : v < 64) : decodeFrom (digit v :: rest) 2 leftchar pads =
    (decodeFrom rest 3 (v % 4) 0).map (UInt8.ofNat (leftchar * 16 + v / 4) :: ·) := by
  rw [decodeFrom, if_neg (digit_ne_pad v h), (digit_spec v h).1]
  rfl

theorem decodeFrom_three (h : v < 64) : decodeFrom (digit v :: rest) 3 leftchar pads =
    (decodeFrom rest 0 0 0).map (UInt8.ofNat (leftchar * 64 + v) :: ·) := by
  rw [decodeFrom, if_neg (digit_ne_pad v h), (digit_spec v h).1]
  rfl

end Steps

theorem ofNat_eq {n : Nat} {a : UInt8} (h : n = a.toNat) : UInt8.ofNat n = a := by
  rw [h, UInt8.ofNat_toNat]

/-- Every byte string is decoded from its digits and their padding. -/
theorem decode_encode (raw : List UInt8) : decode (encode raw) = some raw := by
  rw [encode, decode]
  induction raw using digits.induct with
  | case1 => rfl
  | case2 a =>
    have ha := a.toNat_lt
    rw [digits, List.cons_append, List.cons_append, decodeFrom_zero _ (by omega), decodeFrom_one _ (by omega),
      ofNat_eq (a := a) (by omega)]
    rfl
  | case3 a b =>
    have ha := a.toNat_lt
    have hb := b.toNat_lt
    rw [digits, List.cons_append, List.cons_append, List.cons_append, decodeFrom_zero _ (by omega),
      decodeFrom_one _ (by omega), decodeFrom_two _ (by omega), ofNat_eq (a := a) (by omega),
      ofNat_eq (a := b) (by omega)]
    rfl
  | case4 a b c rest ih =>
    have ha := a.toNat_lt
    have hb := b.toNat_lt
    have hc := c.toNat_lt
    have hpad : padding ((digits rest).length + 1 + 1 + 1 + 1) = padding (digits rest).length := by
      rw [padding, padding, show ((digits rest).length + 1 + 1 + 1 + 1) % 4 = (digits rest).length % 4 by omega]
    simp only [digits, List.length_cons, hpad, List.cons_append]
    rw [decodeFrom_zero _ (by omega), decodeFrom_one _ (by omega), decodeFrom_two _ (by omega),
      decodeFrom_three _ (by omega), ih, ofNat_eq (a := a) (by omega), ofNat_eq (a := b) (by omega),
      ofNat_eq (a := c) (by omega)]
    rfl

/-- The padding is what can be stripped from the right. -/
theorem rdropWhile_encode (raw : List UInt8) : (encode raw).rdropWhile (· = '=') = digits raw := by
  have hstrip : ∀ k, (digits raw ++ List.replicate k '=').rdropWhile (· = '=') = digits raw := by
    intro k
    induction k with
    | zero =>
      rw [List.replicate_zero, List.append_nil, List.rdropWhile_eq_self_iff]
      intro hne
      obtain ⟨v, hv, heq⟩ := digits_of_six_bits raw _ (List.getLast_mem hne)
      rw [heq]
      simpa using digit_ne_pad v hv
    | succ k ih => rw [List.replicate_succ', ← List.append_assoc, List.rdropWhile_concat_pos _ _ _ (by decide), ih]
  exact hstrip _

/-- With the padding put back by the length alone. -/
theorem decode_padded (raw : List UInt8) :
    decode ((encode raw).rdropWhile (· = '=') ++ padding ((encode raw).rdropWhile (· = '=')).length) = some raw := by
  rw [rdropWhile_encode]
  exact decode_encode raw

end Base64
