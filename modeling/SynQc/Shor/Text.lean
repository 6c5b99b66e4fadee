import SynQc.Library.BigEndian
import SynQc.Shor.Decrypt

/-! Messages as text: `text_to_int` and `int_to_text`.

A text is encrypted as the number of its UTF-8 bytes. A number that reads as a text gives back that number
when the text is encoded, but the leading zero bytes of a text are not in its number. In UTF-8 the only
character that begins with a zero byte is U+0000, so the texts that begin with it do not come back, and all
others do (`text_comes_back_iff`). -/
namespace SynQc.Shor
open Fallible

/-- `s.encode("utf-8")`. -/
def encodeUtf8 (s : String) : List UInt8 := s.toUTF8.data.toList

def textToInt (s : String) : ℕ :=
  let b := encodeUtf8 s
  if b.length = 0 then 0 else BigEndian.fromBytes b

structure RSAEncryptResponse where
  ciphertextInt : ℤ
  plaintextInt : ℤ
deriving DecidableEq

/-- The body of `/rsa/encrypt`, or the detail of its 400. A failure inside of the `try` is raised again with
the text of the exception, which for a refusal of the route itself begins with its status. -/
def rsaEncrypt (allowText : Bool) (plaintextInt : Option ℤ) (plaintextText : Option String) (N e : ℤ) :
    Except String RSAEncryptResponse := do
  if plaintextInt = none ∧ (plaintextText = none ∨ plaintextText = some "") then
    .error "Provide plaintext_int or plaintext_text."
  let m : ℤ ← match plaintextInt with
    | some m => .ok m
    | none =>
      if allowText then .ok (textToInt (plaintextText.getD ""))
      else .error "400: Text mode disabled by SYNQC_SHOR_ALLOW_TEXT=0."
  let c ← rsaEncryptInt m N e
  return { ciphertextInt := c, plaintextInt := m }

section Text
variable {s t : String} {n : ℤ}

/-! ### UTF-8 -/

/-- A string of bytes reads as the one text that encodes to it. -/
theorem fromUTF8?_eq_some_iff (b : List UInt8) : String.fromUTF8? ⟨b.toArray⟩ = some t ↔ b = encodeUtf8 t := by
  constructor
  · intro h
    rw [String.fromUTF8?] at h
    split at h
    · obtain rfl := Option.some.inj h
      rfl
    · cases h
  · rintro rfl
    exact dif_pos t.isValidUTF8

theorem encodeUtf8_eq (s : String) : encodeUtf8 s = s.toList.flatMap String.utf8EncodeChar := by
  rw [encodeUtf8, String.toUTF8_eq_toByteArray, ← String.utf8Encode_toList, List.utf8Encode,
    List.toList_data_toByteArray]

/-- U+0000 is the only character whose first byte is zero: the first byte of a longer one has its top bits
set. -/
theorem head?_utf8EncodeChar_eq_zero_iff (c : Char) :
    (String.utf8EncodeChar c).head? = some 0 ↔ c = '\x00' := by
  have hc : c = '\x00' ↔ c.val.toNat = 0 := by
    rw [← Char.val_inj, ← UInt32.toNat_inj]
    rfl
  have hofNat (m : ℕ) : some (UInt8.ofNat m) = some 0 ↔ m % 256 = 0 := by
    rw [Option.some.injEq, ← UInt8.toNat_inj, UInt8.toNat_ofNat']
    rfl
  rw [hc, String.utf8EncodeChar]
  split_ifs <;> rw [List.head?_cons, hofNat] <;> omega

theorem head?_encodeUtf8_eq_zero_iff : (encodeUtf8 s).head? = some 0 ↔ s.toList.head? = some '\x00' := by
  rw [encodeUtf8_eq]
  cases s.toList with
  | nil => simp only [List.flatMap_nil, List.head?_nil, reduceCtorEq]
  | cons c rest =>
    rw [List.flatMap_cons, List.head?_append_of_ne_nil _ String.utf8EncodeChar_ne_nil,
      head?_utf8EncodeChar_eq_zero_iff, List.head?_cons, Option.some.injEq]

/-! ### Texts and their numbers -/

theorem textToInt_eq (s : String) : textToInt s = BigEndian.fromBytes (encodeUtf8 s) := by
  rw [textToInt]
  split_ifs with hempty
  · rw [List.length_eq_zero_iff.mp hempty]
    rfl
  · rfl

/-- `n.to_bytes(length, byteorder="big")` with the length that is computed from the bits of the number. -/
theorem intToText_eq (hn : 0 < n) :
    intToText n = String.fromUTF8? ⟨(BigEndian.toBytesOf ((n.toNat.size + 7) / 8) n.toNat).toArray⟩ := by
  rw [intToText, if_neg (by omega), if_neg (by omega), BigEndian.toBytesOf_size]
  rfl

/-- A number reads as a text just if its bytes are those of the text. -/
theorem intToText_eq_some_iff (hn : 0 ≤ n) :
    intToText n = some t ↔ BigEndian.toBytes n.toNat = encodeUtf8 t := by
  rw [← fromUTF8?_eq_some_iff]
  obtain rfl | hpos := hn.eq_or_lt
  · rfl
  · rw [intToText_eq hpos, BigEndian.toBytesOf_size]

theorem intToText_textToInt_iff : intToText (textToInt s) = some s ↔ s.toList.head? ≠ some '\x00' := by
  rw [intToText_eq_some_iff (Int.natCast_nonneg _), Int.toNat_natCast, textToInt_eq,
    BigEndian.toBytes_fromBytes_iff, Ne, head?_encodeUtf8_eq_zero_iff]

theorem textToInt_of_intToText (hn : 0 ≤ n) (h : intToText n = some t) : (textToInt t : ℤ) = n := by
  rw [intToText_eq_some_iff hn] at h
  rw [textToInt_eq, ← h, BigEndian.fromBytes_toBytes, Int.toNat_of_nonneg hn]

/-- **A text comes back from its number** just if it does not begin with U+0000, and a number that reads as a
text always comes back from the text. -/
theorem text_comes_back_iff (s t : String) (n : ℤ) :
    (intToText (textToInt s) = some s ↔ s.toList.head? ≠ some '\x00') ∧
      (0 ≤ n → intToText n = some t → (textToInt t : ℤ) = n) :=
  ⟨intToText_textToInt_iff, textToInt_of_intToText⟩

/-- The text `é` is the number of the bytes C3 A9. -/
theorem text_comes_back_latin :
    intToText (textToInt "é") = some "é" ∧ (textToInt "é" : ℤ) = 50089 := by
  obtain ⟨htext, hnumber⟩ := text_comes_back_iff "é" "é" 50089
  have hback := htext.mpr (by decide +kernel)
  refine ⟨hback, hnumber (by decide) ?_⟩
  rw [← hback, show textToInt "é" = 50089 by decide +kernel]
  rfl

/-- The text of U+0000 alone is the number zero, which reads as the empty text. -/
theorem not_text_comes_back :
    ¬((∀ s : String, intToText (textToInt s) = some s) ∧
      ∀ (n : ℤ) (t : String), 0 ≤ n → intToText n = some t → (textToInt t : ℤ) = n) := by
  intro h
  have hzero : textToInt "\x00" = 0 := by decide +kernel
  have hback := h.1 "\x00"
  rw [hzero, Nat.cast_zero, intToText, if_neg (by decide), if_pos rfl, Option.some.injEq] at hback
  exact absurd hback (by decide)

/-! ### Through the routes -/

theorem rsaEncrypt_text {allowText : Bool} {N e : ℤ} {encrypted : RSAEncryptResponse}
    (h : rsaEncrypt allowText none (some s) N e = .ok encrypted) :
    s ≠ "" ∧ encrypted.plaintextInt = textToInt s ∧
      rsaEncryptInt encrypted.plaintextInt N e = .ok encrypted.ciphertextInt := by
  rw [rsaEncrypt] at h
  split at h
  · cases h
  · rename_i hs
    refine ⟨fun hempty => hs ⟨rfl, .inr (by rw [hempty])⟩, ?_⟩
    cases allowText with
    | false => cases h
    | true =>
      obtain ⟨m, hm, h⟩ := bind_eq_ok.mp h
      obtain ⟨c, hc, h⟩ := bind_eq_ok.mp h
      obtain rfl := Except.ok.inj h
      exact ⟨(Except.ok.inj hm).symm, hc⟩

/-- A text encrypted under a modulus that the derived exponent fits: if decryption answers, it is with
this text, except for those that begin with U+0000. -/
theorem plaintextText_eq_iff {maxNBits : ℤ} {allowText : Bool} {N frames fuel : ℕ} {e : ℤ} {draws : List (ℕ × ℕ)}
    {encrypted : RSAEncryptResponse} {response : RSADecryptResponse} (hN : 3 < N) (hfits : Fits N)
    (henc : rsaEncrypt allowText none (some s) N e = .ok encrypted)
    (hdec : rsaDecrypt maxNBits true frames N e encrypted.ciphertextInt fuel draws = .ok (some response)) :
    response.plaintextText = some s ↔ s.toList.head? ≠ some '\x00' := by
  obtain ⟨-, hm, hc⟩ := rsaEncrypt_text henc
  obtain ⟨-, -, -, -, htext⟩ := rsaDecrypt_some hN hdec
  rw [htext, if_pos rfl, neverWrong_of_fits hN hfits frames e _ _ fuel draws response hc hdec, hm]
  exact intToText_textToInt_iff

end Text

end SynQc.Shor
