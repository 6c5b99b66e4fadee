import SynQc.Library.Base64
import SynQc.Middleware.RequestSize

/-! Password hashes: `hash_password` and `verify_password`.

A stored value is four fields with `$` between them: the scheme, the iterations in decimal, and the salt and
the derived key in base64 without padding. Neither a numeral nor base64 has a `$` in it, so the fields come
apart as they were joined, and a password verifies against its own hash. Another one verifies only if PBKDF2
derives the same key from it (`verifyPassword_hashPassword`). PBKDF2 is a parameter that returns as many
bytes as it is asked for, or raises. -/
namespace SynQc.Auth
open Middleware (Bytes int)

/-- A Python string: code points, surrogates among them. -/
abbrev PyString := List (Fin 0x110000)

/-- The bytes of a code point; a surrogate has none. -/
def encodePoint (c : Fin 0x110000) : Option Bytes :=
  if c.val.isValidChar then some (String.utf8EncodeChar (Char.ofNat c.val)) else none

/-- `s.encode("utf-8")`, where none is the `UnicodeEncodeError`. -/
def encodeUtf8 (s : PyString) : Option Bytes := (s.mapM encodePoint).map List.flatten

/-- `pbkdf2_hmac("sha256", password, salt, iterations, dklen)`, where none is an exception. -/
abbrev Pbkdf2 := Bytes → Bytes → Int → (dklen : Nat) → Option {key : Bytes // key.length = dklen}

inductive HashError where
  | valueError (message : String)
  | unicodeEncodeError
  | pbkdf2
  deriving DecidableEq, Repr

/-! ### base64 without padding -/

def b64urlEncode (raw : Bytes) : String := String.ofList ((Base64.encode raw).rdropWhile (· = '='))

/-- Bytes of a character outside of ASCII are no digits, and are skipped like other characters. -/
def b64urlDecode (data : String) : Option Bytes :=
  Base64.decode (data.toList ++ Base64.padding data.toList.length)

theorem b64urlDecode_b64urlEncode (raw : Bytes) : b64urlDecode (b64urlEncode raw) = some raw := by
  rw [b64urlDecode, b64urlEncode, String.toList_ofList]
  exact Base64.decode_padded raw

theorem dollar_not_mem_b64urlEncode (raw : Bytes) : '$' ∉ (b64urlEncode raw).toList := by
  rw [b64urlEncode, String.toList_ofList, Base64.rdropWhile_encode]
  intro hmem
  obtain ⟨v, hv, heq⟩ := Base64.digits_of_six_bits raw '$' hmem
  exact (Base64.digit_spec v hv).2.2 heq.symm

/-! ### Hashing and verifying -/

/-- `str(n)`, which takes at most 4300 digits. -/
def strInt (n : Int) : Except HashError String :=
  if 4300 < (Nat.toDigits 10 n.natAbs).length then
    .error (.valueError
      "Exceeds the limit (4300 digits) for integer string conversion; use sys.set_int_max_str_digits() to increase the limit")
  else .ok (toString n)

def hashPassword (pbkdf2 : Pbkdf2) (password : PyString) (iterations : Int) (salt : Bytes) : Except HashError String :=
  if password.length < 8 then .error (.valueError "Password must be a string of length >= 8")
  else
    match encodeUtf8 password with
    | none => .error .unicodeEncodeError
    | some bytes =>
      match pbkdf2 bytes salt iterations 32 with
      | none => .error .pbkdf2
      | some dk => do
        let iters ← strInt iterations
        return "pbkdf2_sha256" ++ "$" ++ iters ++ "$" ++ b64urlEncode salt ++ "$" ++ b64urlEncode dk

/-- The text before and after the first `$`. -/
def cut (text : List Char) : Option (List Char × List Char) :=
  if '$' ∈ text then some (text.takeWhile (· ≠ '$'), (text.dropWhile (· ≠ '$')).tail) else none

/-- `scheme, iters_s, salt_b64, dk_b64 = stored.split("$", 3)`, where none is a wrong number of fields. -/
def splitFields (stored : String) : Option (String × String × String × String) := do
  let (scheme, rest) ← cut stored.toList
  let (iters, rest) ← cut rest
  let (salt, dk) ← cut rest
  return (String.ofList scheme, String.ofList iters, String.ofList salt, String.ofList dk)

/-- The body of the `try`, where none is an exception. The iterations are read as text of Latin-1, which
a stored value is. -/
def checkPassword (pbkdf2 : Pbkdf2) (password : PyString) (stored : String) : Option Bool := do
  let (scheme, itersS, saltB64, dkB64) ← splitFields stored
  if scheme ≠ "pbkdf2_sha256" then return false
  let iterations ← int itersS
  let salt ← b64urlDecode saltB64
  let expected ← b64urlDecode dkB64
  let bytes ← encodeUtf8 password
  let actual ← pbkdf2 bytes salt iterations expected.length
  return actual.val == expected

def verifyPassword (pbkdf2 : Pbkdf2) (password : PyString) (stored : String) : Bool :=
  (checkPassword pbkdf2 password stored).getD false

/-! ### The fields of a stored value -/

theorem cut_join {field : List Char} (h : '$' ∉ field) (rest : List Char) :
    cut (field ++ '$' :: rest) = some (field, rest) := by
  have hne : ∀ c ∈ field, decide (c ≠ '$') = true := by
    intro c hc
    exact decide_eq_true fun heq => h (heq ▸ hc)
  rw [cut, if_pos (List.mem_append_right _ List.mem_cons_self), List.takeWhile_append_of_pos hne,
    List.dropWhile_append_of_pos hne]
  simp

theorem splitFields_join {scheme iters salt dk : String} (hscheme : '$' ∉ scheme.toList) (hiters : '$' ∉ iters.toList)
    (hsalt : '$' ∉ salt.toList) :
    splitFields (scheme ++ "$" ++ iters ++ "$" ++ salt ++ "$" ++ dk) = some (scheme, iters, salt, dk) := by
  have hjoin : (scheme ++ "$" ++ iters ++ "$" ++ salt ++ "$" ++ dk).toList =
      scheme.toList ++ '$' :: (iters.toList ++ '$' :: (salt.toList ++ '$' :: dk.toList)) := by
    simp [String.toList_append]
  rw [splitFields, hjoin, cut_join hscheme]
  simp [cut_join hiters, cut_join hsalt, String.ofList_toList]

/-! ### The numeral -/

theorem toNat_of_isDigit {c : Char} (h : c.isDigit = true) : 48 ≤ c.toNat ∧ c.toNat ≤ 57 := by
  rw [Char.isDigit, Bool.and_eq_true, decide_eq_true_eq, decide_eq_true_eq] at h
  exact ⟨UInt32.le_iff_toNat_le.mp h.1, UInt32.le_iff_toNat_le.mp h.2⟩

theorem not_isIntSpace_of_isDigit {c : Char} (h : c.isDigit = true) : Middleware.isIntSpace c = false := by
  have hrange := toNat_of_isDigit h
  have hne : ∀ d : Char, d.toNat < 48 ∨ 57 < d.toNat → (c == d) = false := by
    intro d hd
    rw [beq_eq_false_iff_ne]
    rintro rfl
    omega
  have hle : decide (c ≤ '\r') = false := by
    rw [decide_eq_false_iff_not]
    intro hle
    have : c.toNat ≤ 13 := UInt32.le_iff_toNat_le.mp hle
    omega
  rw [Middleware.isIntSpace, hne ' ' (by decide), hne '\x85' (by decide), hne '\xa0' (by decide), hle]
  simp

theorem strip_of_isDigit {text : List Char} (h : ∀ c ∈ text, c.isDigit = true) :
    Middleware.strip Middleware.isIntSpace text = text := by
  have hdrop : ∀ l : List Char, (∀ c ∈ l, c.isDigit = true) → l.dropWhile Middleware.isIntSpace = l := by
    intro l hl
    cases l with
    | nil => rfl
    | cons c rest =>
      rw [List.dropWhile_cons, not_isIntSpace_of_isDigit (hl c List.mem_cons_self)]
      rfl
  rw [Middleware.strip, hdrop text h, hdrop text.reverse fun c hc => h c (List.mem_reverse.mp hc), List.reverse_reverse]

theorem digits_toDigits {n : Nat} (h : (Nat.toDigits 10 n).length ≤ 4300) :
    Middleware.digits (Nat.toDigits 10 n) = some n := by
  have hdigit : (Nat.toDigits 10 n).all Char.isDigit = true :=
    List.all_eq_true.mpr fun c hc => Nat.isDigit_of_mem_toDigits (by decide) (by decide) hc
  have hread : (Nat.toDigits 10 n).foldl (fun n c => 10 * n + (c.toNat - '0'.toNat)) 0 = n :=
    Nat.ofDigitChars_ten_toDigits
  rw [Middleware.digits, List.splitOn_eq_singleton Nat.underscore_not_in_toDigits, List.flatten_singleton, hread,
    if_pos]
  simp [hdigit, Nat.toDigits_ne_nil, h]

/-- A numeral of at most 4300 digits is read as its number. -/
theorem int_toString {n : Nat} (h : (Nat.toDigits 10 n).length ≤ 4300) : int (toString (n : Int)) = some (n : Int) := by
  have hdigit : ∀ c ∈ Nat.toDigits 10 n, c.isDigit = true :=
    fun c hc => Nat.isDigit_of_mem_toDigits (by decide) (by decide) hc
  have htext : (toString (n : Int)).toList = Nat.toDigits 10 n := Nat.toList_repr
  rw [int, htext, strip_of_isDigit hdigit]
  split
  · rename_i heq
    rw [heq] at hdigit
    exact absurd (hdigit '-' List.mem_cons_self) (by decide)
  · rename_i heq
    rw [heq] at hdigit
    exact absurd (hdigit '+' List.mem_cons_self) (by decide)
  · rw [digits_toDigits h]
    rfl

/-! ### A hash and its passwords -/

section
variable {pbkdf2 : Pbkdf2} {password other : PyString} {iterations : Int} {salt : Bytes} {stored : String}

/-- What `hash_password` stores, if it returns. -/
theorem hashPassword_ok (h : hashPassword pbkdf2 password iterations salt = .ok stored) :
    ∃ bytes dk, encodeUtf8 password = some bytes ∧ pbkdf2 bytes salt iterations 32 = some dk ∧
      (Nat.toDigits 10 iterations.natAbs).length ≤ 4300 ∧
      stored = "pbkdf2_sha256" ++ "$" ++ toString iterations ++ "$" ++ b64urlEncode salt ++ "$" ++ b64urlEncode dk := by
  rw [hashPassword] at h
  split at h
  · cases h
  · split at h
    · cases h
    · rename_i bytes hbytes
      split at h
      · cases h
      · rename_i dk hdk
        rw [strInt] at h
        split at h
        · cases h
        · obtain rfl := Except.ok.inj h
          exact ⟨bytes, dk, hbytes, hdk, by omega, rfl⟩

theorem dollar_not_mem_toString (n : Nat) : '$' ∉ (toString (n : Int)).toList := by
  intro hmem
  have hdigits : '$' ∈ Nat.toDigits 10 n := by rwa [← Nat.toList_repr]
  exact absurd (Nat.isDigit_of_mem_toDigits (by decide) (by decide) hdigits) (by decide)

/-- A password is checked against a stored value by one more key from it. -/
theorem verifyPassword_stored {n dklen : Nat} (hn : (Nat.toDigits 10 n).length ≤ 4300) (salt : Bytes)
    (dk : {key : Bytes // key.length = dklen}) :
    verifyPassword pbkdf2 other
        ("pbkdf2_sha256" ++ "$" ++ toString (n : Int) ++ "$" ++ b64urlEncode salt ++ "$" ++ b64urlEncode dk) = true ↔
      ∃ bytes, encodeUtf8 other = some bytes ∧ pbkdf2 bytes salt n dklen = some dk := by
  obtain ⟨key, rfl⟩ := dk
  rw [verifyPassword, checkPassword, splitFields_join (by decide) (dollar_not_mem_toString n)
    (dollar_not_mem_b64urlEncode salt)]
  simp only [Option.bind_eq_bind, Option.bind_some, int_toString hn, b64urlDecode_b64urlEncode, ne_eq,
    not_true_eq_false, if_false]
  cases encodeUtf8 other with
  | none => simp
  | some bytes =>
    cases hkey : pbkdf2 bytes salt n key.length with
    | none => simp [hkey]
    | some actual => simp [hkey, Subtype.ext_iff]

/-- **Password hashes verify**: a password verifies against what was stored for it, and another one only if
PBKDF2 derives the same key from it; base64 gives all bytes back, and has no `$`. -/
theorem verifyPassword_hashPassword (hiterations : 1 ≤ iterations)
    (h : hashPassword pbkdf2 password iterations salt = .ok stored) :
    verifyPassword pbkdf2 password stored = true ∧
      (∀ other, verifyPassword pbkdf2 other stored = true →
        ∃ bytes otherBytes dk, encodeUtf8 password = some bytes ∧ encodeUtf8 other = some otherBytes ∧
          pbkdf2 bytes salt iterations 32 = some dk ∧ pbkdf2 otherBytes salt iterations 32 = some dk) ∧
      ∀ raw, b64urlDecode (b64urlEncode raw) = some raw ∧ '$' ∉ (b64urlEncode raw).toList := by
  obtain ⟨bytes, dk, hbytes, hdk, hlen, rfl⟩ := hashPassword_ok h
  lift iterations to Nat using by omega
  refine ⟨(verifyPassword_stored hlen salt dk).mpr ⟨bytes, hbytes, hdk⟩, fun other hother => ?_, fun raw =>
    ⟨b64urlDecode_b64urlEncode raw, dollar_not_mem_b64urlEncode raw⟩⟩
  obtain ⟨otherBytes, hencode, hsame⟩ := (verifyPassword_stored hlen salt dk).mp hother
  exact ⟨bytes, otherBytes, dk, hbytes, hencode, hdk, hsame⟩

end

/-- A derivation that repeats its arguments, and raises where PBKDF2 does. -/
def repeatArguments : Pbkdf2 := fun password salt iterations dklen =>
  if iterations < 1 ∨ dklen = 0 then none
  else some ⟨(password ++ salt ++ List.replicate dklen 0).take dklen, by simp; omega⟩

/-- Eight letters with the default number of iterations. -/
theorem verifyPassword_hashPassword_letters :
    ∃ stored, hashPassword repeatArguments (List.replicate 8 97) 260000 (List.replicate 16 7) = .ok stored ∧
      verifyPassword repeatArguments (List.replicate 8 97) stored = true := by
  have h : ∃ stored, hashPassword repeatArguments (List.replicate 8 97) 260000 (List.replicate 16 7) = .ok stored :=
    ⟨_, rfl⟩
  obtain ⟨stored, hstored⟩ := h
  exact ⟨stored, hstored, (verifyPassword_hashPassword (by decide) hstored).1⟩

end SynQc.Auth
