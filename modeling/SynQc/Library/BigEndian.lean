import Mathlib.Data.List.GetD
import Mathlib.Data.Nat.Digits.Lemmas
import Mathlib.Data.Nat.Size

/-! The big-endian bytes of a number.

A number is written in as few bytes as hold its bits (`toBytesOf_size`), the most significant first, and read
by taking one byte after the other. Reading gives back what was written (`fromBytes_toBytes`). The other way the leading zero
bytes are lost: writing gives back just the strings of bytes that have none (`toBytes_fromBytes_iff`). -/
namespace BigEndian

/-- The number that a string of bytes stands for. -/
def fromBytes (bytes : List UInt8) : ℕ := bytes.foldl (fun n b => 256 * n + b.toNat) 0

/-- The shortest string of bytes that stands for a number. -/
def toBytes (n : ℕ) : List UInt8 := (Nat.digits 256 n).reverse.map UInt8.ofNat

/-- The bytes of a number in a given length, which may be longer or cut off the most significant. -/
def toBytesOf (length n : ℕ) : List UInt8 := ((List.range length).map fun i => UInt8.ofNat (n / 256 ^ i)).reverse

/-! ### As digits -/

theorem fromBytes_concat (bytes : List UInt8) (b : UInt8) :
    fromBytes (bytes ++ [b]) = 256 * fromBytes bytes + b.toNat := by
  rw [fromBytes, List.foldl_append]
  rfl

theorem fromBytes_eq_ofDigits (bytes : List UInt8) :
    fromBytes bytes = Nat.ofDigits 256 (bytes.reverse.map UInt8.toNat) := by
  induction bytes using List.reverseRecOn with
  | nil => rfl
  | append_singleton bytes b ih =>
    rw [fromBytes_concat, ih, List.reverse_append, List.reverse_singleton, List.singleton_append, List.map_cons,
      Nat.ofDigits_cons]
    exact Nat.add_comm ..

theorem toNat_toBytes (n : ℕ) : (toBytes n).reverse.map UInt8.toNat = Nat.digits 256 n := by
  rw [toBytes, ← List.map_reverse, List.reverse_reverse, List.map_map]
  refine (List.map_congr_left fun d hd => ?_).trans (List.map_id _)
  exact Nat.mod_eq_of_lt (Nat.digits_lt_base (by decide) hd)

/-- A number of `k` bits takes the bytes that hold `k` bits. -/
theorem toBytes_length (n : ℕ) : (toBytes n).length = (n.size + 7) / 8 := by
  rw [toBytes, List.length_map, List.length_reverse]
  refine eq_of_forall_ge_iff fun k => ?_
  have hpow : 256 ^ k = 2 ^ (8 * k) := by simp only [pow_mul, Nat.reducePow]
  rw [Nat.digits_length_le_iff (by decide), hpow, ← Nat.size_le]
  omega

/-- The shortest string of bytes is the one of the length that holds the number's bits. -/
theorem toBytesOf_size (n : ℕ) : toBytesOf ((n.size + 7) / 8) n = toBytes n := by
  rw [← toBytes_length, toBytesOf, toBytes, List.length_map, List.length_reverse, List.map_reverse, List.reverse_inj]
  refine List.ext_getElem (by simp) fun i hi _ => ?_
  rw [List.length_map, List.length_range] at hi
  have hdigit := Nat.getD_digits n i (show 2 ≤ 256 by decide)
  rw [List.getD_eq_getElem _ _ hi] at hdigit
  rw [List.getElem_map, List.getElem_map, List.getElem_range, hdigit, ← UInt8.toNat_inj]
  simp

/-! ### Back and forth -/

theorem fromBytes_toBytes (n : ℕ) : fromBytes (toBytes n) = n := by
  rw [fromBytes_eq_ofDigits, toNat_toBytes, Nat.ofDigits_digits]

/-- No number is written with a leading zero. -/
theorem head?_toBytes (n : ℕ) : (toBytes n).head? ≠ some 0 := by
  intro h
  have hn : n ≠ 0 := by
    rintro rfl
    cases h
  have hlast := Nat.getLast_digit_ne_zero 256 hn
  have hdigit := congrArg (Option.map UInt8.toNat) h
  rw [List.head?_eq_getLast?_reverse, ← List.getLast?_map, toNat_toBytes,
    List.getLast?_eq_some_getLast (Nat.digits_ne_nil_iff_ne_zero.mpr hn)] at hdigit
  exact hlast (Option.some.inj hdigit)

/-- **Writing gives back the bytes that were read just if they have no leading zero.** -/
theorem toBytes_fromBytes_iff (bytes : List UInt8) :
    toBytes (fromBytes bytes) = bytes ↔ bytes.head? ≠ some 0 := by
  constructor
  · intro h
    rw [← h]
    exact head?_toBytes _
  · intro h
    have hdigits : Nat.digits 256 (fromBytes bytes) = bytes.reverse.map UInt8.toNat := by
      rw [fromBytes_eq_ofDigits]
      refine Nat.digits_ofDigits 256 (by decide) _ ?_ ?_
      · intro d hd
        obtain ⟨b, _, rfl⟩ := List.mem_map.mp hd
        exact b.toNat_lt
      · intro hne hzero
        apply h
        have hlast := List.getLast?_eq_some_getLast hne
        rw [hzero, List.getLast?_map, ← List.head?_eq_getLast?_reverse] at hlast
        obtain ⟨b, hb, hb0⟩ := Option.map_eq_some_iff.mp hlast
        rw [hb, show b = 0 from UInt8.toNat_inj.mp hb0]
    rw [toBytes, hdigits, ← List.map_reverse, List.reverse_reverse, List.map_map]
    refine (List.map_congr_left fun b _ => ?_).trans (List.map_id _)
    exact UInt8.ofNat_toNat

end BigEndian
