import Mathlib.Tactic.LinearCombination
import SynQc.Library.Euclid
import SynQc.Library.Fallible
import SynQc.Library.PowerMap

/-! The toy RSA of the Shor demo: extended Euclid, key generation and raw encryption.

`rsa.py` draws two primes until they differ and the public exponent has an inverse modulo
`(p - 1)(q - 1)`. The extended Euclid recursion is the one of the source, on Python's integers
(division rounding down, the remainder with the sign of the divisor) and on as much stack as the interpreter
leaves it; where that is enough its specification is Bézout's identity (`egcd_of_divisions`), and from it the
inverse (`modinv_spec`). Encryption and decryption are then
one power of the message, and the exponent is one more than a multiple of both `p - 1` and `q - 1`,
so that the power map gives every message back, those that share a factor with the modulus included
(`generated_keypair_decrypts`). -/
namespace SynQc.Shor
open Euclid Fallible

/-! ### Extended Euclid -/

/-- What the interpreter raises when calls go too deep. -/
def recursionError : String := "maximum recursion depth exceeded"

/-- The extended Euclidean algorithm: `(g, x, y)` with `a x + b y = g`, the greatest common divisor. The calls
may still go `frames` deep under the interpreter's recursion limit, this one counted. -/
def egcd : ℕ → ℤ → ℤ → Except String (ℤ × ℤ × ℤ)
  | 0, _, _ => .error recursionError
  | frames + 1, a, b =>
    if b = 0 then .ok (|a|, if 0 ≤ a then 1 else -1, 0)
    else do
      let (g, x1, y1) ← egcd frames b (a.fmod b)
      return (g, y1, x1 - a.fdiv b * y1)

/-- The inverse of `a` modulo `m`. -/
def modinv : ℕ → ℤ → ℤ → Except String ℤ
  | 0, _, _ => .error recursionError
  | frames + 1, a, m => do
    let (g, x, _) ← egcd frames a m
    if g ≠ 1 then .error s!"No modular inverse for a={a} mod m={m} (gcd={g})."
    else return x.fmod m

section Inverse
variable {frames : ℕ} {a b m d : ℤ}

/-- With a frame for each division and one more, Bézout's identity and the greatest common divisor. -/
theorem egcd_of_divisions (h : divisions a b < frames) :
    ∃ x y, egcd frames a b = .ok ((Int.gcd a b : ℤ), x, y) ∧ a * x + b * y = Int.gcd a b := by
  induction frames generalizing a b with
  | zero => exact absurd h (Nat.not_lt_zero _)
  | succ frames ih =>
    by_cases hb : b = 0
    · subst hb
      refine ⟨_, _, by rw [egcd, if_pos rfl, Int.gcd_zero_right, ← Int.abs_eq_natAbs], ?_⟩
      rw [Int.gcd_zero_right, ← Int.abs_eq_natAbs]
      split
      · rw [abs_of_nonneg (by assumption)]; ring
      · rw [abs_of_neg (by omega)]; ring
    · rw [divisions_of_ne_zero a hb] at h
      obtain ⟨x, y, hegcd, hbezout⟩ := ih (Nat.lt_of_succ_lt_succ h)
      rw [gcd_fmod] at hegcd hbezout
      refine ⟨_, _, by rw [egcd, if_neg hb, hegcd]; rfl, ?_⟩
      linear_combination hbezout + y * (Int.fmod_add_mul_fdiv a b).symm

/-- With fewer the recursion does not come back. -/
theorem egcd_too_deep (h : frames ≤ divisions a b) : egcd frames a b = .error recursionError := by
  induction frames generalizing a b with
  | zero => rfl
  | succ frames ih =>
    have hb := ne_zero_of_lt_divisions h
    rw [divisions_of_ne_zero a hb] at h
    rw [egcd, if_neg hb, ih (Nat.le_of_succ_le_succ h)]
    rfl

theorem egcd_ok {r : ℤ × ℤ × ℤ} (h : egcd frames a b = .ok r) : r.1 = Int.gcd a b ∧ divisions a b < frames := by
  by_cases hdeep : divisions a b < frames
  · obtain ⟨x, y, hegcd, -⟩ := egcd_of_divisions hdeep
    obtain rfl := Except.ok.inj (hegcd.symm.trans h)
    exact ⟨rfl, hdeep⟩
  · rw [egcd_too_deep (not_lt.mp hdeep)] at h
    cases h

/-- What the inverse is, with the frames for it. -/
theorem modinv_of_divisions (h : divisions a m + 1 < frames) :
    ∃ x y, a * x + m * y = Int.gcd a m ∧
      modinv frames a m =
        if Int.gcd a m = 1 then .ok (x.fmod m)
        else .error s!"No modular inverse for a={a} mod m={m} (gcd={(Int.gcd a m : ℤ)})." := by
  obtain ⟨frames, rfl⟩ := Nat.exists_eq_add_one_of_ne_zero (show frames ≠ 0 by omega)
  obtain ⟨x, y, hegcd, hbezout⟩ := egcd_of_divisions (Nat.lt_of_succ_lt_succ h)
  refine ⟨x, y, hbezout, ?_⟩
  rw [modinv, hegcd]
  by_cases hgcd : Int.gcd a m = 1
  · rw [if_pos hgcd, hgcd]
    rfl
  · rw [if_neg hgcd]
    exact if_pos (by exact_mod_cast hgcd)

theorem modinv_too_deep (h : frames ≤ divisions a m + 1) : modinv frames a m = .error recursionError := by
  cases frames with
  | zero => rfl
  | succ frames =>
    rw [modinv, egcd_too_deep (Nat.le_of_succ_le_succ h)]
    rfl

theorem modinv_ok_iff : (∃ d, modinv frames a m = .ok d) ↔ Int.gcd a m = 1 ∧ divisions a m + 1 < frames := by
  by_cases hdeep : divisions a m + 1 < frames
  · obtain ⟨x, y, -, hmodinv⟩ := modinv_of_divisions hdeep
    rw [hmodinv]
    by_cases hgcd : Int.gcd a m = 1
    · rw [if_pos hgcd]
      exact ⟨fun _ => ⟨hgcd, hdeep⟩, fun _ => ⟨_, rfl⟩⟩
    · rw [if_neg hgcd]
      refine ⟨?_, fun h => absurd h.1 hgcd⟩
      rintro ⟨_, ⟨⟩⟩
  · rw [modinv_too_deep (not_lt.mp hdeep)]
    refine ⟨?_, fun h => absurd h.2 hdeep⟩
    rintro ⟨_, ⟨⟩⟩

theorem modinv_spec (hm : 0 < m) (h : modinv frames a m = .ok d) : m ∣ a * d - 1 ∧ 0 ≤ d ∧ d < m := by
  obtain ⟨hgcd, hdeep⟩ := modinv_ok_iff.mp ⟨d, h⟩
  obtain ⟨x, y, hbezout, hmodinv⟩ := modinv_of_divisions hdeep
  rw [hmodinv, if_pos hgcd] at h
  obtain rfl := Except.ok.inj h
  refine ⟨?_, Int.fmod_nonneg_of_pos _ hm, Int.fmod_lt_of_pos _ hm⟩
  rw [Int.fmod_def]
  refine ⟨-y - a * x.fdiv m, ?_⟩
  rw [hgcd] at hbezout
  push_cast at hbezout
  linear_combination hbezout

end Inverse

/-- There is one inverse in the range of remainders. -/
theorem inverse_unique {a m x y : ℤ} (hx : a * x ≡ 1 [ZMOD m]) (hy : a * y ≡ 1 [ZMOD m]) (hx0 : 0 ≤ x) (hxm : x < m)
    (hy0 : 0 ≤ y) (hym : y < m) : y = x := by
  have hmod : y ≡ x [ZMOD m] := by
    calc y = y * 1 := (mul_one y).symm
      _ ≡ y * (a * x) [ZMOD m] := hx.symm.mul_left y
      _ = a * y * x := by ring
      _ ≡ 1 * x [ZMOD m] := hy.mul_right x
      _ = x := one_mul x
  rwa [Int.ModEq, Int.emod_eq_of_lt hy0 hym, Int.emod_eq_of_lt hx0 hxm] at hmod

/-- `egcd` returns the greatest common divisor with its Bézout coefficients. -/
def EgcdRight (frames : ℕ) (a b : ℤ) : Prop :=
  ∃ g x y, egcd frames a b = .ok (g, x, y) ∧ g = Int.gcd a b ∧ 0 ≤ g ∧ a * x + b * y = g

/-- `modinv` returns the one inverse in the range of remainders, or raises if there is none. -/
def ModinvRight (frames : ℕ) (a m : ℤ) : Prop :=
  (Int.gcd a m = 1 → ∃ x, modinv frames a m = .ok x ∧ (0 ≤ x ∧ x < m ∧ a * x ≡ 1 [ZMOD m]) ∧
      ∀ y, 0 ≤ y ∧ y < m ∧ a * y ≡ 1 [ZMOD m] → y = x) ∧
    (Int.gcd a m ≠ 1 → ∃ error, modinv frames a m = .error error)

section Right
variable {frames : ℕ} {a b m : ℤ}

theorem egcdRight_iff : EgcdRight frames a b ↔ divisions a b < frames := by
  constructor
  · intro h
    obtain ⟨g, x, y, hegcd, -⟩ := h
    exact (egcd_ok hegcd).2
  · intro h
    obtain ⟨x, y, hegcd, hbezout⟩ := egcd_of_divisions h
    exact ⟨_, x, y, hegcd, rfl, Int.natCast_nonneg _, hbezout⟩

theorem modinvRight_iff (hm : 1 < m) :
    ModinvRight frames a m ↔ (Int.gcd a m = 1 → divisions a m + 1 < frames) := by
  constructor
  · intro h hgcd
    obtain ⟨x, hx, -⟩ := h.1 hgcd
    exact (modinv_ok_iff.mp ⟨x, hx⟩).2
  · intro h
    refine ⟨fun hgcd => ?_, fun hgcd => ?_⟩
    · obtain ⟨x, hx⟩ := modinv_ok_iff.mpr ⟨hgcd, h hgcd⟩
      obtain ⟨hinverse, hx0, hxm⟩ := modinv_spec (by omega) hx
      have hmod : a * x ≡ 1 [ZMOD m] := (Int.modEq_iff_dvd.mpr hinverse).symm
      refine ⟨x, hx, ⟨hx0, hxm, hmod⟩, ?_⟩
      rintro y ⟨hy0, hym, hy⟩
      exact inverse_unique hmod hy hx0 hxm hy0 hym
    · cases hmodinv : modinv frames a m with
      | ok x => exact absurd (modinv_ok_iff.mp ⟨x, hmodinv⟩).1 hgcd
      | error error => exact ⟨error, rfl⟩

end Right

/-- **Extended Euclid and the inverse are right exactly as deep as the stack goes**, whatever the signs are: `egcd`
takes a frame for each division of Euclid's algorithm and one more, `modinv` its own besides, and only an inverse that
there is not may be missed. As many frames as it takes Fibonacci numbers to pass the second argument are enough, and
at the Fibonacci numbers themselves they are not. -/
theorem egcd_modinv_right_iff (frames : ℕ) (a b m : ℤ) :
    (EgcdRight frames a b ↔ divisions a b < frames) ∧
      (1 < m → (ModinvRight frames a m ↔ (Int.gcd a m = 1 → divisions a m + 1 < frames))) ∧
      (b.natAbs < Nat.fib (frames + 1) → 0 < frames → EgcdRight frames a b) ∧
      (1 < m → m < Nat.fib frames → ModinvRight frames a m) ∧
      (0 < frames → ¬EgcdRight frames (Nat.fib (frames + 2)) (Nat.fib (frames + 1))) := by
  refine ⟨egcdRight_iff, modinvRight_iff, fun hb hpos => ?_, fun hm hfib => ?_, fun hpos => ?_⟩
  · obtain ⟨n, rfl⟩ := Nat.exists_eq_add_one_of_ne_zero hpos.ne'
    exact egcdRight_iff.mpr (Nat.lt_succ_of_le (divisions_le a hb))
  · refine (modinvRight_iff hm).mpr fun _ => ?_
    obtain ⟨n, rfl⟩ : ∃ n, frames = n + 2 := by
      refine ⟨frames - 2, (Nat.sub_add_cancel ?_).symm⟩
      by_contra hfew
      have : Nat.fib frames ≤ Nat.fib 2 := Nat.fib_mono (by omega)
      rw [Nat.fib_two] at this
      omega
    have := divisions_le (n := n) (b := m) a (by omega)
    omega
  · obtain ⟨n, rfl⟩ := Nat.exists_eq_add_one_of_ne_zero hpos.ne'
    rw [egcdRight_iff, divisions_fib]
    exact lt_irrefl _

/-- The inverse of minus seven modulo ten, with eight frames. -/
theorem egcd_modinv_right_negative :
    (∃ x, modinv 8 (-7) 10 = .ok x ∧ (0 ≤ x ∧ x < 10 ∧ -7 * x ≡ 1 [ZMOD 10]) ∧
      ∀ y, 0 ≤ y ∧ y < 10 ∧ -7 * y ≡ 1 [ZMOD 10] → y = x) ∧ EgcdRight 8 (-12) (-18) :=
  ⟨((egcd_modinv_right_iff 8 (-7) 4 10).2.2.2.1 (by decide) (by decide)).1 (by decide),
    (egcd_modinv_right_iff 8 (-12) (-18) 10).2.2.1 (by decide) (by decide)⟩

/-- Two neighbouring Fibonacci numbers of about seven hundred bits, under the default limit. -/
theorem not_egcdRight : ¬∀ a b : ℤ, EgcdRight 1000 a b := by
  intro h
  have hdeep := egcdRight_iff.mp (h (Nat.fib (999 + 3)) (Nat.fib (999 + 2)))
  rw [divisions_fib] at hdeep
  exact absurd hdeep (lt_irrefl _)

/-! ### Raw encryption -/

/-- Python's `pow(b, e, n)` for a positive modulus: a negative exponent raises the inverse of the base. -/
def powMod (b e n : ℤ) : Except String ℤ :=
  if 0 ≤ e then .ok (b ^ e.toNat % n)
  else if Int.gcd b n = 1 then .ok (Int.gcdA b n ^ (-e).toNat % n)
  else .error "base is not invertible for the given modulus"

def rsaEncryptInt (m N e : ℤ) : Except String ℤ :=
  if m < 0 then .error "plaintext must be non-negative"
  else if m ≥ N then .error "plaintext must be < N for raw RSA (no padding)"
  else powMod m e N

def rsaDecryptInt (c N d : ℤ) : Except String ℤ :=
  if c < 0 then .error "ciphertext must be non-negative"
  else if c ≥ N then .error "ciphertext must be < N"
  else powMod c d N

theorem powMod_range {b e n c : ℤ} (hn : 0 < n) (h : powMod b e n = .ok c) : 0 ≤ c ∧ c < n := by
  rw [powMod] at h
  split at h
  · obtain rfl := Except.ok.inj h
    exact ⟨Int.emod_nonneg _ hn.ne', Int.emod_lt_of_pos _ hn⟩
  · split at h
    · obtain rfl := Except.ok.inj h
      exact ⟨Int.emod_nonneg _ hn.ne', Int.emod_lt_of_pos _ hn⟩
    · cases h

/-- What a power is modulo `n`: of the base, or of an inverse of the base. -/
theorem powMod_cases {b e n c : ℤ} (h : powMod b e n = .ok c) :
    (0 ≤ e ∧ c ≡ b ^ e.toNat [ZMOD n]) ∨
      (e < 0 ∧ ∃ w, b * w ≡ 1 [ZMOD n] ∧ c ≡ w ^ (-e).toNat [ZMOD n]) := by
  rw [powMod] at h
  split at h
  · rename_i he
    obtain rfl := Except.ok.inj h
    exact .inl ⟨he, Int.mod_modEq _ _⟩
  · rename_i he
    split at h
    · rename_i hg
      obtain rfl := Except.ok.inj h
      refine .inr ⟨by omega, _, ?_, Int.mod_modEq _ _⟩
      have hbez := Int.gcd_eq_gcd_ab b n
      rw [hg, Nat.cast_one] at hbez
      exact Int.modEq_iff_dvd.mpr ⟨Int.gcdB b n, by linear_combination hbez⟩
    · cases h

theorem rsaEncryptInt_spec {m N e c : ℤ} (h : rsaEncryptInt m N e = .ok c) :
    0 ≤ m ∧ m < N ∧ powMod m e N = .ok c := by
  rw [rsaEncryptInt] at h
  split at h
  · cases h
  · split at h
    · cases h
    · exact ⟨by omega, by omega, h⟩

theorem rsaDecryptInt_eq {c N d : ℤ} (hc : 0 ≤ c) (hcN : c < N) (hd : 0 ≤ d) :
    rsaDecryptInt c N d = .ok (c ^ d.toNat % N) := by
  rw [rsaDecryptInt, if_neg (by omega), if_neg (by omega), powMod, if_pos hd]

/-! ### The power that gives the message back -/

section Decrypts
variable {N frames : ℕ} {phi m e d c : ℤ}

/-- Raised to the public and then to the private exponent, a message is itself modulo `N`: the
product of the exponents is one more than a multiple of every prime less one. -/
theorem pow_modEq_message (hN : Squarefree N) (hphi : 1 < phi)
    (hdvd : ∀ p : ℕ, p.Prime → p ∣ N → ((p - 1 : ℕ) : ℤ) ∣ phi) (hd : modinv frames e phi = .ok d)
    (hc : powMod m e N = .ok c) : c ^ d.toNat ≡ m [ZMOD N] := by
  obtain ⟨hinv, hd0, -⟩ := modinv_spec (by omega) hd
  have hne : e * d ≠ 0 := by
    intro h0
    have := Int.le_of_dvd (by omega) (show phi ∣ 1 by rw [h0] at hinv; simpa using hinv)
    omega
  obtain ⟨he, hmod⟩ | ⟨he, w, hw, hmod⟩ := powMod_cases hc
  · have hed : 0 < e * d := lt_of_le_of_ne (mul_nonneg he hd0) hne.symm
    have hk : ((e.toNat * d.toNat : ℕ) : ℤ) = e * d := by
      push_cast [Int.toNat_of_nonneg he, Int.toNat_of_nonneg hd0]
      rfl
    have hk1 : 1 ≤ e.toNat * d.toNat := by omega
    refine (hmod.pow _).trans ?_
    rw [← pow_mul]
    refine PowerMap.pow_modEq_self hN hk1 ?_ m
    intro p hp hpN
    rw [← Int.natCast_dvd_natCast, Nat.cast_sub hk1, hk, Nat.cast_one]
    exact (hdvd p hp hpN).trans hinv
  · have hk : (((-e).toNat * d.toNat + 1 : ℕ) : ℤ) = -(e * d - 1) := by
      push_cast [Int.toNat_of_nonneg (show 0 ≤ -e by omega), Int.toNat_of_nonneg hd0]
      ring
    have hone : w ^ ((-e).toNat * d.toNat + 1) ≡ 1 [ZMOD N] := by
      refine PowerMap.pow_modEq_one hN ?_ (show w * m ≡ 1 [ZMOD N] by rwa [mul_comm])
      intro p hp hpN
      rw [← Int.natCast_dvd_natCast, hk, Int.dvd_neg]
      exact (hdvd p hp hpN).trans hinv
    calc c ^ d.toNat ≡ (w ^ (-e).toNat) ^ d.toNat [ZMOD N] := hmod.pow _
      _ = w ^ ((-e).toNat * d.toNat) * 1 := by rw [← pow_mul, mul_one]
      _ ≡ w ^ ((-e).toNat * d.toNat) * (m * w) [ZMOD N] := hw.symm.mul_left _
      _ = w ^ ((-e).toNat * d.toNat + 1) * m := by ring
      _ ≡ 1 * m [ZMOD N] := hone.mul_right _
      _ = m := one_mul m

theorem rsaDecryptInt_of_rsaEncryptInt (hN : Squarefree N) (hphi : 1 < phi)
    (hdvd : ∀ p : ℕ, p.Prime → p ∣ N → ((p - 1 : ℕ) : ℤ) ∣ phi) (hd : modinv frames e phi = .ok d)
    (hc : rsaEncryptInt m N e = .ok c) : rsaDecryptInt c N d = .ok m := by
  obtain ⟨h0, hm, hpow⟩ := rsaEncryptInt_spec hc
  obtain ⟨hc0, hcN⟩ := powMod_range (by omega) hpow
  obtain ⟨-, hd0, -⟩ := modinv_spec (by omega) hd
  rw [rsaDecryptInt_eq hc0 hcN hd0]
  have hback := pow_modEq_message hN hphi hdvd hd hpow
  rw [Int.ModEq, Int.emod_eq_of_lt h0 hm] at hback
  rw [hback]

end Decrypts

/-! ### Key generation -/

structure RSAKeyPair where
  p : ℕ
  q : ℕ
  N : ℤ
  phi : ℤ
  e : ℤ
  d : ℤ
deriving DecidableEq

/-- The loop of key generation, on the pairs that `generate_prime` returns one after the other; its calls may
still go `frames` deep. It is `none` while no pair has been accepted. -/
def drawKeypair (frames : ℕ) (e : ℤ) : List (ℕ × ℕ) → Except String (Option RSAKeyPair)
  | [] => return none
  | (p, q) :: draws =>
    if p = q then drawKeypair frames e draws
    else do
      let N : ℤ := p * q
      let phi : ℤ := (p - 1) * (q - 1)
      -- A large exponent is allowed, but it must be coprime to phi.
      let (g, _, _) ← egcd frames e phi
      if g ≠ 1 then drawKeypair frames e draws
      else
        let d ← modinv frames e phi
        return some {p, q, N, phi, e, d}

def generateRsaKeypair (frames : ℕ) (primeBits e : ℤ) (draws : List (ℕ × ℕ)) : Except String (Option RSAKeyPair) :=
  if primeBits < 4 then .error "prime_bits must be >= 4 for a meaningful demo"
  else if e ≤ 1 then .error "e must be > 1"
  else drawKeypair frames e draws

/-- What key generation for the public exponent `e` promises of a pair it returns. -/
structure RSAKeyPair.Generated (frames : ℕ) (e : ℤ) (kp : RSAKeyPair) : Prop where
  public_exponent : kp.e = e
  distinct : kp.p ≠ kp.q
  modulus : kp.N = kp.p * kp.q
  totient : kp.phi = (kp.p - 1) * (kp.q - 1)
  private_exponent : modinv frames kp.e kp.phi = .ok kp.d

/-- The pair that is accepted was drawn, and is what key generation promises. -/
theorem drawKeypair_some {frames : ℕ} {e : ℤ} {draws : List (ℕ × ℕ)} {kp : RSAKeyPair}
    (h : drawKeypair frames e draws = .ok (some kp)) : (kp.p, kp.q) ∈ draws ∧ kp.Generated frames e := by
  induction draws with
  | nil => cases h
  | cons draw draws ih =>
    obtain ⟨p, q⟩ := draw
    rw [drawKeypair] at h
    split at h
    · exact (ih h).imp_left (List.mem_cons_of_mem _)
    · rename_i hpq
      obtain ⟨r, -, h⟩ := bind_eq_ok.mp h
      dsimp only at h
      split at h
      · exact (ih h).imp_left (List.mem_cons_of_mem _)
      · obtain ⟨d, hd, h⟩ := bind_eq_ok.mp h
        obtain rfl := Option.some.inj (Except.ok.inj h)
        exact ⟨List.mem_cons_self, rfl, hpq, rfl, rfl, hd⟩

theorem generateRsaKeypair_some {frames : ℕ} {primeBits e : ℤ} {draws : List (ℕ × ℕ)} {kp : RSAKeyPair}
    (h : generateRsaKeypair frames primeBits e draws = .ok (some kp)) :
    1 < e ∧ (kp.p, kp.q) ∈ draws ∧ kp.Generated frames e := by
  rw [generateRsaKeypair] at h
  split at h
  · cases h
  · split at h
    · cases h
    · exact ⟨by omega, drawKeypair_some h⟩

/-! ### Generated keys decrypt -/

theorem squarefree_mul_of_primes {p q : ℕ} (hp : p.Prime) (hq : q.Prime) (hpq : p ≠ q) : Squarefree (p * q) := by
  rw [Nat.squarefree_mul ((Nat.coprime_primes hp hq).mpr hpq)]
  exact ⟨hp.squarefree, hq.squarefree⟩

/-- The totient of two distinct primes: more than one, and a multiple of each of them less one. -/
theorem totient_of_primes {p q : ℕ} (hp : p.Prime) (hq : q.Prime) (hpq : p ≠ q) :
    1 < ((p : ℤ) - 1) * (q - 1) ∧
      ∀ r : ℕ, r.Prime → r ∣ p * q → ((r - 1 : ℕ) : ℤ) ∣ ((p : ℤ) - 1) * (q - 1) := by
  have hp2 := hp.two_le
  have hq2 := hq.two_le
  constructor
  · obtain hlt | hlt := Nat.lt_or_gt_of_ne hpq
    · nlinarith [show (p : ℤ) + 1 ≤ q by exact_mod_cast hlt, show (2 : ℤ) ≤ p by exact_mod_cast hp2]
    · nlinarith [show (q : ℤ) + 1 ≤ p by exact_mod_cast hlt, show (2 : ℤ) ≤ q by exact_mod_cast hq2]
  · intro r hr hdvd
    rw [Nat.cast_sub hr.one_le, Nat.cast_one]
    obtain h | h := hr.dvd_mul.mp hdvd
    · obtain rfl := (Nat.prime_dvd_prime_iff_eq hr hp).mp h
      exact dvd_mul_right _ _
    · obtain rfl := (Nat.prime_dvd_prime_iff_eq hr hq).mp h
      exact dvd_mul_left _ _

/-- **A generated key decrypts what it encrypted**: every message below the modulus, for two primes
drawn. -/
theorem generated_keypair_decrypts {frames : ℕ} {primeBits e : ℤ} {draws : List (ℕ × ℕ)} {kp : RSAKeyPair}
    (h : generateRsaKeypair frames primeBits e draws = .ok (some kp)) (hp : kp.p.Prime) (hq : kp.q.Prime)
    {m : ℤ} (h0 : 0 ≤ m) (hm : m < kp.N) :
    (do let c ← rsaEncryptInt m kp.N kp.e; rsaDecryptInt c kp.N kp.d) = .ok m := by
  obtain ⟨he, -, hexp, hpq, hN, hphi, hd⟩ := generateRsaKeypair_some h
  obtain ⟨hphi1, hdvd⟩ := totient_of_primes hp hq hpq
  have hN' : kp.N = ((kp.p * kp.q : ℕ) : ℤ) := by rw [hN, Nat.cast_mul]
  have hc : rsaEncryptInt m kp.N kp.e = .ok (m ^ kp.e.toNat % kp.N) := by
    rw [rsaEncryptInt, if_neg (by omega), if_neg (by omega), powMod, if_pos (by omega)]
  rw [hc]
  rw [hN'] at hc ⊢
  rw [hphi] at hd
  exact rsaDecryptInt_of_rsaEncryptInt (squarefree_mul_of_primes hp hq hpq) hphi1 hdvd hd hc

/-- Two primes of four bits after a pair that is drawn again, and a message that shares the factor 11. -/
theorem generated_keypair_decrypts_multiple_of_factor :
    (do let c ← rsaEncryptInt 22 143 7; rsaDecryptInt c 143 103) = .ok 22 := by
  have hgen : generateRsaKeypair 900 4 7 [(13, 13), (11, 13)] = .ok (some ⟨11, 13, 143, 120, 7, 103⟩) := by
    decide
  exact generated_keypair_decrypts hgen (by decide) (by decide) (by decide) (by decide)

end SynQc.Shor
