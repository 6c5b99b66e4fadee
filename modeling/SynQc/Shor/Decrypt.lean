import Mathlib.Tactic.NormNum.Prime
import SynQc.Shor.Factor
import SynQc.Shor.Rsa

/-! Decryption by factoring: the `/rsa/decrypt` computation with the classical method.

The route factors the modulus, takes `(p - 1)(q - 1)` for the exponent of its units, inverts the public
exponent modulo it and raises the ciphertext. That is right if the two factors are distinct primes, and
`factor_N` promises no more than the smallest prime factor and its cofactor. The messages all come back
exactly if the modulus is squarefree and each of its primes less one divides that product
(`neverWrong_iff`); with a square in the modulus, or with a third prime that does not fit, a normal
answer carries another message. -/
namespace SynQc.Shor
open Euclid Fallible

/-- The big-endian bytes of a number read as UTF-8, if they are that. -/
def intToText (n : ℤ) : Option String :=
  if n < 0 then none
  else if n = 0 then some ""
  else String.fromUTF8? ⟨((Nat.digits 256 n.toNat).reverse.map UInt8.ofNat).toArray⟩

structure RSADecryptResponse where
  plaintextInt : ℤ
  plaintextText : Option String
  p : ℕ
  q : ℕ
  d : ℤ
  methodUsed : String
deriving DecidableEq

/-- The body of the route for `method="classical"`, under the settings `SYNQC_SHOR_MAX_N_BITS` and
`SYNQC_SHOR_ALLOW_TEXT`, with calls that may still go `frames` deep; `none` while the factoring is running. -/
def rsaDecrypt (maxNBits : ℤ) (allowText : Bool) (frames : ℕ) (N e ciphertextInt : ℤ) (fuel : ℕ)
    (draws : List (ℕ × ℕ)) : Except String (Option RSADecryptResponse) := do
  match ← factorN maxNBits N fuel draws with
  | none => return none
  | some (p, q) =>
    let phi : ℤ := (p - 1) * (q - 1)
    let d ← modinv frames e phi
    let m ← rsaDecryptInt ciphertextInt N d
    return some
      { plaintextInt := m, plaintextText := if allowText then intToText m else none, p, q, d
        methodUsed := "classical_fallback" }

/-- Whatever was encrypted, a normal answer of the route carries it. -/
def NeverWrong (maxNBits : ℤ) (allowText : Bool) (N : ℤ) : Prop :=
  ∀ frames e m c fuel draws response, rsaEncryptInt m N e = .ok c →
    rsaDecrypt maxNBits allowText frames N e c fuel draws = .ok (some response) → response.plaintextInt = m

/-- The product that the route takes for the exponent of the units modulo `N`. -/
def derivedPhi (N : ℕ) : ℕ := (N.minFac - 1) * (N / N.minFac - 1)

/-- The moduli the derived exponent fits: squarefree, with every prime less one dividing it. -/
def Fits (N : ℕ) : Prop := Squarefree N ∧ ∀ r : ℕ, r.Prime → r ∣ N → r - 1 ∣ derivedPhi N

section Route
variable {maxNBits : ℤ} {allowText : Bool} {N frames fuel : ℕ} {e m c d : ℤ} {draws : List (ℕ × ℕ)}
  {response : RSADecryptResponse}

/-! ### What the route computes -/

theorem derivedPhi_cast (hN : 3 < N) (hp : ¬N.Prime) :
    (derivedPhi N : ℤ) = ((N.minFac : ℤ) - 1) * ((N / N.minFac : ℕ) - 1) := by
  have htwo := (Nat.minFac_prime (show N ≠ 1 by omega)).two_le
  have hle := minFac_le_div (by omega) hp
  rw [derivedPhi, Nat.cast_mul, Nat.cast_sub (by omega), Nat.cast_sub (by omega), Nat.cast_one]

theorem one_lt_derivedPhi (hN : 3 < N) (hp : ¬N.Prime) (hsq : Squarefree N) : 1 < derivedPhi N := by
  have htwo := (Nat.minFac_prime (show N ≠ 1 by omega)).two_le
  have hle := minFac_le_div (by omega) hp
  have hne : N.minFac ≠ N / N.minFac := by
    intro heq
    have hself := Nat.mul_div_cancel' (Nat.minFac_dvd N)
    rw [← heq] at hself
    have hunit := hsq N.minFac ⟨1, by rw [mul_one, hself]⟩
    rw [Nat.isUnit_iff] at hunit
    omega
  calc 1 < 1 * 2 := by decide
    _ ≤ derivedPhi N := Nat.mul_le_mul (by omega) (by omega)

/-- A normal answer comes of a composite modulus within the limit, with the inverse of the exponent
modulo the derived product, the ciphertext raised to it, and the text that number reads as. -/
theorem rsaDecrypt_some (hN : 3 < N)
    (h : rsaDecrypt maxNBits allowText frames N e c fuel draws = .ok (some response)) :
    (N.size : ℤ) ≤ maxNBits ∧ ¬N.Prime ∧ modinv frames e (derivedPhi N) = .ok response.d ∧
      rsaDecryptInt c N response.d = .ok response.plaintextInt ∧
      response.plaintextText = if allowText then intToText response.plaintextInt else none := by
  obtain ⟨pair, hpair, h⟩ := bind_eq_ok.mp h
  by_cases hbits : (N.size : ℤ) ≤ maxNBits
  · rw [factorN_eq (by exact_mod_cast hN) (by simpa using hbits), Int.toNat_natCast] at hpair
    obtain rfl := Except.ok.inj hpair
    by_cases hp : N.Prime
    · rw [if_pos hp] at h
      cases h
    · rw [if_neg hp] at h
      obtain ⟨d, hd, h⟩ := bind_eq_ok.mp h
      obtain ⟨m, hm, h⟩ := bind_eq_ok.mp h
      obtain rfl := Option.some.inj (Except.ok.inj h)
      rw [derivedPhi_cast hN hp]
      exact ⟨hbits, hp, hd, hm, rfl⟩
  · rw [factorN, validateN, Int.toNat_natCast, if_neg (by omega), if_pos (by omega)] at hpair
    cases hpair

/-- And the other way: there it does answer. -/
theorem rsaDecrypt_eq (hN : 3 < N) (hbits : (N.size : ℤ) ≤ maxNBits) (hp : ¬N.Prime)
    (hd : modinv frames e (derivedPhi N) = .ok d) (hm : rsaDecryptInt c N d = .ok m) :
    ∃ response, rsaDecrypt maxNBits allowText frames N e c fuel draws = .ok (some response) ∧
      response.plaintextInt = m := by
  rw [derivedPhi_cast hN hp] at hd
  refine ⟨⟨m, if allowText then intToText m else none, N.minFac, N / N.minFac, d, "classical_fallback"⟩, ?_, rfl⟩
  rw [rsaDecrypt, factorN_eq (by exact_mod_cast hN) (by simpa using hbits), Int.toNat_natCast, if_neg hp]
  exact bind_eq_ok.mpr ⟨_, rfl, bind_eq_ok.mpr ⟨d, hd, bind_eq_ok.mpr ⟨m, hm, rfl⟩⟩⟩

/-! ### Where the derived exponent fits -/

theorem neverWrong_of_fits (hN : 3 < N) (hfits : Fits N) : NeverWrong maxNBits allowText N := by
  intro frames e m c fuel draws response henc hdec
  obtain ⟨-, hp, hd, hm, -⟩ := rsaDecrypt_some hN hdec
  have hphi : (1 : ℤ) < derivedPhi N := by exact_mod_cast one_lt_derivedPhi hN hp hfits.1
  have hback := rsaDecryptInt_of_rsaEncryptInt hfits.1 hphi
    (fun r hr hdvd => Int.natCast_dvd_natCast.mpr (hfits.2 r hr hdvd)) hd henc
  exact Except.ok.inj (hm.symm.trans hback)

/-! ### Where it does not -/

/-- It takes two divisions at most from a number to the one before it. -/
theorem divisions_succ (phi : ℕ) (hphi : 0 < phi) : divisions (phi + 1) phi ≤ 2 := by
  have hrest : ((phi : ℤ) + 1).fmod phi = (1 : ℤ).fmod phi := by
    rw [add_comm]
    exact Int.add_fmod_right 1 phi
  rw [divisions_of_ne_zero _ (by omega), hrest]
  refine Nat.succ_le_succ (divisions_le phi ?_)
  have hle : (1 : ℤ).fmod phi ≤ 1 := by
    obtain hone | hmore := Nat.eq_or_lt_of_le hphi
    · rw [← hone]
      decide
    · rw [Int.fmod_eq_emod_of_nonneg _ (by omega), Int.emod_eq_of_lt (by decide) (by omega)]
  have := Int.fmod_nonneg_of_pos 1 (show (0 : ℤ) < phi by omega)
  rw [show Nat.fib (1 + 2) = 2 from rfl]
  omega

/-- One more than the product is its own inverse, or nothing is if the product is one. -/
theorem modinv_succ (phi : ℕ) (hphi : 0 < phi) (hframes : 3 < frames) :
    ∃ d : ℤ, modinv frames (phi + 1) phi = .ok d ∧ (d = 0 ∨ d = 1) := by
  have hgcd : Int.gcd (phi + 1) phi = 1 := by
    rw [Int.gcd_comm]
    exact_mod_cast Nat.gcd_self_add_right phi 1 |>.trans (Nat.gcd_one_right phi)
  have hdivisions := divisions_succ phi hphi
  obtain ⟨d, hd⟩ := modinv_ok_iff.mpr ⟨hgcd, show _ < frames by omega⟩
  obtain ⟨hinv, h0, hlt⟩ := modinv_spec (by exact_mod_cast hphi) hd
  refine ⟨d, hd, ?_⟩
  have hdvd : (phi : ℤ) ∣ d - 1 := by
    have := dvd_sub hinv (dvd_mul_right (phi : ℤ) d)
    rwa [show ((phi : ℤ) + 1) * d - 1 - phi * d = d - 1 by ring] at this
  by_contra hne
  have := Int.le_of_dvd (by omega) hdvd
  omega

/-- On a composite modulus within the limit, the public exponent that is one more than the product puts
the power map itself to the test. -/
theorem fits_of_neverWrong (hN : 3 < N) (hbits : (N.size : ℤ) ≤ maxNBits) (hp : ¬N.Prime)
    (h : NeverWrong maxNBits allowText N) : Fits N := by
  have htwo := (Nat.minFac_prime (show N ≠ 1 by omega)).two_le
  have hle := minFac_le_div (by omega) hp
  have hpos : 0 < derivedPhi N := Nat.mul_pos (by omega) (by omega)
  obtain ⟨d, hd, hd01⟩ := modinv_succ (derivedPhi N) hpos (Nat.lt_succ_self 3)
  have hback : ∀ m : ℤ, 0 ≤ m → m < N → (m ^ (derivedPhi N + 1) % N) ^ d.toNat % N = m := by
    intro m h0 hm
    have henc : rsaEncryptInt m N (derivedPhi N + 1) = .ok (m ^ (derivedPhi N + 1) % N) := by
      rw [rsaEncryptInt, if_neg (by omega), if_neg (by omega), powMod, if_pos (by omega)]
      rfl
    obtain ⟨hc0, hcN⟩ := powMod_range (by omega) (rsaEncryptInt_spec henc).2.2
    have hanswer : ∃ response, rsaDecrypt maxNBits allowText 4 N _ _ 0 [] = .ok (some response) ∧ _ :=
      rsaDecrypt_eq hN hbits hp hd (rsaDecryptInt_eq hc0 hcN (by omega))
    obtain ⟨response, hresponse, hplain⟩ := hanswer
    rw [← hplain]
    exact h _ _ m _ _ _ response henc hresponse
  obtain rfl | rfl := hd01
  · have := hback 0 le_rfl (by omega)
    rw [Int.toNat_zero, pow_zero, Int.emod_eq_of_lt (by decide) (by omega)] at this
    exact absurd this one_ne_zero
  · refine (PowerMap.pow_modEq_self_iff (show 2 ≤ derivedPhi N + 1 by omega)).mp ?_
    intro m
    have hrange := hback (m % N) (Int.emod_nonneg m (by omega)) (Int.emod_lt_of_pos m (by omega))
    rw [Int.toNat_one, pow_one, Int.emod_emod] at hrange
    exact ((Int.mod_modEq m N).pow _).symm.trans hrange

end Route

theorem fits_of_prime {N : ℕ} (hp : N.Prime) : Fits N := by
  refine ⟨hp.squarefree, fun r _ _ => ?_⟩
  rw [derivedPhi, hp.minFac_eq, Nat.div_self hp.pos]
  exact dvd_zero _

/-- The product of two distinct primes fits. -/
theorem fits_of_distinct_primes {p q : ℕ} (hp : p.Prime) (hq : q.Prime) (hlt : p < q) : Fits (p * q) := by
  have hmin : (p * q).minFac = p := by
    refine le_antisymm (Nat.minFac_le_of_dvd hp.two_le (dvd_mul_right p q)) ?_
    have hprime := Nat.minFac_prime (show p * q ≠ 1 from fun h => hp.ne_one (Nat.eq_one_of_mul_eq_one_right h))
    obtain h | h := hprime.dvd_mul.mp (Nat.minFac_dvd (p * q))
    · exact ((Nat.prime_dvd_prime_iff_eq hprime hp).mp h).ge
    · exact hlt.le.trans ((Nat.prime_dvd_prime_iff_eq hprime hq).mp h).ge
  refine ⟨squarefree_mul_of_primes hp hq hlt.ne, ?_⟩
  intro r hr hdvd
  have hdiv := (totient_of_primes hp hq hlt.ne).2 r hr hdvd
  rw [derivedPhi, hmin, Nat.mul_div_cancel_left q hp.pos, ← Int.natCast_dvd_natCast, Nat.cast_mul,
    Nat.cast_sub hp.one_le, Nat.cast_sub hq.one_le, Nat.cast_one]
  exact hdiv

/-- **Decrypting by factoring** gives back every message encrypted, whenever it answers, exactly for the
moduli over the limit and for those that the derived exponent fits. -/
theorem neverWrong_iff (maxNBits : ℤ) (allowText : Bool) {N : ℤ} (hN : 3 < N) :
    NeverWrong maxNBits allowText N ↔ maxNBits < N.toNat.size ∨ Fits N.toNat := by
  lift N to ℕ using by omega
  rw [Int.toNat_natCast]
  have hN' : 3 < N := by exact_mod_cast hN
  constructor
  · intro h
    by_cases hbits : (N.size : ℤ) ≤ maxNBits
    · by_cases hp : N.Prime
      · exact .inr (fits_of_prime hp)
      · exact .inr (fits_of_neverWrong hN' hbits hp h)
    · exact .inl (by omega)
  · rintro (hbits | hfits)
    · intro frames e m c fuel draws response _ hdec
      obtain ⟨hle, -⟩ := rsaDecrypt_some hN' hdec
      omega
    · exact neverWrong_of_fits hN' hfits

theorem neverWrong_seventySeven : NeverWrong 20 true 77 :=
  (neverWrong_iff 20 true (by decide)).mpr
    (.inr (fits_of_distinct_primes (show Nat.Prime 7 by decide) (show Nat.Prime 11 by decide) (by decide)))

/-- The square of three: the message three is encrypted to zero, and zero comes back. -/
theorem rsaDecrypt_nine :
    rsaEncryptInt 3 9 3 = .ok 0 ∧
      rsaDecrypt 20 true 900 9 3 0 0 [] = .ok (some ⟨0, some "", 3, 3, 3, "classical_fallback"⟩) := by
  refine ⟨by decide, ?_⟩
  have hfactor : factorN 20 9 0 [] = .ok (some (3, 3)) := by
    rw [factorN_eq (by decide) (by decide), show (9 : ℤ).toNat = 9 from rfl]
    norm_num
  have hd : modinv 900 3 (((3 : ℕ) - 1) * ((3 : ℕ) - 1)) = .ok 3 := by
    decide
  rw [rsaDecrypt, hfactor]
  dsimp only [bind, Except.bind]
  rw [hd]
  rfl

/-- The modulus nine sends the message three back as zero. -/
theorem not_neverWrong : ¬∀ N : ℤ, 3 < N → NeverWrong 20 true N := by
  intro h
  have := h 9 (by decide) 900 3 3 0 0 [] _ rsaDecrypt_nine.1 rsaDecrypt_nine.2
  exact absurd this (by decide)

end SynQc.Shor
