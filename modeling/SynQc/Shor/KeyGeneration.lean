import Mathlib.Data.Nat.Size
import SynQc.Shor.PrimeTest
import SynQc.Shor.Rsa

/-! The retry loop of key generation.

`generate_prime` draws odd numbers with the top bit set until one passes the primality test, and
`generate_rsa_keypair` draws pairs of them until the public exponent has an inverse. Every prime of the
size can be drawn and passes, so what decides whether the loop can return is the exponent: there have to be
two primes of the size that are not one modulo any of its prime factors (`canFinish_iff`). With an even
exponent there are none, and the loop goes on for ever whatever is drawn (`generateKeypair_even`). -/
namespace SynQc.Shor
open Euclid Fallible

/-! ### Drawing primes -/

/-- The random numbers of one candidate: its bits, and those of its primality test. -/
structure Draw where
  bits : ℕ
  random : ℕ → ℕ

/-- `secrets.randbits(bits)`: a random number brought below the power of two. -/
def randbits (bits random : ℕ) : ℕ := random % 2 ^ bits

/-- The top bit makes the size, the bottom bit an odd number. -/
def candidate (bits random : ℕ) : ℕ := randbits bits random ||| 1 <<< (bits - 1) ||| 1

/-- The loop of `generate_prime`, with the draws it leaves; `none` while no candidate has passed. -/
def generatePrime (bits : ℕ) : List Draw → Option (ℕ × List Draw)
  | [] => none
  | draw :: draws =>
    let c := candidate bits draw.bits
    if isProbablePrime c 10 draw.random then some (c, draws) else generatePrime bits draws

theorem generatePrime_length {bits p : ℕ} {draws rest : List Draw} (h : generatePrime bits draws = some (p, rest)) :
    rest.length < draws.length := by
  induction draws with
  | nil => cases h
  | cons draw draws ih =>
    rw [generatePrime] at h
    split at h
    · cases h
      exact Nat.lt_succ_self _
    · exact (ih h).trans (Nat.lt_succ_self _)

/-- The pairs that `generate_prime` returns one after the other. -/
def drawPairs (bits : ℕ) (draws : List Draw) : List (ℕ × ℕ) :=
  match _hp : generatePrime bits draws with
  | none => []
  | some (p, rest) =>
    match _hq : generatePrime bits rest with
    | none => []
    | some (q, rest') => (p, q) :: drawPairs bits rest'
termination_by draws.length
decreasing_by exact (generatePrime_length _hq).trans (generatePrime_length _hp)

/-- Key generation from its random numbers; `none` while no pair has been accepted. It asks for four bits or
more, so that `generate_prime` does not refuse the size. -/
def generateKeypair (frames : ℕ) (primeBits e : ℤ) (draws : List Draw) : Except String (Option RSAKeyPair) :=
  generateRsaKeypair frames primeBits e (drawPairs primeBits.toNat draws)

/-! ### Candidates -/

section
variable {bits : ℕ}

theorem candidate_odd (bits random : ℕ) : candidate bits random % 2 = 1 := by
  rw [Nat.mod_two_eq_one_iff_testBit_zero, candidate, Nat.testBit_or, Nat.testBit_one_zero, Bool.or_true]

/-- A prime of the size is the candidate it is drawn as: the bits set are set in it. -/
theorem candidate_of_size {p : ℕ} (hodd : p % 2 = 1) (hsize : p.size = bits) : candidate bits p = p := by
  have hlt : p < 2 ^ bits := hsize ▸ Nat.lt_size_self p
  have hpos : 0 < bits := hsize ▸ Nat.size_pos.mpr (by omega)
  have hle : 2 ^ (bits - 1) ≤ p := Nat.lt_size.mp (by omega)
  have htop : p.testBit (bits - 1) = true :=
    Nat.testBit_of_two_pow_le_and_two_pow_add_one_gt hle (by rwa [Nat.sub_add_cancel hpos])
  have hbottom : p.testBit 0 = true := Nat.mod_two_eq_one_iff_testBit_zero.mp hodd
  rw [candidate, randbits, Nat.mod_eq_of_lt hlt, Nat.one_shiftLeft]
  refine Nat.eq_of_testBit_eq fun i => ?_
  rw [Nat.testBit_or, Nat.testBit_or, Nat.testBit_two_pow, show (1 : ℕ) = 2 ^ 0 from rfl, Nat.testBit_two_pow]
  by_cases hi : bits - 1 = i
  · subst hi
    simp [htop]
  · by_cases h0 : 0 = i
    · subst h0
      simp [hbottom]
    · simp [hi, h0]

/-- It passes the test, and is returned. -/
theorem generatePrime_of_prime {p : ℕ} (hp : p.Prime) (hodd : p % 2 = 1) (hsize : p.size = bits) (draws : List Draw) :
    generatePrime bits (⟨p, fun _ => 0⟩ :: draws) = some (p, draws) := by
  rw [generatePrime, candidate_of_size hodd hsize, isProbablePrime_of_prime hp, if_pos rfl]

theorem generatePrime_odd {p : ℕ} {draws rest : List Draw} (h : generatePrime bits draws = some (p, rest)) :
    p % 2 = 1 := by
  induction draws with
  | nil => cases h
  | cons draw draws ih =>
    rw [generatePrime] at h
    split at h
    · cases h
      exact candidate_odd _ _
    · exact ih h

theorem drawPairs_some {p q : ℕ} {draws rest rest' : List Draw} (hp : generatePrime bits draws = some (p, rest))
    (hq : generatePrime bits rest = some (q, rest')) : drawPairs bits draws = (p, q) :: drawPairs bits rest' := by
  rw [drawPairs]
  split
  · rename_i hnone
    cases hnone.symm.trans hp
  · rename_i hsome
    cases hsome.symm.trans hp
    split
    · rename_i hnone
      cases hnone.symm.trans hq
    · rename_i hsome'
      cases hsome'.symm.trans hq
      rfl

/-- The draws end before a pair is complete. -/
theorem drawPairs_none {draws : List Draw}
    (h : ∀ p rest, generatePrime bits draws = some (p, rest) → generatePrime bits rest = none) :
    drawPairs bits draws = [] := by
  rw [drawPairs]
  split
  · rfl
  · rename_i hsome
    split
    · rfl
    · rename_i hsome'
      cases hsome'.symm.trans (h _ _ hsome)

theorem drawPairs_odd (draws : List Draw) : ∀ pair ∈ drawPairs bits draws, pair.1 % 2 = 1 := by
  induction draws using drawPairs.induct bits with
  | case1 draws hnone =>
    rw [drawPairs_none fun p rest hsome => absurd (hnone.symm.trans hsome) nofun]
    exact fun _ => nofun
  | case2 draws p rest hp hnone =>
    have hend : ∀ p' rest', generatePrime bits draws = some (p', rest') → generatePrime bits rest' = none := by
      intro p' rest' hsome
      cases hp.symm.trans hsome
      exact hnone
    rw [drawPairs_none hend]
    exact fun _ => nofun
  | case3 draws p rest hp q rest' hq ih =>
    rw [drawPairs_some hp hq]
    exact List.forall_mem_cons.mpr ⟨generatePrime_odd hp, ih⟩

theorem drawPairs_of_primes {p q : ℕ} (hp : p.Prime) (hq : q.Prime) (hpodd : p % 2 = 1) (hqodd : q % 2 = 1)
    (hpsize : p.size = bits) (hqsize : q.size = bits) :
    drawPairs bits [⟨p, fun _ => 0⟩, ⟨q, fun _ => 0⟩] = (p, q) :: drawPairs bits [] :=
  drawPairs_some (generatePrime_of_prime hp hpodd hpsize _) (generatePrime_of_prime hq hqodd hqsize _)

end

/-! ### When a pair can be accepted -/

/-- The loop has a way out for a size and an exponent: there are two primes of the size whose totient has no
factor in common with the exponent, and with some random numbers the loop returns them, given the stack for
their inverse. -/
def CanFinish (primeBits e : ℤ) : Prop :=
  ∃ p q : ℕ, p.Prime ∧ q.Prime ∧ p ≠ q ∧ (p.size : ℤ) = primeBits ∧ (q.size : ℤ) = primeBits ∧
    Int.gcd e ((p - 1) * (q - 1)) = 1 ∧
      ∃ draws, ∀ frames, divisions e ((p - 1) * (q - 1)) + 1 < frames →
        ∃ kp, generateKeypair frames primeBits e draws = .ok (some kp) ∧ kp.p = p ∧ kp.q = q

/-- The primes of the size that are not one modulo any prime factor of the exponent. -/
def usablePrimes (bits : ℕ) (e : ℤ) : Finset ℕ :=
  (Finset.range (2 ^ bits)).filter fun p => p.Prime ∧ p.size = bits ∧ ∀ r ∈ e.natAbs.primeFactors, p % r ≠ 1

section
variable {p q bits : ℕ} {e : ℤ}

/-- A common factor of the exponent and `p - 1` is a prime factor of the exponent that `p` is one modulo. -/
theorem coprime_pred_iff (he : e ≠ 0) (hp : 0 < p) :
    e.natAbs.Coprime (p - 1) ↔ ∀ r ∈ e.natAbs.primeFactors, p % r ≠ 1 := by
  have hmod : ∀ r : ℕ, r.Prime → (r ∣ p - 1 ↔ p % r = 1) := by
    intro r hr
    rw [← Nat.modEq_iff_dvd' hp, Nat.ModEq, Nat.mod_eq_of_lt hr.one_lt, eq_comm]
  rw [← not_iff_not, Nat.Prime.not_coprime_iff_dvd]
  simp only [Nat.mem_primeFactors_of_ne_zero (Int.natAbs_ne_zero.mpr he), not_forall, not_not, exists_prop]
  constructor
  · intro h
    obtain ⟨r, hr, hre, hrp⟩ := h
    exact ⟨r, ⟨hr, hre⟩, (hmod r hr).mp hrp⟩
  · intro h
    obtain ⟨r, ⟨hr, hre⟩, hrp⟩ := h
    exact ⟨r, hr, hre, (hmod r hr).mpr hrp⟩

theorem gcd_totient_iff (hp : 0 < p) (hq : 0 < q) :
    Int.gcd e (((p : ℤ) - 1) * (q - 1)) = 1 ↔ e.natAbs.Coprime (p - 1) ∧ e.natAbs.Coprime (q - 1) := by
  have hcast : ((p : ℤ) - 1) * (q - 1) = ((p - 1) * (q - 1) : ℕ) := by
    rw [Nat.cast_mul, Nat.cast_sub hp, Nat.cast_sub hq, Nat.cast_one]
  rw [hcast, Int.gcd, Int.natAbs_natCast, ← Nat.coprime_mul_iff_right, Nat.Coprime]

theorem mem_usablePrimes (he : e ≠ 0) :
    p ∈ usablePrimes bits e ↔ p.Prime ∧ p.size = bits ∧ e.natAbs.Coprime (p - 1) := by
  rw [usablePrimes, Finset.mem_filter, Finset.mem_range]
  constructor
  · intro h
    obtain ⟨-, hp, hsize, hfactors⟩ := h
    exact ⟨hp, hsize, (coprime_pred_iff he hp.pos).mpr hfactors⟩
  · intro h
    obtain ⟨hp, hsize, hcoprime⟩ := h
    exact ⟨hsize ▸ Nat.lt_size_self p, hp, hsize, (coprime_pred_iff he hp.pos).mp hcoprime⟩

theorem drawKeypair_head {frames : ℕ} (hpq : p ≠ q) (hgcd : Int.gcd e (((p : ℤ) - 1) * (q - 1)) = 1)
    (hframes : divisions e (((p : ℤ) - 1) * (q - 1)) + 1 < frames) (draws : List (ℕ × ℕ)) :
    ∃ kp, drawKeypair frames e ((p, q) :: draws) = .ok (some kp) ∧ kp.p = p ∧ kp.q = q := by
  obtain ⟨d, hd⟩ := modinv_ok_iff.mpr ⟨hgcd, hframes⟩
  obtain ⟨x, y, hegcd, -⟩ := egcd_of_divisions (Nat.lt_of_succ_lt hframes)
  rw [hgcd] at hegcd
  refine ⟨⟨p, q, p * q, (p - 1) * (q - 1), e, d⟩, ?_, rfl, rfl⟩
  rw [drawKeypair, if_neg hpq]
  refine bind_eq_ok.mpr ⟨_, hegcd, ?_⟩
  exact bind_eq_ok.mpr ⟨d, hd, rfl⟩

theorem canFinish_iff_usable {primeBits : ℤ} (hbits : 4 ≤ primeBits) (he : 1 < e) :
    CanFinish primeBits e ↔ 1 < (usablePrimes primeBits.toNat e).card := by
  have he0 : e ≠ 0 := by omega
  rw [Finset.one_lt_card]
  constructor
  · intro h
    obtain ⟨p, q, hp, hq, hpq, hpsize, hqsize, hgcd, -⟩ := h
    obtain ⟨hpe, hqe⟩ := (gcd_totient_iff hp.pos hq.pos).mp hgcd
    exact ⟨p, (mem_usablePrimes he0).mpr ⟨hp, by omega, hpe⟩, q, (mem_usablePrimes he0).mpr ⟨hq, by omega, hqe⟩, hpq⟩
  · intro h
    obtain ⟨p, hp, q, hq, hpq⟩ := h
    obtain ⟨hp, hpsize, hpe⟩ := (mem_usablePrimes he0).mp hp
    obtain ⟨hq, hqsize, hqe⟩ := (mem_usablePrimes he0).mp hq
    have hgcd := (gcd_totient_iff hp.pos hq.pos).mpr ⟨hpe, hqe⟩
    have hodd : ∀ r : ℕ, r.Prime → r.size = primeBits.toNat → r % 2 = 1 := by
      intro r hr hsize
      obtain rfl | hodd := hr.eq_two_or_odd
      · have : Nat.size 2 = 2 := rfl
        omega
      · exact hodd
    refine ⟨p, q, hp, hq, hpq, by omega, by omega, hgcd, [⟨p, fun _ => 0⟩, ⟨q, fun _ => 0⟩], fun frames hframes => ?_⟩
    rw [generateKeypair, generateRsaKeypair, if_neg (by omega), if_neg (by omega),
      drawPairs_of_primes hp hq (hodd p hp hpsize) (hodd q hq hqsize) hpsize hqsize]
    exact drawKeypair_head hpq hgcd hframes _

end

/-! ### Exponents that never suit -/

/-- **With an even exponent the loop never returns**, whatever is drawn: all candidates are odd. -/
theorem generateKeypair_even {frames : ℕ} {primeBits e : ℤ} (heven : 2 ∣ e) (draws : List Draw) (kp : RSAKeyPair) :
    generateKeypair frames primeBits e draws ≠ .ok (some kp) := by
  intro h
  obtain ⟨-, hdrawn, hexponent, -, -, htotient, hprivate⟩ := generateRsaKeypair_some h
  have hodd : kp.p % 2 = 1 := drawPairs_odd draws _ hdrawn
  have hgcd := (modinv_ok_iff.mp ⟨kp.d, hprivate⟩).1
  rw [hexponent, htotient] at hgcd
  have hphi : (2 : ℤ) ∣ (kp.p - 1) * (kp.q - 1) := dvd_mul_of_dvd_left (by omega) _
  have hdvd := Int.dvd_coe_gcd heven hphi
  rw [hgcd] at hdvd
  exact absurd hdvd (by decide)

theorem not_canFinish_of_even {primeBits e : ℤ} (heven : 2 ∣ e) : ¬CanFinish primeBits e := by
  intro h
  obtain ⟨p, q, -, -, -, -, -, -, draws, hreturns⟩ := h
  obtain ⟨kp, hkp, -⟩ := hreturns _ (Nat.lt_succ_self _)
  exact generateKeypair_even heven draws kp hkp

theorem primes_of_four_bits {p : ℕ} (hp : p.Prime) (hsize : p.size = 4) : p = 11 ∨ p = 13 := by
  have h : ∀ p < 16, p.Prime → p.size = 4 → p = 11 ∨ p = 13 := by
    decide
  exact h p (Nat.size_le.mp hsize.le) hp hsize

/-- For four bits there are eleven and thirteen, so an exponent with a factor two, three or five never suits. -/
theorem usablePrimes_four_iff {e : ℤ} (he : e ≠ 0) : 1 < (usablePrimes 4 e).card ↔ e.natAbs.Coprime 30 := by
  have hthirty : e.natAbs.Coprime 30 ↔ e.natAbs.Coprime 10 ∧ e.natAbs.Coprime 12 := by
    rw [show 30 = 2 * 3 * 5 from rfl, show 10 = 2 * 5 from rfl, show 12 = 2 * 2 * 3 from rfl]
    simp only [Nat.coprime_mul_iff_right]
    tauto
  rw [Finset.one_lt_card, hthirty]
  constructor
  · intro h
    obtain ⟨p, hp, q, hq, hpq⟩ := h
    obtain ⟨hp, hpsize, hpe⟩ := (mem_usablePrimes he).mp hp
    obtain ⟨hq, hqsize, hqe⟩ := (mem_usablePrimes he).mp hq
    obtain rfl | rfl := primes_of_four_bits hp hpsize
    · obtain rfl | rfl := primes_of_four_bits hq hqsize
      · exact absurd rfl hpq
      · exact ⟨hpe, hqe⟩
    · obtain rfl | rfl := primes_of_four_bits hq hqsize
      · exact ⟨hqe, hpe⟩
      · exact absurd rfl hpq
  · intro h
    obtain ⟨hten, htwelve⟩ := h
    exact ⟨11, (mem_usablePrimes he).mpr ⟨by decide, by decide, hten⟩, 13,
      (mem_usablePrimes he).mpr ⟨by decide, by decide, htwelve⟩, by decide⟩

/-- **Key generation can finish** exactly if two of the primes of the size are not one modulo any prime
factor of the exponent. It never can with an even exponent, and with four bits it can if and only if the exponent has
no factor two, three or five. -/
theorem canFinish_iff {primeBits e : ℤ} (hbits : 4 ≤ primeBits) (he : 1 < e) :
    (CanFinish primeBits e ↔ 1 < (usablePrimes primeBits.toNat e).card) ∧
      (2 ∣ e → ¬CanFinish primeBits e) ∧
      (primeBits = 4 → (CanFinish primeBits e ↔ e.natAbs.Coprime 30)) := by
  refine ⟨canFinish_iff_usable hbits he, not_canFinish_of_even, ?_⟩
  rintro rfl
  exact (canFinish_iff_usable hbits he).trans (usablePrimes_four_iff (by omega))

/-- The prime seven divides neither ten nor twelve. -/
theorem canFinish_four_seven : CanFinish 4 7 := by
  refine (canFinish_iff (by decide) (by decide)).1.mpr (Finset.one_lt_card.mpr ⟨11, ?_, 13, ?_, by decide⟩)
  · exact (mem_usablePrimes (by decide)).mpr ⟨by decide, by decide, by decide⟩
  · exact (mem_usablePrimes (by decide)).mpr ⟨by decide, by decide, by decide⟩

/-- Twelve bits and the exponent four. -/
theorem not_canFinish : ¬∀ primeBits e : ℤ, 4 ≤ primeBits → 1 < e → CanFinish primeBits e := by
  intro h
  exact not_canFinish_of_even (by decide) (h 12 4 (by decide) (by decide))

end SynQc.Shor
