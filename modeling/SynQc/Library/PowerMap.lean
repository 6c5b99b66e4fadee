import Mathlib.FieldTheory.Finite.Basic
import Mathlib.Data.Nat.Squarefree

/-! The power map of the integers modulo `n`.

Raising to the power `k` leaves every integer as it is modulo `n`, for `2 ≤ k`, exactly when
`n` is squarefree and `p - 1` divides `k - 1` for each prime divisor `p` of `n`
(`pow_modEq_self_iff`). Modulo a squarefree number it is enough to look at the primes
(`modEq_of_prime_modEq`), and modulo a prime this is Fermat's little theorem; a prime whose square
divides `n` is itself moved, and so is a generator of the units modulo a prime `p` if `p - 1` does
not divide `k - 1`. Modulo a prime one has two square roots only, and what is not zero passes the strong
test (`zmod_strong`). -/
namespace PowerMap
variable {n p k : ℕ}

/-! ### Modulo a prime -/

theorem zmod_pow_eq_one (hp : p.Prime) (hdvd : p - 1 ∣ k) {a : ZMod p} (ha : a ≠ 0) : a ^ k = 1 := by
  have := Fact.mk hp
  obtain ⟨j, rfl⟩ := hdvd
  rw [pow_mul, ZMod.pow_card_sub_one_eq_one ha, one_pow]

theorem zmod_pow_eq_self (hp : p.Prime) (hk : 1 ≤ k) (hdvd : p - 1 ∣ k - 1) (a : ZMod p) : a ^ k = a := by
  have := Fact.mk hp
  obtain rfl | ha := eq_or_ne a 0
  · exact zero_pow (by omega)
  · calc a ^ k = a ^ (k - 1) * a := by rw [← pow_succ, Nat.sub_add_cancel hk]
      _ = a := by rw [zmod_pow_eq_one hp hdvd ha, one_mul]

/-- If all powers are what they are raised from, `p - 1` divides the exponent less one. -/
theorem dvd_of_zmod_pow_eq_self (hp : p.Prime) (hk : 1 ≤ k) (h : ∀ a : ZMod p, a ^ k = a) : p - 1 ∣ k - 1 := by
  have := Fact.mk hp
  have hunits : ∀ u : (ZMod p)ˣ, u ^ (k - 1) = 1 := by
    intro u
    have hu := h u
    rw [← Nat.sub_add_cancel hk, pow_succ] at hu
    refine Units.ext ?_
    rw [Units.val_pow_eq_pow_val, Units.val_one]
    exact mul_right_cancel₀ u.ne_zero (hu.trans (one_mul _).symm)
  have hcard := (FiniteField.forall_pow_eq_one_iff (ZMod p) (k - 1)).mp hunits
  rwa [Fintype.card_eq_nat_card, Nat.card_zmod] at hcard

/-! ### Roots of one -/

/-- Squared until it is one, an element is one at the start or minus one on the way. -/
theorem eq_one_or_exists_eq_neg_one {R : Type*} [Ring R] [NoZeroDivisors R] {x : R} {s : ℕ} (h : x ^ 2 ^ s = 1) :
    x = 1 ∨ ∃ r < s, x ^ 2 ^ r = -1 := by
  induction s with
  | zero =>
    rw [pow_zero, pow_one] at h
    exact .inl h
  | succ s ih =>
    rw [pow_succ, pow_mul, pow_two] at h
    obtain hone | hneg := mul_self_eq_one_iff.mp h
    · obtain hx | ⟨r, hr, hx⟩ := ih hone
      · exact .inl hx
      · exact .inr ⟨r, hr.trans (Nat.lt_succ_self s), hx⟩
    · exact .inr ⟨s, Nat.lt_succ_self s, hneg⟩

/-- **What is not zero modulo a prime passes the strong test**: with `p - 1` an odd part times a power of
two, its power to the odd part is one, or becomes minus one by squaring. -/
theorem zmod_strong (hp : p.Prime) {d s : ℕ} (hsplit : d * 2 ^ s = p - 1) {a : ZMod p} (ha : a ≠ 0) :
    a ^ d = 1 ∨ ∃ r < s, (a ^ d) ^ 2 ^ r = -1 := by
  have := Fact.mk hp
  refine eq_one_or_exists_eq_neg_one ?_
  rw [← pow_mul, hsplit]
  exact zmod_pow_eq_one hp dvd_rfl ha

/-! ### Modulo a squarefree number -/

/-- What agrees modulo every prime of a squarefree number agrees modulo the number. -/
theorem modEq_of_prime_modEq (hn : Squarefree n) {a b : ℤ}
    (h : ∀ p : ℕ, p.Prime → p ∣ n → a ≡ b [ZMOD p]) : a ≡ b [ZMOD n] := by
  rw [Int.modEq_iff_dvd, Int.natCast_dvd, ← Nat.prod_primeFactors_of_squarefree hn]
  refine Finset.prod_primes_dvd _ (fun p hp => (Nat.prime_of_mem_primeFactors hp).prime) ?_
  intro p hp
  rw [← Int.natCast_dvd, ← Int.modEq_iff_dvd]
  exact h p (Nat.prime_of_mem_primeFactors hp) (Nat.dvd_of_mem_primeFactors hp)

theorem pow_modEq_self (hn : Squarefree n) (hk : 1 ≤ k) (h : ∀ p : ℕ, p.Prime → p ∣ n → p - 1 ∣ k - 1)
    (m : ℤ) : m ^ k ≡ m [ZMOD n] := by
  refine modEq_of_prime_modEq hn ?_
  intro p hp hpn
  rw [← ZMod.intCast_eq_intCast_iff, Int.cast_pow]
  exact zmod_pow_eq_self hp hk (h p hp hpn) _

/-- An integer with an inverse modulo `n` returns to one. -/
theorem pow_modEq_one (hn : Squarefree n) (h : ∀ p : ℕ, p.Prime → p ∣ n → p - 1 ∣ k) {m w : ℤ}
    (hm : m * w ≡ 1 [ZMOD n]) : m ^ k ≡ 1 [ZMOD n] := by
  refine modEq_of_prime_modEq hn ?_
  intro p hp hpn
  have := Fact.mk hp
  have hinv := (ZMod.intCast_eq_intCast_iff _ _ _).mpr (hm.of_dvd (Int.natCast_dvd_natCast.mpr hpn))
  rw [← ZMod.intCast_eq_intCast_iff, Int.cast_pow, Int.cast_one]
  refine zmod_pow_eq_one hp (h p hp hpn) ?_
  intro hzero
  rw [Int.cast_mul, hzero, zero_mul, Int.cast_one] at hinv
  exact zero_ne_one hinv

/-! ### The exact condition -/

/-- A modulus with a square in it moves the root of that square. -/
theorem squarefree_of_pow_modEq_self (hk : 2 ≤ k) (h : ∀ m : ℤ, m ^ k ≡ m [ZMOD n]) :
    Squarefree n := by
  rw [Nat.squarefree_iff_prime_squarefree]
  intro p hp hsq
  have hpk : p * p ∣ p ^ k := by
    rw [← pow_two]
    exact pow_dvd_pow p hk
  have hmod := (h p).of_dvd (Int.natCast_dvd_natCast.mpr hsq)
  rw [← Nat.cast_pow, Int.natCast_modEq_iff] at hmod
  have hdvd : p * p ∣ p := (Nat.modEq_zero_iff_dvd).mp (hmod.symm.trans ((Nat.modEq_zero_iff_dvd).mpr hpk))
  have hle := Nat.le_of_dvd hp.pos hdvd
  have := hp.two_le
  nlinarith

theorem dvd_of_pow_modEq_self (hk : 1 ≤ k) (h : ∀ m : ℤ, m ^ k ≡ m [ZMOD n]) (hp : p.Prime) (hpn : p ∣ n) :
    p - 1 ∣ k - 1 := by
  refine dvd_of_zmod_pow_eq_self hp hk ?_
  intro a
  obtain ⟨m, rfl⟩ := ZMod.intCast_surjective a
  rw [← Int.cast_pow, ZMod.intCast_eq_intCast_iff]
  exact (h m).of_dvd (Int.natCast_dvd_natCast.mpr hpn)

/-- **The moduli on which a power leaves everything as it is** are squarefree, with the exponent one
more than a multiple of each prime less one. -/
theorem pow_modEq_self_iff (hk : 2 ≤ k) :
    (∀ m : ℤ, m ^ k ≡ m [ZMOD n]) ↔ Squarefree n ∧ ∀ p : ℕ, p.Prime → p ∣ n → p - 1 ∣ k - 1 := by
  refine ⟨fun h => ⟨squarefree_of_pow_modEq_self hk h, fun p hp hpn => ?_⟩, fun h => ?_⟩
  · exact dvd_of_pow_modEq_self (by omega) h hp hpn
  · exact pow_modEq_self h.1 (by omega) h.2

end PowerMap
