import SynQc.Library.PowerMap

/-! Primality testing in the Shor demo.

`is_probable_prime` divides by twelve small primes and then runs Miller and Rabin's test with random
witnesses. A prime passes whatever the witnesses are (`isProbablePrime_of_prime`): one has no other square
roots than itself and minus one. A composite number with a small factor never gets as far as the
witnesses. -/
namespace SynQc.Shor

/-! ### The test -/

def smallPrimes : List ℕ := [2, 3, 5, 7, 11, 13, 17, 19, 23, 29, 31, 37]

/-- The loop of `_try_small_primes`. -/
def tryPrimes (n : ℕ) : List ℕ → Bool
  | [] => true
  | p :: primes => if n = p then true else if n % p = 0 then false else tryPrimes n primes

def trySmallPrimes (n : ℕ) : Bool := tryPrimes n smallPrimes

/-- The halving loop from `d` and `s` on. It starts above zero, where halving ends. -/
def splitTwos (d s : ℕ) : ℕ × ℕ :=
  if d % 2 = 0 ∧ d ≠ 0 then splitTwos (d / 2) (s + 1) else (d, s)
termination_by d
decreasing_by omega

/-- `secrets.randbelow(bound)`: a random number brought below the bound. -/
def randbelow (bound random : ℕ) : ℕ := random % bound

/-- The inner loop for a number of turns: whether it breaks. -/
def squarings (n : ℕ) : ℕ → ℕ → Bool
  | 0, _ => false
  | turns + 1, x =>
    let x := x ^ 2 % n
    if x = n - 1 then true else squarings n turns x

/-- The body of the witness loop: whether it goes on to the next witness. -/
def witnessPasses (n d s a : ℕ) : Bool :=
  let x := a ^ d % n
  if x = 1 ∨ x = n - 1 then true else squarings n (s - 1) x

/-- The test with the random numbers of its `k` turns. -/
def isProbablePrime (n k : ℤ) (random : ℕ → ℕ) : Bool :=
  if n < 2 then false
  else if n = 2 ∨ n = 3 then true
  else if n % 2 = 0 then false
  else
    let n := n.toNat
    if ¬trySmallPrimes n then false
    else
      let (d, s) := splitTwos (n - 1) 0
      (List.range k.toNat).all fun turn => witnessPasses n d s (randbelow (n - 3) (random turn) + 2)

/-! ### Small primes -/

section
variable {n : ℕ}

theorem tryPrimes_of_prime (hn : n.Prime) {primes : List ℕ} (hprimes : ∀ p ∈ primes, p ≠ 1) :
    tryPrimes n primes = true := by
  induction primes with
  | nil => rfl
  | cons p primes ih =>
    obtain ⟨hp, hprimes⟩ := List.forall_mem_cons.mp hprimes
    rw [tryPrimes]
    by_cases heq : n = p
    · rw [if_pos heq]
    · have hmod : n % p ≠ 0 := by
        intro hmod
        obtain hone | hself := (Nat.dvd_prime hn).mp (Nat.dvd_of_mod_eq_zero hmod)
        · exact hp hone
        · exact heq hself.symm
      rw [if_neg heq, if_neg hmod, ih hprimes]

/-- A composite number is none of the primes, so its factor is found. -/
theorem tryPrimes_of_composite (hn : ¬n.Prime) {primes : List ℕ} (hprimes : ∀ p ∈ primes, p.Prime)
    (hfactor : ∃ p ∈ primes, p ∣ n) : tryPrimes n primes = false := by
  induction primes with
  | nil => simp at hfactor
  | cons p primes ih =>
    obtain ⟨hp, hprimes⟩ := List.forall_mem_cons.mp hprimes
    have hne : n ≠ p := by
      rintro rfl
      exact hn hp
    rw [tryPrimes, if_neg hne]
    by_cases hmod : n % p = 0
    · rw [if_pos hmod]
    · rw [if_neg hmod]
      obtain ⟨r, hr, hdvd⟩ := hfactor
      obtain rfl | hr := List.mem_cons.mp hr
      · exact absurd (Nat.mod_eq_zero_of_dvd hdvd) hmod
      · exact ih hprimes ⟨r, hr, hdvd⟩

theorem smallPrimes_prime : ∀ p ∈ smallPrimes, p.Prime := by
  decide

theorem mem_smallPrimes {p : ℕ} (hp : p.Prime) (hle : p ≤ 37) : p ∈ smallPrimes := by
  have h : ∀ p ≤ 37, p.Prime → p ∈ smallPrimes := by
    decide
  exact h p hle hp

/-! ### The witnesses -/

/-- The loop keeps the product, and ends with an odd factor. -/
theorem splitTwos_spec (d s : ℕ) (hd : d ≠ 0) :
    (splitTwos d s).1 * 2 ^ (splitTwos d s).2 = d * 2 ^ s ∧ (splitTwos d s).1 % 2 = 1 ∧ s ≤ (splitTwos d s).2 := by
  induction d, s using splitTwos.induct with
  | case1 d s heven ih =>
    obtain ⟨hproduct, hodd, hle⟩ := ih (by omega)
    rw [splitTwos, if_pos heven]
    refine ⟨hproduct.trans ?_, hodd, by omega⟩
    rw [pow_succ, ← mul_assoc, mul_right_comm, Nat.div_mul_cancel (Nat.dvd_of_mod_eq_zero heven.1)]
  | case2 d s hdone =>
    rw [splitTwos, if_neg hdone]
    exact ⟨rfl, by omega, le_rfl⟩

/-- The loop breaks if a square on its way is minus one. -/
theorem squarings_of_pow {turns x r : ℕ} (h0 : 0 < r) (hr : r ≤ turns) (h : x ^ 2 ^ r % n = n - 1) :
    squarings n turns x = true := by
  induction turns generalizing x r with
  | zero => omega
  | succ turns ih =>
    rw [squarings]
    by_cases hx : x ^ 2 % n = n - 1
    · exact if_pos hx
    · refine (if_neg hx).trans ?_
      obtain ⟨r, rfl⟩ := Nat.exists_eq_succ_of_ne_zero h0.ne'
      have hpos : 0 < r := by
        rcases Nat.eq_zero_or_pos r with rfl | hpos
        · exact absurd h hx
        · exact hpos
      refine ih hpos (by omega) ?_
      rw [← Nat.pow_mod, ← pow_mul, ← pow_succ']
      exact h

theorem mod_eq_one (hn : 1 < n) {x : ℕ} (h : (x : ZMod n) = 1) : x % n = 1 := by
  have := (ZMod.natCast_eq_natCast_iff' x 1 n).mp (h.trans Nat.cast_one.symm)
  rwa [Nat.mod_eq_of_lt hn] at this

theorem mod_eq_pred (hn : 1 < n) {x : ℕ} (h : (x : ZMod n) = -1) : x % n = n - 1 := by
  have hpred : ((n - 1 : ℕ) : ZMod n) = -1 := by
    rw [Nat.cast_sub hn.le, ZMod.natCast_self, Nat.cast_one, zero_sub]
  have := (ZMod.natCast_eq_natCast_iff' x (n - 1) n).mp (h.trans hpred.symm)
  rwa [Nat.mod_eq_of_lt (show n - 1 < n by omega)] at this

theorem witnessPasses_of_prime (hn : n.Prime) {d s a : ℕ} (hsplit : d * 2 ^ s = n - 1) (h0 : 0 < a) (ha : a < n) :
    witnessPasses n d s a = true := by
  have hne : (a : ZMod n) ≠ 0 := by
    rw [Ne, ZMod.natCast_eq_zero_iff]
    exact Nat.not_dvd_of_pos_of_lt h0 ha
  rw [witnessPasses]
  obtain hone | ⟨r, hr, hneg⟩ := PowerMap.zmod_strong hn hsplit hne
  · refine if_pos (.inl (mod_eq_one hn.one_lt ?_))
    rw [Nat.cast_pow, hone]
  · have hpow : (a ^ d) ^ 2 ^ r % n = n - 1 := by
      refine mod_eq_pred hn.one_lt ?_
      rw [Nat.cast_pow, Nat.cast_pow, hneg]
    split
    · rfl
    · rename_i hx
      have hpos : 0 < r := by
        rcases Nat.eq_zero_or_pos r with rfl | hpos
        · rw [pow_zero, pow_one] at hpow
          exact absurd (.inr hpow) hx
        · exact hpos
      exact squarings_of_pow hpos (by omega) (by rwa [← Nat.pow_mod])

/-! ### Primes and small factors -/

/-- A prime passes with any number of turns and any witnesses. -/
theorem isProbablePrime_of_prime (hn : n.Prime) (k : ℤ) (random : ℕ → ℕ) : isProbablePrime n k random = true := by
  have htwo := hn.two_le
  rw [isProbablePrime, if_neg (by omega)]
  by_cases hsmall : (n : ℤ) = 2 ∨ (n : ℤ) = 3
  · exact if_pos hsmall
  · have hodd : (n : ℤ) % 2 ≠ 0 := by
      have := hn.eq_two_or_odd
      omega
    have htry : trySmallPrimes n = true := tryPrimes_of_prime hn fun p hp => (smallPrimes_prime p hp).ne_one
    have hsplit := (splitTwos_spec (n - 1) 0 (by omega)).1
    rw [pow_zero, mul_one] at hsplit
    rw [if_neg hsmall, if_neg hodd, Int.toNat_natCast]
    refine (if_neg (by simp [htry])).trans ?_
    rw [List.all_eq_true]
    intro turn _
    have hlt : randbelow (n - 3) (random turn) < n - 3 := Nat.mod_lt _ (by omega)
    exact witnessPasses_of_prime hn hsplit (by omega) (by omega)

theorem isProbablePrime_of_composite (h1 : 1 < n) (hn : ¬n.Prime) {p : ℕ} (hp : p.Prime) (hle : p ≤ 37) (hdvd : p ∣ n)
    (k : ℤ) (random : ℕ → ℕ) : isProbablePrime n k random = false := by
  have hsmall : ¬((n : ℤ) = 2 ∨ (n : ℤ) = 3) := by
    intro hsmall
    obtain h | h := hsmall
    · exact hn ((show n = 2 by omega) ▸ Nat.prime_two)
    · exact hn ((show n = 3 by omega) ▸ Nat.prime_three)
  have htry : trySmallPrimes n = false :=
    tryPrimes_of_composite hn smallPrimes_prime ⟨p, mem_smallPrimes hp hle, hdvd⟩
  rw [isProbablePrime, if_neg (by omega), if_neg hsmall, Int.toNat_natCast]
  split
  · rfl
  · exact if_pos (by simp [htry])

/-- **The primality test never rejects a prime**, and always a composite number with a small factor,
whatever the number of turns and the witnesses drawn are. -/
theorem isProbablePrime_right (n : ℕ) (k : ℤ) (random : ℕ → ℕ) :
    (n.Prime → isProbablePrime n k random = true) ∧
      (1 < n → ¬n.Prime → (∃ p, p.Prime ∧ p ≤ 37 ∧ p ∣ n) → isProbablePrime n k random = false) := by
  refine ⟨fun hn => isProbablePrime_of_prime hn k random, ?_⟩
  rintro h1 hn ⟨p, hp, hle, hdvd⟩
  exact isProbablePrime_of_composite h1 hn hp hle hdvd k random

/-- A prime beyond the small ones, and a composite number with one of them as a factor. -/
theorem isProbablePrime_right_small :
    isProbablePrime 97 10 (fun turn => turn) = true ∧ isProbablePrime 91 10 (fun turn => turn) = false :=
  ⟨(isProbablePrime_right 97 10 _).1 (by decide),
    (isProbablePrime_right 91 10 _).2 (by decide) (by decide) ⟨7, by decide, by decide, by decide⟩⟩

end
end SynQc.Shor
