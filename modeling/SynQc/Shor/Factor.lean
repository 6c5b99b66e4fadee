import Mathlib.Data.Nat.Prime.Basic
import Mathlib.Data.Nat.Size

/-! Classical factoring in the Shor demo.

`classical_factor.py` divides by two and by the odd numbers up to the square root, and falls back on
Pollard's rho. The fallback is reached with a prime only, and there its loop cannot end: what it
leaves with is a divisor other than one and the number itself. So factoring a composite number gives
its smallest prime factor and the cofactor, and factoring a prime gives nothing, however long it runs
(`factorSemiprime_eq`). Nothing looks at the cofactor, which need not be prime, nor different. -/
namespace SynQc.Shor

/-! ### Trial division -/

/-- The odd candidates from `f` up to the limit. -/
def trialFrom (n limit f : ℕ) : Option (ℕ × ℕ) :=
  if f ≤ limit then
    if n % f = 0 then some (f, n / f) else trialFrom n limit (f + 2)
  else none
termination_by limit + 1 - f

def trialDivision (n : ℕ) : Option (ℕ × ℕ) :=
  if n % 2 = 0 then some (2, n / 2) else trialFrom n n.sqrt 3

/-! ### Pollard's rho -/

def rhoStep (n c v : ℕ) : ℕ := (v ^ 2 % n + c) % n

/-- The inner loop, up to a divisor that is not one; `none` while it has none. -/
def rhoCycle (n c : ℕ) : ℕ → ℕ → ℕ → Option ℕ
  | 0, _, _ => none
  | fuel + 1, x, y =>
    let x := rhoStep n c x
    let y := rhoStep n c (rhoStep n c y)
    let d := Nat.gcd ((x : ℤ) - y).natAbs n
    if d = 1 then rhoCycle n c fuel x y else some d

/-- The outer loop, on the random pairs `(c, x)` it draws. -/
def rhoLoop (n fuel : ℕ) : List (ℕ × ℕ) → Option ℕ
  | [] => none
  | (c, x) :: draws =>
    match rhoCycle n c fuel x x with
    | none => none
    | some d => if d ≠ n then some d else rhoLoop n fuel draws

def pollardsRho (n fuel : ℕ) (draws : List (ℕ × ℕ)) : Option ℕ :=
  if n % 2 = 0 then some 2
  else if n % 3 = 0 then some 3
  else rhoLoop n fuel draws

/-! ### Factoring -/

/-- The factor pair, the smaller first; `none` while Pollard's rho is running. -/
def factorSemiprime (N fuel : ℕ) (draws : List (ℕ × ℕ)) : Except String (Option (ℕ × ℕ)) :=
  if N ≤ 1 then .error "N must be > 1"
  else if N % 2 = 0 then .ok (some (2, N / 2))
  else
    match trialDivision N with
    | some (p, q) => .ok (some (min p q, max p q))
    | none =>
      match pollardsRho N fuel draws with
      | none => .ok none
      | some p =>
        let q := N / p
        if p * q ≠ N then .error "Failed to factor N" else .ok (some (min p q, max p q))

def validateN (maxNBits N : ℤ) : Except String Unit :=
  if N ≤ 3 then .error "N must be > 3"
  else if (N.toNat.size : ℤ) > maxNBits then
    .error (s!"N too large for demo (bit_length={N.toNat.size} > max={maxNBits}). " ++
      "Reduce N or raise SYNQC_SHOR_MAX_N_BITS intentionally.")
  else .ok ()

/-- `factor_N` with `method="classical"`. -/
def factorN (maxNBits N : ℤ) (fuel : ℕ) (draws : List (ℕ × ℕ)) : Except String (Option (ℕ × ℕ)) := do
  validateN maxNBits N
  factorSemiprime N.toNat fuel draws

/-! ### Trial division finds the smallest factor -/

theorem odd_minFac {n : ℕ} (hn : n % 2 ≠ 0) : n.minFac % 2 ≠ 0 := by
  intro h
  exact hn (Nat.mod_eq_zero_of_dvd ((Nat.dvd_of_mod_eq_zero h).trans (Nat.minFac_dvd n)))

/-- From an odd candidate that no factor lies below, the loop finds the smallest factor if that is
within the limit. -/
theorem trialFrom_eq {n limit f : ℕ} (hn : n % 2 ≠ 0) (hf : f % 2 ≠ 0) (hf2 : 2 ≤ f) (hle : f ≤ n.minFac) :
    trialFrom n limit f = if n.minFac ≤ limit then some (n.minFac, n / n.minFac) else none := by
  induction f using trialFrom.induct n limit with
  | case1 f hlimit hmod =>
    have hmin : n.minFac = f := le_antisymm (Nat.minFac_le_of_dvd hf2 (Nat.dvd_of_mod_eq_zero hmod)) hle
    rw [trialFrom, if_pos hlimit, if_pos hmod, hmin, if_pos hlimit]
  | case2 f hlimit hmod ih =>
    have hne : f ≠ n.minFac := by
      rintro rfl
      exact hmod (Nat.mod_eq_zero_of_dvd (Nat.minFac_dvd n))
    have hodd := odd_minFac hn
    rw [trialFrom, if_pos hlimit, if_neg hmod]
    exact ih (by omega) (by omega) (by omega)
  | case3 f hlimit =>
    rw [trialFrom, if_neg hlimit, if_neg (by omega)]

theorem minFac_le_sqrt_iff {n : ℕ} (hn : 2 ≤ n) : n.minFac ≤ n.sqrt ↔ ¬n.Prime := by
  rw [Nat.le_sqrt]
  constructor
  · intro hle hp
    rw [hp.minFac_eq] at hle
    have := Nat.mul_le_mul_right n hn
    omega
  · intro hp
    have := Nat.minFac_sq_le_self (by omega) hp
    rwa [pow_two] at this

theorem trialDivision_eq {n : ℕ} (hn : 2 ≤ n) (hodd : n % 2 ≠ 0) :
    trialDivision n = if n.Prime then none else some (n.minFac, n / n.minFac) := by
  have htwo := (Nat.minFac_prime (show n ≠ 1 by omega)).two_le
  have hmin := odd_minFac hodd
  rw [trialDivision, if_neg hodd, trialFrom_eq hodd (by decide) (by decide) (by omega)]
  simp only [minFac_le_sqrt_iff hn, ite_not]

/-! ### Pollard's rho does not end on a prime -/

theorem rhoCycle_dvd {n c fuel x y d : ℕ} (h : rhoCycle n c fuel x y = some d) : d ∣ n ∧ d ≠ 1 := by
  induction fuel generalizing x y with
  | zero => cases h
  | succ fuel ih =>
    simp only [rhoCycle] at h
    split at h
    · exact ih h
    · obtain rfl := Option.some.inj h
      exact ⟨Nat.gcd_dvd_right _ _, by assumption⟩

theorem rhoLoop_prime {n : ℕ} (hn : n.Prime) (fuel : ℕ) (draws : List (ℕ × ℕ)) : rhoLoop n fuel draws = none := by
  induction draws with
  | nil => rfl
  | cons draw draws ih =>
    obtain ⟨c, x⟩ := draw
    simp only [rhoLoop]
    cases hcycle : rhoCycle n c fuel x x with
    | none => rfl
    | some d =>
      obtain ⟨hdvd, hone⟩ := rhoCycle_dvd hcycle
      obtain h1 | hd := (Nat.dvd_prime hn).mp hdvd
      · exact absurd h1 hone
      · simp only [hd, ne_eq, not_true_eq_false, if_false]
        exact ih

theorem pollardsRho_prime {n : ℕ} (hn : n.Prime) (h3 : 3 < n) (fuel : ℕ) (draws : List (ℕ × ℕ)) :
    pollardsRho n fuel draws = none := by
  have hdvd : ∀ p, p.Prime → p < n → n % p ≠ 0 := by
    intro p hp hlt hmod
    have := (Nat.prime_dvd_prime_iff_eq hp hn).mp (Nat.dvd_of_mod_eq_zero hmod)
    omega
  rw [pollardsRho, if_neg (hdvd 2 Nat.prime_two (by omega)), if_neg (hdvd 3 Nat.prime_three (by omega))]
  exact rhoLoop_prime hn fuel draws

/-! ### The factor pair -/

theorem minFac_le_div {n : ℕ} (hn : 2 ≤ n) (hp : ¬n.Prime) : n.minFac ≤ n / n.minFac := by
  rw [Nat.le_div_iff_mul_le (Nat.minFac_pos n)]
  have := Nat.minFac_sq_le_self (by omega) hp
  rwa [pow_two] at this

/-- **What factoring returns**: the smallest prime factor and the cofactor of a composite number, and
nothing ever of a prime. -/
theorem factorSemiprime_eq {N : ℕ} (hN : 3 < N) (fuel : ℕ) (draws : List (ℕ × ℕ)) :
    factorSemiprime N fuel draws = .ok (if N.Prime then none else some (N.minFac, N / N.minFac)) := by
  rw [factorSemiprime, if_neg (by omega)]
  by_cases heven : N % 2 = 0
  · have hmin : N.minFac = 2 := (Nat.minFac_eq_two_iff N).mpr (Nat.dvd_of_mod_eq_zero heven)
    have hp : ¬N.Prime := by
      intro hp
      have := hp.eq_two_or_odd
      omega
    rw [if_pos heven, if_neg hp, hmin]
  · rw [if_neg heven, trialDivision_eq (by omega) heven]
    by_cases hp : N.Prime
    · simp only [if_pos hp, pollardsRho_prime hp hN]
    · have hle := minFac_le_div (by omega) hp
      simp only [if_neg hp, min_eq_left hle, max_eq_right hle]

theorem factorN_eq {maxNBits N : ℤ} (hN : 3 < N) (hbits : (N.toNat.size : ℤ) ≤ maxNBits) (fuel : ℕ)
    (draws : List (ℕ × ℕ)) :
    factorN maxNBits N fuel draws =
      .ok (if N.toNat.Prime then none else some (N.toNat.minFac, N.toNat / N.toNat.minFac)) := by
  rw [← factorSemiprime_eq (by omega) fuel draws, factorN, validateN, if_neg (by omega), if_neg (by omega)]
  rfl

/-! ### When factoring ends -/

/-- `randrange(1, n)` and `randrange(0, n)`, in each turn of the outer loop. -/
def InRange (N : ℕ) (draws : ℕ → ℕ × ℕ) : Prop := ∀ i, 1 ≤ (draws i).1 ∧ (draws i).1 < N ∧ (draws i).2 < N

theorem inRange_const {N : ℕ} (hN : 1 < N) : InRange N fun _ => (1, 0) := by
  intro i
  exact ⟨le_rfl, hN, Nat.zero_lt_of_lt hN⟩

/-- With finitely many of the draws, and finitely many steps after each, there is a pair or an error. -/
def Ends (N : ℕ) (draws : ℕ → ℕ × ℕ) : Prop :=
  ∃ fuel turns, factorSemiprime N fuel ((List.range turns).map draws) ≠ .ok none

theorem ends_of_le_three {N : ℕ} (hN : 1 < N) (h3 : N ≤ 3) (draws : ℕ → ℕ × ℕ) : Ends N draws := by
  refine ⟨0, 0, ?_⟩
  obtain rfl | rfl : N = 2 ∨ N = 3 := by omega
  · simp [factorSemiprime]
  · have htrial : trialDivision 3 = none := by
      rw [trialDivision_eq (by decide) (by decide), if_pos Nat.prime_three]
    simp [factorSemiprime, htrial, pollardsRho]

/-- Above three it is the factors that decide, and the draws do not matter. -/
theorem ends_iff_of_three_lt {N : ℕ} (hN : 3 < N) (draws : ℕ → ℕ × ℕ) : Ends N draws ↔ ¬N.Prime := by
  simp only [Ends, factorSemiprime_eq hN]
  by_cases hp : N.Prime
  · simp [hp]
  · simp [hp]

/-- **Factoring ends**, whatever is drawn, exactly for two, three and the composite numbers: a prime above
three goes to Pollard's rho, which has no other way out than a proper divisor. -/
theorem factoring_ends_iff {N : ℕ} (hN : 1 < N) : (∀ draws, InRange N draws → Ends N draws) ↔ N ≤ 3 ∨ ¬N.Prime := by
  by_cases h3 : N ≤ 3
  · exact ⟨fun _ => .inl h3, fun _ draws _ => ends_of_le_three hN h3 draws⟩
  · have hlt : 3 < N := by omega
    constructor
    · intro h
      exact .inr ((ends_iff_of_three_lt hlt _).mp (h _ (inRange_const hN)))
    · rintro (hle | hp) draws -
      · exact absurd hle h3
      · exact (ends_iff_of_three_lt hlt draws).mpr hp

theorem factoring_ends_nine : Ends 9 fun _ => (1, 0) :=
  (factoring_ends_iff (by decide)).mpr (.inr (by decide)) _ (inRange_const (by decide))

/-- Five, with any draws. -/
theorem not_factoring_ends : ¬∀ N, 1 < N → ∀ draws, InRange N draws → Ends N draws := by
  intro h
  have hends := h 5 (by decide) _ (inRange_const (by decide))
  exact (ends_iff_of_three_lt (by decide) _).mp hends (by decide)

end SynQc.Shor
