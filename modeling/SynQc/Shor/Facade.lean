import Mathlib.Algebra.Order.Ring.Int
import SynQc.Library.Fallible
import SynQc.Shor.Factor

/-! The factoring façade: `factor_N` with each of its methods.

The pair comes from Qiskit's Shor or from classical factoring, and with `auto` whatever Shor raises leads to
the classical pair. What Shor returns is any object; `_parse_factors` takes the first two integers of its
factors and checks their product. That is all it checks, so one times `N` is a factorisation to it, and so
are two negative numbers. Every pair is a proper one exactly if Shor is not asked, or does not return such
a pair (`factorN_proper_iff`). -/
namespace SynQc.Shor.Facade
open Fallible

/-! ### What Shor returns or raises -/

/-- An exception: the name of its type, its text, and if it is an `Exception`, which handlers catch. -/
structure Raised where
  typeName : String
  text : String
  isException : Bool
deriving DecidableEq

def valueError (text : String) : Raised := ⟨"ValueError", text, true⟩

def runtimeError (text : String) : Raised := ⟨"RuntimeError", text, true⟩

/-- A Python object, by what the parsing of factors can ask of it. -/
structure Obj where
  /-- `f"{type(x)}"` -/
  typeText : String
  /-- `repr(x)` -/
  repr : Except Raised String
  /-- `bool(x)` -/
  truth : Except Raised Bool
  /-- `int(x)` -/
  toInt : Except Raised ℤ
  /-- The items of a list or a tuple. -/
  items : Option (List Obj)
  /-- The entries of a dictionary under keys that are strings. -/
  entries : Option (List (String × Obj))
  /-- Its attribute `factors`. -/
  factors : Option (Except Raised Obj)

namespace Obj

def ofInt (n : ℤ) : Obj where
  typeText := "<class 'int'>"
  repr := .ok (toString n)
  truth := .ok (n ≠ 0)
  toInt := .ok n
  items := none
  entries := none
  factors := none

def ofList (items : List Obj) : Obj where
  typeText := "<class 'list'>"
  repr := (items.mapM Obj.repr).map fun texts => "[" ++ ", ".intercalate texts ++ "]"
  truth := .ok (!items.isEmpty)
  toInt := .error ⟨"TypeError",
    "int() argument must be a string, a bytes-like object or a real number, not 'list'", true⟩
  items := some items
  entries := none
  factors := none

/-- An instance of a result class with the attribute `factors`. -/
def ofFactors (factors : Obj) : Obj where
  typeText := "<class 'ShorResult'>"
  repr := .ok "ShorResult"
  truth := .ok true
  toInt := .error ⟨"TypeError",
    "int() argument must be a string, a bytes-like object or a real number, not 'ShorResult'", true⟩
  items := none
  entries := none
  factors := some (.ok factors)

/-- The `factors` of a result: the attribute, or the entry of a dictionary. -/
def factorsOf (raw : Obj) : Except Raised (Option Obj) :=
  match raw.factors with
  | some read => read.map some
  | none => .ok (raw.entries.bind (List.lookup "factors"))

def noFactors : Raised := runtimeError "Qiskit Shor did not return factors (it may have failed)."

/-- `factors[0] if isinstance(factors, (list, tuple)) else factors` -/
def firstOf (factors : Obj) : Except Raised Obj :=
  match factors.items with
  | some (first :: _) => .ok first
  | some [] => .error ⟨"IndexError", "list index out of range", true⟩
  | none => .ok factors

/-- The first two integers of `first`, which is the first of the factors. -/
def unpack (factors first : Obj) : Except Raised (ℤ × ℤ) :=
  match first.items with
  | some (a :: b :: _) => do
    let p ← a.toInt
    let q ← b.toInt
    return (p, q)
  | _ => do
    let text ← factors.repr
    .error (runtimeError s!"Unexpected Shor factors format: {factors.typeText} / {text}")

/-- The pair that a result is taken to name. -/
def firstPair (raw : Obj) : Except Raised (ℤ × ℤ) := do
  match ← raw.factorsOf with
  | none => .error noFactors
  | some factors =>
    let truth ← factors.truth
    if truth then
      let first ← factors.firstOf
      factors.unpack first
    else .error noFactors

/-- The result holds `p` and `q` where the factors are looked for. -/
def Holds (raw : Obj) (p q : ℤ) : Prop :=
  ∃ factors, raw.factorsOf = .ok (some factors) ∧ factors.truth = .ok true ∧
    ∃ first, (factors.items = none ∧ first = factors ∨ ∃ others, factors.items = some (first :: others)) ∧
      ∃ a b others, first.items = some (a :: b :: others) ∧ a.toInt = .ok p ∧ b.toInt = .ok q

end Obj

/-- `_parse_factors` -/
def parseFactors (N : ℤ) (raw : Obj) : Except Raised (ℤ × ℤ) := do
  let (p, q) ← raw.firstPair
  if p * q ≠ N then .error (runtimeError s!"Invalid factors from Shor: p*q != N ({p}*{q} != {N})")
  return (min p q, max p q)

/-! ### Qiskit -/

/-- The options that are passed on to Shor. -/
structure ShorOptions where
  backendMode : Option String := some "aer"
  shots : ℤ := 1024
  ibmBackendName : Option String := none
  providerBackendName : Option String := none
  providerLoader : Option String := none

/-- The parameters that the signature of the installed class has. -/
structure ShorSignature where
  wantsQuantumInstance : Bool
  wantsSampler : Bool

inductive Primitive where
  | quantumInstance
  | sampler
  | default

inductive Backend where
  | aer
  | ibm
  | custom
  | default

/-- The string methods of the language, the configuration, and what is installed. -/
structure Environment where
  lower : String → String
  strip : String → String
  /-- `SYNQC_SHOR_MAX_N_BITS` -/
  maxNBits : ℤ
  isQiskitAvailable : Bool
  importShorClass : Except Raised ShorSignature
  importQuantumInstance : Except Raised Unit
  /-- The backend is set up, and `shor.factor` is called on it. -/
  factor : Primitive → Backend → ShorOptions → ℤ → Except Raised Obj

structure QiskitShorResult where
  p : ℤ
  q : ℤ
  backendMode : String

/-- `(text or default).lower().strip()` -/
def Environment.normalized (env : Environment) (text : Option String) (default : String) : String :=
  env.strip (env.lower (if text.getD "" = "" then default else text.getD ""))

def backendOf (backendMode : String) : Except Raised Backend :=
  if backendMode ∈ ["aer", "sim", "simulator"] then .ok .aer
  else if backendMode ∈ ["ibm", "runtime", "ibm_quantum"] then .ok .ibm
  else if backendMode = "custom" then .ok .custom
  else .error (valueError s!"Unknown backend_mode: {backendMode}")

/-- What `factor_with_qiskit_shor` gets of Qiskit before it parses the factors: the raw result, and the mode
it ran in. -/
def shorCall (env : Environment) (options : ShorOptions) (N : ℤ) : Except Raised (Obj × String) := do
  let backendMode := env.normalized options.backendMode "aer"
  let signature ← env.importShorClass
  if signature.wantsQuantumInstance then
    env.importQuantumInstance
    let backend ← backendOf backendMode
    let raw ← env.factor .quantumInstance backend options N
    return (raw, backendMode)
  else if signature.wantsSampler then
    let backend ← backendOf backendMode
    let raw ← env.factor .sampler backend options N
    return (raw, backendMode)
  else
    let raw ← env.factor .default .default options N
    return (raw, "default")

def factorWithQiskitShor (env : Environment) (options : ShorOptions) (N : ℤ) : Except Raised QiskitShorResult := do
  let (raw, backendMode) ← shorCall env options N
  let (p, q) ← parseFactors N raw
  return { p := p, q := q, backendMode := backendMode }

/-! ### The façade -/

structure StepTiming where
  name : String
  ok : Bool := true
  detail : Option String := none
deriving DecidableEq

structure FactorResult where
  N : ℤ
  p : ℤ
  q : ℤ
  methodUsed : String
  steps : List StepTiming
deriving DecidableEq

/-- The classical path, from the steps before it; `none` while it is running. -/
def classicalResult (N : ℤ) (fuel : ℕ) (draws : List (ℕ × ℕ)) (steps : List StepTiming) :
    Except Raised (Option FactorResult) :=
  match factorSemiprime N.toNat fuel draws with
  | .error text => .error (valueError text)
  | .ok none => .ok none
  | .ok (some (p, q)) =>
    .ok (some
      { N := N, p := p, q := q, methodUsed := "classical_fallback"
        steps := steps ++ [{ name := "classical_factor" }] })

def shorResult (N : ℤ) (res : QiskitShorResult) (steps : List StepTiming) : FactorResult :=
  { N := N, p := res.p, q := res.q, methodUsed := s!"qiskit_shor:{res.backendMode}"
    steps := steps ++ [{ name := "qiskit_shor" }] }

def failedStep (e : Raised) : StepTiming :=
  { name := "qiskit_shor", ok := false
    detail := some s!"failed; used classical fallback ({e.typeName}: {e.text})" }

/-- `factor_N`; `none` while classical factoring is running. -/
def factorN (env : Environment) (options : ShorOptions) (N : ℤ) (method : Option String) (fuel : ℕ)
    (draws : List (ℕ × ℕ)) : Except Raised (Option FactorResult) := do
  (validateN env.maxNBits N).mapError valueError
  let steps : List StepTiming := [{ name := "validate" }]
  let method := env.normalized method "auto"
  if method = "classical" then classicalResult N fuel draws steps
  else if method = "qiskit" then
    let res ← factorWithQiskitShor env options N
    return some (shorResult N res steps)
  else if method = "auto" then
    if env.isQiskitAvailable then
      match factorWithQiskitShor env options N with
      | .ok res => return some (shorResult N res steps)
      | .error e =>
        if e.isException then classicalResult N fuel draws (steps ++ [failedStep e]) else .error e
    else classicalResult N fuel draws steps
  else .error (valueError s!"Unknown method: {method}")

/-! ### The pair of a raw result -/

theorem firstOf_eq_ok_iff {factors first : Obj} : factors.firstOf = .ok first ↔
    (factors.items = none ∧ first = factors) ∨ ∃ others, factors.items = some (first :: others) := by
  rw [Obj.firstOf]
  cases factors.items with
  | none => simp [eq_comm]
  | some items =>
    cases items with
    | nil => simp
    | cons item others => simp

theorem unpack_eq_ok_iff {factors first : Obj} {p q : ℤ} : factors.unpack first = .ok (p, q) ↔
    ∃ a b others, first.items = some (a :: b :: others) ∧ a.toInt = .ok p ∧ b.toInt = .ok q := by
  constructor
  · intro h
    rw [Obj.unpack] at h
    split at h
    · rename_i a b others hitems
      obtain ⟨p', ha, h⟩ := bind_eq_ok.mp h
      obtain ⟨q', hb, h⟩ := bind_eq_ok.mp h
      obtain ⟨rfl, rfl⟩ := Prod.mk.inj (Except.ok.inj h)
      exact ⟨a, b, others, hitems, ha, hb⟩
    · obtain ⟨text, _, h⟩ := bind_eq_ok.mp h
      cases h
  · intro h
    obtain ⟨a, b, others, hitems, ha, hb⟩ := h
    rw [Obj.unpack, hitems]
    exact bind_eq_ok.mpr ⟨p, ha, bind_eq_ok.mpr ⟨q, hb, rfl⟩⟩

/-- The first pair of a result is read just if the result holds it. -/
theorem firstPair_eq_ok_iff {raw : Obj} {p q : ℤ} : raw.firstPair = .ok (p, q) ↔ raw.Holds p q := by
  constructor
  · intro h
    obtain ⟨factors?, hfactors, h⟩ := bind_eq_ok.mp h
    cases factors? with
    | none => cases h
    | some factors =>
      obtain ⟨truth, htruth, h⟩ := bind_eq_ok.mp h
      cases truth with
      | false => cases h
      | true =>
        obtain ⟨first, hfirst, hpair⟩ := bind_eq_ok.mp h
        exact ⟨factors, hfactors, htruth, first, firstOf_eq_ok_iff.mp hfirst, unpack_eq_ok_iff.mp hpair⟩
  · intro h
    obtain ⟨factors, hfactors, htruth, first, hfirst, hpair⟩ := h
    refine bind_eq_ok.mpr ⟨some factors, hfactors, bind_eq_ok.mpr ⟨true, htruth, ?_⟩⟩
    exact bind_eq_ok.mpr ⟨first, firstOf_eq_ok_iff.mpr hfirst, unpack_eq_ok_iff.mpr hpair⟩

/-- What parsing checks is the product. -/
theorem parseFactors_eq_ok_iff {N : ℤ} {raw : Obj} {p q : ℤ} :
    parseFactors N raw = .ok (p, q) ↔ ∃ a b, raw.Holds a b ∧ a * b = N ∧ p = min a b ∧ q = max a b := by
  constructor
  · intro h
    obtain ⟨⟨a, b⟩, hpair, h⟩ := bind_eq_ok.mp h
    dsimp only at h
    split at h
    · cases h
    · rename_i hprod
      obtain ⟨rfl, rfl⟩ := Prod.mk.inj (Except.ok.inj h)
      exact ⟨a, b, firstPair_eq_ok_iff.mp hpair, not_not.mp hprod, rfl, rfl⟩
  · intro h
    obtain ⟨a, b, hholds, hprod, rfl, rfl⟩ := h
    refine bind_eq_ok.mpr ⟨(a, b), firstPair_eq_ok_iff.mpr hholds, ?_⟩
    dsimp only
    rw [if_neg (not_not.mpr hprod)]
    rfl

theorem factorWithQiskitShor_eq_ok_iff {env : Environment} {options : ShorOptions} {N : ℤ} {res : QiskitShorResult} :
    factorWithQiskitShor env options N = .ok res ↔
      ∃ raw, shorCall env options N = .ok (raw, res.backendMode) ∧ parseFactors N raw = .ok (res.p, res.q) := by
  constructor
  · intro h
    obtain ⟨⟨raw, backendMode⟩, hcall, h⟩ := bind_eq_ok.mp h
    obtain ⟨⟨p, q⟩, hparse, h⟩ := bind_eq_ok.mp h
    obtain rfl := Except.ok.inj h
    exact ⟨raw, hcall, hparse⟩
  · intro h
    obtain ⟨raw, hcall, hparse⟩ := h
    exact bind_eq_ok.mpr ⟨(raw, res.backendMode), hcall, bind_eq_ok.mpr ⟨(res.p, res.q), hparse, rfl⟩⟩

/-! ### The classical pair -/

section Facade
variable {env : Environment} {options : ShorOptions} {N : ℤ} {method : Option String} {fuel : ℕ}
  {draws : List (ℕ × ℕ)} {steps : List StepTiming} {r : FactorResult}

/-- A proper factorisation, the smaller factor first. -/
def FactorResult.Proper (r : FactorResult) (N : ℤ) : Prop := 1 < r.p ∧ r.p ≤ r.q ∧ r.p * r.q = N

/-- The classical path ends with the smallest prime factor and its cofactor, or not at all. -/
theorem classicalResult_eq_some_iff (hN : 3 < N) :
    classicalResult N fuel draws steps = .ok (some r) ↔
      ¬N.toNat.Prime ∧ r = ⟨N, N.toNat.minFac, (N.toNat / N.toNat.minFac : ℕ), "classical_fallback",
        steps ++ [{ name := "classical_factor" }]⟩ := by
  rw [classicalResult, factorSemiprime_eq (by omega)]
  by_cases hp : N.toNat.Prime
  · simp [hp]
  · simp [hp, eq_comm]

theorem proper_of_classicalResult (hN : 3 < N) (h : classicalResult N fuel draws steps = .ok (some r)) :
    r.Proper N := by
  obtain ⟨hp, rfl⟩ := (classicalResult_eq_some_iff hN).mp h
  have hprime := Nat.minFac_prime (show N.toNat ≠ 1 by omega)
  have hprod : (N.toNat.minFac : ℤ) * (N.toNat / N.toNat.minFac : ℕ) = N.toNat := by
    exact_mod_cast Nat.mul_div_cancel' (Nat.minFac_dvd N.toNat)
  refine ⟨?_, ?_, hprod.trans (Int.toNat_of_nonneg (by omega))⟩
  · exact Int.ofNat_lt.mpr hprime.one_lt
  · exact Int.ofNat_le.mpr (minFac_le_div (by omega) hp)

/-! ### Where the pair comes from -/

/-- Shor is asked: the method forces it, or leaves it open where Qiskit is installed. -/
def UsesShor (env : Environment) (method : Option String) : Prop :=
  env.normalized method "auto" = "qiskit" ∨ env.normalized method "auto" = "auto" ∧ env.isQiskitAvailable = true

/-- Shor names a pair with the product `N` that is no proper factorisation. -/
def NamesImproper (env : Environment) (options : ShorOptions) (N : ℤ) : Prop :=
  ∃ raw backendMode p q, shorCall env options N = .ok (raw, backendMode) ∧ raw.Holds p q ∧ p * q = N ∧
    (p ≤ 1 ∨ q ≤ 1)

theorem validateN_ok {maxNBits : ℤ} (hN : 3 < N) (hbits : (N.toNat.size : ℤ) ≤ maxNBits) :
    validateN maxNBits N = .ok () := by
  rw [validateN, if_neg (by omega), if_neg (by omega)]

/-- A result is Shor's, which was asked then, or the classical one. -/
theorem factorN_some (h : factorN env options N method fuel draws = .ok (some r)) :
    (UsesShor env method ∧ ∃ res, factorWithQiskitShor env options N = .ok res ∧ r.p = res.p ∧ r.q = res.q) ∨
      ∃ steps, classicalResult N fuel draws steps = .ok (some r) := by
  obtain ⟨-, -, h⟩ := bind_eq_ok.mp h
  dsimp only at h
  split at h
  · exact .inr ⟨_, h⟩
  · split at h
    · rename_i hqiskit
      obtain ⟨res, hres, h⟩ := bind_eq_ok.mp h
      obtain rfl := Option.some.inj (Except.ok.inj h)
      exact .inl ⟨.inl hqiskit, res, hres, rfl, rfl⟩
    · split at h
      · rename_i hauto
        split at h
        · rename_i havailable
          cases hres : factorWithQiskitShor env options N with
          | ok res =>
            rw [hres] at h
            obtain rfl := Option.some.inj (Except.ok.inj h)
            exact .inl ⟨.inr ⟨hauto, havailable⟩, res, rfl, rfl, rfl⟩
          | error e =>
            rw [hres] at h
            dsimp only at h
            split at h
            · exact .inr ⟨_, h⟩
            · cases h
        · exact .inr ⟨_, h⟩
      · cases h

theorem factorN_shor (hN : 3 < N) (hbits : (N.toNat.size : ℤ) ≤ env.maxNBits) (huses : UsesShor env method)
    {res : QiskitShorResult} (hres : factorWithQiskitShor env options N = .ok res) :
    ∃ r, factorN env options N method fuel draws = .ok (some r) ∧ r.p = res.p ∧ r.q = res.q := by
  refine ⟨shorResult N res [{ name := "validate" }], ?_, rfl, rfl⟩
  rw [factorN, validateN_ok hN hbits]
  dsimp only [Except.mapError, bind, Except.bind]
  obtain hq | ⟨ha, havailable⟩ := huses
  · rw [hq, if_neg (by decide), if_pos rfl, hres]
    rfl
  · rw [ha, if_neg (by decide), if_neg (by decide), if_pos rfl, if_pos havailable, hres]
    rfl

theorem factorN_classical_eq (hN : 3 < N) (hbits : (N.toNat.size : ℤ) ≤ env.maxNBits)
    (hmethod : env.normalized method "auto" = "classical") :
    factorN env options N method fuel draws = classicalResult N fuel draws [{ name := "validate" }] := by
  rw [factorN, validateN_ok hN hbits]
  dsimp only [Except.mapError, bind, Except.bind]
  rw [hmethod, if_pos rfl]

/-- The classical method is `factor_semiprime` behind the check of `N`. -/
theorem factorN_classical (hmethod : env.normalized method "auto" = "classical") :
    (factorN env options N method fuel draws).map (Option.map fun r => (r.p, r.q)) =
      ((Shor.factorN env.maxNBits N fuel draws).mapError valueError).map
        (Option.map fun pq => ((pq.1 : ℤ), (pq.2 : ℤ))) := by
  rw [factorN, Shor.factorN]
  cases validateN env.maxNBits N with
  | error text => rfl
  | ok _ =>
    dsimp only [Except.mapError, bind, Except.bind]
    rw [hmethod, if_pos rfl, classicalResult]
    cases factorSemiprime N.toNat fuel draws with
    | error text => rfl
    | ok pair =>
      cases pair with
      | none => rfl
      | some pq => rfl

/-- Whatever is drawn, a result is a proper factorisation, and with `auto` and a failing Shor it is the pair
that the classical method returns. -/
def FactorsProperly (env : Environment) (options : ShorOptions) (N : ℤ) (method : Option String) : Prop :=
  (∀ fuel draws r, factorN env options N method fuel draws = .ok (some r) → r.Proper N) ∧
    (env.normalized method "auto" = "auto" → ∀ e, factorWithQiskitShor env options N = .error e →
      ∀ fuel draws r, factorN env options N method fuel draws = .ok (some r) →
        ∀ classical, env.normalized classical "auto" = "classical" → ∀ fuel' draws',
          ∃ r', factorN env options N classical fuel' draws' = .ok (some r') ∧ (r.p, r.q) = (r'.p, r'.q))

theorem proper_of_some (hN : 3 < N) (hnot : ¬(UsesShor env method ∧ NamesImproper env options N))
    (h : factorN env options N method fuel draws = .ok (some r)) : r.Proper N := by
  obtain ⟨huses, res, hres, hp, hq⟩ | ⟨_, hclassical⟩ := factorN_some h
  · obtain ⟨raw, hcall, hparse⟩ := factorWithQiskitShor_eq_ok_iff.mp hres
    obtain ⟨a, b, hholds, hprod, hmin, hmax⟩ := parseFactors_eq_ok_iff.mp hparse
    have hone : 1 < a ∧ 1 < b := by
      by_contra hle
      exact hnot ⟨huses, raw, res.backendMode, a, b, hcall, hholds, hprod, by omega⟩
    rw [FactorResult.Proper, hp, hq, hmin, hmax, min_mul_max]
    exact ⟨lt_min hone.1 hone.2, min_le_max, hprod⟩
  · exact proper_of_classicalResult hN hclassical

/-- Where Shor fails, a result is the one of the classical method, with any other draws. -/
theorem classical_of_error (hN : 3 < N) (hbits : (N.toNat.size : ℤ) ≤ env.maxNBits) {e : Raised}
    (he : factorWithQiskitShor env options N = .error e)
    (h : factorN env options N method fuel draws = .ok (some r)) {classical : Option String}
    (hclassical : env.normalized classical "auto" = "classical") (fuel' : ℕ) (draws' : List (ℕ × ℕ)) :
    ∃ r', factorN env options N classical fuel' draws' = .ok (some r') ∧ (r.p, r.q) = (r'.p, r'.q) := by
  obtain ⟨-, res, hres, -⟩ | ⟨_, hsome⟩ := factorN_some h
  · rw [he] at hres
    cases hres
  · obtain ⟨hp, rfl⟩ := (classicalResult_eq_some_iff hN).mp hsome
    exact ⟨_, (factorN_classical_eq hN hbits hclassical).trans ((classicalResult_eq_some_iff hN).mpr ⟨hp, rfl⟩), rfl⟩

/-- **A factorisation is a proper one**, and the classical one where Shor fails, exactly if Shor is not asked
or names no improper pair. -/
theorem factorN_proper_iff (env : Environment) (options : ShorOptions) (method : Option String) (hN : 3 < N)
    (hbits : (N.toNat.size : ℤ) ≤ env.maxNBits) :
    FactorsProperly env options N method ↔ ¬(UsesShor env method ∧ NamesImproper env options N) := by
  constructor
  · intro h hused
    obtain ⟨hproper, -⟩ := h
    obtain ⟨huses, raw, backendMode, a, b, hcall, hholds, hprod, himproper⟩ := hused
    have hres : factorWithQiskitShor env options N = .ok ⟨min a b, max a b, backendMode⟩ :=
      factorWithQiskitShor_eq_ok_iff.mpr ⟨raw, hcall, parseFactors_eq_ok_iff.mpr ⟨a, b, hholds, hprod, rfl, rfl⟩⟩
    have hshor : ∃ r, factorN env options N method 0 [] = .ok (some r) ∧ r.p = min a b ∧ r.q = max a b :=
      factorN_shor hN hbits huses hres
    obtain ⟨r, hr, hp, -⟩ := hshor
    have hlt := (hproper 0 [] r hr).1
    rw [hp, lt_min_iff] at hlt
    omega
  · intro hnot
    exact ⟨fun _ _ _ hr => proper_of_some hN hnot hr,
      fun _ _ he _ _ _ hr _ hclassical => classical_of_error hN hbits he hr hclassical⟩

/-- Qiskit with a sampler, where each call of `factor` has one outcome. The string methods leave the texts
below as they are. -/
def samplerWith (outcome : Except Raised Obj) : Environment where
  lower := id
  strip := id
  maxNBits := 20
  isQiskitAvailable := true
  importShorClass := .ok ⟨false, true⟩
  importQuantumInstance := .ok ()
  factor _ _ _ _ := outcome

/-- The result with the one pair of factors `[p, q]`. -/
def pairResult (p q : ℤ) : Obj := .ofFactors (.ofList [.ofList [.ofInt p, .ofInt q]])

theorem factorN_proper_fifteen : FactorsProperly (samplerWith (.ok (pairResult 3 5))) {} 15 none := by
  refine (factorN_proper_iff _ {} none (by decide) (by decide)).mpr ?_
  intro h
  obtain ⟨-, raw, backendMode, p, q, hcall, hholds, -, himproper⟩ := h
  obtain ⟨rfl, -⟩ := Prod.mk.inj (Except.ok.inj hcall)
  obtain ⟨rfl, rfl⟩ := Prod.mk.inj (Except.ok.inj (firstPair_eq_ok_iff.mpr hholds))
  exact absurd himproper (by decide)

/-- One times fifteen passes for a factorisation. -/
theorem not_factorN_proper : ¬∀ env options N method, 3 < N → (N.toNat.size : ℤ) ≤ env.maxNBits →
    FactorsProperly env options N method := by
  intro h
  have hproper := (h (samplerWith (.ok (pairResult 1 15))) {} 15 (some "qiskit") (by decide) (by decide)).1
  have hlt := (hproper 0 [] _ rfl).1
  exact absurd hlt (by decide)

end Facade

end SynQc.Shor.Facade
