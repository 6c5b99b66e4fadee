import SynQc.Library.Amplification
import SynQc.Library.Fallible

/-! Quantum circuits as the Grover builders use them.

A circuit is a list of gates, then measurements of qubits into classical bits. A counts key
shows the classical bits from the last to the first, so of a basis state it is the bits
backwards (`keyOf`), and each string of bits is the key of one basis state
(`keyOf_eq_iff`). All three builders mark a string by a sign flip between two rows of X
gates on the qubits where the string has a zero; which basis state that negates depends on
the direction the string is read in (`run_mark`). -/
namespace SynQc.Grover
open Circuits

/-! ### Circuits and counts keys -/

/-- What the builders raise. -/
inductive BuildError where
  | valueError (message : String)
  | agentConfigError (message : String) (nQubits : Nat) (markedState : String)
  /-- Qiskit takes no gate on a qubit that is not there, and no MCX without a control. -/
  | circuitError
  deriving DecidableEq, Repr

/-- A circuit with as many classical bits as qubits. -/
structure QuantumCircuit (n : Nat) where
  gates : List (Gate n)
  /-- Each measured qubit, with the classical bit it is read into. -/
  measured : List (Fin n × Fin n)
  deriving DecidableEq, Repr

section
variable {n : Nat}

/-- The classical bits after the measurements of a basis state. -/
def QuantumCircuit.clbits (qc : QuantumCircuit n) (b : Basis n) : Basis n :=
  qc.measured.foldl (fun creg m => Function.update creg m.2 (b m.1)) fun _ => false

/-- Classical bits as Qiskit prints them, from `n - 1` down to `0`. -/
def keyOf (b : Basis n) : String :=
  String.ofList ((List.finRange n).reverse.map fun c => if b c then '1' else '0')

/-- The probability that a run is counted under a key. -/
noncomputable def QuantumCircuit.probability (qc : QuantumCircuit n) (key : String) : ℝ :=
  ∑ b ∈ Finset.univ.filter (fun b => keyOf (qc.clbits b) = key), run qc.gates (ket fun _ => false) b ^ 2

/-- `measure(range(n), range(n))` -/
def measureAll (n : Nat) : List (Fin n × Fin n) := (List.finRange n).map fun q => (q, q)

theorem foldl_measure (b : Basis n) (q : Fin n) (qs : List (Fin n)) (creg : Basis n) :
    (qs.map fun q => (q, q)).foldl (fun creg m => Function.update creg m.2 (b m.1)) creg q =
      if q ∈ qs then b q else creg q := by
  induction qs generalizing creg with
  | nil => rfl
  | cons r qs ih =>
    rw [List.map_cons, List.foldl_cons, ih]
    by_cases hr : q = r
    · subst hr
      rw [Function.update_self, ite_self, if_pos List.mem_cons_self]
    · rw [Function.update_of_ne hr]
      simp only [List.mem_cons, hr, false_or]

theorem clbits_measureAll (gates : List (Gate n)) (b : Basis n) :
    QuantumCircuit.clbits ⟨gates, measureAll n⟩ b = b := by
  funext q
  rw [QuantumCircuit.clbits, measureAll, foldl_measure, if_pos (List.mem_finRange q)]

/-! ### Strings of bits -/

/-- `n` bits of 0/1 -/
def IsBits (n : Nat) (s : String) : Prop := s.toList.length = n ∧ ∀ c ∈ s.toList, c = '0' ∨ c = '1'

instance (n : Nat) (s : String) : Decidable (IsBits n s) :=
  @instDecidableAnd _ _ inferInstance (List.decidableBAll (fun c => c = '0' ∨ c = '1') s.toList)

/-- `s[::-1]` -/
def reversed (s : String) : String := String.ofList s.toList.reverse

theorem toList_reversed (s : String) : (reversed s).toList = s.toList.reverse := String.toList_ofList

theorem reversed_reversed (s : String) : reversed (reversed s) = s := by
  rw [reversed, toList_reversed, List.reverse_reverse, String.ofList_toList]

theorem isBits_reversed {s : String} (h : IsBits n s) : IsBits n (reversed s) := by
  refine ⟨?_, fun c hc => h.2 c ?_⟩
  · rw [toList_reversed, List.length_reverse, h.1]
  · rwa [toList_reversed, List.mem_reverse] at hc

/-- The basis state with a zero on the qubits where the bits have one. -/
def basisOf (bits : List Char) : Basis n := fun q => decide (bits[q.val]? ≠ some '0')

theorem basisOf_keyOf (b : Basis n) : basisOf (keyOf b).toList.reverse = b := by
  funext q
  rw [basisOf, keyOf, String.toList_ofList, ← List.map_reverse, List.reverse_reverse, List.getElem?_map,
    List.getElem?_eq_getElem (by simp), List.getElem_finRange, Option.map_some]
  cases hb : b q <;> simp [hb]

theorem keyOf_basisOf {s : String} (h : IsBits n s) : keyOf (basisOf s.toList.reverse : Basis n) = s := by
  obtain ⟨hlen, hbits⟩ := h
  have hchars : (List.finRange n).map (fun c => if (basisOf s.toList.reverse : Basis n) c then '1' else '0') =
      s.toList.reverse := by
    refine List.ext_getElem (by simp [hlen]) fun i hi hi' => ?_
    rw [List.getElem_map, List.getElem_finRange]
    have hget : s.toList.reverse[i]? = some s.toList.reverse[i] := List.getElem?_eq_getElem hi'
    have hmem : s.toList.reverse[i] ∈ s.toList := List.mem_reverse.mp (List.getElem_mem hi')
    rcases hbits _ hmem with hc | hc <;> simp [basisOf, hget, hc]
  rw [keyOf, List.map_reverse, hchars, List.reverse_reverse, String.ofList_toList]

/-- Each string of bits is the key of one basis state. -/
theorem keyOf_eq_iff {s : String} (h : IsBits n s) (b : Basis n) : keyOf b = s ↔ b = basisOf s.toList.reverse := by
  constructor
  · intro hkey
    rw [← hkey, basisOf_keyOf]
  · intro hb
    rw [hb, keyOf_basisOf h]

/-- The basis state whose qubits are the bits as written is counted under the string backwards. -/
theorem keyOf_eq_reversed_iff {s : String} (h : IsBits n s) (b : Basis n) :
    keyOf b = reversed s ↔ b = basisOf s.toList := by
  rw [keyOf_eq_iff (isBits_reversed h), toList_reversed, List.reverse_reverse]

theorem keyOf_injective : Function.Injective (keyOf : Basis n → String) := by
  intro b b' h
  rw [← basisOf_keyOf b, h, basisOf_keyOf]

/-! ### Marks -/

/-- `n - 1`, the target of the sign flips. -/
def last (h : 0 < n) : Fin n := ⟨n - 1, Nat.sub_one_lt_of_lt h⟩

def lastQubit (n : Nat) : Except BuildError (Fin n) := if h : 0 < n then .ok (last h) else .error .circuitError

/-- `list(range(n - 1))` -/
def controls (n : Nat) : List (Fin n) := (List.finRange n).dropLast

def mcx (controls : List (Fin n)) (target : Fin n) : Except BuildError (Gate n) :=
  if controls.isEmpty then .error .circuitError else .ok (.mcx controls target)

/-- `h(n - 1)`, `mcx(list(range(n - 1)), n - 1)` and `h(n - 1)` -/
def hmcxh (n : Nat) : Except BuildError (List (Gate n)) := do
  let target ← lastQubit n
  let gate ← mcx (controls n) target
  return [.h target, gate, .h target]

/-- `h(range(n))` -/
def hRow (n : Nat) : List (Gate n) := (List.finRange n).map .h

/-- `x(range(n))` -/
def xRow (n : Nat) : List (Gate n) := (List.finRange n).map .x

/-- `for i, bit in enumerate(bits): if bit == "0": x(i)` -/
def xZeros (bits : List Char) : List (Gate n) :=
  ((List.finRange n).filter fun q => bits[q.val]? = some '0').map .x

theorem lastQubit_eq (h : 0 < n) : lastQubit n = .ok (last h) := dif_pos h

theorem finRange_eq (h : 0 < n) : List.finRange n = controls n ++ [last h] := by
  have hne : List.finRange n ≠ [] := by
    rw [ne_eq, List.finRange_eq_nil_iff]
    omega
  rw [controls, ← List.dropLast_append_getLast hne]
  simp [List.getLast_eq_getElem, last]

theorem last_not_mem_controls (h : 0 < n) : last h ∉ controls n := by
  have hnodup := List.nodup_finRange n
  rw [finRange_eq h] at hnodup
  exact fun hmem => (List.nodup_append.mp hnodup).2.2 _ hmem _ List.mem_cons_self rfl

theorem mcx_controls (h : 2 ≤ n) (target : Fin n) : mcx (controls n) target = .ok (.mcx (controls n) target) := by
  have hne : controls n ≠ [] := by
    intro hnil
    have hlen := congrArg List.length hnil
    rw [controls, List.length_dropLast, List.length_finRange, List.length_nil] at hlen
    omega
  rw [mcx, if_neg (by rwa [List.isEmpty_iff])]

/-- The controls and the target are all qubits. -/
theorem all_controls (h : 0 < n) (b : Basis n) :
    ((controls n).all b && b (last h)) = isOnes b := by
  have hall : (List.finRange n).all b = ((controls n).all b && b (last h)) := by
    rw [finRange_eq h, List.all_append, List.all_cons, List.all_nil, Bool.and_true]
  rw [← hall, Bool.eq_iff_iff, List.all_eq_true, isOnes, decide_eq_true_iff, funext_iff]
  exact ⟨fun hones q => hones q (List.mem_finRange q), fun hones q _ => hones q⟩

/-- H, an MCX from all other qubits and H flip the state of ones. -/
theorem run_last_hmcxh (h : 0 < n) : run [.h (last h), .mcx (controls n) (last h), .h (last h)] = phaseFlip isOnes := by
  rw [run_hmcxh (last_not_mem_controls h)]
  exact congrArg phaseFlip (funext fun b => all_controls h b)

/-- With two qubits or more, the H-MCX-H is built and flips the state of ones. -/
theorem hmcxh_spec (h : 2 ≤ n) : ∃ gs : List (Gate n), hmcxh n = .ok gs ∧ run gs = phaseFlip isOnes := by
  have hpos : 0 < n := by omega
  refine ⟨[.h (last hpos), .mcx (controls n) (last hpos), .h (last hpos)], ?_, ?_⟩
  · rw [hmcxh, lastQubit_eq hpos]
    show (mcx (controls n) _ >>= _) = _
    rw [mcx_controls h]
    rfl
  · exact run_last_hmcxh hpos

theorem toggle_zeros (bits : List Char) (b : Basis n) :
    isOnes (toggle ((List.finRange n).filter fun q => bits[q.val]? = some '0') b) = decide (b = basisOf bits) := by
  rw [isOnes]
  refine decide_eq_decide.mpr ?_
  rw [funext_iff, funext_iff]
  refine forall_congr' fun q => ?_
  simp only [toggle, ones, basisOf, List.mem_filter, List.mem_finRange, true_and, decide_eq_true_eq]
  by_cases hbit : bits[q.val]? = some '0' <;> cases b q <;> simp [hbit]

theorem run_xZeros (bits : List Char) : run (xZeros bits : List (Gate n)) =
    sweep (onQubit pauliX) ((List.finRange n).filter fun q => bits[q.val]? = some '0') := run_map _ _

/-- A flip of the state of ones, between two rows of X gates, flips the state the bits name. -/
theorem run_mark (bits : List Char) {gs : List (Gate n)} (hgs : run gs = phaseFlip isOnes) :
    run (xZeros bits ++ gs ++ xZeros bits) = phaseFlip fun b => decide (b = basisOf bits) := by
  have hnodup : ((List.finRange n).filter fun q => decide (bits[q.val]? = some '0')).Nodup :=
    (List.nodup_finRange n).filter _
  rw [run_append, run_append, hgs, run_xZeros, conj_flip hnodup]
  exact congrArg phaseFlip (funext fun b => toggle_zeros bits b)

/-- Flips of distinct keys are one flip of them all. -/
theorem run_marks {α : Type} (gs : α → List (Gate n)) (key : α → String) {marks : List α}
    (hgs : ∀ s ∈ marks, run (gs s) = phaseFlip fun b => decide (keyOf b = key s)) (hnodup : (marks.map key).Nodup) :
    run (marks.flatMap gs) = phaseFlip fun b => decide (keyOf b ∈ marks.map key) := by
  induction marks with
  | nil => exact phaseFlip_false.symm
  | cons s marks ih =>
    obtain ⟨hs, hnodup⟩ := List.nodup_cons.mp hnodup
    rw [List.flatMap_cons, run_append, ih (fun s hs => hgs s (List.mem_cons_of_mem _ hs)) hnodup,
      hgs s List.mem_cons_self, phaseFlip_mul]
    refine congrArg phaseFlip (funext fun b => ?_)
    rw [List.map_cons]
    by_cases hkey : keyOf b = key s
    · simp [hkey, hs]
    · simp [hkey]

/-- A flip of the state of ones, between rows of H and X gates, is the inversion about the mean
with the sign reversed. -/
theorem run_diffusion {gs : List (Gate n)} (hgs : run gs = phaseFlip isOnes) :
    run (hRow n ++ xRow n ++ gs ++ xRow n ++ hRow n) = -inversion := by
  have hh : run (hRow n) = sweep (onQubit hadamard) (List.finRange n) := run_map _ _
  have hx : run (xRow n) = sweep (onQubit pauliX) (List.finRange n) := run_map _ _
  rw [run_append, run_append, run_append, run_append, hgs, hh, hx, ← mul_assoc,
    sweep_onQubit_mul _ _ (List.nodup_finRange n), sweep_onQubit_mul _ _ (List.nodup_finRange n)]
  exact diffusion

/-! ### Keys and probabilities -/

/-- As many basis states are counted under some marks as there are marks. -/
theorem size_marks {marked : List String} (hvalid : ∀ s ∈ marked, IsBits n s) (hnodup : marked.Nodup) :
    size (fun b : Basis n => decide (keyOf b ∈ marked)) = marked.length := by
  have himage : (Finset.univ.filter fun b : Basis n => decide (keyOf b ∈ marked) = true).image keyOf = marked.toFinset := by
    ext s
    simp only [Finset.mem_image, Finset.mem_filter, Finset.mem_univ, true_and, decide_eq_true_eq, List.mem_toFinset]
    constructor
    · rintro ⟨b, hb, rfl⟩
      exact hb
    · intro hs
      have hkey : keyOf (basisOf s.toList.reverse : Basis n) = s := keyOf_basisOf (hvalid s hs)
      exact ⟨basisOf s.toList.reverse, hkey.symm ▸ hs, hkey⟩
  rw [size, ← Finset.card_image_of_injective _ keyOf_injective, himage, List.toFinset_card_of_nodup hnodup]

theorem probability_eq (gates : List (Gate n)) {s : String} (hs : IsBits n s) :
    QuantumCircuit.probability ⟨gates, measureAll n⟩ s =
      run gates (ket fun _ => false) (basisOf s.toList.reverse) ^ 2 := by
  have hfilter : (Finset.univ.filter fun b => keyOf (QuantumCircuit.clbits ⟨gates, measureAll n⟩ b) = s) =
      {basisOf s.toList.reverse} := by
    ext b
    rw [Finset.mem_filter, Finset.mem_singleton, clbits_measureAll, keyOf_eq_iff hs]
    exact and_iff_right (Finset.mem_univ b)
  rw [QuantumCircuit.probability, hfilter, Finset.sum_singleton]

end

end SynQc.Grover
