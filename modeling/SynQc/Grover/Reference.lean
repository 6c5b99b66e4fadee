import Mathlib.Data.Fintype.BigOperators
import Mathlib.Tactic.Positivity
import SynQc.Grover.Circuit
import SynQc.Library.Dict

/-! The reference distribution of `grover.py`.

`ideal_marked_distribution` gives each unmarked string a floor, splits what is left of one over the marked
strings and divides everything by the sum. The result is a distribution over the strings of bits whatever
the floor is. It favours the marked strings only while the floor leaves enough: with a floor that takes all
of the mass a marked string ends with less than an unmarked one, or with nothing (`favours_iff`). -/
namespace SynQc.Grover
open Circuits

/-! ### All strings of bits -/

/-- `f"{i:0{n}b}"` -/
def binary (n i : Nat) : String := String.ofList ((Nat.toDigits 2 i).leftpad n '0')

def support (n : Nat) : List String := (List.range (2 ^ n)).map (binary n)

theorem digitChar_of_lt_two {d : Nat} (h : d < 2) : d.digitChar = '0' ∨ d.digitChar = '1' := by
  obtain rfl | rfl : d = 0 ∨ d = 1 := by omega
  · exact .inl rfl
  · exact .inr rfl

theorem mem_toDigits_two (i : Nat) : ∀ c ∈ Nat.toDigits 2 i, c = '0' ∨ c = '1' := by
  induction i using Nat.strong_induction_on with
  | _ i ih =>
    intro c hc
    rw [Nat.toDigits_eq_if (by decide)] at hc
    split at hc
    · rw [List.mem_singleton.mp hc]
      exact digitChar_of_lt_two (by assumption)
    · obtain hc | hc := List.mem_append.mp hc
      · exact ih _ (by omega) c hc
      · rw [List.mem_singleton.mp hc]
        exact digitChar_of_lt_two (by omega)

variable {n : Nat}

theorem isBits_binary (hn : 0 < n) {i : Nat} (hi : i < 2 ^ n) : IsBits n (binary n i) := by
  have hlen := (Nat.length_toDigits_le_iff (by decide) hn).mpr hi
  rw [IsBits, binary, String.toList_ofList]
  refine ⟨by rw [List.length_leftpad, max_eq_left hlen], ?_⟩
  intro c hc
  obtain hc | hc := List.mem_append.mp hc
  · exact .inl (List.eq_of_mem_replicate hc)
  · exact mem_toDigits_two i c hc

/-- A binary numeral determines its number, padded or not. -/
theorem binary_injective (n : Nat) : Function.Injective (binary n) := by
  have hread : ∀ i, Nat.ofDigitChars 2 (binary n i).toList 0 = i := by
    intro i
    rw [binary, String.toList_ofList, List.leftpad, Nat.ofDigitChars_append, Nat.ofDigitChars_replicate_zero,
      Nat.mul_zero, Nat.ofDigitChars_toDigits (by decide) (by decide)]
  intro i j h
  rw [← hread i, h, hread j]

theorem nodup_support (n : Nat) : (support n).Nodup := List.nodup_range.map (binary_injective n)

/-- There are as many numerals as basis states, so each string of bits is one of them. -/
theorem mem_support (hn : 0 < n) {s : String} : s ∈ support n ↔ IsBits n s := by
  constructor
  · intro hs
    obtain ⟨i, hi, rfl⟩ := List.mem_map.mp hs
    exact isBits_binary hn (List.mem_range.mp hi)
  · intro hs
    have hbij : Function.Bijective fun i : Fin (2 ^ n) => (basisOf (binary n i).toList.reverse : Basis n) := by
      rw [Fintype.bijective_iff_injective_and_card]
      constructor
      · intro i j h
        have hkeys := congrArg keyOf h
        simp only [keyOf_basisOf (isBits_binary hn i.isLt), keyOf_basisOf (isBits_binary hn j.isLt)] at hkeys
        exact Fin.ext (binary_injective n hkeys)
      · simp [Basis]
    obtain ⟨i, hi⟩ := hbij.surjective (basisOf s.toList.reverse)
    refine List.mem_map.mpr ⟨i, List.mem_range.mpr i.isLt, ?_⟩
    have hkeys := congrArg keyOf hi
    rwa [keyOf_basisOf (isBits_binary hn i.isLt), keyOf_basisOf hs] at hkeys

/-! ### The distribution -/

def ambientStates (n : Nat) (marked : List String) : List String := (support n).filter fun s => s ∉ marked

/-- The share of each entry of the list of marked strings. -/
def signalShare (n : Nat) (marked : List String) (background : ℚ) : ℚ :=
  let ambientMass := max 0 background * (ambientStates n marked).length
  let signalMass := max 0 (1 - ambientMass)
  signalMass / marked.length

/-- `dist` before it is normalized. -/
def weights (n : Nat) (marked : List String) (background : ℚ) : Dict String ℚ :=
  (Dict.empty.setEach marked fun _ => signalShare n marked background).setEach (ambientStates n marked) fun _ =>
    max 0 background

def idealMarkedDistribution (n : Nat) (marked : List String) (background : ℚ := 15 / 1000) : Dict String ℚ :=
  if marked = [] then Dict.empty.setEach (support n) fun _ => 1 / 2 ^ n
  else
    let dist := weights n marked background
    let norm := dist.total fun _ v => v
    dist.mapValues fun v => v / norm

/-! ### A distribution over the strings of bits -/

/-- What the reference distribution is for: a distribution over the strings of bits that puts no unmarked
string before a marked one. -/
structure Favours (n : Nat) (marked : List String) (dist : Dict String ℚ) : Prop where
  keys : ∀ s, s ∈ dist.keys ↔ IsBits n s
  nonneg : ∀ s p, dist.get? s = some p → 0 ≤ p
  sum : (dist.total fun _ p => p) = 1
  marked_ge : ∀ s ∈ marked, ∀ t, t ∉ marked → ∀ p q, dist.get? s = some p → dist.get? t = some q → q ≤ p

section
variable {marked : List String} {background : ℚ}

theorem mem_ambientStates (hn : 0 < n) {s : String} : s ∈ ambientStates n marked ↔ IsBits n s ∧ s ∉ marked := by
  rw [ambientStates, List.mem_filter, mem_support hn, decide_eq_true_eq]

theorem signalShare_nonneg : 0 ≤ signalShare n marked background :=
  div_nonneg (le_max_left _ _) (Nat.cast_nonneg _)

theorem get?_weights_marked (hn : 0 < n) {s : String} (hs : s ∈ marked) :
    (weights n marked background).get? s = some (signalShare n marked background) := by
  rw [weights, Dict.get?_setEach, Dict.get?_setEach, if_neg fun h => ((mem_ambientStates hn).mp h).2 hs, if_pos hs]

theorem get?_weights_unmarked (hn : 0 < n) {s : String} (hs : s ∉ marked) :
    (weights n marked background).get? s = if IsBits n s then some (max 0 background) else none := by
  simp only [weights, Dict.get?_setEach, mem_ambientStates hn, hs, not_false_eq_true, and_true, if_false,
    Dict.get?_empty]

theorem weights_nonneg (hn : 0 < n) :
    ∀ s p, (weights n marked background).get? s = some p → 0 ≤ p := by
  intro s p h
  by_cases hs : s ∈ marked
  · rw [get?_weights_marked hn hs] at h
    obtain rfl := Option.some.inj h
    exact signalShare_nonneg
  · rw [get?_weights_unmarked hn hs] at h
    split at h
    · obtain rfl := Option.some.inj h
      exact le_max_left _ _
    · cases h

/-- All weights are nonnegative, and one is positive: a marked string's, or an unmarked one's if the floor
takes anything. -/
theorem norm_pos (background : ℚ) (hn : 0 < n) (hmarked : marked ≠ []) :
    0 < (weights n marked background).total fun _ v => v := by
  suffices hpos : ∃ s v, (weights n marked background).get? s = some v ∧ 0 < v by
    obtain ⟨s, v, hget, hv⟩ := hpos
    refine hv.trans_le (List.single_le_sum ?_ v (List.mem_map.mpr ⟨(s, v), Dict.mem_entries.mpr hget, rfl⟩))
    intro w hw
    obtain ⟨⟨k, w⟩, he, rfl⟩ := List.mem_map.mp hw
    exact weights_nonneg hn k w (Dict.mem_entries.mp he)
  obtain ⟨s, hs⟩ := List.exists_mem_of_ne_nil marked hmarked
  by_cases hmass : max 0 background * (ambientStates n marked).length = 0
  · refine ⟨s, _, get?_weights_marked hn hs, ?_⟩
    have hlen : (0 : ℚ) < marked.length := by exact_mod_cast List.length_pos_iff.mpr hmarked
    simp only [signalShare, hmass, sub_zero]
    exact div_pos (by norm_num) hlen
  · obtain ⟨hfloor, hambient⟩ := mul_ne_zero_iff.mp hmass
    obtain ⟨t, ht⟩ := List.exists_mem_of_length_pos (Nat.pos_of_ne_zero (Nat.cast_ne_zero.mp hambient))
    obtain ⟨hbits, hmem⟩ := (mem_ambientStates hn).mp ht
    exact ⟨t, _, (get?_weights_unmarked hn hmem).trans (if_pos hbits),
      lt_of_le_of_ne (le_max_left _ _) (Ne.symm hfloor)⟩

theorem get?_idealMarkedDistribution (hmarked : marked ≠ []) (s : String) :
    (idealMarkedDistribution n marked background).get? s =
      ((weights n marked background).get? s).map fun v => v / (weights n marked background).total fun _ v => v := by
  rw [idealMarkedDistribution, if_neg hmarked]
  exact Dict.get?_mapValues _ _ _

theorem mem_keys_idealMarkedDistribution (hn : 0 < n) (hmarked : marked ≠ []) (hvalid : ∀ s ∈ marked, IsBits n s)
    (s : String) : s ∈ (idealMarkedDistribution n marked background).keys ↔ IsBits n s := by
  rw [Dict.mem_keys, ← Option.isSome_iff_exists, get?_idealMarkedDistribution hmarked, Option.isSome_map]
  by_cases hs : s ∈ marked
  · simp [get?_weights_marked hn hs, hvalid s hs]
  · rw [get?_weights_unmarked hn hs]
    split <;> simp_all

theorem total_idealMarkedDistribution (hn : 0 < n) (hmarked : marked ≠ []) :
    ((idealMarkedDistribution n marked background).total fun _ p => p) = 1 := by
  have hnorm := norm_pos background hn hmarked
  simp only [idealMarkedDistribution, if_neg hmarked, Dict.total_mapValues, div_eq_mul_inv]
  refine (List.sum_map_mul_right ..).trans ?_
  exact mul_inv_cancel₀ hnorm.ne'

/-! ### The order of marked and unmarked strings -/

theorem length_ambientStates (hn : 0 < n) (hvalid : ∀ s ∈ marked, IsBits n s) :
    (ambientStates n marked).length + marked.dedup.length = 2 ^ n := by
  have hperm : ((support n).filter fun s => s ∈ marked).Perm marked.dedup := by
    refine (List.perm_ext_iff_of_nodup ((nodup_support n).filter _) (List.nodup_dedup marked)).mpr ?_
    intro s
    rw [List.mem_filter, mem_support hn, decide_eq_true_eq, List.mem_dedup]
    exact ⟨And.right, fun hs => ⟨hvalid s hs, hs⟩⟩
  have hsplit := List.length_eq_length_filter_add (l := support n) fun s => decide (s ∈ marked)
  have hlen : (support n).length = 2 ^ n := by rw [support, List.length_map, List.length_range]
  rw [ambientStates, ← hperm.length_eq, ← hlen, hsplit, Nat.add_comm]
  simp

/-- What is left of one gives each marked string as much as the floor, if the floor is low enough. -/
theorem le_signalShare_iff (hmarked : marked ≠ []) (hbackground : 0 ≤ background) :
    background ≤ signalShare n marked background ↔
      background * ((ambientStates n marked).length + marked.length) ≤ 1 := by
  have hlen : (0 : ℚ) < marked.length := by exact_mod_cast List.length_pos_iff.mpr hmarked
  rw [signalShare, max_eq_right hbackground, le_div_iff₀ hlen, le_max_iff, mul_add]
  constructor
  · rintro (hzero | hle)
    · have : background = 0 := le_antisymm (nonpos_of_mul_nonpos_left hzero hlen) hbackground
      simp [this]
    · linarith
  · intro hle
    exact .inr (by linarith)

theorem marked_ge_iff (hn : 0 < n) (hmarked : marked ≠ []) (hbackground : 0 ≤ background) :
    (∀ s ∈ marked, ∀ t, t ∉ marked → ∀ p q, (idealMarkedDistribution n marked background).get? s = some p →
        (idealMarkedDistribution n marked background).get? t = some q → q ≤ p) ↔
      ambientStates n marked = [] ∨ background ≤ signalShare n marked background := by
  have hnorm := norm_pos background hn hmarked
  constructor
  · intro h
    obtain ⟨s, hs⟩ := List.exists_mem_of_ne_nil marked hmarked
    by_cases hnil : ambientStates n marked = []
    · exact .inl hnil
    · obtain ⟨t, ht⟩ := List.exists_mem_of_ne_nil _ hnil
      obtain ⟨hbits, hmem⟩ := (mem_ambientStates hn).mp ht
      have hle := h s hs t hmem _ _
        (by rw [get?_idealMarkedDistribution hmarked, get?_weights_marked hn hs, Option.map_some])
        (by rw [get?_idealMarkedDistribution hmarked, get?_weights_unmarked hn hmem, if_pos hbits, Option.map_some])
      rw [div_le_div_iff_of_pos_right hnorm, max_eq_right hbackground] at hle
      exact .inr hle
  · intro h s hs t ht p q hp hq
    rw [get?_idealMarkedDistribution hmarked, get?_weights_marked hn hs, Option.map_some] at hp
    rw [get?_idealMarkedDistribution hmarked, get?_weights_unmarked hn ht] at hq
    split at hq
    · rename_i hbits
      obtain hnil | hle := h
      · have := (mem_ambientStates hn).mpr ⟨hbits, ht⟩
        rw [hnil] at this
        cases this
      · rw [← Option.some.inj hp, ← Option.some.inj hq, div_le_div_iff_of_pos_right hnorm, max_eq_right hbackground]
        exact hle
    · cases hq

/-- **The reference distribution favours the marked strings** exactly if there is no other string, or the
floor, given to every string that is not marked and every entry of the list, leaves no deficit. -/
theorem favours_iff (hn : 0 < n) (hmarked : marked ≠ []) (hvalid : ∀ s ∈ marked, IsBits n s)
    (hbackground : 0 ≤ background) :
    Favours n marked (idealMarkedDistribution n marked background) ↔
      marked.dedup.length = 2 ^ n ∨ background * (2 ^ n - marked.dedup.length + marked.length) ≤ 1 := by
  have hlen := length_ambientStates hn hvalid
  have hcast : ((ambientStates n marked).length : ℚ) = 2 ^ n - marked.dedup.length := by
    rw [eq_sub_iff_add_eq]
    exact_mod_cast hlen
  have hnil : ambientStates n marked = [] ↔ marked.dedup.length = 2 ^ n := by
    rw [← List.length_eq_zero_iff]
    omega
  rw [← hcast, ← le_signalShare_iff hmarked hbackground, ← hnil, ← marked_ge_iff hn hmarked hbackground]
  refine ⟨Favours.marked_ge, fun h => ⟨mem_keys_idealMarkedDistribution hn hmarked hvalid, ?_,
    total_idealMarkedDistribution hn hmarked, h⟩⟩
  intro s p hp
  rw [get?_idealMarkedDistribution hmarked] at hp
  obtain ⟨v, hv, rfl⟩ := Option.map_eq_some_iff.mp hp
  exact div_nonneg (weights_nonneg hn s v hv) (norm_pos background hn hmarked).le

end

/-- Half of the mass to each of three unmarked strings: the marked one gets nothing. -/
theorem not_favours :
    ¬∀ background : ℚ, 0 ≤ background → Favours 2 ["11"] (idealMarkedDistribution 2 ["11"] background) := by
  simp only [not_forall]
  refine ⟨1 / 2, by norm_num, fun h => ?_⟩
  have hle := (marked_ge_iff (by decide) (by decide) (by norm_num)).mp h.marked_ge
  rw [le_signalShare_iff (by decide) (by norm_num)] at hle
  revert hle
  decide +kernel

/-- With one qubit and a floor of a quarter the marked string has three quarters. -/
theorem favours_one : Favours 1 ["1"] (idealMarkedDistribution 1 ["1"] (1 / 4)) :=
  (favours_iff (by decide) (by decide) (by decide) (by norm_num)).mpr (.inr (by norm_num))

end SynQc.Grover
