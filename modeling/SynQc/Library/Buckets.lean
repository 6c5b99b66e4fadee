import Mathlib.Data.List.Count

/-! Admitting the first few of every bucket.

Requests fall into buckets, and of each bucket the first `limit` are admitted: a request
passes when fewer than `limit` of its bucket came before it. The bound is on a bucket; how
many pass altogether depends on how many buckets there are (`length_granted_le_iff`). -/
namespace Buckets

variable {ρ β : Type*} [DecidableEq β] (bucket : ρ → β) (limit : Nat)

/-- How many requests of a list fall into a bucket. -/
def count (b : β) (rs : List ρ) : Nat := rs.countP fun r => bucket r = b

/-- The requests admitted, after some that were already seen. -/
def granted (seen : List ρ) : List ρ → List ρ
  | [] => []
  | r :: rest =>
    if count bucket (bucket r) seen < limit then r :: granted (seen ++ [r]) rest
    else granted (seen ++ [r]) rest

@[simp] theorem count_nil (b : β) : count bucket b [] = 0 := rfl

theorem count_append (b : β) (rs others : List ρ) :
    count bucket b (rs ++ others) = count bucket b rs + count bucket b others := List.countP_append

theorem count_cons (b : β) (r : ρ) (rest : List ρ) :
    count bucket b (r :: rest) = count bucket b rest + if bucket r = b then 1 else 0 := by
  simp only [count, List.countP_cons, decide_eq_true_eq]

theorem count_snoc (b : β) (r : ρ) (seen : List ρ) :
    count bucket b (seen ++ [r]) = count bucket b seen + if bucket r = b then 1 else 0 := by
  rw [count_append, count_cons, count_nil, Nat.zero_add]

theorem count_pos {r : ρ} {rs : List ρ} (h : r ∈ rs) : 0 < count bucket (bucket r) rs :=
  List.countP_pos_iff.mpr ⟨r, h, decide_eq_true rfl⟩

theorem granted_sublist (seen rs : List ρ) : (granted bucket limit seen rs).Sublist rs := by
  induction rs generalizing seen with
  | nil => exact List.Sublist.slnil
  | cons r rest ih =>
    unfold granted
    split
    · exact (ih _).cons_cons r
    · exact (ih _).cons r

/-- **Of each bucket exactly the first `limit` pass.** -/
theorem count_granted (b : β) (seen rs : List ρ) :
    count bucket b (granted bucket limit seen rs) = min (limit - count bucket b seen) (count bucket b rs) := by
  induction rs generalizing seen with
  | nil => simp [granted]
  | cons r rest ih =>
    have hrest := ih (seen ++ [r])
    rw [count_snoc] at hrest
    by_cases hb : bucket r = b
    · subst hb
      rw [if_pos rfl] at hrest
      unfold granted
      split
      · rw [count_cons, count_cons, if_pos rfl, hrest]
        omega
      · rw [count_cons, if_pos rfl, hrest]
        omega
    · rw [if_neg hb] at hrest
      unfold granted
      split
      · rw [count_cons, count_cons, if_neg hb, hrest]
        omega
      · rw [count_cons, if_neg hb, hrest]
        omega

/-- Where no bucket overflows, everything passes. -/
theorem granted_eq_self {seen rs : List ρ} (h : ∀ r ∈ rs, count bucket (bucket r) (seen ++ rs) ≤ limit) :
    granted bucket limit seen rs = rs := by
  induction rs generalizing seen with
  | nil => rfl
  | cons r rest ih =>
    have hroom : count bucket (bucket r) seen < limit := by
      have hr := h r List.mem_cons_self
      rw [count_append, count_cons, if_pos rfl] at hr
      omega
    have hrest : granted bucket limit (seen ++ [r]) rest = rest := by
      apply ih
      intro other hother
      rw [List.append_assoc]
      exact h other (List.mem_cons_of_mem r hother)
    rw [granted, if_pos hroom, hrest]

/-- Requests that all fall into one bucket pass at most `limit` times, whatever else comes. -/
theorem countP_granted_le {p : ρ → Bool} {b : β} {rs : List ρ} (h : ∀ r ∈ rs, p r = true → bucket r = b) (seen : List ρ) :
    (granted bucket limit seen rs).countP p ≤ limit := by
  have hle : (granted bucket limit seen rs).countP p ≤ count bucket b (granted bucket limit seen rs) := by
    apply List.countP_mono_left
    intro r hr hp
    exact decide_eq_true (h r ((granted_sublist bucket limit seen rs).subset hr) hp)
  rw [count_granted] at hle
  omega

/-- Two buckets are counted apart. -/
theorem count_add_le {b c : β} (hne : b ≠ c) (rs : List ρ) : count bucket b rs + count bucket c rs ≤ rs.length := by
  induction rs with
  | nil => exact Nat.le_refl 0
  | cons r rest ih =>
    rw [count_cons, count_cons, List.length_cons]
    by_cases hb : bucket r = b
    · rw [if_pos hb, if_neg fun hc => hne (hb.symm.trans hc)]
      omega
    · rw [if_neg hb]
      split <;> omega

/-- **At most `limit` pass altogether exactly when no more came, or all fell into one bucket.** -/
theorem length_granted_le_iff (hlimit : 1 ≤ limit) (rs : List ρ) :
    (granted bucket limit [] rs).length ≤ limit ↔
      rs.length ≤ limit ∨ ∀ r ∈ rs, ∀ other ∈ rs, bucket r = bucket other := by
  constructor
  · intro hle
    by_cases hover : ∃ r ∈ rs, limit < count bucket (bucket r) rs
    · obtain ⟨r, hr, hmany⟩ := hover
      -- the bucket of `r` alone passes `limit` times, so there is no second one
      have hone : ∀ other ∈ rs, bucket other = bucket r := by
        intro other hother
        by_contra hne
        have hfull := count_granted bucket limit (bucket r) [] rs
        have hsome := count_granted bucket limit (bucket other) [] rs
        have hpos := count_pos bucket hother
        have htwo := count_add_le bucket hne (granted bucket limit [] rs)
        rw [count_nil] at hfull hsome
        omega
      exact .inr fun r' hr' other hother => (hone r' hr').trans (hone other hother).symm
    · refine .inl ?_
      rw [granted_eq_self] at hle
      · exact hle
      · intro r hr
        exact Nat.not_lt.mp fun hlt => hover ⟨r, hr, hlt⟩
  · rintro (hfew | hone)
    · exact Nat.le_trans (granted_sublist bucket limit [] rs).length_le hfew
    · cases rs with
      | nil => exact Nat.zero_le limit
      | cons r rest =>
        have hle := countP_granted_le (p := fun _ => true) bucket limit
          (fun other hother _ => hone other hother r List.mem_cons_self) []
        rw [List.countP_true] at hle
        exact hle

end Buckets
