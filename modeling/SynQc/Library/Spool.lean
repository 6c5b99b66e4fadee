import Mathlib.Order.Nat

/-! A file with a position.

Writing goes over what is at the position and moves past it, so writes at the end append
(`write_data`); reading takes what is there, up to a number of items, and leaves the rest
(`rest_read`). -/
namespace Spool

/-- A file and a position in it. -/
structure File (α : Type*) where
  data : List α
  pos : Nat
  within : pos ≤ data.length

namespace File
variable {α : Type*}

def empty : File α := ⟨[], 0, le_refl _⟩

/-- What is after the position. -/
def rest (file : File α) : List α := file.data.drop file.pos

def write (file : File α) (items : List α) : File α where
  data := file.data.take file.pos ++ items ++ file.data.drop (file.pos + items.length)
  pos := file.pos + items.length
  within := by
    have := file.within
    simp only [List.length_append, List.length_take, List.length_drop]
    omega

/-- Back to the start. -/
def rewind (file : File α) : File α := ⟨file.data, 0, Nat.zero_le _⟩

/-- The next items, at most `n`, and the file behind them. -/
def read (n : Nat) (file : File α) : List α × File α :=
  (file.rest.take n, ⟨file.data, min (file.pos + n) file.data.length, min_le_right _ _⟩)

@[simp] theorem empty_data : (empty : File α).data = [] := rfl
@[simp] theorem rest_rewind (file : File α) : file.rewind.rest = file.data := rfl

@[simp] theorem rest_empty : (empty : File α).rest = [] := rfl

theorem rest_eq_nil {file : File α} : file.rest = [] ↔ file.pos = file.data.length := by
  rw [rest, List.drop_eq_nil_iff]
  exact ⟨fun h => le_antisymm file.within h, fun h => h.ge⟩

/-- **A write at the end appends.** -/
theorem write_data {file : File α} (h : file.rest = []) (items : List α) :
    (file.write items).data = file.data ++ items := by
  have hpos := rest_eq_nil.mp h
  have hnone : file.data.drop (file.pos + items.length) = [] := List.drop_eq_nil_of_le (by omega)
  simp only [write, hpos, List.take_length]
  rw [← hpos, hnone, List.append_nil]

/-- It leaves the position at the end. -/
theorem rest_write {file : File α} (h : file.rest = []) (items : List α) : (file.write items).rest = [] := by
  rw [rest_eq_nil, write_data h, List.length_append, ← rest_eq_nil.mp h]
  rfl

/-- **A read leaves what it did not take.** -/
theorem rest_read (n : Nat) (file : File α) : (file.read n).2.rest = file.rest.drop n := by
  show file.data.drop (min (file.pos + n) file.data.length) = (file.data.drop file.pos).drop n
  rw [List.drop_drop]
  rcases le_total (file.pos + n) file.data.length with h | h
  · rw [min_eq_left h]
  · rw [min_eq_right h, List.drop_length, List.drop_eq_nil_of_le h]

end File
end Spool
