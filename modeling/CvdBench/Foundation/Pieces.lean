import Mathlib.Data.List.Basic

/-!
Pieces of an interval, each an offset and a length: what consecutive pieces cover, in their
order and in any other.
-/

set_option autoImplicit false

namespace CvdBench.Foundation

def positions (pieces : List (Nat × Nat)) : List Nat :=
  pieces.flatMap fun p => List.range' p.1 p.2

/-- Pieces of 1 to `size` positions, each where the one before ends, from `a` to `b`. -/
inductive Consecutive (size : Nat) : Nat → List (Nat × Nat) → Nat → Prop where
  | nil (a : Nat) : Consecutive size a [] a
  | cons {a n b : Nat} {pieces : List (Nat × Nat)} (hpos : 1 ≤ n) (hsize : n ≤ size)
      (hrest : Consecutive size (a + n) pieces b) : Consecutive size a ((a, n) :: pieces) b

variable {size a b : Nat} {pieces pieces' : List (Nat × Nat)}

theorem Consecutive.le (h : Consecutive size a pieces b) : a ≤ b := by
  induction h with
  | nil => exact Nat.le_refl _
  | cons _ _ _ ih => omega

theorem Consecutive.positions_eq (h : Consecutive size a pieces b) :
    positions pieces = List.range' a (b - a) := by
  induction h with
  | nil a => simp [positions]
  | @cons a n b pieces _ _ hrest ih =>
    have hle := hrest.le
    have hsplit : b - a = n + (b - (a + n)) := by omega
    unfold positions at ih ⊢
    rw [List.flatMap_cons, ih, hsplit, List.range'_append_1]

theorem Consecutive.length_le (h : Consecutive size a pieces b) : pieces.length ≤ b - a := by
  induction h with
  | nil => simp
  | @cons a n b pieces hpos _ hrest ih =>
    have hle := hrest.le
    rw [List.length_cons]
    omega

def coverCount (pieces : List (Nat × Nat)) (i : Nat) : Nat :=
  pieces.countP fun p => p.1 ≤ i ∧ i < p.1 + p.2

theorem count_positions (pieces : List (Nat × Nat)) (i : Nat) :
    (positions pieces).count i = coverCount pieces i := by
  induction pieces with
  | nil => rfl
  | cons p pieces ih =>
    unfold positions coverCount at ih ⊢
    rw [List.flatMap_cons, List.count_append, ih, List.countP_cons, Nat.add_comm,
      List.count_range_1']
    simp only [decide_eq_true_eq]

/-- In any order, consecutive pieces hold every position of the interval once. -/
theorem Consecutive.coverCount_perm (h : Consecutive size a pieces b)
    (hperm : pieces'.Perm pieces) (i : Nat) :
    coverCount pieces' i = if a ≤ i ∧ i < b then 1 else 0 := by
  have hle := h.le
  have hend : a + (b - a) = b := by omega
  rw [coverCount, hperm.countP_eq, ← coverCount, ← count_positions, h.positions_eq,
    List.count_range_1', hend]

end CvdBench.Foundation
