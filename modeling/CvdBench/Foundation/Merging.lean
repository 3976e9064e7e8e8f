import Mathlib.Algebra.Order.Group.Int
import Mathlib.Algebra.Ring.Int.Defs

/-!
Summing up what a list of sources yields when a source may yield nothing and the sum may
refuse an addend: how much has been lost on the way.
-/

set_option autoImplicit false

namespace CvdBench.Foundation

section EachStep

variable {σ ι : Type} (step : σ → ι → σ) (P : σ → ι → Prop)

/-- `P` holds of each element and of the state in which the fold comes to it. -/
def EachStep (s : σ) (xs : List ι) : Prop :=
  ∀ pre x post, xs = pre ++ x :: post → P (pre.foldl step s) x

theorem eachStep_nil (s : σ) : EachStep step P s [] := by
  intro pre x post h
  simp at h

theorem eachStep_cons (s : σ) (y : ι) (ys : List ι) :
    EachStep step P s (y :: ys) ↔ P s y ∧ EachStep step P (step s y) ys := by
  constructor
  · intro h
    constructor
    · exact h [] y ys rfl
    · intro pre x post hys
      exact h (y :: pre) x post (congrArg (y :: ·) hys)
  · rintro ⟨hy, hys⟩ pre x post h
    cases pre with
    | nil =>
      cases h
      exact hy
    | cons z pre =>
      cases h
      exact hys pre x post rfl

end EachStep

namespace Merging

variable {H ι : Type} (add : H → H → Option H)

def accepts : Option H → H → Bool
  | some sum, h => (add sum h).isSome
  | none, _ => true

def take : Option H → H → Option H
  | some sum, h => some ((add sum h).getD sum)
  | none, h => some h

variable (item : ι → Option H)

def next (sum : Option H) (x : ι) : Option H :=
  match item x with
  | some h => take add sum h
  | none => sum

def sumOf (xs : List ι) : Option H := xs.foldl (next add item) none

def Taken (sum : Option H) (x : ι) : Prop :=
  ∃ h, item x = some h ∧ accepts add sum h = true

theorem sumOf_eq (xs : List ι) : sumOf add item xs = (xs.filterMap item).foldl (take add) none := by
  have hfold : ∀ sum, xs.foldl (next add item) sum = (xs.filterMap item).foldl (take add) sum := by
    induction xs with
    | nil => intro sum; rfl
    | cons x xs ih =>
      intro sum
      cases hx : item x with
      | none => rw [List.filterMap_cons_none hx, List.foldl_cons, ← ih, next, hx]
      | some h => rw [List.filterMap_cons_some hx, List.foldl_cons, List.foldl_cons, ← ih, next, hx]
  exact hfold none

variable (len : H → Nat)

def size : Option H → Nat
  | some sum => len sum
  | none => 0

theorem take_of_refused {sum : Option H} {h : H} (hr : accepts add sum h = false) :
    take add sum h = sum := by
  cases sum with
  | none => cases hr
  | some sum =>
    have hnone : add sum h = none := Option.not_isSome_iff_eq_none.mp (by simpa [accepts] using hr)
    rw [take, hnone]
    rfl

section

variable {add len} (hadd : ∀ a b c, add a b = some c → len c = len a + len b)
include hadd

theorem size_take {sum : Option H} {h : H} (ht : accepts add sum h = true) :
    size len (take add sum h) = size len sum + len h := by
  cases sum with
  | none => simp [take, size]
  | some sum =>
    obtain ⟨c, hc⟩ := Option.isSome_iff_exists.mp ht
    rw [take, hc]
    exact hadd sum h c hc

end

variable (want : ι → Int)

/-- What is wanted of the sources whose yield is not in the sum. -/
def lost (sum : Option H) : List ι → Int
  | [] => 0
  | x :: xs =>
      (match item x with
        | some h => if accepts add sum h then 0 else want x
        | none => want x) + lost (next add item sum x) xs

theorem lost_cons_taken {sum : Option H} {x : ι} (h : Taken add item sum x) (xs : List ι) :
    lost add item want sum (x :: xs) = lost add item want (next add item sum x) xs := by
  obtain ⟨a, hitem, ha⟩ := h
  rw [lost, hitem]
  simp [ha]

theorem lost_cons_missed {sum : Option H} {x : ι} (h : ¬ Taken add item sum x) (xs : List ι) :
    lost add item want sum (x :: xs) =
      want x + lost add item want (next add item sum x) xs := by
  rw [lost]
  cases hitem : item x with
  | none => rfl
  | some a =>
    have ha : accepts add sum a = false := by
      rw [← Bool.not_eq_true]
      intro ha
      exact h ⟨a, hitem, ha⟩
    simp [ha]

theorem next_of_missed {sum : Option H} {x : ι} (h : ¬ Taken add item sum x) :
    next add item sum x = sum := by
  unfold next
  cases hitem : item x with
  | none => rfl
  | some a =>
    refine take_of_refused add ?_
    rw [← Bool.not_eq_true]
    intro ha
    exact h ⟨a, hitem, ha⟩

theorem lost_neg (sum : Option H) (xs : List ι) :
    lost add item (fun x => - want x) sum xs = - lost add item want sum xs := by
  induction xs generalizing sum with
  | nil => rfl
  | cons x xs ih =>
    by_cases h : Taken add item sum x
    · rw [lost_cons_taken add item _ h, lost_cons_taken add item _ h, ih]
    · rw [lost_cons_missed add item _ h, lost_cons_missed add item _ h, ih]
      omega

theorem lost_eq_zero_iff {sum : Option H} {xs : List ι}
    (hpos : EachStep (next add item) (fun sum x => ¬ Taken add item sum x → 0 ≤ want x) sum xs) :
    0 ≤ lost add item want sum xs ∧ (lost add item want sum xs = 0 ↔
      EachStep (next add item) (fun sum x => ¬ Taken add item sum x → want x = 0) sum xs) := by
  induction xs generalizing sum with
  | nil => exact ⟨le_refl 0, iff_of_true rfl (eachStep_nil _ _ _)⟩
  | cons x xs ih =>
    rw [eachStep_cons] at hpos ⊢
    obtain ⟨hrest, heq⟩ := ih hpos.2
    by_cases h : Taken add item sum x
    · rw [lost_cons_taken add item want h]
      exact ⟨hrest, heq.trans (by simp [h])⟩
    · have hx : 0 ≤ want x := hpos.1 h
      rw [lost_cons_missed add item want h]
      refine ⟨by omega, ?_⟩
      rw [← heq]
      constructor
      · intro hzero
        exact ⟨fun _ => by omega, by omega⟩
      · rintro ⟨hzero, hnone⟩
        have hx := hzero h
        omega

theorem lost_eq_zero_iff_of_nonpos {sum : Option H} {xs : List ι}
    (hneg : EachStep (next add item) (fun sum x => ¬ Taken add item sum x → want x ≤ 0) sum xs) :
    lost add item want sum xs = 0 ↔
      EachStep (next add item) (fun sum x => ¬ Taken add item sum x → want x = 0) sum xs := by
  have hpos : EachStep (next add item)
      (fun sum x => ¬ Taken add item sum x → 0 ≤ - want x) sum xs := by
    intro pre x post hxs h
    have hle := hneg pre x post hxs h
    omega
  have hiff := (lost_eq_zero_iff add item (fun x => - want x) hpos).2
  rw [lost_neg] at hiff
  simpa using hiff

section

variable {add len want} (hadd : ∀ a b c, add a b = some c → len c = len a + len b)
include hadd

theorem size_add_lost {sum : Option H} {xs : List ι}
    (hlen : EachStep (next add item)
      (fun sum x => ∀ h, item x = some h → accepts add sum h = true → (len h : Int) = want x)
      sum xs) :
    (size len (xs.foldl (next add item) sum) : Int) + lost add item want sum xs =
      size len sum + (xs.map want).sum := by
  induction xs generalizing sum with
  | nil => simp [lost]
  | cons x xs ih =>
    rw [eachStep_cons] at hlen
    have hrest := ih hlen.2
    rw [List.foldl_cons, List.map_cons, List.sum_cons]
    by_cases h : Taken add item sum x
    · obtain ⟨a, hitem, ha⟩ := h
      have hwant := hlen.1 a hitem ha
      have hnext : size len (next add item sum x) = size len sum + len a := by
        rw [next, hitem]
        exact size_take hadd ha
      rw [lost_cons_taken add item want ⟨a, hitem, ha⟩, hrest, hnext, ← hwant]
      omega
    · have hsum : next add item sum x = sum := next_of_missed add item h
      rw [lost_cons_missed add item want h]
      rw [hsum] at hrest ⊢
      omega

end

end Merging

end CvdBench.Foundation
