import Mathlib

/-!
What a list of closed intervals has in common, and the two ends of it as running
extrema.
-/

set_option autoImplicit false

namespace CvdBench.Foundation

section Extrema

variable {ι α : Type} [LinearOrder α] (f : ι → α)

theorem le_foldl_max (a : α) (xs : List ι) :
    a ≤ xs.foldl (fun acc x => max acc (f x)) a ∧
      ∀ x ∈ xs, f x ≤ xs.foldl (fun acc x => max acc (f x)) a := by
  induction xs generalizing a with
  | nil => simp
  | cons x xs ih =>
    obtain ⟨hacc, hall⟩ := ih (max a (f x))
    have hboth := max_le_iff.mp hacc
    refine ⟨hboth.1, ?_⟩
    intro y hy
    rcases List.mem_cons.mp hy with rfl | hy
    · exact hboth.2
    · exact hall y hy

theorem foldl_max_mem (a : α) (xs : List ι) :
    xs.foldl (fun acc x => max acc (f x)) a = a ∨
      ∃ x ∈ xs, f x = xs.foldl (fun acc x => max acc (f x)) a := by
  induction xs generalizing a with
  | nil => simp
  | cons x xs ih =>
    simp only [List.foldl_cons, List.mem_cons]
    rcases ih (max a (f x)) with h | ⟨y, hy, h⟩
    · rcases max_choice a (f x) with hm | hm
      · left
        rw [h, hm]
      · right
        exact ⟨x, Or.inl rfl, by rw [h, hm]⟩
    · right
      exact ⟨y, Or.inr hy, h⟩

theorem isGreatest_foldl_max (x : ι) (xs : List ι) :
    IsGreatest {a | ∃ y ∈ x :: xs, f y = a} (xs.foldl (fun acc y => max acc (f y)) (f x)) := by
  obtain ⟨hx, hxs⟩ := le_foldl_max f (f x) xs
  constructor
  · rcases foldl_max_mem f (f x) xs with h | ⟨y, hy, h⟩
    · exact ⟨x, by simp, h.symm⟩
    · exact ⟨y, by simp [hy], h⟩
  · rintro a ⟨y, hy, rfl⟩
    rcases List.mem_cons.mp hy with rfl | hy
    · exact hx
    · exact hxs y hy

theorem isLeast_foldl_min (x : ι) (xs : List ι) :
    IsLeast {a | ∃ y ∈ x :: xs, f y = a} (xs.foldl (fun acc y => min acc (f y)) (f x)) :=
  @isGreatest_foldl_max ι αᵒᵈ _ f x xs

theorem max?_map_cons (x : ι) (xs : List ι) :
    ((x :: xs).map f).max? = some (xs.foldl (fun acc y => max acc (f y)) (f x)) := by
  rw [List.map_cons, List.max?_cons', List.foldl_map]

theorem min?_map_cons (x : ι) (xs : List ι) :
    ((x :: xs).map f).min? = some (xs.foldl (fun acc y => min acc (f y)) (f x)) := by
  rw [List.map_cons, List.min?_cons', List.foldl_map]

theorem min?_map_perm {xs ys : List ι} (h : xs.Perm ys) : (xs.map f).min? = (ys.map f).min? := by
  cases xs with
  | nil => rw [h.nil_eq]
  | cons x xs =>
    cases ys with
    | nil => exact absurd h.symm.nil_eq (by simp)
    | cons y ys =>
      have hsame : {a | ∃ z ∈ x :: xs, f z = a} = {a | ∃ z ∈ y :: ys, f z = a} := by
        ext a
        simp only [Set.mem_ofPred_eq, h.mem_iff]
      have hx := isLeast_foldl_min f x xs
      rw [hsame] at hx
      rw [min?_map_cons, min?_map_cons, hx.unique (isLeast_foldl_min f y ys)]

theorem max?_map_perm {xs ys : List ι} (h : xs.Perm ys) : (xs.map f).max? = (ys.map f).max? :=
  @min?_map_perm ι αᵒᵈ _ f xs ys h

end Extrema

section Shared

variable {ι α : Type} [LinearOrder α] (lo hi : ι → α)

/-- The points that the interval from `lo` to `hi` of every member contains. -/
def shared (xs : List ι) : Set α := {t | ∀ x ∈ xs, lo x ≤ t ∧ t ≤ hi x}

theorem shared_cons (x : ι) (xs : List ι) :
    shared lo hi (x :: xs) =
      Set.Icc (xs.foldl (fun acc y => max acc (lo y)) (lo x))
        (xs.foldl (fun acc y => min acc (hi y)) (hi x)) := by
  obtain ⟨⟨a, ha, hmax⟩, hle⟩ := isGreatest_foldl_max lo x xs
  obtain ⟨⟨b, hb, hmin⟩, hge⟩ := isLeast_foldl_min hi x xs
  ext t
  constructor
  · intro ht
    rw [← hmax, ← hmin]
    exact ⟨(ht a ha).1, (ht b hb).2⟩
  · intro ht y hy
    exact ⟨le_trans (hle ⟨y, hy, rfl⟩) ht.1, le_trans ht.2 (hge ⟨y, hy, rfl⟩)⟩

end Shared

def HasLength (s : Set Int) (d : Int) : Prop :=
  ∃ a b, a ≤ b ∧ s = Set.Icc a b ∧ b - a = d

theorem hasLength_Icc {a b d : Int} (hd : 0 < d) : HasLength (Set.Icc a b) d ↔ b - a = d := by
  constructor
  · rintro ⟨a', b', hle, heq, rfl⟩
    obtain ⟨rfl, rfl⟩ := (Set.Icc_eq_Icc_iff hle).mp heq.symm
    rfl
  · intro h
    exact ⟨a, b, by omega, rfl, h⟩

end CvdBench.Foundation
