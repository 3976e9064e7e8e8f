import Mathlib.Data.List.Basic

/-!
Writing into a list at a position. What lies between the old end and the position is
filled; ranges of a target that are written one by one paint the target.
-/

set_option autoImplicit false

namespace CvdBench.Foundation

variable {α : Type} (fill : α)

def overwrite (content : List α) (offset : Nat) (xs : List α) : List α :=
  (content ++ List.replicate (offset - content.length) fill).take offset ++ xs ++
    content.drop (offset + xs.length)

theorem prefix_length (content : List α) (offset : Nat) :
    ((content ++ List.replicate (offset - content.length) fill).take offset).length = offset := by
  rw [List.length_take, List.length_append, List.length_replicate]
  omega

theorem length_overwrite (content : List α) (offset : Nat) (xs : List α) :
    (overwrite fill content offset xs).length = max content.length (offset + xs.length) := by
  rw [overwrite, List.length_append, List.length_append, prefix_length, List.length_drop]
  omega

theorem overwrite_append (content : List α) (offset : Nat) (xs ys : List α) :
    overwrite fill (overwrite fill content offset xs) (offset + xs.length) ys =
      overwrite fill content offset (xs ++ ys) := by
  have hhead :
      ((content ++ List.replicate (offset - content.length) fill).take offset ++ xs).length =
      offset + xs.length := by
    rw [List.length_append, prefix_length]
  have hfull : offset + xs.length - (overwrite fill content offset xs).length = 0 := by
    rw [length_overwrite]
    omega
  rw [overwrite, hfull, List.replicate_zero, List.append_nil]
  unfold overwrite
  rw [List.take_left' hhead, List.length_append, ← Nat.add_assoc, ← List.append_assoc]
  congr 1
  rw [List.drop_append, List.drop_eq_nil_of_le (by omega), List.nil_append, List.drop_drop, hhead]
  congr 1
  omega

theorem getElem?_overwrite_before {content : List α} {offset i : Nat} (xs : List α)
    (h : i < offset) :
    (overwrite fill content offset xs)[i]? =
      if i < content.length then content[i]? else some fill := by
  have hlen := prefix_length fill content offset
  rw [overwrite, List.append_assoc, List.getElem?_append_left (by omega),
    List.getElem?_take_of_lt h]
  split
  · next hlt => rw [List.getElem?_append_left hlt]
  · next hge =>
    rw [List.getElem?_append_right (by omega), List.getElem?_replicate, if_pos (by omega)]

theorem getElem?_overwrite_within (content : List α) {offset i : Nat} {xs : List α}
    (hlo : offset ≤ i) (hhi : i < offset + xs.length) :
    (overwrite fill content offset xs)[i]? = xs[i - offset]? := by
  have hlen := prefix_length fill content offset
  rw [overwrite, List.append_assoc, List.getElem?_append_right (by omega), hlen,
    List.getElem?_append_left (by omega)]

theorem getElem?_overwrite_after {content : List α} {offset i : Nat} {xs : List α}
    (h : offset + xs.length ≤ i) : (overwrite fill content offset xs)[i]? = content[i]? := by
  have hlen := prefix_length fill content offset
  rw [overwrite, List.append_assoc, List.getElem?_append_right (by omega), hlen,
    List.getElem?_append_right (by omega), List.getElem?_drop]
  congr 1
  omega

/-- `ftruncate`: cut, or filled to the length. -/
def resize (content : List α) (len : Nat) : List α :=
  content.take len ++ List.replicate (len - content.length) fill

def Covered (ranges : List (Nat × Nat)) (i : Nat) : Prop :=
  ∃ r ∈ ranges, r.1 ≤ i ∧ i < r.1 + r.2

theorem covered_concat {ranges : List (Nat × Nat)} {r : Nat × Nat} {i : Nat} :
    Covered (ranges ++ [r]) i ↔ Covered ranges i ∨ (r.1 ≤ i ∧ i < r.1 + r.2) := by
  unfold Covered
  simp only [List.mem_append, List.mem_singleton]
  constructor
  · rintro ⟨r', hr' | rfl, hi⟩
    · exact Or.inl ⟨r', hr', hi⟩
    · exact Or.inr hi
  · rintro (⟨r', hr', hi⟩ | hi)
    · exact ⟨r', Or.inl hr', hi⟩
    · exact ⟨r, Or.inr rfl, hi⟩

theorem covered_perm {ranges ranges' : List (Nat × Nat)} (h : ranges.Perm ranges') (i : Nat) :
    Covered ranges i ↔ Covered ranges' i := by
  unfold Covered
  simp only [h.mem_iff]

structure Painted (target : List α) (ranges : List (Nat × Nat)) (content : List α) : Prop where
  within : content.length ≤ target.length
  painted : ∀ i, Covered ranges i → content[i]? = target[i]?
  blank : ∀ i, ¬ Covered ranges i → i < content.length → content[i]? = some fill

variable {fill}

theorem Painted.nil (target : List α) : Painted fill target [] [] where
  within := by simp
  painted := by
    rintro i ⟨r, hr, -⟩
    simp at hr
  blank := by simp

theorem Painted.concat {target content : List α} {ranges : List (Nat × Nat)} {offset len : Nat}
    (h : Painted fill target ranges content) (hfits : offset + len ≤ target.length) :
    Painted fill target (ranges ++ [(offset, len)])
      (overwrite fill content offset ((target.drop offset).take len)) := by
  have hlen : ((target.drop offset).take len).length = len := by
    rw [List.length_take, List.length_drop]
    omega
  refine ⟨?_, ?_, ?_⟩
  · rw [length_overwrite, hlen]
    exact Nat.max_le.mpr ⟨h.within, hfits⟩
  · intro i hi
    rcases Nat.lt_or_ge i offset with hbefore | hge
    · have hold : Covered ranges i := by
        rcases covered_concat.mp hi with hold | hnew
        · exact hold
        · have hlo : offset ≤ i := hnew.1
          omega
      have hsome := h.painted i hold
      rw [getElem?_overwrite_before fill _ hbefore, ← hsome]
      split
      · rfl
      · next hout =>
        rw [List.getElem?_eq_none (by omega)] at hsome ⊢
        have hi' := List.getElem?_eq_none_iff.mp hsome.symm
        omega
    · rcases Nat.lt_or_ge i (offset + len) with hwithin | hafter
      · rw [getElem?_overwrite_within fill _ hge (by omega), List.getElem?_take_of_lt (by omega),
          List.getElem?_drop]
        congr 1
        omega
      · have hold : Covered ranges i := by
          rcases covered_concat.mp hi with hold | hnew
          · exact hold
          · have hhi : i < offset + len := hnew.2
            omega
        rw [getElem?_overwrite_after fill (by omega), h.painted i hold]
  · intro i hi hlt
    have hold : ¬ Covered ranges i := fun hold => hi (covered_concat.mpr (Or.inl hold))
    have hout : ¬ (offset ≤ i ∧ i < offset + len) :=
      fun hnew => hi (covered_concat.mpr (Or.inr hnew))
    rw [length_overwrite, hlen] at hlt
    rcases Nat.lt_or_ge i offset with hbefore | hge
    · rw [getElem?_overwrite_before fill _ hbefore]
      split
      · next hin => exact h.blank i hold hin
      · rfl
    · rw [getElem?_overwrite_after fill (by omega)]
      exact h.blank i hold (by omega)

theorem Painted.eq_of_covered {target content : List α} {ranges : List (Nat × Nat)} {start : Nat}
    (h : Painted fill target ranges content) (hstart : start < target.length)
    (hcover : ∀ i, Covered ranges i ↔ start ≤ i ∧ i < target.length) :
    content = List.replicate start fill ++ target.drop start := by
  have hlast := h.painted (target.length - 1) ((hcover _).mpr ⟨by omega, by omega⟩)
  have hlong : target.length - 1 < content.length := by
    by_contra hshort
    rw [List.getElem?_eq_none (by omega)] at hlast
    have hnone := List.getElem?_eq_none_iff.mp hlast.symm
    omega
  have hwithin := h.within
  refine List.ext_getElem? fun i => ?_
  rcases Nat.lt_or_ge i start with hbefore | hge
  · rw [List.getElem?_append_left (by simpa using hbefore), List.getElem?_replicate, if_pos hbefore]
    exact h.blank i (fun hc => by have hlo := ((hcover i).mp hc).1; omega) (by omega)
  · rw [List.getElem?_append_right (by simpa using hge), List.length_replicate, List.getElem?_drop]
    have hsum : start + (i - start) = i := by omega
    rw [hsum]
    rcases Nat.lt_or_ge i target.length with hin | hout
    · exact h.painted i ((hcover i).mpr ⟨hge, hin⟩)
    · rw [List.getElem?_eq_none (by omega), List.getElem?_eq_none (by omega)]

end CvdBench.Foundation
