import Mathlib.Data.List.Basic

/-!
Lexical resolution of a path given by its segments: one segment stands for the
directory itself and one for its parent, the others are names.
-/

set_option autoImplicit false

namespace CvdBench.Foundation

variable {σ : Type} [DecidableEq σ] (here parent : σ)

/-- One more segment; the parent of the root is the root. -/
def resolveStep (loc : List σ) (seg : σ) : List σ :=
  if seg = here then loc else if seg = parent then loc.dropLast else loc ++ [seg]

def resolve (segs : List σ) : List σ := segs.foldl (resolveStep here parent) []

variable {here parent}

theorem resolve_append (xs ys : List σ) :
    resolve here parent (xs ++ ys) =
      ys.foldl (resolveStep here parent) (resolve here parent xs) := by
  rw [resolve, List.foldl_append, resolve]

theorem foldl_resolveStep_names {names : List σ} (h : ∀ n ∈ names, n ≠ here ∧ n ≠ parent)
    (loc : List σ) : names.foldl (resolveStep here parent) loc = loc ++ names := by
  induction names generalizing loc with
  | nil => simp
  | cons n names ih =>
    obtain ⟨hhere, hparent⟩ := h n (by simp)
    have hrest : ∀ m ∈ names, m ≠ here ∧ m ≠ parent := fun m hm => h m (by simp [hm])
    rw [List.foldl_cons, ih hrest, resolveStep, if_neg hhere, if_neg hparent, List.append_assoc,
      List.singleton_append]

theorem resolve_append_names (xs : List σ) {names : List σ}
    (h : ∀ n ∈ names, n ≠ here ∧ n ≠ parent) :
    resolve here parent (xs ++ names) = resolve here parent xs ++ names := by
  rw [resolve_append, foldl_resolveStep_names h]

theorem resolve_names {names : List σ} (h : ∀ n ∈ names, n ≠ here ∧ n ≠ parent) :
    resolve here parent names = names := by
  have hall := resolve_append_names [] h
  simpa [resolve] using hall

theorem resolve_concat_here (xs : List σ) :
    resolve here parent (xs ++ [here]) = resolve here parent xs := by
  simp [resolve_append, resolveStep]

theorem resolve_concat_parent (xs : List σ) (h : parent ≠ here) :
    resolve here parent (xs ++ [parent]) = (resolve here parent xs).dropLast := by
  simp [resolve_append, resolveStep, h]

end CvdBench.Foundation
