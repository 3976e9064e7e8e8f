import CvdBench.Manifest.Exchange

/-!
What one step of a manifest reader, or of one of its scanners, does to the cell that its
job shares with it.
-/

set_option autoImplicit false

namespace CvdBench.Manifest

open Foundation Proto Master

/-- What one step of a reader does to the cell. -/
inductive CellStep where
  | local
  | act (a : ReaderAct)
  | refused
  deriving DecidableEq, Repr

def CellStep.apply (c : ManifestCell) : CellStep → Option ManifestCell
  | .local => some c
  | .act a => a.apply c
  | .refused => if c.queue.semaphoreClosed then some c else none

section

variable {α : Type} {bad : α → Prop} {items done rest : List α} {x : α}

/-- It has passed `done`, and has met nothing bad. -/
structure Passed (bad : α → Prop) (items done rest : List α) : Prop where
  split : items = done ++ rest
  good : ∀ x ∈ done, ¬ bad x

theorem Passed.start (bad : α → Prop) (items : List α) : Passed bad items [] items :=
  ⟨rfl, fun _ hmem => absurd hmem List.not_mem_nil⟩

theorem Passed.next (h : Passed bad items done (x :: rest)) (hx : ¬ bad x) :
    Passed bad items (done ++ [x]) rest where
  split := by
    rw [h.split]
    simp
  good := by
    intro y hmem
    rcases List.mem_append.mp hmem with hmem | hmem
    · exact h.good y hmem
    · rw [List.mem_singleton.mp hmem]
      exact hx

theorem Passed.here (h : Passed bad items done (x :: rest)) :
    items[done.length]? = some x ∧ ∀ y ∈ items.take done.length, ¬ bad y := by
  rw [h.split, List.take_left' rfl]
  exact ⟨by simp, h.good⟩

end

end CvdBench.Manifest
