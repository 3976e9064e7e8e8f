import CvdBench.Metrics.Window

/-!
What the command line recomputes from the results of the workers: the effective
window of its report and the diagnostics of its summary.
-/

set_option autoImplicit false

namespace CvdBench.Cli

open Foundation Proto Metrics

def successful (workers : List WorkerResult) : List WorkerResult :=
  workers.filter (·.success)

def effectiveWindowMs (workers : List WorkerResult) : Int × Bool :=
  let succ := successful workers
  if succ.isEmpty then (0, false)
  else if minEnd succ > maxStart succ then (wrapI64 (minEnd succ - maxStart succ), false)
  else (minEffective succ, true)

def computeEffectiveWindow (workers : List WorkerResult) : Float × Bool :=
  (Float.ofInt (effectiveWindowMs workers).1 / 1000, (effectiveWindowMs workers).2)

def computeDiagnostics (order : HashOrder String) (workers : List WorkerResult) : Bool × Nat :=
  let succ := successful workers
  let misaligned :=
    if succ.length < 2 then false
    else decide (minEnd succ ≤ maxStart succ)
  (misaligned, (succ.filter (missesHistogram order)).length)

theorem effectiveWindowMs_of_none {workers : List WorkerResult} (h : successful workers = []) :
    effectiveWindowMs workers = (0, false) := by
  simp [effectiveWindowMs, h]

theorem effectiveWindowMs_of_overlap {workers : List WorkerResult} {d : Int}
    (hd : Overlap (successful workers) d) : effectiveWindowMs workers = (wrapI64 d, false) := by
  have hne := hd.ne_nil
  obtain ⟨hpos, heq⟩ := (overlap_iff hne d).mp hd
  have hlt : minEnd (successful workers) > maxStart (successful workers) := by omega
  simp [effectiveWindowMs, hne, hlt, heq]

theorem effectiveWindowMs_of_disjoint {workers : List WorkerResult}
    (hne : successful workers ≠ []) (hnone : ¬ ∃ d, Overlap (successful workers) d) :
    effectiveWindowMs workers = (minEffective (successful workers), true) := by
  rw [exists_overlap_iff hne] at hnone
  simp [effectiveWindowMs, hne, hnone]

theorem computeDiagnostics_misaligned (order : HashOrder String) (workers : List WorkerResult) :
    (computeDiagnostics order workers).1 = true ↔
      2 ≤ (successful workers).length ∧ ¬ ∃ d, Overlap (successful workers) d := by
  by_cases htwo : 2 ≤ (successful workers).length
  · have hne : successful workers ≠ [] := List.ne_nil_of_length_pos (by omega)
    have hlt : ¬ (successful workers).length < 2 := by omega
    rw [exists_overlap_iff hne]
    simp [computeDiagnostics, htwo, hlt]
  · have hlt : (successful workers).length < 2 := by omega
    simp [computeDiagnostics, htwo, hlt]

end CvdBench.Cli
