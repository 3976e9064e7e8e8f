import CvdBench.Metrics.Window
import Mathlib.Data.String.Basic

/-!
The effective window that `aggregate` divides by.
-/

set_option autoImplicit false

namespace CvdBench.Metrics

open Foundation Proto

section

variable {H : Type} (lib : HdrLib H) (order : HashOrder String)

/-- Every rate of the summary was computed over `secs`. -/
def RatesOver (s : AggregatedSummary) (secs : Float) : Prop :=
  (∃ total : MergedOp H, s.aggregated.total = some (total.toPb lib secs)) ∧
    ∃ merged, s.aggregated.totalPerOp = totalPerOpPb lib order merged secs

structure WindowSound (workers : List WorkerResult) : Prop where
  overlapping : 2 ≤ (contributors order workers).length →
    ∀ d, Overlap (contributors order workers) d →
      (aggregate lib order workers).effectiveWindowMs = d ∧
        (aggregate lib order workers).windowMisaligned = false
  disjoint : 2 ≤ (contributors order workers).length →
    (¬ ∃ d, Overlap (contributors order workers) d) →
      (aggregate lib order workers).windowMisaligned = true
  single : (contributors order workers).length ≤ 1 →
    (aggregate lib order workers).windowMisaligned = false
  positive : (∃ w ∈ contributors order workers, 0 < w.effectiveDurationMs) →
    0 < (aggregate lib order workers).effectiveWindowMs ∧
      RatesOver lib order (aggregate lib order workers)
        (Float.ofInt (aggregate lib order workers).effectiveWindowMs / 1000)
  unordered : ∀ (order' : HashOrder String) (workers' : List WorkerResult),
    workers.Perm workers' →
      (aggregate lib order' workers').effectiveWindowMs =
          (aggregate lib order workers).effectiveWindowMs ∧
        (aggregate lib order' workers').windowMisaligned =
          (aggregate lib order workers).windowMisaligned

/-- Fewer than two contributors, or an overlap that an `i64` can hold, or no overlap
with the durations all positive or none of them. -/
def WindowMeets (ws : List WorkerResult) : Prop :=
  ws.length ≤ 1 ∨ (∃ d, Overlap ws d ∧ d ≤ i64Max) ∨
    ((¬ ∃ d, Overlap ws d) ∧
      ((∀ w ∈ ws, 0 < w.effectiveDurationMs) ∨ ∀ w ∈ ws, w.effectiveDurationMs ≤ 0))

theorem ratesOver_window {workers : List WorkerResult}
    (h : 0 < (aggregate lib order workers).effectiveWindowMs) :
    RatesOver lib order (aggregate lib order workers)
      (Float.ofInt (aggregate lib order workers).effectiveWindowMs / 1000) := by
  have hmax : max (aggregate lib order workers).effectiveWindowMs 1 =
      (aggregate lib order workers).effectiveWindowMs := by omega
  rw [← hmax]
  exact ⟨⟨_, rfl⟩, ⟨_, rfl⟩⟩

end

theorem window_of_single {ws : List WorkerResult} (h : ws.length ≤ 1) :
    (computeEffectiveWindowMs ws).2 = false ∧
      ((∃ w ∈ ws, 0 < w.effectiveDurationMs) → 0 < (computeEffectiveWindowMs ws).1) := by
  match ws, h with
  | [], _ => simp [computeEffectiveWindowMs]
  | [w], _ =>
    refine ⟨rfl, ?_⟩
    rintro ⟨v, hv, hpos⟩
    rw [List.mem_singleton.mp hv] at hpos
    simp only [computeEffectiveWindowMs]
    split <;> omega

theorem window_pos {ws : List WorkerResult} (h : WindowMeets ws)
    (hpos : ∃ w ∈ ws, 0 < w.effectiveDurationMs) : 0 < (computeEffectiveWindowMs ws).1 := by
  rcases Nat.lt_or_ge ws.length 2 with hone | htwo
  · exact (window_of_single (by omega)).2 hpos
  · have hne : ws ≠ [] := List.ne_nil_of_length_pos (by omega)
    rcases h with hone | ⟨d, hd, hfits⟩ | ⟨hnone, hall | hall⟩
    · omega
    · have hd0 := hd.1
      rw [window_of_overlap htwo hd, wrapI64_of_fits (by unfold i64Min; omega) hfits]
      exact hd0
    · rw [window_of_disjoint htwo hnone]
      exact (minEffective_pos_iff hne).mpr hall
    · obtain ⟨w, hw, hwpos⟩ := hpos
      have hle := hall w hw
      omega

section

variable {H : Type} (lib : HdrLib H) (order : HashOrder String)

theorem aggregate_window_perm (order' : HashOrder String) {workers workers' : List WorkerResult}
    (h : workers.Perm workers') :
    (aggregate lib order' workers').effectiveWindowMs =
        (aggregate lib order workers).effectiveWindowMs ∧
      (aggregate lib order' workers').windowMisaligned =
        (aggregate lib order workers).windowMisaligned := by
  have hcontrib : (contributors order workers).Perm (contributors order' workers') := by
    rw [contributors_order order order']
    exact h.filter _
  have hsame := computeEffectiveWindowMs_perm hcontrib
  constructor
  · rw [aggregate_windowMs, aggregate_windowMs, hsame]
  · rw [aggregate_misaligned, aggregate_misaligned, hsame]

theorem windowSound_of_meets {workers : List WorkerResult}
    (h : WindowMeets (contributors order workers)) : WindowSound lib order workers where
  overlapping := by
    intro htwo d hd
    have hfits : d ≤ i64Max := by
      rcases h with hone | ⟨d', hd', hfits⟩ | ⟨hnone, -⟩
      · omega
      · rwa [hd.unique hd']
      · exact absurd ⟨d, hd⟩ hnone
    have hd0 := hd.1
    rw [aggregate_windowMs, aggregate_misaligned, window_of_overlap htwo hd]
    exact ⟨wrapI64_of_fits (by unfold i64Min; omega) hfits, rfl⟩
  disjoint := by
    intro htwo hnone
    rw [aggregate_misaligned, window_of_disjoint htwo hnone]
  single := by
    intro hone
    rw [aggregate_misaligned]
    exact (window_of_single hone).1
  positive := by
    intro hpos
    have hwindow : 0 < (aggregate lib order workers).effectiveWindowMs := window_pos h hpos
    exact ⟨hwindow, ratesOver_window lib order hwindow⟩
  unordered := by
    intro order' workers' hperm
    exact aggregate_window_perm lib order order' hperm

theorem meets_of_windowSound {workers : List WorkerResult} (h : WindowSound lib order workers) :
    WindowMeets (contributors order workers) := by
  rcases Nat.lt_or_ge (contributors order workers).length 2 with hone | htwo
  · exact Or.inl (by omega)
  · have hne : contributors order workers ≠ [] := List.ne_nil_of_length_pos (by omega)
    by_cases hover : ∃ d, Overlap (contributors order workers) d
    · obtain ⟨d, hd⟩ := hover
      have hwindow := (h.overlapping htwo d hd).1
      rw [aggregate_windowMs, window_of_overlap htwo hd] at hwindow
      have hfits : (wrapI64 d, false).1 ≤ i64Max := (wrapI64_fits d).2
      rw [hwindow] at hfits
      exact Or.inr (Or.inl ⟨d, hd, hfits⟩)
    · refine Or.inr (Or.inr ⟨hover, ?_⟩)
      by_cases hpos : ∃ w ∈ contributors order workers, 0 < w.effectiveDurationMs
      · have hwindow := (h.positive hpos).1
        rw [aggregate_windowMs, window_of_disjoint htwo hover] at hwindow
        exact Or.inl ((minEffective_pos_iff hne).mp hwindow)
      · right
        intro w hw
        by_contra hlt
        exact hpos ⟨w, hw, by omega⟩

theorem effective_window_iff (workers : List WorkerResult) :
    WindowSound lib order workers ↔ WindowMeets (contributors order workers) :=
  ⟨meets_of_windowSound lib order, windowSound_of_meets lib order⟩

end

namespace Small

def hdr : HdrLib Unit :=
  { decode := fun _ => none, add := fun _ _ => none, encodeV2Compressed := fun _ => none
    isEmpty := fun _ => true, valueAtQuantile := fun _ _ => 0, max := fun _ => 0
    mean := fun _ => 0 }

def counted (ops errors : Int) : PerformanceMetrics :=
  { throughputMbps := 0, iops := 0, latencyUs := none, errorCount := errors, errorRate := 0
    totalOps := ops, totalBytes := 0, latencyHistogramHdr := [] }

def result (workerId : String) (m : PerformanceMetrics) (success : Bool)
    (start stop duration : Int) : WorkerResult :=
  { workerId, perOp := HashMap.put ∅ "read" m, consistencyErrors := [], success, error := none
    effectiveDurationMs := duration, measureStartMs := start, measureEndMs := stop }

def mixed : List WorkerResult :=
  [result "a" (counted 60 0) true 0 60000 60000, result "b" (counted 0 1) false 1000 500 0]

end Small

/-- One contributor measured for a minute, and the window is 0. -/
theorem failed_worker_zeroes_window : ¬ WindowSound Small.hdr (.ascending String) Small.mixed := by
  intro h
  have hpos := (h.positive ⟨Small.result "a" (Small.counted 60 0) true 0 60000 60000,
    List.mem_filter.mpr ⟨List.mem_cons_self, by decide⟩, by decide⟩).1
  have hzero : (aggregate Small.hdr (.ascending String) Small.mixed).effectiveWindowMs = 0 := by
    decide
  omega

end CvdBench.Metrics
