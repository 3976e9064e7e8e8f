import CvdBench.Foundation.Interval
import CvdBench.Metrics.Aggregate

/-!
The measurement interval that a list of results has in common, and the effective
window computed from it.
-/

set_option autoImplicit false

namespace CvdBench.Metrics

open Foundation Proto

def measured (workers : List WorkerResult) : Set Int :=
  shared WorkerResult.measureStartMs WorkerResult.measureEndMs workers

def Overlap (workers : List WorkerResult) (d : Int) : Prop :=
  0 < d ∧ HasLength (measured workers) d

def maxStart (workers : List WorkerResult) : Int :=
  (workers.map WorkerResult.measureStartMs).max?.getD 0

def minEnd (workers : List WorkerResult) : Int :=
  (workers.map WorkerResult.measureEndMs).min?.getD 0

def minEffective (workers : List WorkerResult) : Int :=
  (workers.map WorkerResult.effectiveDurationMs).min?.getD 0

theorem maxStart_cons (w : WorkerResult) (ws : List WorkerResult) :
    maxStart (w :: ws) = ws.foldl (fun acc w => max acc w.measureStartMs) w.measureStartMs := by
  rw [maxStart, max?_map_cons]
  rfl

theorem minEnd_cons (w : WorkerResult) (ws : List WorkerResult) :
    minEnd (w :: ws) = ws.foldl (fun acc w => min acc w.measureEndMs) w.measureEndMs := by
  rw [minEnd, min?_map_cons]
  rfl

theorem minEffective_cons (w : WorkerResult) (ws : List WorkerResult) :
    minEffective (w :: ws) =
      ws.foldl (fun acc w => min acc w.effectiveDurationMs) w.effectiveDurationMs := by
  rw [minEffective, min?_map_cons]
  rfl

theorem measured_cons (w : WorkerResult) (ws : List WorkerResult) :
    measured (w :: ws) = Set.Icc (maxStart (w :: ws)) (minEnd (w :: ws)) := by
  rw [measured, shared_cons, maxStart_cons, minEnd_cons]

theorem overlap_cons (w : WorkerResult) (ws : List WorkerResult) (d : Int) :
    Overlap (w :: ws) d ↔ 0 < d ∧ minEnd (w :: ws) - maxStart (w :: ws) = d := by
  rw [Overlap, measured_cons]
  constructor
  · rintro ⟨hd, hlen⟩
    exact ⟨hd, (hasLength_Icc hd).mp hlen⟩
  · rintro ⟨hd, heq⟩
    exact ⟨hd, (hasLength_Icc hd).mpr heq⟩

theorem overlap_iff {workers : List WorkerResult} (h : workers ≠ []) (d : Int) :
    Overlap workers d ↔ 0 < d ∧ minEnd workers - maxStart workers = d := by
  cases workers with
  | nil => exact absurd rfl h
  | cons w ws => exact overlap_cons w ws d

theorem Overlap.ne_nil {workers : List WorkerResult} {d : Int} (hd : Overlap workers d) :
    workers ≠ [] := by
  rintro rfl
  obtain ⟨-, a, b, -, heq, -⟩ := hd
  have hmem : b + 1 ∈ measured [] := by simp [measured, shared]
  rw [heq] at hmem
  have hle := hmem.2
  omega

theorem Overlap.unique {workers : List WorkerResult} {d d' : Int} (hd : Overlap workers d)
    (hd' : Overlap workers d') : d = d' := by
  have h := hd.ne_nil
  rw [overlap_iff h] at hd hd'
  omega

theorem exists_overlap_iff {workers : List WorkerResult} (h : workers ≠ []) :
    (∃ d, Overlap workers d) ↔ maxStart workers < minEnd workers := by
  constructor
  · rintro ⟨d, hd⟩
    obtain ⟨hpos, heq⟩ := (overlap_iff h d).mp hd
    omega
  · intro hlt
    exact ⟨_, (overlap_iff h _).mpr ⟨by omega, rfl⟩⟩

theorem minEffective_pos_iff {workers : List WorkerResult} (h : workers ≠ []) :
    0 < minEffective workers ↔ ∀ w ∈ workers, 0 < w.effectiveDurationMs := by
  cases workers with
  | nil => exact absurd rfl h
  | cons w ws =>
    obtain ⟨⟨v, hv, hmin⟩, hle⟩ := isLeast_foldl_min WorkerResult.effectiveDurationMs w ws
    rw [minEffective_cons]
    constructor
    · intro hpos u hu
      exact lt_of_lt_of_le hpos (hle ⟨u, hu, rfl⟩)
    · intro hall
      rw [← hmin]
      exact hall v hv

theorem maxStart_perm {xs ys : List WorkerResult} (h : xs.Perm ys) :
    maxStart xs = maxStart ys := by
  rw [maxStart, max?_map_perm WorkerResult.measureStartMs h, maxStart]

theorem minEnd_perm {xs ys : List WorkerResult} (h : xs.Perm ys) : minEnd xs = minEnd ys := by
  rw [minEnd, min?_map_perm WorkerResult.measureEndMs h, minEnd]

theorem minEffective_perm {xs ys : List WorkerResult} (h : xs.Perm ys) :
    minEffective xs = minEffective ys := by
  rw [minEffective, min?_map_perm WorkerResult.effectiveDurationMs h, minEffective]

theorem computeEffectiveWindowMs_many {workers : List WorkerResult} (h : 2 ≤ workers.length) :
    computeEffectiveWindowMs workers =
      if minEnd workers > maxStart workers then
        (wrapI64 (minEnd workers - maxStart workers), false)
      else (minEffective workers, true) := by
  match workers, h with
  | w :: v :: ws, _ =>
    rw [computeEffectiveWindowMs, maxStart_cons, minEnd_cons, minEffective_cons]
    intro hnil
    exact absurd hnil (by simp)

theorem computeEffectiveWindowMs_perm {xs ys : List WorkerResult} (h : xs.Perm ys) :
    computeEffectiveWindowMs xs = computeEffectiveWindowMs ys := by
  by_cases hmany : 2 ≤ xs.length
  · rw [computeEffectiveWindowMs_many hmany, computeEffectiveWindowMs_many (h.length_eq ▸ hmany),
      maxStart_perm h, minEnd_perm h, minEffective_perm h]
  · match xs, hmany with
    | [], _ => rw [h.nil_eq]
    | [x], _ => rw [List.perm_singleton.mp h.symm]
    | _ :: _ :: _, hmany => simp at hmany

theorem hasCounters_iff (order : HashOrder String) (w : WorkerResult) :
    hasCounters order w = true ↔
      ∃ op m, w.perOp.get? op = some m ∧
        (0 < m.totalOps ∨ 0 < m.totalBytes ∨ 0 < m.errorCount) := by
  simp only [hasCounters, List.any_eq_true, HashOrder.values, List.mem_filterMap,
    Bool.or_eq_true, decide_eq_true_eq, or_assoc, gt_iff_lt]
  constructor
  · rintro ⟨m, ⟨op, -, hget⟩, hpos⟩
    exact ⟨op, m, hget, hpos⟩
  · rintro ⟨op, m, hget, hpos⟩
    refine ⟨m, ⟨op, ?_, hget⟩, hpos⟩
    rw [HashOrder.mem_keys]
    exact HashMap.mem_keys_of_get? hget

theorem window_of_overlap {ws : List WorkerResult} (h : 2 ≤ ws.length) {d : Int}
    (hd : Overlap ws d) : computeEffectiveWindowMs ws = (wrapI64 d, false) := by
  obtain ⟨hpos, heq⟩ := (overlap_iff hd.ne_nil d).mp hd
  rw [computeEffectiveWindowMs_many h, if_pos (by omega), heq]

theorem window_of_disjoint {ws : List WorkerResult} (h : 2 ≤ ws.length)
    (hnone : ¬ ∃ d, Overlap ws d) : computeEffectiveWindowMs ws = (minEffective ws, true) := by
  have hne : ws ≠ [] := List.ne_nil_of_length_pos (by omega)
  rw [exists_overlap_iff hne] at hnone
  rw [computeEffectiveWindowMs_many h, if_neg hnone]

theorem minEffective_eq_zero_iff {ws : List WorkerResult} (h : ws ≠ [])
    (hnonneg : ∀ w ∈ ws, 0 ≤ w.effectiveDurationMs) :
    minEffective ws = 0 ↔ ∃ w ∈ ws, w.effectiveDurationMs = 0 := by
  cases ws with
  | nil => exact absurd rfl h
  | cons w ws =>
    obtain ⟨⟨x, hx, hmin⟩, hle⟩ := isLeast_foldl_min WorkerResult.effectiveDurationMs w ws
    rw [← minEffective_cons] at hmin hle
    constructor
    · intro hzero
      exact ⟨x, hx, hmin.trans hzero⟩
    · rintro ⟨y, hy, hzero⟩
      have hle' : minEffective (w :: ws) ≤ y.effectiveDurationMs := hle ⟨y, hy, rfl⟩
      have hge := hnonneg x hx
      omega

/-- Workers that began together measured together from then on, until the first of them ended. -/
theorem window_of_common_start {ws : List WorkerResult} (h : 2 ≤ ws.length) {start : Int}
    (hstart : ∀ w ∈ ws, w.measureStartMs = start)
    (heffective : ∀ w ∈ ws, w.effectiveDurationMs = max (w.measureEndMs - start) 0)
    (hfits : ∀ w ∈ ws, w.measureEndMs - start ≤ i64Max) :
    computeEffectiveWindowMs ws = (minEffective ws, decide (minEffective ws = 0)) := by
  rw [computeEffectiveWindowMs_many h]
  match ws, h with
  | w :: v :: ws, _ =>
    obtain ⟨⟨x, hx, hmax⟩, -⟩ := isGreatest_foldl_max WorkerResult.measureStartMs w (v :: ws)
    obtain ⟨⟨y, hy, hend⟩, hends⟩ := isLeast_foldl_min WorkerResult.measureEndMs w (v :: ws)
    obtain ⟨⟨z, hz, heff⟩, heffs⟩ := isLeast_foldl_min WorkerResult.effectiveDurationMs w (v :: ws)
    rw [← maxStart_cons, hstart x hx] at hmax
    rw [← minEnd_cons] at hend hends
    rw [← minEffective_cons] at heff heffs
    have hle : minEffective (w :: v :: ws) ≤ y.effectiveDurationMs := heffs ⟨y, hy, rfl⟩
    have hge : minEnd (w :: v :: ws) ≤ z.measureEndMs := hends ⟨z, hz, rfl⟩
    rw [heffective y hy, hend] at hle
    rw [heffective z hz] at heff
    have hmin : minEffective (w :: v :: ws) = max (minEnd (w :: v :: ws) - start) 0 := by
      refine le_antisymm hle ?_
      rw [← heff]
      exact max_le_max (by omega) (le_refl 0)
    have hbound := hfits y hy
    rw [hend] at hbound
    rw [← hmax, hmin]
    split
    · next hlt =>
      rw [wrapI64_of_fits (by unfold i64Min; omega) hbound, max_eq_left (by omega)]
      congr 1
      exact (decide_eq_false (by omega)).symm
    · next hge =>
      rw [max_eq_right (by omega)]
      rfl

section

variable {H : Type} (lib : HdrLib H) (order : HashOrder String)

def contributors (workers : List WorkerResult) : List WorkerResult :=
  workers.filter (hasCounters order)

theorem aggregate_windowMs (workers : List WorkerResult) :
    (aggregate lib order workers).effectiveWindowMs =
      (computeEffectiveWindowMs (contributors order workers)).1 := rfl

theorem aggregate_misaligned (workers : List WorkerResult) :
    (aggregate lib order workers).windowMisaligned =
      (computeEffectiveWindowMs (contributors order workers)).2 := rfl

theorem contributors_order (order' : HashOrder String) (workers : List WorkerResult) :
    contributors order' workers = contributors order workers := by
  refine List.filter_congr fun w _ => ?_
  rw [Bool.eq_iff_iff, hasCounters_iff, hasCounters_iff]

end

end CvdBench.Metrics
