import CvdBench.Foundation.Merging
import CvdBench.Metrics.Counters

/-!
Which histograms of a list of results enter the merged ones, and how many samples the
merged ones hold.
-/

set_option autoImplicit false

namespace CvdBench.Metrics

open Foundation Proto

section

variable {H : Type} (lib : HdrLib H) (order : HashOrder String)

def entryAfter (workers : List WorkerResult) (op : String) : MergedOp H :=
  ((mergeAll lib order workers).get? op).getD .default

def reported (op : String) (worker : WorkerResult) : Option H :=
  if worker.success then
    (worker.perOp.get? op).bind fun m =>
      if m.latencyHistogramHdr.isEmpty then none else lib.decode m.latencyHistogramHdr
  else none

def Enters (entry : MergedOp H) (m : PerformanceMetrics) : Prop :=
  m.latencyHistogramHdr ≠ [] ∧
    ∃ h, lib.decode m.latencyHistogramHdr = some h ∧
      (∀ existing, entry.histogram = some existing → (lib.add existing h).isSome = true)

theorem accepts_iff (sum : Option H) (h : H) :
    Merging.accepts lib.add sum h = true ↔
      ∀ existing, sum = some existing → (lib.add existing h).isSome = true := by
  cases sum with
  | none => simp [Merging.accepts]
  | some existing => simp [Merging.accepts]

theorem addHistogram_histogram (op : MergedOp H) (h : H) :
    (op.addHistogram lib h).histogram = Merging.take lib.add op.histogram h := by
  unfold MergedOp.addHistogram
  cases hop : op.histogram <;> rfl

theorem mergeOp_histogram (success : Bool) (old : Option (MergedOp H)) (m : PerformanceMetrics) :
    (mergeOp lib success old m).histogram =
      match (if success then
          (if m.latencyHistogramHdr.isEmpty then none else lib.decode m.latencyHistogramHdr)
        else none) with
      | some h => Merging.take lib.add (old.getD .default).histogram h
      | none => (old.getD .default).histogram := by
  unfold mergeOp MergedOp.mergeHistogram
  cases success with
  | false => rfl
  | true =>
    by_cases hbytes : m.latencyHistogramHdr.isEmpty = true
    · simp only [hbytes]
      rfl
    · simp only [hbytes]
      cases hdecode : lib.decode m.latencyHistogramHdr with
      | none => rfl
      | some h => exact addHistogram_histogram lib _ h

theorem entryAfter_append (ws : List WorkerResult) (w : WorkerResult) (op : String) :
    (entryAfter lib order (ws ++ [w]) op).histogram =
      Merging.next lib.add (reported lib op) (entryAfter lib order ws op).histogram w := by
  unfold entryAfter Merging.next reported
  rw [mergeAll_append, get?_mergeWorker]
  cases hm : w.perOp.get? op with
  | none => cases w.success <;> rfl
  | some m => exact mergeOp_histogram lib w.success _ m

theorem entryAfter_histogram (workers : List WorkerResult) (op : String) :
    (entryAfter lib order workers op).histogram =
      Merging.sumOf lib.add (reported lib op) workers := by
  induction workers using List.reverseRecOn with
  | nil => rfl
  | append_singleton ws w ih =>
    rw [entryAfter_append, ih, Merging.sumOf, Merging.sumOf, List.foldl_append]
    rfl

theorem taken_iff (sum : Option H) (op : String) (w : WorkerResult) :
    Merging.Taken lib.add (reported lib op) sum w ↔
      w.success = true ∧ ∃ m, w.perOp.get? op = some m ∧ m.latencyHistogramHdr ≠ [] ∧
        ∃ h, lib.decode m.latencyHistogramHdr = some h ∧
          Merging.accepts lib.add sum h = true := by
  unfold Merging.Taken reported
  cases hs : w.success with
  | false => simp
  | true =>
    cases hm : w.perOp.get? op with
    | none => simp
    | some m =>
      by_cases hbytes : m.latencyHistogramHdr = []
      · simp [hbytes]
      · simp [hbytes]

theorem enters_iff_taken {pre : List WorkerResult} {w : WorkerResult} {op : String}
    {m : PerformanceMetrics} (hw : w.success = true) (hm : w.perOp.get? op = some m) :
    Enters lib (entryAfter lib order pre op) m ↔
      Merging.Taken lib.add (reported lib op) (Merging.sumOf lib.add (reported lib op) pre) w := by
  rw [taken_iff, ← entryAfter_histogram lib order, Enters]
  simp only [accepts_iff, hw, hm, true_and, Option.some.injEq]
  constructor
  · intro h
    exact ⟨m, rfl, h⟩
  · rintro ⟨_, rfl, h⟩
    exact h

theorem sumOf_successful (op : String) (workers : List WorkerResult) :
    Merging.sumOf lib.add (reported lib op) (workers.filter (·.success)) =
      Merging.sumOf lib.add (reported lib op) workers := by
  rw [Merging.sumOf_eq, Merging.sumOf_eq, List.filterMap_filter]
  refine congrArg (List.foldl _ none) (List.filterMap_congr fun w _ => ?_)
  cases hw : w.success <;> simp [reported, hw]

def opKeys (workers : List WorkerResult) : Finset String :=
  workers.foldr (fun w ops => Finmap.keys w.perOp ∪ ops) ∅

theorem mem_opKeys {workers : List WorkerResult} {op : String} :
    op ∈ opKeys workers ↔ ∃ w ∈ workers, op ∈ Finmap.keys w.perOp := by
  induction workers with
  | nil => simp [opKeys]
  | cons w ws ih =>
    have hcons : opKeys (w :: ws) = Finmap.keys w.perOp ∪ opKeys ws := rfl
    rw [hcons, Finset.mem_union, ih]
    simp

theorem keys_mergeAll (workers : List WorkerResult) :
    Finmap.keys (mergeAll lib order workers) = opKeys workers := by
  ext op
  rw [mem_keys_mergeAll, mem_opKeys]

def opReport (workers : List WorkerResult) (op : String) : Option H :=
  Merging.sumOf lib.add (reported lib op) workers

theorem mergeOther_histogram (op other : MergedOp H) :
    (op.mergeOther lib other).histogram =
      Merging.next lib.add MergedOp.histogram op.histogram other := by
  unfold MergedOp.mergeOther Merging.next
  cases hother : other.histogram with
  | none => rfl
  | some h => exact addHistogram_histogram lib _ h

theorem mergeTotal_histogram (workers : List WorkerResult) :
    (mergeTotal lib order workers).histogram =
      Merging.sumOf lib.add (opReport lib workers) (order.iter (opKeys workers)) := by
  have hfold : ∀ (ops : List (MergedOp H)) (acc : MergedOp H),
      (ops.foldl (MergedOp.mergeOther lib) acc).histogram =
        ops.foldl (Merging.next lib.add MergedOp.histogram) acc.histogram := by
    intro ops
    induction ops with
    | nil => intro acc; rfl
    | cons v ops ih =>
      intro acc
      rw [List.foldl_cons, ih, List.foldl_cons, mergeOther_histogram]
  have hkeys : order.keys (mergeAll lib order workers) = order.iter (opKeys workers) := by
    rw [HashOrder.keys, keys_mergeAll]
  have hstep : ∀ op, ((mergeAll lib order workers).get? op).bind MergedOp.histogram =
      opReport lib workers op := by
    intro op
    rw [opReport, ← entryAfter_histogram lib order, entryAfter]
    cases (mergeAll lib order workers).get? op <;> rfl
  rw [mergeTotal, hfold]
  show Merging.sumOf lib.add MergedOp.histogram _ = _
  rw [Merging.sumOf_eq, Merging.sumOf_eq, HashOrder.values, hkeys, List.filterMap_filterMap]
  exact congrArg (List.foldl _ none) (congrArg (List.filterMap · _) (funext hstep))

def nonErrors (op : String) (w : WorkerResult) : Int :=
  if w.success then Counter.totalOps.ofOp op w - Counter.errorCount.ofOp op w else 0

theorem sum_nonErrors (op : String) (workers : List WorkerResult) :
    (workers.map (nonErrors op)).sum =
      Counter.totalOps.opSum op (workers.filter (·.success)) -
        Counter.errorCount.opSum op (workers.filter (·.success)) := by
  induction workers with
  | nil => rfl
  | cons w ws ih =>
    rw [List.map_cons, List.sum_cons, ih, nonErrors]
    cases hw : w.success with
    | false => simp [hw]
    | true =>
      rw [List.filter_cons_of_pos (by simpa using hw), Counter.opSum_cons, Counter.opSum_cons]
      simp only [if_true]
      omega

theorem sum_nonErrors_ops (workers : List WorkerResult) :
    ∑ op ∈ opKeys workers, (workers.map (nonErrors op)).sum =
      Counter.totalOps.sum (workers.filter (·.success)) -
        Counter.errorCount.sum (workers.filter (·.success)) := by
  have hsub : ∀ w ∈ workers.filter (·.success), Finmap.keys w.perOp ⊆ opKeys workers := by
    intro w hw op hop
    exact mem_opKeys.mpr ⟨w, (List.mem_filter.mp hw).1, hop⟩
  simp only [sum_nonErrors]
  rw [Finset.sum_sub_distrib, Counter.sum_opSum _ _ hsub, Counter.sum_opSum _ _ hsub]

def Misses (w : WorkerResult) : Prop :=
  ∃ op m, w.perOp.get? op = some m ∧ m.latencyHistogramHdr = [] ∧ 0 < m.totalOps

theorem missesHistogram_iff (w : WorkerResult) :
    missesHistogram order w = true ↔ Misses w := by
  rw [missesHistogram, List.any_eq_true]
  constructor
  · rintro ⟨m, hmem, hmiss⟩
    obtain ⟨op, hop⟩ := order.mem_values.mp hmem
    exact ⟨op, m, hop, by simpa using hmiss⟩
  · rintro ⟨op, m, hop, hbytes, hpos⟩
    exact ⟨m, order.mem_values.mpr ⟨op, hop⟩, by simp [hbytes, hpos]⟩

def countedAt (pre : List WorkerResult) (w : WorkerResult) : Nat :=
  (aggregate lib order (pre ++ [w])).missingHistogramCount -
    (aggregate lib order pre).missingHistogramCount

theorem missingHistogramCount_append (pre : List WorkerResult) (w : WorkerResult) :
    (aggregate lib order (pre ++ [w])).missingHistogramCount =
      (aggregate lib order pre).missingHistogramCount +
        if w.success = true ∧ missesHistogram order w = true then 1 else 0 := by
  have hcount : ∀ ws, (aggregate lib order ws).missingHistogramCount =
      ((ws.filter (·.success)).filter (missesHistogram order)).length := fun _ => rfl
  rw [hcount, hcount, List.filter_append, List.filter_append, List.length_append]
  cases hs : w.success <;> cases hm : missesHistogram order w <;> simp [hs, hm]

theorem countedAt_eq (pre : List WorkerResult) (w : WorkerResult) :
    countedAt lib order pre w =
      if w.success = true ∧ missesHistogram order w = true then 1 else 0 := by
  rw [countedAt, missingHistogramCount_append]
  omega

theorem countedAt_eq_one_iff (pre : List WorkerResult) (w : WorkerResult) :
    countedAt lib order pre w = 1 ↔ w.success = true ∧ Misses w := by
  rw [countedAt_eq, ← missesHistogram_iff order w]
  split <;> simp [*]

theorem countedAt_eq_zero_iff (pre : List WorkerResult) (w : WorkerResult) :
    countedAt lib order pre w = 0 ↔ ¬ (w.success = true ∧ Misses w) := by
  rw [countedAt_eq, ← missesHistogram_iff order w]
  split <;> simp [*]

theorem missingHistogramCount_eq_zero (workers : List WorkerResult) :
    (aggregate lib order workers).missingHistogramCount = 0 ↔
      ∀ w ∈ workers, w.success = true → ¬ Misses w := by
  show ((workers.filter (·.success)).filter (missesHistogram order)).length = 0 ↔ _
  rw [List.length_eq_zero_iff, List.filter_eq_nil_iff]
  constructor
  · intro h w hw hs hmiss
    exact h w (List.mem_filter.mpr ⟨hw, hs⟩) ((missesHistogram_iff order w).mpr hmiss)
  · intro h w hw hmiss
    obtain ⟨hw, hs⟩ := List.mem_filter.mp hw
    exact h w hw hs ((missesHistogram_iff order w).mp hmiss)

end

end CvdBench.Metrics
