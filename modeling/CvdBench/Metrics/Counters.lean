import CvdBench.Foundation.Tally
import CvdBench.Metrics.Window

/-!
The counters of a list of results, added up without a bound, and what the loops of
`aggregate` make of them.
-/

set_option autoImplicit false

namespace CvdBench.Metrics

open Foundation Proto

inductive Counter where
  | totalOps | totalBytes | errorCount
  deriving DecidableEq, Repr

namespace Counter

def of (m : PerformanceMetrics) : Counter → Int
  | totalOps => m.totalOps
  | totalBytes => m.totalBytes
  | errorCount => m.errorCount

def merged {H : Type} (op : MergedOp H) : Counter → Int
  | totalOps => op.totalOps
  | totalBytes => op.totalBytes
  | errorCount => op.errorCount

def ofOp (c : Counter) (op : String) (worker : WorkerResult) : Int :=
  ((worker.perOp.get? op).map c.of).getD 0

def opSum (c : Counter) (op : String) (workers : List WorkerResult) : Int :=
  (workers.map (c.ofOp op)).sum

def sum (c : Counter) (workers : List WorkerResult) : Int :=
  (workers.map fun worker => ∑ op ∈ Finmap.keys worker.perOp, c.ofOp op worker).sum

end Counter

def Counted (worker : WorkerResult) : Prop :=
  ∀ op m, worker.perOp.get? op = some m → ∀ c : Counter, 0 ≤ c.of m

theorem Counted.ofOp_nonneg {worker : WorkerResult} (h : Counted worker) (c : Counter)
    (op : String) : 0 ≤ c.ofOp op worker := by
  unfold Counter.ofOp
  cases hm : worker.perOp.get? op with
  | none => exact le_refl 0
  | some m => exact h op m hm c

theorem Counter.opSum_nonneg {workers : List WorkerResult} (h : ∀ w ∈ workers, Counted w)
    (c : Counter) (op : String) : 0 ≤ c.opSum op workers := by
  refine List.sum_nonneg fun n hn => ?_
  obtain ⟨w, hw, rfl⟩ := List.mem_map.mp hn
  exact (h w hw).ofOp_nonneg c op

theorem Counter.sum_nonneg {workers : List WorkerResult} (h : ∀ w ∈ workers, Counted w)
    (c : Counter) : 0 ≤ c.sum workers := by
  refine List.sum_nonneg fun n hn => ?_
  obtain ⟨w, hw, rfl⟩ := List.mem_map.mp hn
  exact Finset.sum_nonneg fun op _ => (h w hw).ofOp_nonneg c op

theorem Counter.opSum_cons (c : Counter) (op : String) (w : WorkerResult)
    (ws : List WorkerResult) : c.opSum op (w :: ws) = c.ofOp op w + c.opSum op ws := by
  rw [opSum, List.map_cons, List.sum_cons, opSum]

theorem Counter.sum_cons (c : Counter) (w : WorkerResult) (ws : List WorkerResult) :
    c.sum (w :: ws) = (∑ op ∈ Finmap.keys w.perOp, c.ofOp op w) + c.sum ws := by
  rw [sum, List.map_cons, List.sum_cons, sum]

theorem Counter.opSum_append (c : Counter) (op : String) (xs ys : List WorkerResult) :
    c.opSum op (xs ++ ys) = c.opSum op xs + c.opSum op ys := by
  rw [opSum, List.map_append, List.sum_append, opSum, opSum]

theorem Counter.sum_append (c : Counter) (xs ys : List WorkerResult) :
    c.sum (xs ++ ys) = c.sum xs + c.sum ys := by
  rw [sum, List.map_append, List.sum_append, sum, sum]

theorem Counter.opSum_perm {xs ys : List WorkerResult} (h : xs.Perm ys) (c : Counter)
    (op : String) : c.opSum op xs = c.opSum op ys :=
  (h.map _).sum_eq

theorem Counter.sum_perm {xs ys : List WorkerResult} (h : xs.Perm ys) (c : Counter) :
    c.sum xs = c.sum ys :=
  (h.map _).sum_eq

theorem Counter.sum_opSum (c : Counter) (ops : Finset String) {workers : List WorkerResult}
    (h : ∀ w ∈ workers, Finmap.keys w.perOp ⊆ ops) :
    ∑ op ∈ ops, c.opSum op workers = c.sum workers := by
  induction workers with
  | nil => simp [opSum, sum]
  | cons w ws ih =>
    have hw : ∑ op ∈ Finmap.keys w.perOp, c.ofOp op w = ∑ op ∈ ops, c.ofOp op w := by
      refine Finset.sum_subset (h w List.mem_cons_self) fun op _ hop => ?_
      have hnone : w.perOp.get? op = none := by
        rw [HashMap.mem_keys_iff] at hop
        rw [Option.eq_none_iff_forall_ne_some]
        intro m hm
        exact hop ⟨m, hm⟩
      rw [ofOp, hnone]
      rfl
    have hws : ∀ v ∈ ws, Finmap.keys v.perOp ⊆ ops := fun v hv => h v (List.mem_cons_of_mem w hv)
    simp only [opSum_cons]
    rw [Finset.sum_add_distrib, ih hws, sum_cons, hw]

section

variable {H : Type} (lib : HdrLib H) (order : HashOrder String)

def mergeOp (success : Bool) (old : Option (MergedOp H)) (m : PerformanceMetrics) : MergedOp H :=
  let entry := (old.getD .default).mergeCounters m
  if success then entry.mergeHistogram lib m else entry

theorem get?_mergeWorker (merged : HashMap String (MergedOp H)) (worker : WorkerResult)
    (op : String) :
    (mergeWorker lib order merged worker).get? op =
      ((worker.perOp.get? op).map fun m => mergeOp lib worker.success (merged.get? op) m).or
        (merged.get? op) :=
  order.get?_foldl_entries (mergeOp lib worker.success) worker.perOp merged op

def mergeAll (workers : List WorkerResult) : HashMap String (MergedOp H) :=
  workers.foldl (mergeWorker lib order) ∅

theorem mergeAll_append (xs : List WorkerResult) (worker : WorkerResult) :
    mergeAll lib order (xs ++ [worker]) = mergeWorker lib order (mergeAll lib order xs) worker := by
  rw [mergeAll, List.foldl_append, mergeAll]
  rfl

theorem mem_keys_mergeAll (workers : List WorkerResult) (op : String) :
    op ∈ Finmap.keys (mergeAll lib order workers) ↔
      ∃ w ∈ workers, op ∈ Finmap.keys w.perOp := by
  induction workers using List.reverseRecOn with
  | nil => simp [mergeAll, HashMap.mem_keys_iff]
  | append_singleton ws w ih =>
    rw [HashMap.mem_keys_iff, mergeAll_append, get?_mergeWorker]
    cases hm : w.perOp.get? op with
    | none =>
      have hw : op ∉ Finmap.keys w.perOp := by
        rw [HashMap.mem_keys_iff, hm]
        simp
      rw [HashMap.mem_keys_iff] at ih
      simpa [hw] using ih
    | some m => simp [HashMap.mem_keys_of_get? hm]

theorem mergeHistogram_merged (c : Counter) (op : MergedOp H) (m : PerformanceMetrics) :
    c.merged (op.mergeHistogram lib m) = c.merged op := by
  unfold MergedOp.mergeHistogram
  split
  · rfl
  · split
    · rename_i h _
      unfold MergedOp.addHistogram
      cases op.histogram <;> cases c <;> rfl
    · rfl

theorem mergeOp_merged (c : Counter) (success : Bool) (old : Option (MergedOp H))
    (m : PerformanceMetrics) :
    c.merged (mergeOp lib success old m) =
      saturatingI64 (((old.map c.merged).getD 0) + c.of m) := by
  have hcounters : c.merged ((old.getD .default).mergeCounters m) =
      saturatingI64 (((old.map c.merged).getD 0) + c.of m) := by
    cases old <;> cases c <;> rfl
  unfold mergeOp
  cases success with
  | false => exact hcounters
  | true =>
    rw [← hcounters]
    exact mergeHistogram_merged lib c _ m

theorem merged_mergeAll {workers : List WorkerResult} (h : ∀ w ∈ workers, Counted w)
    (c : Counter) (op : String) :
    (((mergeAll lib order workers).get? op).map c.merged).getD 0 =
      min i64Max (c.opSum op workers) := by
  induction workers using List.reverseRecOn with
  | nil => rfl
  | append_singleton ws w ih =>
    have hws : ∀ v ∈ ws, Counted v := fun v hv => h v (List.mem_append_left _ hv)
    have hw : Counted w := h w (by simp)
    have hsum : c.opSum op (ws ++ [w]) = c.opSum op ws + c.ofOp op w := by
      rw [Counter.opSum_append]
      simp [Counter.opSum]
    rw [mergeAll_append, get?_mergeWorker, hsum]
    cases hm : w.perOp.get? op with
    | none =>
      have hzero : c.ofOp op w = 0 := by rw [Counter.ofOp, hm]; rfl
      rw [hzero, add_zero, ← ih hws]
      rfl
    | some m =>
      have hone : c.ofOp op w = c.of m := by rw [Counter.ofOp, hm]; rfl
      have hpos : 0 ≤ c.of m := hw op m hm c
      have hmerged : 0 ≤ min i64Max (c.opSum op ws) :=
        le_min (by decide) (Counter.opSum_nonneg hws c op)
      show c.merged (mergeOp lib w.success _ m) = _
      rw [mergeOp_merged, ih hws, saturatingI64_of_nonneg (add_nonneg hmerged hpos),
        min_min_add _ _ hpos, hone]

theorem mergeOther_merged (c : Counter) (op other : MergedOp H) :
    c.merged (op.mergeOther lib other) = saturatingI64 (c.merged op + c.merged other) := by
  unfold MergedOp.mergeOther MergedOp.addHistogram
  cases other.histogram <;> cases op.histogram <;> cases c <;> rfl

theorem foldl_mergeOther_merged (c : Counter) (ops : List (MergedOp H))
    (h : ∀ v ∈ ops, 0 ≤ c.merged v) :
    c.merged (ops.foldl (MergedOp.mergeOther lib) .default) =
      min i64Max (ops.map c.merged).sum := by
  induction ops using List.reverseRecOn with
  | nil => cases c <;> rfl
  | append_singleton ops v ih =>
    have hops : ∀ u ∈ ops, 0 ≤ c.merged u := fun u hu => h u (List.mem_append_left _ hu)
    have hv : 0 ≤ c.merged v := h v (by simp)
    have hsum : 0 ≤ (ops.map c.merged).sum := by
      refine List.sum_nonneg fun n hn => ?_
      obtain ⟨u, hu, rfl⟩ := List.mem_map.mp hn
      exact hops u hu
    have hmerged : 0 ≤ min i64Max (ops.map c.merged).sum := le_min (by decide) hsum
    rw [List.foldl_append, List.foldl_cons, List.foldl_nil, mergeOther_merged, ih hops,
      saturatingI64_of_nonneg (add_nonneg hmerged hv), min_min_add _ _ hv, List.map_append,
      List.sum_append]
    simp

def mergeTotal (workers : List WorkerResult) : MergedOp H :=
  (order.values (mergeAll lib order workers)).foldl (MergedOp.mergeOther lib) .default

theorem merged_mergeTotal {workers : List WorkerResult} (h : ∀ w ∈ workers, Counted w)
    (c : Counter) :
    c.merged (mergeTotal lib order workers) = min i64Max (c.sum workers) := by
  have hkey : ∀ op, (((mergeAll lib order workers).get? op).map c.merged).getD 0 =
      min i64Max (c.opSum op workers) := merged_mergeAll lib order h c
  have hpos : ∀ v ∈ order.values (mergeAll lib order workers), 0 ≤ c.merged v := by
    intro v hv
    obtain ⟨op, hop⟩ := order.mem_values.mp hv
    have hval := hkey op
    rw [hop] at hval
    have hv : c.merged v = min i64Max (c.opSum op workers) := hval
    rw [hv]
    exact le_min (by decide) (Counter.opSum_nonneg h c op)
  have hsub : ∀ w ∈ workers,
      Finmap.keys w.perOp ⊆ Finmap.keys (mergeAll lib order workers) := by
    intro w hw op hop
    exact (mem_keys_mergeAll lib order workers op).mpr ⟨w, hw, hop⟩
  rw [mergeTotal, foldl_mergeOther_merged lib c _ hpos, order.sum_values]
  simp only [hkey]
  rw [← Counter.sum_opSum c _ hsub]
  have hcap := min_sum_map_min i64Max (fun op => c.opSum op workers)
    (Finmap.keys (mergeAll lib order workers)).toList (by decide)
    fun op _ => Counter.opSum_nonneg h c op
  rw [Finset.sum_map_toList, Finset.sum_map_toList] at hcap
  exact hcap

theorem toPb_of (c : Counter) (op : MergedOp H) (secs : Float) :
    c.of (op.toPb lib secs) = c.merged op := by
  cases c <;> rfl

theorem get?_totalPerOpPb (merged : HashMap String (MergedOp H)) (secs : Float) (op : String) :
    (totalPerOpPb lib order merged secs).get? op =
      (merged.get? op).map fun v => v.toPb lib secs := by
  have hfold := order.get?_foldl_entries (fun _ v => MergedOp.toPb lib v secs) merged ∅ op
  rw [HashMap.get?_empty, Option.or_none] at hfold
  exact hfold

end

end CvdBench.Metrics
