import CvdBench.Metrics.Counters
import CvdBench.Properties.EffectiveWindow

/-!
The counters of an aggregated summary: exact sums under the cap of an `i64`, whatever the
order of the results and of the maps.
-/

set_option autoImplicit false

namespace CvdBench.Metrics

open Foundation Proto

def AggregatedSummary.opCounter (s : AggregatedSummary) (c : Counter) (op : String) : Option Int :=
  (s.aggregated.totalPerOp.get? op).map c.of

def AggregatedSummary.totalCounter (s : AggregatedSummary) (c : Counter) : Option Int :=
  s.aggregated.total.map c.of

section

variable {H : Type} (lib : HdrLib H) (order : HashOrder String)

structure CountersExact (workers : List WorkerResult) : Prop where
  perOp : ∀ (c : Counter) (op : String),
    (∃ w ∈ workers, op ∈ Finmap.keys w.perOp) →
      (aggregate lib order workers).opCounter c op = some (min i64Max (c.opSum op workers))
  keys : ∀ op, op ∈ Finmap.keys (aggregate lib order workers).aggregated.totalPerOp ↔
    ∃ w ∈ workers, op ∈ Finmap.keys w.perOp
  total : ∀ c : Counter,
    (aggregate lib order workers).totalCounter c = some (min i64Max (c.sum workers))
  unordered : ∀ (order' : HashOrder String) (workers' : List WorkerResult),
    workers.Perm workers' → ∀ c : Counter,
      (∀ op, (aggregate lib order' workers').opCounter c op =
          (aggregate lib order workers).opCounter c op) ∧
        (aggregate lib order' workers').totalCounter c =
          (aggregate lib order workers).totalCounter c
  append : ∀ xs ys, workers = xs ++ ys → ∀ c : Counter,
    (∀ op, ((aggregate lib order workers).opCounter c op).getD 0 =
        saturatingI64 (((aggregate lib order xs).opCounter c op).getD 0 +
          ((aggregate lib order ys).opCounter c op).getD 0)) ∧
      (aggregate lib order workers).totalCounter c =
        some (saturatingI64 (((aggregate lib order xs).totalCounter c).getD 0 +
          ((aggregate lib order ys).totalCounter c).getD 0))

theorem opCounter_aggregate (c : Counter) (op : String) (workers : List WorkerResult) :
    (aggregate lib order workers).opCounter c op =
      ((mergeAll lib order workers).get? op).map c.merged := by
  have hget := get?_totalPerOpPb lib order (mergeAll lib order workers)
    (Float.ofInt (max (aggregate lib order workers).effectiveWindowMs 1) / 1000) op
  show Option.map c.of _ = _
  rw [show (aggregate lib order workers).aggregated.totalPerOp = _ from rfl]
  refine (congrArg (Option.map c.of) hget).trans ?_
  rw [Option.map_map]
  exact congrArg (Option.map · _) (funext fun v => toPb_of lib c v _)

theorem keys_aggregate (workers : List WorkerResult) (op : String) :
    op ∈ Finmap.keys (aggregate lib order workers).aggregated.totalPerOp ↔
      ∃ w ∈ workers, op ∈ Finmap.keys w.perOp := by
  have hsome : ∀ m : HashMap String PerformanceMetrics,
      op ∈ Finmap.keys m ↔ ((m.get? op).map Counter.totalOps.of).isSome := by
    intro m
    rw [← HashMap.containsKey_iff, HashMap.containsKey, Option.isSome_map]
  rw [hsome, ← AggregatedSummary.opCounter, opCounter_aggregate, Option.isSome_map,
    ← HashMap.containsKey, HashMap.containsKey_iff, mem_keys_mergeAll]

theorem totalCounter_aggregate (c : Counter) (workers : List WorkerResult) :
    (aggregate lib order workers).totalCounter c = some (c.merged (mergeTotal lib order workers)) :=
  congrArg some (toPb_of lib c (mergeTotal lib order workers) _)

theorem opCounter_of_counted {workers : List WorkerResult} (h : ∀ w ∈ workers, Counted w)
    (c : Counter) (op : String) :
    ((aggregate lib order workers).opCounter c op).getD 0 =
      min i64Max (c.opSum op workers) := by
  rw [opCounter_aggregate, merged_mergeAll lib order h]

theorem totalCounter_of_counted {workers : List WorkerResult} (h : ∀ w ∈ workers, Counted w)
    (c : Counter) :
    (aggregate lib order workers).totalCounter c = some (min i64Max (c.sum workers)) := by
  rw [totalCounter_aggregate, merged_mergeTotal lib order h]

theorem opCounter_unordered {workers workers' : List WorkerResult} (order' : HashOrder String)
    (h : ∀ w ∈ workers, Counted w) (hperm : workers.Perm workers') (c : Counter) (op : String) :
    (aggregate lib order' workers').opCounter c op =
      (aggregate lib order workers).opCounter c op := by
  have h' : ∀ w ∈ workers', Counted w := fun w hw => h w (hperm.mem_iff.mpr hw)
  have hval := opCounter_of_counted lib order h c op
  have hval' := opCounter_of_counted lib order' h' c op
  have hkeys : op ∈ Finmap.keys (mergeAll lib order workers) ↔
      op ∈ Finmap.keys (mergeAll lib order' workers') := by
    rw [mem_keys_mergeAll, mem_keys_mergeAll]
    simp only [hperm.mem_iff]
  rw [← Counter.opSum_perm hperm, ← hval, opCounter_aggregate, opCounter_aggregate] at hval'
  rw [HashMap.mem_keys_iff, HashMap.mem_keys_iff] at hkeys
  rw [opCounter_aggregate, opCounter_aggregate]
  cases hv : (mergeAll lib order workers).get? op with
  | none =>
    cases hv' : (mergeAll lib order' workers').get? op with
    | none => rfl
    | some v' =>
      obtain ⟨v, hsome⟩ := hkeys.mpr ⟨v', hv'⟩
      rw [hv] at hsome
      cases hsome
  | some v =>
    obtain ⟨v', hv'⟩ := hkeys.mp ⟨v, hv⟩
    rw [hv, hv'] at hval'
    rw [hv']
    exact congrArg some hval'

theorem aggregate_counters {workers : List WorkerResult} (h : ∀ w ∈ workers, Counted w) :
    CountersExact lib order workers where
  perOp := by
    intro c op hop
    have hval := opCounter_of_counted lib order h c op
    rw [← mem_keys_mergeAll lib order, HashMap.mem_keys_iff] at hop
    obtain ⟨v, hv⟩ := hop
    rw [opCounter_aggregate, hv] at hval ⊢
    exact congrArg some hval
  keys := keys_aggregate lib order workers
  total := totalCounter_of_counted lib order h
  unordered := by
    intro order' workers' hperm c
    have h' : ∀ w ∈ workers', Counted w := fun w hw => h w (hperm.mem_iff.mpr hw)
    constructor
    · exact opCounter_unordered lib order order' h hperm c
    · rw [totalCounter_of_counted lib order h, totalCounter_of_counted lib order' h',
        Counter.sum_perm hperm]
  append := by
    rintro xs ys rfl c
    have hxs : ∀ w ∈ xs, Counted w := fun w hw => h w (List.mem_append_left ys hw)
    have hys : ∀ w ∈ ys, Counted w := fun w hw => h w (List.mem_append_right xs hw)
    constructor
    · intro op
      rw [opCounter_of_counted lib order h, opCounter_of_counted lib order hxs,
        opCounter_of_counted lib order hys, Counter.opSum_append]
      exact min_i64Max_add (Counter.opSum_nonneg hxs c op)
        (Counter.opSum_nonneg hys c op)
    · rw [totalCounter_of_counted lib order h, totalCounter_of_counted lib order hxs,
        totalCounter_of_counted lib order hys, Counter.sum_append]
      exact congrArg some (min_i64Max_add (Counter.sum_nonneg hxs c)
        (Counter.sum_nonneg hys c))

end

namespace Small

def full : PerformanceMetrics :=
  { counted i64Max 0 with
    totalBytes := i64Max }

def saturated : List WorkerResult :=
  [result "a" full true 0 60000 60000, result "b" (counted 5 5) false 0 100 100,
    result "c" full true 0 60000 60000]

theorem saturated_counted : ∀ w ∈ saturated, Counted w := by
  have hone : ∀ (id : String) (m : PerformanceMetrics) (b : Bool) (i j k : Int),
      (∀ c : Counter, 0 ≤ c.of m) → Counted (result id m b i j k) := by
    intro id m b i j k hm op m' hget c
    rw [result, HashMap.get?_put] at hget
    split at hget
    · cases hget
      exact hm c
    · cases hget
  have hfull : ∀ c : Counter, 0 ≤ c.of full := by intro c; cases c <;> decide
  have hfailed : ∀ c : Counter, 0 ≤ c.of (counted 5 5) := by intro c; cases c <;> decide
  intro w hw
  simp only [saturated, List.mem_cons, List.not_mem_nil, or_false] at hw
  rcases hw with rfl | rfl | rfl
  · exact hone _ _ _ _ _ _ hfull
  · exact hone _ _ _ _ _ _ hfailed
  · exact hone _ _ _ _ _ _ hfull

end Small

theorem saturated_counters_exact :
    (∀ w ∈ Small.saturated, Counted w) ∧
      CountersExact Small.hdr (.ascending String) Small.saturated :=
  ⟨Small.saturated_counted, aggregate_counters Small.hdr _ Small.saturated_counted⟩

end CvdBench.Metrics
