import CvdBench.Metrics.Latency
import CvdBench.Metrics.PerOp
import CvdBench.Properties.EffectiveWindow

/-!
Whether `missing_histogram_count` tells of every successful worker whose samples are not
in the merged histograms.
-/

set_option autoImplicit false

namespace CvdBench.Metrics

open Foundation Proto

section

variable {H : Type} (lib : HdrLib H) (len : H → Nat) (order : HashOrder String)

/-- Every histogram that contributes holds one sample for each operation that was not an
error. -/
def Sampled (workers : List WorkerResult) : Prop :=
  ∀ pre w post, workers = pre ++ w :: post → w.success = true →
    ∀ op m, w.perOp.get? op = some m → Enters lib (entryAfter lib order pre op) m →
      ∀ h, lib.decode m.latencyHistogramHdr = some h →
        (len h : Int) = m.totalOps - m.errorCount

structure LatencyAccounted (workers : List WorkerResult) : Prop where
  counted : ∀ pre w post, workers = pre ++ w :: post → w.success = true →
    (∃ op m, w.perOp.get? op = some m ∧ m.errorCount < m.totalOps ∧
      ¬ Enters lib (entryAfter lib order pre op) m) →
      countedAt lib order pre w = 1
  spared : ∀ pre w post, workers = pre ++ w :: post →
    (∀ op m, w.perOp.get? op = some m → Enters lib (entryAfter lib order pre op) m) →
      countedAt lib order pre w = 0
  exact : (aggregate lib order workers).missingHistogramCount = 0 →
    Sampled lib len order workers →
      (∀ op, (Merging.size len (entryAfter lib order workers op).histogram : Int) =
        Counter.totalOps.opSum op (workers.filter (·.success)) -
          Counter.errorCount.opSum op (workers.filter (·.success))) ∧
      (Merging.size len (mergeTotal lib order workers).histogram : Int) =
        Counter.totalOps.sum (workers.filter (·.success)) -
          Counter.errorCount.sum (workers.filter (·.success))
  failed : ∀ op, (entryAfter lib order workers op).histogram =
    (entryAfter lib order (workers.filter (·.success)) op).histogram

/-- The histograms offered by the workers before this one, summed up, take the one it
offers. -/
def TakenAt (pre : List WorkerResult) (w : WorkerResult) (op : String) : Prop :=
  Merging.Taken lib.add (reported lib op) (Merging.sumOf lib.add (reported lib op) pre) w

def SampledReports (workers : List WorkerResult) : Prop :=
  ∀ pre w post, workers = pre ++ w :: post → ∀ op h, reported lib op w = some h →
    TakenAt lib pre w op → (len h : Int) = nonErrors op w

structure HistogramsTaken (workers : List WorkerResult) : Prop where
  reports : ∀ pre w post, workers = pre ++ w :: post → w.success = true → ¬ Misses w →
    ∀ op m, w.perOp.get? op = some m → m.errorCount < m.totalOps → TakenAt lib pre w op
  empties : (∀ w ∈ workers, w.success = true → ¬ Misses w) → SampledReports lib len workers →
    (∀ op pre w post, workers = pre ++ w :: post → ¬ TakenAt lib pre w op →
      nonErrors op w = 0) ∧
    ∀ pre op post, order.iter (opKeys workers) = pre ++ op :: post →
      ¬ Merging.Taken lib.add (opReport lib workers)
        (Merging.sumOf lib.add (opReport lib workers) pre) op →
      Merging.size len (opReport lib workers op) = 0

theorem sampled_iff (workers : List WorkerResult) :
    Sampled lib len order workers ↔ SampledReports lib len workers := by
  constructor
  · intro hs pre w post hxs op h hrep htaken
    obtain ⟨hw, m, hm, hbytes, a, ha, haccepts⟩ := (taken_iff lib _ op w).mp htaken
    have hdecode : lib.decode m.latencyHistogramHdr = some h := by
      simpa [reported, hw, hm, hbytes] using hrep
    have henters := (enters_iff_taken lib order hw hm).mpr htaken
    rw [hs pre w post hxs hw op m hm henters h hdecode, nonErrors, if_pos hw]
    simp [Counter.ofOp, hm, Counter.of]
  · intro hs pre w post hxs hw op m hm henters h hdecode
    have htaken := (enters_iff_taken lib order hw hm).mp henters
    have hrep : reported lib op w = some h := by
      simp [reported, hw, hm, henters.1, hdecode]
    rw [hs pre w post hxs op h hrep htaken, nonErrors, if_pos hw]
    simp [Counter.ofOp, hm, Counter.of]

theorem sampled_of_recorded {rec : HdrRecorder H} (hrec : rec.Counts len)
    {workers : List WorkerResult} (h : ∀ w ∈ workers, w.success = true → Recorded rec w) :
    Sampled rec.toHdrLib len order workers := by
  rintro pre w post rfl hw op m hm ⟨hbytes, -⟩ a ha
  obtain ⟨ops, secs, hper, hall⟩ := h w (by simp) hw
  rw [hper, snapshotPb, HashMap.get?_map] at hm
  obtain ⟨n, hn, rfl⟩ := Option.map_eq_some_iff.mp hm
  obtain ⟨n₀, rs, hnew, hfits, rfl⟩ := hall op n hn
  cases hencode : rec.encodeV2Compressed
      (rs.foldl (PerOpMetrics.record rec) n₀).histogram with
  | none => exact absurd (show _ = [] by rw [PerOpMetrics.snapshot, hencode]; rfl) hbytes
  | some bytes =>
    obtain ⟨b, hb, hlen⟩ := PerOpMetrics.snapshot_samples hrec hnew rs hfits secs hencode
    rw [ha] at hb
    cases hb
    exact hlen

variable {lib len order} {workers : List WorkerResult}

theorem HistogramsTaken.lost_nonpos
    (hreports : ∀ pre w post, workers = pre ++ w :: post → w.success = true → ¬ Misses w →
      ∀ op m, w.perOp.get? op = some m → m.errorCount < m.totalOps → TakenAt lib pre w op)
    (hnone : ∀ w ∈ workers, w.success = true → ¬ Misses w) (op : String) :
    EachStep (Merging.next lib.add (reported lib op))
      (fun sum w => ¬ Merging.Taken lib.add (reported lib op) sum w → nonErrors op w ≤ 0)
      none workers := by
  intro pre w post hxs hlost
  unfold nonErrors
  split
  · rename_i hw
    cases hm : w.perOp.get? op with
    | none => simp [Counter.ofOp, hm]
    | some m =>
      have hmem : w ∈ workers := by simp [hxs]
      have hle : ¬ m.errorCount < m.totalOps := fun hlt =>
        hlost (hreports pre w post hxs hw (hnone w hmem hw) op m hm hlt)
      simp [Counter.ofOp, hm, Counter.of]
      omega
  · exact le_refl 0

/-- The samples of an operation are complete exactly when only errors were lost of it. -/
theorem samples_eq_iff (hadd : ∀ a b c, lib.add a b = some c → len c = len a + len b)
    (hreports : ∀ pre w post, workers = pre ++ w :: post → w.success = true → ¬ Misses w →
      ∀ op m, w.perOp.get? op = some m → m.errorCount < m.totalOps → TakenAt lib pre w op)
    (hnone : ∀ w ∈ workers, w.success = true → ¬ Misses w)
    (hsampled : SampledReports lib len workers) (op : String) :
    (Merging.size len (opReport lib workers op) : Int) = (workers.map (nonErrors op)).sum ↔
      ∀ pre w post, workers = pre ++ w :: post → ¬ TakenAt lib pre w op → nonErrors op w = 0 := by
  have hlen : EachStep (Merging.next lib.add (reported lib op))
      (fun sum w => ∀ h, reported lib op w = some h → Merging.accepts lib.add sum h = true →
        (len h : Int) = nonErrors op w) none workers := by
    intro pre w post hxs h hrep haccepts
    exact hsampled pre w post hxs op h hrep ⟨h, hrep, haccepts⟩
  have hsum := Merging.size_add_lost (reported lib op) hadd hlen
  have hlost := Merging.lost_eq_zero_iff_of_nonpos lib.add (reported lib op) (nonErrors op)
    (HistogramsTaken.lost_nonpos hreports hnone op)
  have hsize : (Merging.size len (opReport lib workers op) : Int) +
      Merging.lost lib.add (reported lib op) (nonErrors op) none workers =
        (workers.map (nonErrors op)).sum := by
    rw [opReport, Merging.sumOf, hsum]
    simp [Merging.size]
  constructor
  · intro heq
    exact hlost.mp (by omega)
  · intro hzero
    have hnil := hlost.mpr hzero
    omega

theorem total_eq_iff (hadd : ∀ a b c, lib.add a b = some c → len c = len a + len b)
    (order : HashOrder String) :
    (Merging.size len (mergeTotal lib order workers).histogram : Int) =
        ∑ op ∈ opKeys workers, (Merging.size len (opReport lib workers op) : Int) ↔
      ∀ pre op post, order.iter (opKeys workers) = pre ++ op :: post →
        ¬ Merging.Taken lib.add (opReport lib workers)
          (Merging.sumOf lib.add (opReport lib workers) pre) op →
        Merging.size len (opReport lib workers op) = 0 := by
  have hlen : EachStep (Merging.next lib.add (opReport lib workers))
      (fun sum op => ∀ h, opReport lib workers op = some h →
        Merging.accepts lib.add sum h = true →
          (len h : Int) = Merging.size len (opReport lib workers op)) none
      (order.iter (opKeys workers)) := by
    intro pre op post _ h hrep _
    rw [hrep]
    rfl
  have hsum := Merging.size_add_lost (opReport lib workers) hadd hlen
  have hlost := (Merging.lost_eq_zero_iff lib.add (opReport lib workers)
    (fun op => (Merging.size len (opReport lib workers op) : Int))
    (fun _ op _ _ _ => Int.natCast_nonneg _) :
      0 ≤ Merging.lost lib.add (opReport lib workers) _ none (order.iter (opKeys workers)) ∧ _).2
  have hkeys : (order.iter (opKeys workers)).toFinset = opKeys workers := by
    ext op
    rw [List.mem_toFinset, order.mem_iter]
  have hall : ((order.iter (opKeys workers)).map fun op =>
      (Merging.size len (opReport lib workers op) : Int)).sum =
        ∑ op ∈ opKeys workers, (Merging.size len (opReport lib workers op) : Int) := by
    rw [← List.sum_toFinset _ (order.nodup_iter _), hkeys]
  rw [mergeTotal_histogram, Merging.sumOf, ← hall]
  have hsize : ∀ n : Nat, ((n : Int) = 0 ↔ n = 0) := fun n => by omega
  simp only [hsize] at hlost
  have hnil : (Merging.size len (none : Option H) : Int) = 0 := rfl
  rw [hnil] at hsum
  refine Iff.trans ?_ hlost
  constructor
  · intro heq
    omega
  · intro hzero
    omega

/-- The loop over the successful workers and the merge agree exactly under this condition. -/
theorem latency_accounted_iff (hadd : ∀ a b c, lib.add a b = some c → len c = len a + len b)
    (order : HashOrder String) (workers : List WorkerResult) :
    LatencyAccounted lib len order workers ↔ HistogramsTaken lib len order workers := by
  constructor
  · intro h
    have hreports : ∀ pre w post, workers = pre ++ w :: post → w.success = true → ¬ Misses w →
        ∀ op m, w.perOp.get? op = some m → m.errorCount < m.totalOps → TakenAt lib pre w op := by
      intro pre w post hxs hw hnone op m hm hlt
      by_contra hlost
      have hcounted := h.counted pre w post hxs hw
        ⟨op, m, hm, hlt, fun henters => hlost ((enters_iff_taken lib order hw hm).mp henters)⟩
      exact hnone ((countedAt_eq_one_iff lib order pre w).mp hcounted).2
    constructor
    · exact hreports
    · intro hnone hsampled
      obtain ⟨hops, htotal⟩ := h.exact ((missingHistogramCount_eq_zero lib order workers).mpr hnone)
        ((sampled_iff lib len order workers).mpr hsampled)
      have hop : ∀ op, (Merging.size len (opReport lib workers op) : Int) =
          (workers.map (nonErrors op)).sum := by
        intro op
        rw [opReport, ← entryAfter_histogram lib order, hops op, sum_nonErrors]
      constructor
      · intro op
        exact (samples_eq_iff hadd hreports hnone hsampled op).mp (hop op)
      · refine (total_eq_iff hadd order).mp ?_
        rw [htotal, ← sum_nonErrors_ops]
        exact Finset.sum_congr rfl fun op _ => (hop op).symm
  · intro h
    constructor
    · rintro pre w post hxs hw ⟨op, m, hm, hlt, hnot⟩
      refine (countedAt_eq_one_iff lib order pre w).mpr ⟨hw, ?_⟩
      by_contra hnone
      exact hnot ((enters_iff_taken lib order hw hm).mpr
        (h.reports pre w post hxs hw hnone op m hm hlt))
    · intro pre w post _ hall
      rw [countedAt_eq_zero_iff]
      rintro ⟨-, op, m, hm, hbytes, -⟩
      exact (hall op m hm).1 hbytes
    · intro hzero hsampled
      have hnone := (missingHistogramCount_eq_zero lib order workers).mp hzero
      rw [sampled_iff] at hsampled
      obtain ⟨hops, htotal⟩ := h.empties hnone hsampled
      have hop : ∀ op, (Merging.size len (opReport lib workers op) : Int) =
          (workers.map (nonErrors op)).sum := fun op =>
        (samples_eq_iff hadd h.reports hnone hsampled op).mpr (hops op)
      constructor
      · intro op
        rw [entryAfter_histogram, ← sum_nonErrors]
        exact hop op
      · rw [(total_eq_iff hadd order).mpr htotal, ← sum_nonErrors_ops]
        exact Finset.sum_congr rfl fun op _ => hop op
    · intro op
      rw [entryAfter_histogram, entryAfter_histogram, sumOf_successful]

end

namespace Small

def sampleHdr : HdrLib Nat :=
  { hdr with
    decode := fun bytes => match bytes with
      | [28, 132, 147, 20, n] => some n.toNat
      | _ => none
    add := fun a b => some (a + b)
    encodeV2Compressed := fun n => some [28, 132, 147, 20, UInt8.ofNat n]
    isEmpty := fun n => n == 0
    valueAtQuantile := fun _ _ => 0
    max := fun _ => 0
    mean := fun _ => 0 }

def timed (ops : Int) (bytes : List UInt8) : PerformanceMetrics :=
  { counted ops 0 with
    latencyHistogramHdr := bytes }

def garbled : List WorkerResult :=
  [result "a" (timed 3 [1, 2, 3, 4]) true 0 60000 60000]

end Small

theorem garbled_not_counted :
    ¬ LatencyAccounted Small.sampleHdr id (.ascending String) Small.garbled := by
  intro h
  have hone := h.counted [] _ [] rfl rfl
    ⟨"read", Small.timed 3 [1, 2, 3, 4], rfl, by decide, fun henters => by
      obtain ⟨-, a, ha, -⟩ := henters
      cases ha⟩
  exact absurd hone (by decide)

theorem garbled_latency_iff :
    LatencyAccounted Small.sampleHdr id (.ascending String) Small.garbled ↔
      HistogramsTaken Small.sampleHdr id (.ascending String) Small.garbled :=
  latency_accounted_iff (fun a b c h => by
    cases h
    rfl) _ _

end CvdBench.Metrics
