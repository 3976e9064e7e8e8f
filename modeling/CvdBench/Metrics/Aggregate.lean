import CvdBench.Foundation.Int64
import CvdBench.Wire.Proto

/-!
Aggregation of the results of several workers (`cvd_common::metrics::aggregate`):
counters are summed, latencies are recomputed from merged histograms, rates are
recomputed over the effective window.
-/

set_option autoImplicit false

namespace CvdBench.Metrics

open Foundation Proto

/-- The operations of the `hdrhistogram` crate that the aggregation uses.
`add` is `none` where the crate refuses the addend and leaves the sum as it was. -/
structure HdrLib (H : Type) where
  decode : List UInt8 → Option H
  add : H → H → Option H
  encodeV2Compressed : H → Option (List UInt8)
  isEmpty : H → Bool
  valueAtQuantile : H → Float → Nat
  max : H → Nat
  mean : H → Float

structure AggregatedSummary where
  aggregated : AggregatedMetrics
  effectiveWindowMs : Int
  windowMisaligned : Bool
  successWorkerCount : Nat
  missingHistogramCount : Nat

variable {H : Type} (lib : HdrLib H) (order : HashOrder String)

def hasCounters (worker : WorkerResult) : Bool :=
  (order.values worker.perOp).any fun m =>
    decide (m.totalOps > 0) || decide (m.totalBytes > 0) || decide (m.errorCount > 0)

def computeEffectiveWindowMs : List WorkerResult → Int × Bool
  | [] => (0, false)
  | [w] =>
      let span := max (wrapI64 (w.measureEndMs - w.measureStartMs)) 0
      (if span > 0 then span else max w.effectiveDurationMs 0, false)
  | w :: ws =>
      let maxStart := ws.foldl (fun acc w => max acc w.measureStartMs) w.measureStartMs
      let minEnd := ws.foldl (fun acc w => min acc w.measureEndMs) w.measureEndMs
      if minEnd > maxStart then (wrapI64 (minEnd - maxStart), false)
      else (ws.foldl (fun acc w => min acc w.effectiveDurationMs) w.effectiveDurationMs, true)

/-- A successful worker with an operation that counted something but carries no
histogram is counted once. -/
def missesHistogram (worker : WorkerResult) : Bool :=
  (order.values worker.perOp).any fun m =>
    m.latencyHistogramHdr.isEmpty && decide (m.totalOps > 0)

structure MergedOp (H : Type) where
  totalOps : Int
  totalBytes : Int
  errorCount : Int
  histogram : Option H

def MergedOp.default : MergedOp H := ⟨0, 0, 0, none⟩

def MergedOp.mergeCounters (op : MergedOp H) (m : PerformanceMetrics) : MergedOp H :=
  { op with
    totalOps := saturatingI64 (op.totalOps + m.totalOps)
    totalBytes := saturatingI64 (op.totalBytes + m.totalBytes)
    errorCount := saturatingI64 (op.errorCount + m.errorCount) }

def MergedOp.addHistogram (op : MergedOp H) (h : H) : MergedOp H :=
  match op.histogram with
  | some existing => { op with histogram := some ((lib.add existing h).getD existing) }
  | none => { op with histogram := some h }

def MergedOp.mergeHistogram (op : MergedOp H) (m : PerformanceMetrics) : MergedOp H :=
  if m.latencyHistogramHdr.isEmpty then op
  else match lib.decode m.latencyHistogramHdr with
    | some h => op.addHistogram lib h
    | none => op

def MergedOp.mergeOther (op other : MergedOp H) : MergedOp H :=
  let op :=
    { op with
      totalOps := saturatingI64 (op.totalOps + other.totalOps)
      totalBytes := saturatingI64 (op.totalBytes + other.totalBytes)
      errorCount := saturatingI64 (op.errorCount + other.errorCount) }
  match other.histogram with
  | some h => op.addHistogram lib h
  | none => op

def sanitizeFinite (v : Float) : Float := if v.isFinite then v else 0

def latencyStats (h : H) : LatencyStats :=
  if lib.isEmpty h then .default
  else
    { p50 := Float.ofNat (lib.valueAtQuantile h 0.50)
      p95 := Float.ofNat (lib.valueAtQuantile h 0.95)
      p99 := Float.ofNat (lib.valueAtQuantile h 0.99)
      p999 := Float.ofNat (lib.valueAtQuantile h 0.999)
      max := Float.ofNat (lib.max h)
      avg := sanitizeFinite (lib.mean h) }

def MergedOp.toPb (op : MergedOp H) (effectiveSecs : Float) : PerformanceMetrics :=
  { throughputMbps :=
      if effectiveSecs > 0 then Float.ofInt op.totalBytes / 1000000 / effectiveSecs else 0
    iops := if effectiveSecs > 0 then Float.ofInt op.totalOps / effectiveSecs else 0
    latencyUs := some (match op.histogram with
      | some h => latencyStats lib h
      | none => .default)
    errorCount := op.errorCount
    errorRate :=
      if op.totalOps > 0 then Float.ofInt op.errorCount / Float.ofInt op.totalOps else 0
    totalOps := op.totalOps
    totalBytes := op.totalBytes
    latencyHistogramHdr := ((op.histogram.bind lib.encodeV2Compressed).getD []) }

/-- Merges one worker's operations: counters always, histograms of a successful
worker only. -/
def mergeWorker (merged : HashMap String (MergedOp H)) (worker : WorkerResult) :
    HashMap String (MergedOp H) :=
  (order.entries worker.perOp).foldl
    (fun merged (op, m) =>
      let entry := ((merged.get? op).getD .default).mergeCounters m
      merged.put op (if worker.success then entry.mergeHistogram lib m else entry))
    merged

def totalPerOpPb (merged : HashMap String (MergedOp H)) (effectiveSecs : Float) :
    HashMap String PerformanceMetrics :=
  (order.entries merged).foldl
    (fun acc (op, v) => acc.put op (v.toPb lib effectiveSecs)) ∅

def aggregate (workers : List WorkerResult) : AggregatedSummary :=
  let successful := workers.filter (·.success)
  let contributors := workers.filter (hasCounters order)
  let (effectiveWindowMs, windowMisaligned) := computeEffectiveWindowMs contributors
  let effectiveSecs := Float.ofInt (max effectiveWindowMs 1) / 1000
  let merged := workers.foldl (mergeWorker lib order) ∅
  let total := (order.values merged).foldl (MergedOp.mergeOther lib) .default
  { aggregated :=
      { total := some (total.toPb lib effectiveSecs)
        totalPerOp := totalPerOpPb lib order merged effectiveSecs
        perWorker := workers }
    effectiveWindowMs, windowMisaligned
    successWorkerCount := successful.length
    missingHistogramCount := (successful.filter (missesHistogram order)).length }

end CvdBench.Metrics
