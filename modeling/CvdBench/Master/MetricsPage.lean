import CvdBench.Master.State
import Mathlib.Data.String.Basic

/-!
The Prometheus page of the master (`metrics.rs`). `showF64` is how Rust displays an `f64`.
-/

set_option autoImplicit false

namespace CvdBench.Master

open Foundation Proto

def statusLabel : JobStatus → String
  | .unspecified => "unspecified"
  | .pending => "pending"
  | .preparing => "preparing"
  | .running => "running"
  | .completed => "completed"
  | .failed => "failed"
  | .cancelled => "cancelled"

def escapeChar (c : Char) : List Char :=
  if c = '\\' then ['\\', '\\']
  else if c = '\"' then ['\\', '\"']
  else if c = '\n' then ['\\', 'n']
  else [c]

def escapeLabel (value : String) : String := String.ofList (value.toList.flatMap escapeChar)

def finite (value : Float) : Float := if value.isFinite then value else 0

def label (name value : String) : String := name ++ "=\"" ++ value ++ "\""

def sampleLine (metric : String) (labels : List String) (value : String) : String :=
  metric ++ "\x7b" ++ ",".intercalate labels ++ "\x7d " ++ value ++ "\n"

def metricHeader (metric help : String) : String :=
  "# HELP " ++ metric ++ " " ++ help ++ "\n# TYPE " ++ metric ++ " gauge\n"

def pageHeader : String :=
  metricHeader "cvdbench_job_info" "cvdbench job metadata." ++
  metricHeader "cvdbench_worker_phase" "Worker phase enum value for latest progress." ++
  metricHeader "cvdbench_worker_elapsed_ms" "Latest worker elapsed time in milliseconds." ++
  metricHeader "cvdbench_worker_op_throughput_mbps"
    "Latest worker operation throughput in MB/s." ++
  metricHeader "cvdbench_worker_op_iops" "Latest worker operation IOPS." ++
  metricHeader "cvdbench_worker_op_total_ops"
    "Latest worker operation total ops within the job." ++
  metricHeader "cvdbench_worker_op_total_bytes"
    "Latest worker operation total bytes within the job." ++
  metricHeader "cvdbench_worker_op_errors"
    "Latest worker operation error count within the job." ++
  metricHeader "cvdbench_worker_op_error_rate" "Latest worker operation error rate." ++
  metricHeader "cvdbench_worker_op_latency_us"
    "Latest worker operation latency in microseconds by quantile/stat."

section

variable (showF64 : Float → String)

def writeMetricLines (jobId : JobId) (workerId : WorkerId) (op : String)
    (metric : PerformanceMetrics) : String :=
  let labels := [label "job_id" (escapeLabel jobId), label "worker_id" (escapeLabel workerId),
    label "op" (escapeLabel op)]
  let latency := metric.latencyUs.getD .default
  let latencyLine := fun (stat : String) (value : Float) =>
    sampleLine "cvdbench_worker_op_latency_us" (labels ++ [label "stat" stat])
      (showF64 (finite value))
  sampleLine "cvdbench_worker_op_throughput_mbps" labels
    (showF64 (finite metric.throughputMbps)) ++
  sampleLine "cvdbench_worker_op_iops" labels (showF64 (finite metric.iops)) ++
  sampleLine "cvdbench_worker_op_total_ops" labels (toString metric.totalOps) ++
  sampleLine "cvdbench_worker_op_total_bytes" labels (toString metric.totalBytes) ++
  sampleLine "cvdbench_worker_op_errors" labels (toString metric.errorCount) ++
  sampleLine "cvdbench_worker_op_error_rate" labels (showF64 (finite metric.errorRate)) ++
  latencyLine "p50" latency.p50 ++ latencyLine "p95" latency.p95 ++
  latencyLine "p99" latency.p99 ++ latencyLine "p999" latency.p999 ++
  latencyLine "max" latency.max ++ latencyLine "avg" latency.avg

def renderWorker (jobId : JobId) (workerId : WorkerId) (progress : WorkerProgress) : String :=
  let labels := [label "job_id" (escapeLabel jobId), label "worker_id" (escapeLabel workerId)]
  sampleLine "cvdbench_worker_phase" labels (toString progress.phase) ++
  sampleLine "cvdbench_worker_elapsed_ms" labels (toString progress.elapsedMs) ++
  String.join (((HashOrder.ascending String).entries progress.perOp).map fun entry =>
    writeMetricLines showF64 jobId workerId entry.1 entry.2)

def renderJob (jobId : JobId) (r : JobRecord) : String :=
  sampleLine "cvdbench_job_info"
    [label "job_id" (escapeLabel jobId), label "status" (escapeLabel (statusLabel r.status)),
      label "fs_name" (escapeLabel r.specRedacted.fsName)] "1" ++
  String.join (((HashOrder.ascending WorkerId).entries r.latestProgress).map fun entry =>
    renderWorker showF64 jobId entry.1 entry.2)

def render (m : MasterState) : String :=
  pageHeader ++ String.join (((HashOrder.ascending JobId).entries m.jobs).map fun entry =>
    renderJob showF64 entry.1 entry.2)

end

end CvdBench.Master
