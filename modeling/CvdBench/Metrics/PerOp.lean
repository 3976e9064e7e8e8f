import CvdBench.Metrics.Counters

/-!
The counters and the histogram of one operation on a worker
(`cvd_common::metrics::PerOpMetrics`), and their snapshot for the wire.
-/

set_option autoImplicit false

namespace CvdBench.Metrics

open Foundation Proto

/-- The operations of the `hdrhistogram` crate that a recording worker uses as well. -/
structure HdrRecorder (H : Type) extends HdrLib H where
  newWithMax : Nat → Nat → Option H
  high : H → Nat
  record : H → Nat → Option H

/-- `len` is the number of samples a histogram holds. -/
structure HdrRecorder.Counts {H : Type} (lib : HdrRecorder H) (len : H → Nat) : Prop where
  newWithMax : ∀ high sigfig h, lib.newWithMax high sigfig = some h → len h = 0
  record : ∀ h v, v ≤ lib.high h → ∃ h', lib.record h v = some h' ∧ len h' = len h + 1
  add : ∀ a b c, lib.add a b = some c → len c = len a + len b
  decode : ∀ h bytes, lib.encodeV2Compressed h = some bytes →
    ∃ h', lib.decode bytes = some h' ∧ len h' = len h

def histMaxLatencyUs : Nat := 60 * 60 * 1000000

def histSignificantFigures : Nat := 3

def wrapU64 (n : Nat) : Nat := n % 2^64

/-- `i64::try_from(n).unwrap_or(i64::MAX)` -/
def i64OfU64 (n : Nat) : Int := min i64Max n

structure PerOpMetrics (H : Type) where
  totalOps : Nat
  totalBytes : Nat
  errorCount : Nat
  histogram : H

inductive Recording where
  | op (latencyUs bytes : Nat)
  | error
  deriving DecidableEq, Repr

namespace PerOpMetrics

variable {H : Type} (lib : HdrRecorder H)

def new : Option (PerOpMetrics H) :=
  (lib.newWithMax histMaxLatencyUs histSignificantFigures).map fun hist => ⟨0, 0, 0, hist⟩

def recordOp (m : PerOpMetrics H) (latencyUs bytes : Nat) : PerOpMetrics H :=
  { m with
    totalOps := wrapU64 (m.totalOps + 1)
    totalBytes := if bytes > 0 then wrapU64 (m.totalBytes + bytes) else m.totalBytes
    histogram :=
      (lib.record m.histogram (min latencyUs (lib.high m.histogram))).getD m.histogram }

def recordError (m : PerOpMetrics H) : PerOpMetrics H :=
  { m with
    errorCount := wrapU64 (m.errorCount + 1)
    totalOps := wrapU64 (m.totalOps + 1) }

def record (m : PerOpMetrics H) : Recording → PerOpMetrics H
  | .op latencyUs bytes => m.recordOp lib latencyUs bytes
  | .error => m.recordError

def snapshot (m : PerOpMetrics H) (effectiveSecs : Float) : PerformanceMetrics :=
  { throughputMbps :=
      if effectiveSecs > 0 then Float.ofNat m.totalBytes / 1000000 / effectiveSecs else 0
    iops := if effectiveSecs > 0 then Float.ofNat m.totalOps / effectiveSecs else 0
    latencyUs := some (latencyStats lib.toHdrLib m.histogram)
    errorCount := i64OfU64 m.errorCount
    errorRate :=
      if m.totalOps > 0 then Float.ofNat m.errorCount / Float.ofNat m.totalOps else 0
    totalOps := i64OfU64 m.totalOps
    totalBytes := i64OfU64 m.totalBytes
    latencyHistogramHdr := (lib.encodeV2Compressed m.histogram).getD [] }

theorem snapshot_counted (m : PerOpMetrics H) (secs : Float) (c : Counter) :
    0 ≤ c.of (m.snapshot lib secs) := by
  have hpos : ∀ n : Nat, 0 ≤ i64OfU64 n := by
    intro n
    unfold i64OfU64 i64Max
    omega
  cases c
  · exact hpos m.totalOps
  · exact hpos m.totalBytes
  · exact hpos m.errorCount

structure Holds (len : H → Nat) (n errors : Nat) (m : PerOpMetrics H) : Prop where
  totalOps : m.totalOps = wrapU64 n
  errorCount : m.errorCount = wrapU64 errors
  samples : len m.histogram + errors = n

variable {lib}

theorem Holds.record {len : H → Nat} (hlib : lib.Counts len) {n errors : Nat} {m : PerOpMetrics H}
    (h : Holds len n errors m) (r : Recording) :
    Holds len (n + 1) (errors + if r = .error then 1 else 0) (m.record lib r) := by
  obtain ⟨htotal, herrors, hsamples⟩ := h
  have hwrap : ∀ k, wrapU64 (wrapU64 k + 1) = wrapU64 (k + 1) := by
    intro k
    unfold wrapU64
    omega
  cases r with
  | op latencyUs bytes =>
    obtain ⟨h', hrec, hlen⟩ := hlib.record m.histogram (min latencyUs (lib.high m.histogram))
      (Nat.min_le_right _ _)
    constructor
    · show wrapU64 (m.totalOps + 1) = wrapU64 (n + 1)
      rw [htotal, hwrap]
    · exact herrors
    · show len ((lib.record _ _).getD _) + _ = _
      rw [hrec]
      simp
      omega
  | error =>
    constructor
    · show wrapU64 (m.totalOps + 1) = wrapU64 (n + 1)
      rw [htotal, hwrap]
    · show wrapU64 (m.errorCount + 1) = wrapU64 (errors + 1)
      rw [herrors, hwrap]
    · show len m.histogram + (errors + 1) = n + 1
      omega

theorem Holds.run {len : H → Nat} (hlib : lib.Counts len) {m : PerOpMetrics H}
    (hnew : new lib = some m) (rs : List Recording) :
    Holds len rs.length (rs.count .error) (rs.foldl (PerOpMetrics.record lib) m) := by
  induction rs using List.reverseRecOn with
  | nil =>
    obtain ⟨hist, hhist, rfl⟩ := Option.map_eq_some_iff.mp hnew
    exact ⟨rfl, rfl, hlib.newWithMax _ _ hist hhist⟩
  | append_singleton rs r ih =>
    have hstep := ih.record hlib r
    rw [List.foldl_append, List.length_append, List.count_append, List.count_singleton]
    simpa using hstep

/-- A snapshot carries one sample for every operation that was not an error. -/
theorem snapshot_samples {len : H → Nat} (hlib : lib.Counts len) {m : PerOpMetrics H}
    (hnew : new lib = some m) (rs : List Recording) (hfits : (rs.length : Int) ≤ i64Max)
    (secs : Float) {bytes : List UInt8}
    (hbytes : lib.encodeV2Compressed (rs.foldl (PerOpMetrics.record lib) m).histogram =
      some bytes) :
    ∃ h, lib.decode ((rs.foldl (PerOpMetrics.record lib) m).snapshot lib secs).latencyHistogramHdr =
        some h ∧
      (len h : Int) = ((rs.foldl (PerOpMetrics.record lib) m).snapshot lib secs).totalOps -
        ((rs.foldl (PerOpMetrics.record lib) m).snapshot lib secs).errorCount := by
  obtain ⟨htotal, herrors, hsamples⟩ := Holds.run hlib hnew rs
  obtain ⟨h, hdecode, hlen⟩ := hlib.decode _ bytes hbytes
  refine ⟨h, ?_, ?_⟩
  · show lib.decode ((lib.encodeV2Compressed _).getD []) = _
    rw [hbytes]
    exact hdecode
  · have hcount : rs.count .error ≤ rs.length := List.count_le_length
    have hexact : ∀ k : Nat, (k : Int) ≤ i64Max → i64OfU64 (wrapU64 k) = k := by
      intro k hk
      unfold i64OfU64 wrapU64
      unfold i64Max at hk ⊢
      omega
    show _ = i64OfU64 _ - i64OfU64 _
    rw [htotal, herrors, hexact _ hfits, hexact _ (by omega), hlen]
    omega

end PerOpMetrics

/-- `MetricsRegistry::snapshot_pb` -/
def snapshotPb {H : Type} (lib : HdrRecorder H) (ops : HashMap String (PerOpMetrics H))
    (effectiveSecs : Float) : HashMap String PerformanceMetrics :=
  ops.map fun m => m.snapshot lib effectiveSecs

theorem counted_of_snapshotPb {H : Type} {lib : HdrRecorder H} {worker : WorkerResult}
    {ops : HashMap String (PerOpMetrics H)} {secs : Float}
    (h : worker.perOp = snapshotPb lib ops secs) : Counted worker := by
  intro op m hm c
  rw [h, snapshotPb, HashMap.get?_map] at hm
  obtain ⟨n, -, rfl⟩ := Option.map_eq_some_iff.mp hm
  exact n.snapshot_counted lib secs c

def Recorded {H : Type} (lib : HdrRecorder H) (worker : WorkerResult) : Prop :=
  ∃ ops secs, worker.perOp = snapshotPb lib ops secs ∧
    ∀ op m, ops.get? op = some m →
      ∃ m₀ rs, PerOpMetrics.new lib = some m₀ ∧ ((rs : List Recording).length : Int) ≤ i64Max ∧
        m = rs.foldl (PerOpMetrics.record lib) m₀

end CvdBench.Metrics
