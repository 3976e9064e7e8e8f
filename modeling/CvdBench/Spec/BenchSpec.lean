import CvdBench.Spec.Parse
import CvdBench.Wire.Proto

/-!
The typed spec and its construction from the wire form (`cvd_common::spec`).
-/

set_option autoImplicit false

namespace CvdBench.Spec

inductive SpecConvertError where
  | parse (field : String) (source : ParseError)
  | bad (field : String) (message : String)
  | unsupported (field : String) (value : String)
  deriving DecidableEq, Repr

inductive IoMode where
  | seq | rand
  deriving DecidableEq, Repr

def IoMode.fromProto : String → Except SpecConvertError IoMode
  | "seq" => .ok .seq
  | "rand" => .ok .rand
  | other => .error (.unsupported "io_mode" other)

inductive MetadataOp where
  | create | mkdir | stat | open | readdir
  deriving DecidableEq, Repr

def MetadataOp.fromProto : String → Except SpecConvertError MetadataOp
  | "create" => .ok .create
  | "mkdir" => .ok .mkdir
  | "stat" => .ok .stat
  | "open" => .ok .open
  | "readdir" => .ok .readdir
  | other => .error (.unsupported "metadata.ops" other)

inductive SizeDistribution where
  | uniform | logUniform
  deriving DecidableEq, Repr

def SizeDistribution.fromProto : String → Except SpecConvertError SizeDistribution
  | "" | "log_uniform" => .ok .logUniform
  | "uniform" => .ok .uniform
  | other => .error (.unsupported "write.file_size_range.distribution" other)

inductive WriteSize where
  | fixed (bytes : Nat)
  | range (min max : Nat) (distribution : SizeDistribution)
  deriving DecidableEq, Repr

inductive ReadSource where
  | fileManifest (path : String)
  | dirManifest (path : String)
  deriving DecidableEq, Repr

structure ReadConfig where
  concurrency : Nat
  source : ReadSource
  thinkTime : Option Duration
  rateLimit : Option RateLimit
  s3ConsistencyCheck : Option Proto.ConsistencyConfig
  loopFiles : Bool
  deriving DecidableEq, Repr

structure WriteConfig where
  concurrency : Nat
  dir : String
  size : WriteSize
  fsync : Bool
  cleanup : Bool
  thinkTime : Option Duration
  rateLimit : Option RateLimit
  verifyAfterWrite : Bool
  deriving DecidableEq, Repr

structure MetadataConfig where
  concurrency : Nat
  dir : String
  dirManifest : Option String
  ops : List MetadataOp
  readOnly : Bool
  readOnlyScanLimit : Nat
  depth : Nat
  width : Nat
  filesPerDir : Nat
  layoutConcurrency : Nat
  thinkTime : Option Duration
  rateLimit : Option RateLimit
  deriving DecidableEq, Repr

structure BenchSpec where
  fsName : String
  ioMode : IoMode
  ioAligned : Bool
  directIo : Bool
  blockSize : Nat
  duration : Duration
  warmup : Duration
  targetWorkers : Nat
  read : Option ReadConfig
  write : Option WriteConfig
  metadata : Option MetadataConfig
  deriving DecidableEq, Repr

def u32Max : Nat := 2^32 - 1

/-- `u32::try_from` on an `i32` of the wire. -/
def u32TryFrom (field message : String) (raw : Int) : Except SpecConvertError Nat :=
  if 0 ≤ raw ∧ raw ≤ u32Max then .ok raw.toNat else .error (.bad field message)

def parseRequired {α : Type} (field : String) (parsed : Except ParseError (Option α)) :
    Except SpecConvertError α :=
  match parsed with
  | .error source => .error (.parse field source)
  | .ok none => .error (.bad field "must be set")
  | .ok (some v) => .ok v

def parseRequiredSize (field raw : String) : Except SpecConvertError Nat :=
  parseRequired field (parseSize raw)

def parseRequiredDuration (field raw : String) : Except SpecConvertError Duration :=
  parseRequired field (parseDuration raw)

def parseOptionalDuration (field raw : String) : Except SpecConvertError (Option Duration) :=
  (parseDuration raw).mapError (.parse field)

def parseOptionalRate (field raw : String) : Except SpecConvertError (Option RateLimit) :=
  (parseRateLimit raw).mapError (.parse field)

def convertConcurrency (field : String) (raw : Int) : Except SpecConvertError Nat :=
  if raw ≤ 0 then .error (.bad field s!"must be positive, got {raw}")
  else u32TryFrom field "must fit in u32" raw

def readSourceFromProto (fileManifest dirManifest : String) :
    Except SpecConvertError ReadSource :=
  match fileManifest.isEmpty, dirManifest.isEmpty with
  | true, true => .error (.bad "read" "either file_manifest or dir_manifest must be set")
  | false, false => .error (.bad "read" "file_manifest and dir_manifest are mutually exclusive")
  | false, true => .ok (.fileManifest fileManifest)
  | true, false => .ok (.dirManifest dirManifest)

def readFromProto (read : Proto.ReadConfig) : Except SpecConvertError ReadConfig := do
  let source ← readSourceFromProto read.fileManifest read.dirManifest
  let concurrency ← convertConcurrency "read.concurrency" read.concurrency
  let thinkTime ← parseOptionalDuration "read.think_time" read.thinkTime
  let rateLimit ← parseOptionalRate "read.rate_limit" read.rateLimit
  return { concurrency, source, thinkTime, rateLimit,
           s3ConsistencyCheck := read.s3ConsistencyCheck, loopFiles := read.loopFiles }

def writeSizeFromProto (fileSize : String) (range : Option Proto.FileSizeRange) :
    Except SpecConvertError WriteSize :=
  match fileSize.isEmpty, range with
  | true, none => .error (.bad "write" "either file_size or file_size_range must be set")
  | false, some _ => .error (.bad "write" "file_size and file_size_range are mutually exclusive")
  | false, none => do
      let bytes ← parseRequiredSize "write.file_size" fileSize
      return .fixed bytes
  | true, some range => do
      let min ← parseRequiredSize "write.file_size_range.min" range.min
      let max ← parseRequiredSize "write.file_size_range.max" range.max
      let distribution ← SizeDistribution.fromProto range.distribution
      return .range min max distribution

def writeFromProto (write : Proto.WriteConfig) : Except SpecConvertError WriteConfig := do
  let size ← writeSizeFromProto write.fileSize write.fileSizeRange
  let concurrency ← convertConcurrency "write.concurrency" write.concurrency
  let thinkTime ← parseOptionalDuration "write.think_time" write.thinkTime
  let rateLimit ← parseOptionalRate "write.rate_limit" write.rateLimit
  return { concurrency, dir := write.dir, size, fsync := write.fsync, cleanup := write.cleanup,
           thinkTime, rateLimit, verifyAfterWrite := write.verifyAfterWrite }

/-- `0` or less stands for the concurrency of the workload itself. -/
def layoutConcurrencyFromProto (concurrency : Nat) (raw : Int) : Except SpecConvertError Nat :=
  if raw ≤ 0 then .ok concurrency
  else u32TryFrom "metadata.layout_concurrency" "must fit in u32" raw

def metadataFromProto (md : Proto.MetadataConfig) : Except SpecConvertError MetadataConfig := do
  let ops ← md.ops.mapM MetadataOp.fromProto
  let concurrency ← convertConcurrency "metadata.concurrency" md.concurrency
  let layoutConcurrency ← layoutConcurrencyFromProto concurrency md.layoutConcurrency
  let depth ← u32TryFrom "metadata.depth" "negative" md.depth
  let width ← u32TryFrom "metadata.width" "negative" md.width
  let filesPerDir ← u32TryFrom "metadata.files_per_dir" "negative" md.filesPerDir
  let readOnlyScanLimit ←
    u32TryFrom "metadata.read_only_scan_limit" "negative" md.readOnlyScanLimit
  let thinkTime ← parseOptionalDuration "metadata.think_time" md.thinkTime
  let rateLimit ← parseOptionalRate "metadata.rate_limit" md.rateLimit
  return { concurrency, dir := md.dir,
           dirManifest := if md.dirManifest.isEmpty then none else some md.dirManifest,
           ops, readOnly := md.readOnly, readOnlyScanLimit, depth, width, filesPerDir,
           layoutConcurrency, thinkTime, rateLimit }

/-- `None` stays `None`; a present message is converted (`map` then `transpose`). -/
def traverseOption {α β : Type} (f : α → Except SpecConvertError β) :
    Option α → Except SpecConvertError (Option β)
  | none => .ok none
  | some a => (f a).map some

def targetWorkersFromProto (raw : Int) : Except SpecConvertError Nat :=
  if raw ≤ 0 then .ok 1 else u32TryFrom "target_workers" "must fit in u32" raw

def BenchSpec.tryFromProto (spec : Proto.BenchSpec) : Except SpecConvertError BenchSpec := do
  let ioMode ← IoMode.fromProto spec.ioMode
  let blockSize ← parseRequiredSize "block_size" spec.blockSize
  let duration ← parseRequiredDuration "duration" spec.duration
  let warmup ← parseOptionalDuration "warmup" spec.warmup
  let read ← traverseOption readFromProto spec.read
  let write ← traverseOption writeFromProto spec.write
  let metadata ← traverseOption metadataFromProto spec.metadata
  let targetWorkers ← targetWorkersFromProto spec.targetWorkers
  return { fsName := spec.fsName, ioMode, ioAligned := spec.ioAligned,
           directIo := spec.directIo, blockSize, duration, warmup := warmup.getD 0,
           targetWorkers, read, write, metadata }

theorem exceptBind_ok {ε α β : Type} {x : Except ε α} {f : α → Except ε β} {b : β} :
    (x >>= f) = .ok b ↔ ∃ a, x = .ok a ∧ f a = .ok b := by
  cases x with
  | error e => simp [bind, Except.bind]
  | ok a => simp [bind, Except.bind]

theorem exceptMapError_ok {ε ε' α : Type} {f : ε → ε'} {x : Except ε α} {a : α} :
    x.mapError f = .ok a ↔ x = .ok a := by
  cases x with
  | error e => simp [Except.mapError]
  | ok b => simp [Except.mapError]

theorem traverseOption_none {α β : Type} {f : α → Except SpecConvertError β} {o : Option α} :
    traverseOption f o = .ok none ↔ o = none := by
  cases o with
  | none => simp [traverseOption]
  | some a => cases hf : f a <;> simp [traverseOption, hf, Except.map]

theorem traverseOption_some {α β : Type} {f : α → Except SpecConvertError β} {o : Option α}
    {b : β} :
    traverseOption f o = .ok (some b) ↔ ∃ a, o = some a ∧ f a = .ok b := by
  cases o with
  | none => simp [traverseOption]
  | some a => cases hf : f a <;> simp [traverseOption, hf, Except.map]

theorem BenchSpec.tryFromProto_read {spec : Proto.BenchSpec} {s : BenchSpec}
    (h : BenchSpec.tryFromProto spec = .ok s) :
    traverseOption readFromProto spec.read = .ok s.read := by
  simp only [BenchSpec.tryFromProto, exceptBind_ok] at h
  obtain ⟨_, _, _, _, _, _, _, _, read, hread, _, _, _, _, _, _, hs⟩ := h
  obtain rfl := Except.ok.inj hs
  exact hread

theorem BenchSpec.tryFromProto_metadata {spec : Proto.BenchSpec} {s : BenchSpec}
    (h : BenchSpec.tryFromProto spec = .ok s) :
    traverseOption metadataFromProto spec.metadata = .ok s.metadata := by
  simp only [BenchSpec.tryFromProto, exceptBind_ok] at h
  obtain ⟨_, _, _, _, _, _, _, _, _, _, _, _, metadata, hmetadata, _, _, hs⟩ := h
  obtain rfl := Except.ok.inj hs
  exact hmetadata

theorem targetWorkersFromProto_bounds {raw : Int} {n : Nat}
    (h : targetWorkersFromProto raw = .ok n) : 1 ≤ n ∧ n ≤ u32Max := by
  unfold targetWorkersFromProto u32TryFrom at h
  split at h
  · obtain rfl := Except.ok.inj h
    exact ⟨Nat.le_refl 1, by decide⟩
  · split at h
    · obtain rfl := Except.ok.inj h
      omega
    · cases h

theorem BenchSpec.tryFromProto_targetWorkers {spec : Proto.BenchSpec} {s : BenchSpec}
    (h : BenchSpec.tryFromProto spec = .ok s) :
    1 ≤ s.targetWorkers ∧ s.targetWorkers ≤ u32Max := by
  simp only [BenchSpec.tryFromProto, exceptBind_ok] at h
  obtain ⟨_, _, _, _, _, _, _, _, _, _, _, _, _, _, n, hn, hs⟩ := h
  obtain rfl := Except.ok.inj hs
  exact targetWorkersFromProto_bounds hn

theorem parseSizeField_le {input : List Char} {field : String} {n : Nat}
    (h : parseSizeField input field = .ok (some n)) : n ≤ u64Max := by
  unfold parseSizeField at h
  simp only at h
  split at h
  · cases h
  · split at h
    · cases h
    · split at h
      · cases h
      · split at h
        · cases h
        · split at h
          · cases h
          · next bytes hchecked =>
            cases h
            unfold checkedU64 at hchecked
            split at hchecked
            · next hle =>
              cases hchecked
              exact hle
            · cases hchecked

theorem BenchSpec.tryFromProto_blockSize {spec : Proto.BenchSpec} {s : BenchSpec}
    (h : BenchSpec.tryFromProto spec = .ok s) : s.blockSize ≤ u64Max := by
  simp only [BenchSpec.tryFromProto, exceptBind_ok] at h
  obtain ⟨_, _, size, hsize, _, _, _, _, _, _, _, _, _, _, _, _, hs⟩ := h
  obtain rfl := Except.ok.inj hs
  unfold parseRequiredSize parseRequired at hsize
  split at hsize
  · cases hsize
  · cases hsize
  · next v hparsed =>
    cases hsize
    exact parseSizeField_le hparsed

end CvdBench.Spec
