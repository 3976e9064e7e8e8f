import CvdBench.Spec.BenchSpec
import CvdBench.Spec.PathSafe

/-!
The checks of a spec that need no master configuration (`cvd_common::spec::validate`)
and the redaction of its credentials (`cvd_common::spec::redact`).
-/

set_option autoImplicit false

namespace CvdBench.Spec

structure Violation where
  field : String
  message : String
  deriving DecidableEq, Repr

structure LayoutCaps where
  maxDepth : Nat := 8
  maxWidth : Nat := 1000
  maxFilesPerDir : Nat := 100000
  maxTotalDirs : Nat := 100000
  maxTotalFiles : Nat := 10000000
  deriving DecidableEq, Repr

structure ValidationContext where
  layoutCaps : LayoutCaps := {}
  allowRedactedConsistencyCredentials : Bool := false
  deriving DecidableEq, Repr

def blockSizeAlignment : Nat := 512

def redacted : String := "***"

def violates (cond : Bool) (field message : String) : List Violation :=
  if cond then [⟨field, message⟩] else []

def saturatingMulU64 (a b : Nat) : Nat := min (a * b) u64Max

def saturatingAddU64 (a b : Nat) : Nat := min (a + b) u64Max

/-- The loop of `total_dirs`: `layer` is `width ^ i` and `sum` the sum so far. -/
def totalDirsLoop (width : Nat) : Nat → Nat → Nat → Nat
  | 0, _, sum => sum
  | depth + 1, layer, sum =>
      let layer := saturatingMulU64 layer width
      let sum := saturatingAddU64 sum layer
      if sum = u64Max then sum else totalDirsLoop width depth layer sum

def totalDirs (depth width : Nat) : Nat := totalDirsLoop width depth 1 0

def renderPathError : PathSafeError → String
  | .empty => "must not be empty"
  | .nulByte _ => "must not contain NUL byte"
  | .mustBeRelative _ => "must be a relative path (no leading '/')"
  | .forbiddenComponent _ component => "must not contain component \"" ++ component ++ "\""

def checkPath (field path : String) : List Violation :=
  match validateRelative path with
  | .ok () => []
  | .error err => [⟨field, renderPathError err⟩]

def isThroughput : RateLimit → Bool
  | .throughput _ => true
  | .iops _ => false

def validateConsistency (s3 : Proto.ConsistencyConfig) (allowRedacted : Bool) : List Violation :=
  violates s3.bucketName.isEmpty "read.s3_consistency_check.bucket_name" "must not be empty" ++
  violates s3.bucketUrl.isEmpty "read.s3_consistency_check.bucket_url" "must not be empty" ++
  violates s3.region.isEmpty "read.s3_consistency_check.region" "must not be empty" ++
  violates (s3.accessKey.isEmpty || (!allowRedacted && s3.accessKey == redacted))
    "read.s3_consistency_check.access_key" "must not be empty" ++
  violates (s3.secretKey.isEmpty || (!allowRedacted && s3.secretKey == redacted))
    "read.s3_consistency_check.secret_key" "must not be empty"

def validateRead (read : ReadConfig) (allowRedacted : Bool) : List Violation :=
  violates (read.concurrency == 0) "read.concurrency" "must be > 0" ++
  (match read.source with
   | .fileManifest path => violates path.isEmpty "read.file_manifest" "must not be empty"
   | .dirManifest path => violates path.isEmpty "read.dir_manifest" "must not be empty") ++
  (match read.rateLimit with
   | some rl => violates (!isThroughput rl) "read.rate_limit"
       "must be a throughput rate (e.g. `1GB/s`)"
   | none => []) ++
  (match read.s3ConsistencyCheck with
   | some s3 => validateConsistency s3 allowRedacted
   | none => [])

def validateWrite (write : WriteConfig) : List Violation :=
  violates (write.concurrency == 0) "write.concurrency" "must be > 0" ++
  checkPath "write.dir" write.dir ++
  (match write.size with
   | .fixed bytes => violates (bytes == 0) "write.file_size" "must be > 0"
   | .range min max _ =>
       violates (min == 0) "write.file_size_range.min" "must be > 0" ++
       violates (decide (max < min)) "write.file_size_range"
         s!"min ({min}) must be <= max ({max})") ++
  (match write.rateLimit with
   | some rl => violates (!isThroughput rl) "write.rate_limit"
       "must be a throughput rate (e.g. `500MB/s`)"
   | none => [])

/-- A missing layout dimension, or else one past its cap. -/
def checkDimension (required : Bool) (field : String) (value cap : Nat) : List Violation :=
  if required && value == 0 then [⟨field, "must be > 0"⟩]
  else violates (decide (value > cap)) field s!"exceeds soft cap {cap}"

def validateLayout (md : MetadataConfig) (caps : LayoutCaps) : List Violation :=
  if md.depth > 0 && md.width > 0 then
    let dirs := totalDirs md.depth md.width
    let files := saturatingMulU64 dirs md.filesPerDir
    violates (decide (dirs > caps.maxTotalDirs)) "metadata.layout"
      s!"total directories {dirs} exceeds soft cap {caps.maxTotalDirs}" ++
    violates (decide (files > caps.maxTotalFiles)) "metadata.layout"
      s!"total files {files} exceeds soft cap {caps.maxTotalFiles}"
  else []

def validateMetadata (md : MetadataConfig) (caps : LayoutCaps) : List Violation :=
  -- whether the worker builds its own directory tree for this workload
  let builds := md.dirManifest.isNone && !md.readOnly
  violates (md.concurrency == 0) "metadata.concurrency" "must be > 0" ++
  violates (md.layoutConcurrency == 0) "metadata.layout_concurrency" "must be > 0" ++
  (match md.dirManifest with
   | some path => violates path.isEmpty "metadata.dir_manifest" "must not be empty"
   | none => checkPath "metadata.dir" md.dir) ++
  violates md.ops.isEmpty "metadata.ops" "must not be empty" ++
  violates (md.dirManifest.isSome && md.ops.any (· != .stat)) "metadata.ops"
    "metadata.dir_manifest only supports `stat`" ++
  violates (md.readOnly && md.ops.any (fun op => op == .create || op == .mkdir)) "metadata.ops"
    "read_only=true only supports `stat`, `open`, and `readdir`" ++
  violates (builds && md.ops.any (fun op => op == .stat || op == .open) && md.filesPerDir == 0)
    "metadata.files_per_dir" "must be > 0 when metadata.ops contains `stat` or `open`" ++
  checkDimension builds "metadata.depth" md.depth caps.maxDepth ++
  checkDimension builds "metadata.width" md.width caps.maxWidth ++
  checkDimension false "metadata.files_per_dir" md.filesPerDir caps.maxFilesPerDir ++
  validateLayout md caps ++
  (match md.rateLimit with
   | some rl => violates (isThroughput rl) "metadata.rate_limit"
       "must be an iops rate (e.g. `5000iops`)"
   | none => [])

def validateInto (spec : BenchSpec) (ctx : ValidationContext) : List Violation :=
  violates spec.fsName.isEmpty "fs_name" "must not be empty" ++
  violates (spec.duration == 0) "duration" "must be > 0" ++
  violates (spec.warmup != 0 && decide (spec.warmup ≥ spec.duration)) "warmup"
    (let warmup := Duration.asMillis spec.warmup
     let duration := Duration.asMillis spec.duration
     s!"must be < duration ({warmup} ms < {duration} ms)") ++
  (if spec.blockSize == 0 then [⟨"block_size", "must be > 0"⟩]
   else violates (spec.blockSize % blockSizeAlignment != 0) "block_size"
     s!"must be aligned to {blockSizeAlignment} bytes") ++
  violates (spec.directIo && !spec.ioAligned) "direct_io" "O_DIRECT requires io_aligned=true" ++
  violates (spec.read.isNone && spec.write.isNone && spec.metadata.isNone) "spec"
    "at least one of `read` / `write` / `metadata` must be set" ++
  (match spec.read with
   | some read => validateRead read ctx.allowRedactedConsistencyCredentials
   | none => []) ++
  (match spec.write with
   | some write => validateWrite write
   | none => []) ++
  (match spec.metadata with
   | some md => validateMetadata md ctx.layoutCaps
   | none => [])

/-- All violations are collected; none means that the spec is accepted. -/
def validate (spec : BenchSpec) (ctx : ValidationContext) : Except (List Violation) Unit :=
  match validateInto spec ctx with
  | [] => .ok ()
  | report => .error report

theorem violates_eq_nil {cond : Bool} {field message : String} :
    violates cond field message = [] ↔ cond = false := by
  cases cond <;> simp [violates]

theorem validateInto_eq_nil {spec : BenchSpec} {ctx : ValidationContext}
    (h : validate spec ctx = .ok ()) : validateInto spec ctx = [] := by
  unfold validate at h
  split at h
  · assumption
  · cases h

theorem validate_blockSize {spec : BenchSpec} {ctx : ValidationContext}
    (h : validate spec ctx = .ok ()) : blockSizeAlignment ≤ spec.blockSize := by
  have hnone := validateInto_eq_nil h
  simp only [validateInto, List.append_eq_nil_iff] at hnone
  obtain ⟨⟨⟨⟨⟨⟨_, hblock⟩, _⟩, _⟩, _⟩, _⟩, _⟩ := hnone
  split at hblock
  · cases hblock
  · next hpos =>
    unfold violates at hblock
    split at hblock
    · cases hblock
    · next haligned =>
      simp only [bne_iff_ne, ne_eq, Decidable.not_not, beq_iff_eq, blockSizeAlignment]
        at hpos haligned ⊢
      omega

theorem checkPath_eq_nil {field path : String} (h : checkPath field path = []) :
    validateRelative path = .ok () := by
  unfold checkPath at h
  split at h
  · assumption
  · cases h

theorem validate_writeDir {spec : BenchSpec} {ctx : ValidationContext} {write : WriteConfig}
    (h : validate spec ctx = .ok ()) (hwrite : spec.write = some write) :
    validateRelative write.dir = .ok () := by
  have hnone := validateInto_eq_nil h
  simp only [validateInto, List.append_eq_nil_iff, hwrite, validateWrite] at hnone
  obtain ⟨⟨-, ⟨⟨⟨-, hdir⟩, -⟩, -⟩⟩, -⟩ := hnone
  exact checkPath_eq_nil hdir

theorem validate_metadataDir {spec : BenchSpec} {ctx : ValidationContext} {md : MetadataConfig}
    (h : validate spec ctx = .ok ()) (hmd : spec.metadata = some md)
    (hmanifest : md.dirManifest = none) : validateRelative md.dir = .ok () := by
  have hnone := validateInto_eq_nil h
  simp only [validateInto, List.append_eq_nil_iff, hmd, validateMetadata, hmanifest] at hnone
  obtain ⟨-, ⟨⟨⟨⟨⟨⟨⟨⟨⟨⟨-, hdir⟩, -⟩, -⟩, -⟩, -⟩, -⟩, -⟩, -⟩, -⟩, -⟩⟩ := hnone
  exact checkPath_eq_nil hdir

def extractCredentials (spec : Proto.BenchSpec) : Option Proto.S3CredentialMaterial := do
  let read ← spec.read
  let s3 ← read.s3ConsistencyCheck
  return ⟨s3.accessKey, s3.secretKey, s3.sessionToken⟩

def redactConsistency (s3 : Proto.ConsistencyConfig) : Proto.ConsistencyConfig :=
  { s3 with accessKey := redacted, secretKey := redacted, sessionToken := redacted }

def redactInPlace (spec : Proto.BenchSpec) : Proto.BenchSpec :=
  { spec with
    read := spec.read.map fun read =>
      { read with s3ConsistencyCheck := read.s3ConsistencyCheck.map redactConsistency } }

end CvdBench.Spec
