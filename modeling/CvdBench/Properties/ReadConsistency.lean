import CvdBench.Worker.IoTaskInvariant
import CvdBench.Worker.StreamChunks

/-!
A read that is compared with its S3 object raises no false alarm only where it sends the
file in order: direct, or sequential and aligned.
-/

set_option autoImplicit false

namespace CvdBench.Worker

open Proto Spec

/-- What the hasher of an uninterrupted read has been fed. -/
def readHash (items : List ReadStreamItem) : StreamingHash :=
  items.foldl StreamingHash.feed .new

theorem foldl_feed (h : StreamingHash) (items : List ReadStreamItem) :
    items.foldl StreamingHash.feed h = (chunksOf items).foldl StreamingHash.update h := by
  induction items generalizing h with
  | nil => rfl
  | cons item items ih =>
    rw [List.foldl_cons, ih]
    cases item with
    | error err => rfl
    | ok event => cases event <;> rfl

def checkRead (sha256 : List UInt8 → List UInt8) (getObject : GetObject)
    (client : ConsistencyClient) (entry : FileEntry) (items : List ReadStreamItem) :
    Except ConsistencyError Nat :=
  let (fsHash, fsSize) := (readHash items).finalize sha256
  client.check sha256 getObject entry fsSize fsHash

/-- The file is sent in order, its hash is that of the file, and an object that holds the
same bytes, in whatever parts they arrive, passes the check. -/
structure NoAlarm (sha256 : List UInt8 → List UInt8) (file : FileContent)
    (items : List ReadStreamItem) : Prop where
  chunks : (chunksOf items).flatten = file.bytes
  hash : (readHash items).finalize sha256 = (sha256 file.bytes, file.length)
  check : ∀ (getObject : GetObject) (client : ConsistencyClient) (entry : FileEntry)
    (parts : List (List UInt8)), parts.flatten = file.bytes →
    getObject client.bucket (client.resolveKey entry) = .ok (parts.map .ok) →
    checkRead sha256 getObject client entry items = .ok file.length

theorem NoAlarm.of_chunks (sha256 : List UInt8 → List UInt8) {file : FileContent}
    {items : List ReadStreamItem} (h : (chunksOf items).flatten = file.bytes) :
    NoAlarm sha256 file items := by
  have hfits := file.fits
  have hhash : readHash items = ⟨file.bytes, file.length⟩ := by
    have hfed := StreamingHash.update_flatten .new (chunksOf items) rfl
      (by rw [h]; simp only [StreamingHash.new, List.nil_append]; omega)
    rw [readHash, foldl_feed, hfed, h]
    rfl
  have hfinal : (readHash items).finalize sha256 = (sha256 file.bytes, file.length) := by
    rw [hhash]
    rfl
  refine ⟨h, hfinal, ?_⟩
  intro getObject client entry parts hparts hobject
  unfold checkRead
  simp only [hfinal]
  rw [ConsistencyClient.check_object sha256 hobject (by rw [hparts]; omega), hparts]
  simp [FileContent.length]

/-- Whether a read of a file of the given length sends it in order whatever its reads
deliver. A block size past these bounds has no buffer. -/
def IoProfile.SendsInOrder (profile : IoProfile) (len : Nat) : Prop :=
  if profile.directIo = true then len = 0 ∨ profile.blockSize ≤ 2^63 - 4096
  else if profile.ioMode = .seq ∧ profile.ioAligned = true then
    len = 0 ∨ profile.blockSize ≤ 2^63 - 1
  else len ≤ 1

instance (profile : IoProfile) (len : Nat) : Decidable (profile.SendsInOrder len) := by
  unfold IoProfile.SendsInOrder
  infer_instance

section

variable {calls : FileCalls}

theorem streamSeq_chunks (h : calls.Legal) {blockSize : Nat} (hpos : 0 < blockSize)
    (hle : blockSize < 2^64) : (chunksOf (streamSeq calls blockSize)).flatten =
      if blockSize ≤ 2^63 - 1 then calls.file.bytes else [] := by
  unfold streamSeq
  rw [chunksOf_whenOpened h, usizeBlock_eq hpos hle, isizeMax]
  by_cases hfits : blockSize ≤ 2^63 - 1
  · rw [if_pos hfits, if_pos hfits, seqLoop_chunks h hpos, List.drop_zero]
  · rw [if_neg hfits, if_neg hfits]
    rfl

theorem directBuffer {blockSize : Nat} (hpos : 0 < blockSize) (hle : blockSize ≤ 2^63 - 4096) :
    ∃ readSize, 0 < readSize ∧ alignedIoSize blockSize = .ok readSize ∧
      alignedBuffer readSize = .ok readSize := by
  have hzero : ¬ blockSize = 0 := by omega
  refine ⟨(blockSize + 4095) / 4096 * 4096, by omega, ?_, ?_⟩
  · simp only [alignedIoSize, defaultAlignment, if_neg hzero]
    exact if_pos (by omega)
  · unfold alignedBuffer isizeMax defaultAlignment
    exact if_pos (by omega)

theorem directBuffer_none {blockSize readSize : Nat} (hlt : 2^63 - 4096 < blockSize)
    (hsize : alignedIoSize blockSize = .ok readSize) : ∃ e, alignedBuffer readSize = .error e := by
  have hzero : ¬ blockSize = 0 := by omega
  simp only [alignedIoSize, defaultAlignment, if_neg hzero] at hsize
  by_cases hfits : (blockSize + (4096 - 1)) / 4096 * 4096 < 2^64
  · rw [if_pos hfits] at hsize
    obtain rfl := Except.ok.inj hsize
    unfold alignedBuffer isizeMax defaultAlignment
    rw [if_neg (by omega)]
    exact ⟨_, rfl⟩
  · rw [if_neg hfits] at hsize
    cases hsize

theorem streamDirect_chunks (h : calls.Legal) {blockSize : Nat} (hpos : 0 < blockSize) :
    (chunksOf (streamReadFileBlocking calls blockSize)).flatten =
      if blockSize ≤ 2^63 - 4096 then calls.file.bytes else [] := by
  unfold streamReadFileBlocking
  rw [chunksOf_whenOpened h, h.metadata]
  by_cases hle : blockSize ≤ 2^63 - 4096
  · obtain ⟨readSize, hsize, hblock, hbuffer⟩ := directBuffer hpos hle
    simp only [hblock, hbuffer]
    rw [if_pos hle, directLoop_chunks h hsize, List.drop_zero]
  · rw [if_neg hle]
    cases hblock : alignedIoSize blockSize with
    | error source => rfl
    | ok readSize =>
      obtain ⟨e, hbuffer⟩ := directBuffer_none (by omega) hblock
      simp only [hbuffer]
      rfl

theorem streamRanges_tiny (h : calls.Legal) (htiny : calls.file.length ≤ 1)
    {ranges : Nat → List (Nat × Nat)} (hranges : ranges 1 = [(0, 1)]) :
    (chunksOf (streamRanges calls ranges)).flatten = calls.file.bytes := by
  unfold streamRanges
  rw [chunksOf_whenOpened h, h.metadata]
  simp only
  split
  · next hempty =>
    rw [List.eq_nil_of_length_eq_zero hempty]
    rfl
  · next hne =>
    have hone : calls.file.length = 1 := by omega
    rw [hone, hranges]
    exact rangeLoop_single h hone

theorem streamRanges_short (h : calls.Legal) (hone : ∀ call, calls.read call = .ok 1)
    {ranges : Nat → List (Nat × Nat)}
    (hfew : (ranges calls.file.length).length < calls.file.length) :
    (chunksOf (streamRanges calls ranges)).flatten ≠ calls.file.bytes := by
  intro heq
  unfold streamRanges at heq
  rw [chunksOf_whenOpened h, h.metadata] at heq
  simp only at heq
  rw [if_neg (by omega)] at heq
  have hle := rangeLoop_bytes hone 0 (ranges calls.file.length)
  rw [heq] at hle
  exact absurd hfew (Nat.not_lt.mpr hle)

end

theorem rangesFrom_one (blockSize : Nat) : rangesFrom 1 blockSize 0 = [(0, 1)] := by
  have hmin : min (1 - 0) (max blockSize 1) = 1 := by omega
  rw [rangesFrom, if_pos (by omega)]
  simp only [hmin]
  rw [rangesFrom, if_neg (by omega)]

theorem unalignedRanges_one (rng : Rng) (blockSize : Nat) (path : String) :
    unalignedRanges rng 1 blockSize path = [(0, 1)] := by
  have hstart : rng.genRange path 1 = 0 := by
    have hlt := rng.genRange_lt path 1 (by omega)
    omega
  rw [unalignedRanges, if_neg (by omega), hstart, rangesFrom_one]

theorem chunkRanges_few {len blockSize : Nat} (hlen : 2 ≤ len) (hblock : 2 ≤ blockSize) :
    (chunkRanges len blockSize).length < len :=
  rangesFrom_length_lt hblock hlen

theorem unalignedRanges_few (rng : Rng) {len blockSize : Nat} (path : String) (hlen : 2 ≤ len)
    (hblock : 2 ≤ blockSize) : (unalignedRanges rng len blockSize path).length < len := by
  rw [unalignedRanges, if_neg (by omega)]
  rcases Nat.eq_zero_or_pos (rng.genRange path len) with hzero | hpos
  · rw [hzero]
    exact rangesFrom_length_lt hblock hlen
  · have hle := rangesFrom_length_le len blockSize (rng.genRange path len)
    omega

section

variable (rng : Rng) (path : String)

theorem streamReadFile_inOrder {calls : FileCalls} (h : calls.Legal) {profile : IoProfile}
    (hpos : 0 < profile.blockSize) (hlt : profile.blockSize < 2^64)
    (horder : profile.SendsInOrder calls.file.length) :
    (chunksOf (streamReadFile calls rng path profile)).flatten = calls.file.bytes := by
  unfold IoProfile.SendsInOrder at horder
  unfold streamReadFile
  -- an empty file needs no buffer to be sent
  have hempty : calls.file.length = 0 → [] = calls.file.bytes := fun hzero =>
    (List.eq_nil_of_length_eq_zero hzero).symm
  by_cases hdirect : profile.directIo = true
  · rw [if_pos hdirect] at horder ⊢
    rw [usizeBlock_eq hpos hlt, streamDirect_chunks h hpos]
    split
    · rfl
    · exact hempty (by omega)
  · rw [if_neg hdirect] at horder ⊢
    cases hmode : profile.ioMode with
    | seq =>
      by_cases haligned : profile.ioAligned = true
      · simp only [hmode, haligned, and_self, if_true] at horder ⊢
        rw [streamSeq_chunks h hpos hlt]
        split
        · rfl
        · exact hempty (by omega)
      · simp only [hmode, haligned, and_false, if_false, Bool.false_eq_true] at horder ⊢
        exact streamRanges_tiny h horder (unalignedRanges_one rng _ path)
    | rand =>
      simp only [hmode, reduceCtorEq, false_and, if_false] at horder
      refine streamRanges_tiny h horder ?_
      have hone : (if profile.ioAligned then chunkRanges 1 (usizeBlock profile.blockSize)
          else unalignedRanges rng 1 (usizeBlock profile.blockSize) path) = [(0, 1)] := by
        split
        · exact rangesFrom_one _
        · exact unalignedRanges_one rng _ path
      rw [hone]
      exact List.perm_singleton.mp (rng.shuffle_perm path 1 [(0, 1)])

def FileContent.slowly (file : FileContent) : FileCalls :=
  { file, openFile := .ok (), metadata := .ok (), seek := fun _ => .ok ()
    read := fun _ => .ok 1 }

theorem FileContent.slowly_legal (file : FileContent) : file.slowly.Legal :=
  ⟨rfl, rfl, fun _ => rfl, fun _ => ⟨1, Nat.one_pos, rfl⟩⟩

theorem streamReadFile_slowly (file : FileContent) {profile : IoProfile}
    (hblock : 2 ≤ profile.blockSize) (hlt : profile.blockSize < 2^64)
    (horder : ¬ profile.SendsInOrder file.length) :
    (chunksOf (streamReadFile file.slowly rng path profile)).flatten ≠ file.bytes := by
  unfold IoProfile.SendsInOrder at horder
  unfold streamReadFile
  have hlegal := file.slowly_legal
  have hfile : file.slowly.file.length = file.length := rfl
  have hpos : 0 < profile.blockSize := by omega
  have hsize := usizeBlock_eq hpos hlt
  -- a file that is not empty is not sent without a buffer
  have hbytes : file.length ≠ 0 → [] ≠ file.bytes := fun hne heq =>
    hne (congrArg List.length heq).symm
  by_cases hdirect : profile.directIo = true
  · rw [if_pos hdirect] at horder ⊢
    rw [hsize, streamDirect_chunks hlegal hpos, if_neg (by omega)]
    exact hbytes (by omega)
  · rw [if_neg hdirect] at horder ⊢
    cases hmode : profile.ioMode with
    | seq =>
      by_cases haligned : profile.ioAligned = true
      · simp only [hmode, haligned, and_self, if_true] at horder ⊢
        rw [streamSeq_chunks hlegal hpos hlt, if_neg (by omega)]
        exact hbytes (by omega)
      · simp only [hmode, haligned, and_false, if_false, Bool.false_eq_true] at horder ⊢
        refine streamRanges_short hlegal (fun _ => rfl) ?_
        rw [hsize]
        exact unalignedRanges_few rng path (by omega) hblock
    | rand =>
      simp only [hmode, reduceCtorEq, false_and, if_false] at horder
      refine streamRanges_short hlegal (fun _ => rfl) ?_
      rw [hsize, (rng.shuffle_perm path _ _).length_eq]
      split
      · exact chunkRanges_few (by omega) hblock
      · exact unalignedRanges_few rng path (by omega) hblock

/-- For an accepted spec, reads of a file raise no false alarm, whatever the system delivers
in a call, if and only if the profile sends the file in order. -/
theorem no_false_alarm_iff (sha256 : List UInt8 → List UInt8) (file : FileContent)
    {proto : Proto.BenchSpec} {spec : Spec.BenchSpec} {ctx : ValidationContext}
    (hparse : BenchSpec.tryFromProto proto = .ok spec) (hvalid : validate spec ctx = .ok ()) :
    (∀ calls : FileCalls, calls.Legal → calls.file = file →
      NoAlarm sha256 file (streamReadFile calls rng path (ioProfile spec))) ↔
    (ioProfile spec).SendsInOrder file.length := by
  have hlt : (ioProfile spec).blockSize < 2^64 := by
    have hle := BenchSpec.tryFromProto_blockSize hparse
    unfold u64Max at hle
    show spec.blockSize < 2^64
    omega
  have hblock : 512 ≤ (ioProfile spec).blockSize := validate_blockSize hvalid
  constructor
  · intro hall
    by_contra horder
    exact streamReadFile_slowly rng path file (by omega) hlt horder
      (hall file.slowly file.slowly_legal rfl).chunks
  · rintro horder calls hlegal rfl
    exact .of_chunks sha256
      (streamReadFile_inOrder rng path hlegal (by omega) hlt horder)

end

theorem ReadState.Whole.check_hash {ctx : ReadContext} {r : Reading} {hash : StreamingHash}
    (h : (ReadState.check r hash).Whole ctx) : hash = readHash r.file.items := by
  obtain ⟨hitems, _, hhash⟩ := h
  unfold hashFor at hhash
  split at hhash
  · rw [Option.some.inj hhash, hitems]
    rfl
  · cases hhash

theorem ReadState.Whole.check_ok {ctx : ReadContext} {r : Reading} {hash : StreamingHash}
    (h : (ReadState.check r hash).Whole ctx) {sha256 : List UInt8 → List UInt8}
    {file : FileContent} (halarm : NoAlarm sha256 file r.file.items) {getObject : GetObject}
    {client : ConsistencyClient} {entry : FileEntry} {parts : List (List UInt8)}
    (hparts : parts.flatten = file.bytes)
    (hobject : getObject client.bucket (client.resolveKey entry) = .ok (parts.map .ok)) :
    client.check sha256 getObject entry (hash.finalize sha256).2 (hash.finalize sha256).1 =
      .ok file.length := by
  rw [h.check_hash]
  exact halarm.check getObject client entry parts hparts hobject

namespace Small

def compared (ioAligned : Bool) : Proto.BenchSpec :=
  { fsName := "fs", ioMode := "seq", ioAligned, directIo := false
    blockSize := "512", duration := "1m", warmup := ""
    read := some
      { concurrency := 1, fileManifest := "/data/files.csv", dirManifest := "", thinkTime := ""
        rateLimit := "", loopFiles := false
        s3ConsistencyCheck := some
          { bucketName := "data", bucketUrl := "http://s3", region := "r1", keyPrefix := ""
            accessKey := "A", secretKey := "one", sessionToken := "" } }
    write := none, metadata := none, targetWorkers := 1 }

def parsed (ioAligned : Bool) : Spec.BenchSpec :=
  { fsName := "fs", ioMode := .seq, ioAligned, directIo := false, blockSize := 512
    duration := 60000000000, warmup := 0, targetWorkers := 1
    read := some
      { concurrency := 1, source := .fileManifest "/data/files.csv", thinkTime := none
        rateLimit := none, loopFiles := false
        s3ConsistencyCheck := (compared ioAligned).read.bind (·.s3ConsistencyCheck) }
    write := none, metadata := none }

theorem parsed_spec (ioAligned : Bool) :
    BenchSpec.tryFromProto (compared ioAligned) = .ok (parsed ioAligned) := by
  cases ioAligned <;> decide

theorem parsed_valid (ioAligned : Bool) : validate (parsed ioAligned) {} = .ok () := by
  cases ioAligned <;> decide

def ab : FileContent := ⟨[97, 98], by decide⟩

def sha256 (bytes : List UInt8) : List UInt8 :=
  if bytes = ab.bytes then
    [0xfb, 0x8e, 0x20, 0xfc, 0x2e, 0x4c, 0x3f, 0x24, 0x8c, 0x60, 0xc3, 0x9b, 0xd6, 0x52, 0xf3, 0xc1,
     0x34, 0x72, 0x98, 0xbb, 0x97, 0x7b, 0x8b, 0x4d, 0x59, 0x3, 0xb8, 0x50, 0x55, 0x62, 0x6, 0x3]
  else []

def rng : Rng where
  genRange _ len := len - 1
  genRange_lt _ _ h := Nat.sub_lt h Nat.one_pos
  shuffle _ _ ranges := ranges.reverse
  shuffle_perm _ _ ranges := ranges.reverse_perm

def s3 : GetObject := fun _ _ => .ok [.ok ab.bytes]

def s3Client : ConsistencyClient := ⟨"data", "", "w"⟩

def s3Entry : FileEntry := ⟨"ab", "key"⟩

end Small

theorem no_false_alarm_iff_small : NoAlarm Small.sha256 Small.ab
    (streamReadFile Small.ab.slowly Small.rng "/mnt/fs/data/f"
      (ioProfile (Small.parsed true))) :=
  (no_false_alarm_iff Small.rng "/mnt/fs/data/f" Small.sha256 Small.ab (Small.parsed_spec true)
    (Small.parsed_valid true)).mpr (by decide) Small.ab.slowly Small.ab.slowly_legal rfl

/-- The accepted spec reads at a random offset. Whatever is drawn, one byte of the two is
not read, and the object that holds both does not pass the check. -/
theorem unaligned_false_alarm :
    BenchSpec.tryFromProto (Small.compared false) = .ok (Small.parsed false) ∧
    validate (Small.parsed false) {} = .ok () ∧ Small.ab.slowly.Legal ∧
    ∀ (sha256 : List UInt8 → List UInt8) (rng : Rng) (path : String),
      checkRead sha256 Small.s3 Small.s3Client Small.s3Entry
          (streamReadFile Small.ab.slowly rng path (ioProfile (Small.parsed false))) =
        .error ⟨"w", "ab", "key", .sizeMismatch, "fs=1 s3=2"⟩ := by
  refine ⟨Small.parsed_spec false, Small.parsed_valid false, Small.ab.slowly_legal, ?_⟩
  intro sha256 rng path
  have hranges : unalignedRanges rng 2 512 path = [(0, 2)] ∨
      unalignedRanges rng 2 512 path = [(1, 1)] := by
    have hstart := rng.genRange_lt path 2 (by omega)
    rw [unalignedRanges, if_neg (by omega)]
    rcases (by omega : rng.genRange path 2 = 0 ∨ rng.genRange path 2 = 1) with h | h
    · rw [h]
      simp [rangesFrom]
    · rw [h]
      simp [rangesFrom]
  show checkRead sha256 Small.s3 Small.s3Client Small.s3Entry
    (.ok .opened :: rangeLoop Small.ab.slowly 0 (unalignedRanges rng 2 512 path)) = _
  rcases hranges with h | h
  · rw [h]
    rfl
  · rw [h]
    rfl

end CvdBench.Worker
