import CvdBench.Spec.BenchSpec
import CvdBench.Spec.Validate
import CvdBench.Worker.FsIo

/-!
`stream_read_file` (`fs_io`, `fs_io/direct_io.rs`): the chunks of a file in the order in
which they are sent, if the consumer takes them all. `usize` has 64 bits. A buffer that
fits the address space is allocated.
-/

set_option autoImplicit false

namespace CvdBench.Worker

open Spec

structure IoProfile where
  ioMode : IoMode
  ioAligned : Bool
  directIo : Bool
  blockSize : Nat
  deriving DecidableEq, Repr

def ioProfile (spec : BenchSpec) : IoProfile :=
  { ioMode := spec.ioMode, ioAligned := spec.ioAligned
    directIo := spec.directIo, blockSize := spec.blockSize }

/-- The bytes of a file. Its length is an `off_t`. -/
structure FileContent where
  bytes : List UInt8
  fits : bytes.length < 2^63

namespace FileContent

def length (file : FileContent) : Nat := file.bytes.length

end FileContent

/-- What the system answers to the calls of one read of a file. -/
structure FileCalls where
  file : FileContent
  openFile : Except String Unit
  metadata : Except String Unit
  seek : Nat → Except String Unit
  read : Nat → Except String Nat

namespace FileCalls

variable (calls : FileCalls)

/-- The given call of `read` with the cursor at `offset`, or of `pread`. -/
def readAt (call offset wanted : Nat) : Except String (List UInt8) :=
  (calls.read call).map fun n => (calls.file.bytes.drop offset).take (min n wanted)

/-- No call fails, and a read that is not at the end of the file delivers something. -/
structure Legal : Prop where
  openFile : calls.openFile = .ok ()
  metadata : calls.metadata = .ok ()
  seek : ∀ call, calls.seek call = .ok ()
  read : ∀ call, ∃ n, 0 < n ∧ calls.read call = .ok n

variable {calls}

theorem readAt_spec {call offset wanted : Nat} {bytes : List UInt8}
    (h : calls.readAt call offset wanted = .ok bytes) :
    ∃ n, calls.read call = .ok n ∧
      bytes = (calls.file.bytes.drop offset).take (min n wanted) := by
  unfold readAt at h
  cases hread : calls.read call with
  | error e =>
    rw [hread] at h
    cases h
  | ok n =>
    rw [hread] at h
    exact ⟨n, rfl, (Except.ok.inj h).symm⟩

theorem readAt_length {call offset wanted : Nat} {bytes : List UInt8}
    (h : calls.readAt call offset wanted = .ok bytes) :
    bytes.length ≤ calls.file.length - offset := by
  obtain ⟨n, _, rfl⟩ := readAt_spec h
  rw [List.length_take, List.length_drop]
  exact Nat.min_le_right _ _

end FileCalls

/-- The draws of `rng_for(path, len)`. -/
structure Rng where
  /-- `gen_range(0..len)` -/
  genRange : String → Nat → Nat
  genRange_lt : ∀ path len, 0 < len → genRange path len < len
  shuffle : String → Nat → List (Nat × Nat) → List (Nat × Nat)
  shuffle_perm : ∀ path len ranges, (shuffle path len ranges).Perm ranges

def rangesFrom (len blockSize offset : Nat) : List (Nat × Nat) :=
  if offset < len then
    let n := min (len - offset) (max blockSize 1)
    (offset, n) :: rangesFrom len blockSize (offset + n)
  else []
termination_by len - offset

def chunkRanges (len blockSize : Nat) : List (Nat × Nat) := rangesFrom len blockSize 0

def unalignedRanges (rng : Rng) (len blockSize : Nat) (path : String) : List (Nat × Nat) :=
  if len = 0 then [] else rangesFrom len blockSize (rng.genRange path len)

def usizeTryFrom (n : Nat) : Option Nat := if n < 2^64 then some n else none

abbrev isizeMax : Nat := 2^63 - 1

def usizeBlock (blockSize : Nat) : Nat := (usizeTryFrom (max blockSize 1)).getD (2^20)

def readError (source : String) : List ReadStreamItem := [.error ⟨.read, source⟩]

def whenOpened (res : Except String Unit) (rest : List ReadStreamItem) : List ReadStreamItem :=
  match res with
  | .error source => [.error ⟨.opening, source⟩]
  | .ok () => .ok .opened :: rest

section

variable (calls : FileCalls)

def seqLoop (bufSize call offset : Nat) : List ReadStreamItem :=
  match _h : calls.readAt call offset bufSize with
  | .error source => readError source
  | .ok [] => [.ok .closed]
  | .ok (b :: bytes) =>
      .ok (.chunk (b :: bytes)) :: seqLoop bufSize (call + 1) (offset + (b :: bytes).length)
termination_by calls.file.length - offset
decreasing_by
  have hle := FileCalls.readAt_length _h
  rw [List.length_cons] at hle ⊢
  omega

def streamSeq (blockSize : Nat) : List ReadStreamItem :=
  whenOpened calls.openFile
    -- `vec![0u8; buf_size]` panics past `isize::MAX`, which ends the task
    (if usizeBlock blockSize ≤ isizeMax then seqLoop calls (usizeBlock blockSize) 0 0 else [])

/-- The loop over the ranges: one read for each, whatever it delivers. -/
def rangeLoop : Nat → List (Nat × Nat) → List ReadStreamItem
  | _, [] => [.ok .closed]
  | call, (offset, wanted) :: ranges => match calls.seek call with
    | .error source => readError source
    | .ok () => match calls.readAt call offset wanted with
      | .error source => readError source
      | .ok [] => rangeLoop (call + 1) ranges
      | .ok (b :: bytes) => .ok (.chunk (b :: bytes)) :: rangeLoop (call + 1) ranges

def streamRanges (ranges : Nat → List (Nat × Nat)) : List ReadStreamItem :=
  whenOpened calls.openFile
    (match calls.metadata with
     | .error source => readError source
     | .ok () =>
         if calls.file.length = 0 then [.ok .closed]
         else rangeLoop calls 0 (ranges calls.file.length))

variable (rng : Rng) (path : String)

def streamUnalignedSeq (blockSize : Nat) : List ReadStreamItem :=
  streamRanges calls fun len => unalignedRanges rng len (usizeBlock blockSize) path

def streamRand (blockSize : Nat) (aligned : Bool) : List ReadStreamItem :=
  streamRanges calls fun len =>
    rng.shuffle path len
      (if aligned then chunkRanges len (usizeBlock blockSize)
       else unalignedRanges rng len (usizeBlock blockSize) path)

abbrev defaultAlignment : Nat := 4096

/-- The block size as a multiple of the alignment, with `checked_next_multiple_of`. -/
def alignedIoSize (size : Nat) : Except String Nat :=
  if size = 0 then .ok defaultAlignment
  else
    let n := (size + (defaultAlignment - 1)) / defaultAlignment * defaultAlignment
    if n < 2^64 then .ok n else .error "aligned I/O size overflow"

/-- `AlignedBuffer::new`: the layout must not overflow `isize`. -/
def alignedBuffer (len : Nat) : Except String Nat :=
  if len ≤ isizeMax - (defaultAlignment - 1) then .ok len
  else .error "invalid layout: invalid parameters to Layout::from_size_align"

def directLoop (readSize call offset : Nat) : List ReadStreamItem :=
  if offset < calls.file.length then
    match _h : calls.readAt call offset readSize with
    | .error source => readError source
    | .ok [] => [.ok .closed]
    | .ok (b :: bytes) =>
        .ok (.chunk ((b :: bytes).take (calls.file.length - offset))) ::
          directLoop readSize (call + 1) (saturatingAddU64 offset (b :: bytes).length)
  else [.ok .closed]
termination_by calls.file.length - offset
decreasing_by
  have hle := FileCalls.readAt_length _h
  have hfits := calls.file.fits
  rw [List.length_cons] at hle ⊢
  unfold saturatingAddU64 u64Max FileContent.length at *
  omega

def streamReadFileBlocking (blockSize : Nat) : List ReadStreamItem :=
  whenOpened calls.openFile
    (match calls.metadata with
     | .error source => readError source
     | .ok () => match alignedIoSize blockSize with
       | .error source => readError source
       | .ok readSize => match alignedBuffer readSize with
         | .error source => readError source
         | .ok readSize => directLoop calls readSize 0 0)

def streamReadFile (profile : IoProfile) : List ReadStreamItem :=
  if profile.directIo then streamReadFileBlocking calls (usizeBlock profile.blockSize)
  else match profile.ioMode with
    | .seq =>
        if profile.ioAligned then streamSeq calls profile.blockSize
        else streamUnalignedSeq calls rng path profile.blockSize
    | .rand => streamRand calls rng path profile.blockSize profile.ioAligned

end

end CvdBench.Worker
