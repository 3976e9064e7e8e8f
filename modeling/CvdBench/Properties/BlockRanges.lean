import CvdBench.Foundation.Pieces
import CvdBench.Worker.WriteFile

/-!
The ranges in which files are read and written: they cut a file into consecutive pieces,
and `write_file` never reads outside of its payload.
-/

set_option autoImplicit false

namespace CvdBench.Worker

open Foundation Spec

theorem consecutive_rangesFrom {len blockSize offset : Nat} (h : offset ≤ len) :
    Consecutive (max blockSize 1) offset (rangesFrom len blockSize offset) len := by
  induction offset using rangesFrom.induct len blockSize with
  | case1 offset hlt n ih =>
    have hn : n = min (len - offset) (max blockSize 1) := rfl
    rw [rangesFrom, if_pos hlt]
    exact .cons (by omega) (by omega) (ih (by omega))
  | case2 offset hge =>
    obtain rfl : offset = len := by omega
    rw [rangesFrom, if_neg hge]
    exact .nil offset

theorem consecutive_chunkRanges (len blockSize : Nat) :
    Consecutive (max blockSize 1) 0 (chunkRanges len blockSize) len :=
  consecutive_rangesFrom (Nat.zero_le len)

theorem consecutive_unalignedRanges (rng : Rng) {len : Nat} (blockSize : Nat) (path : String)
    (hlen : 0 < len) : Consecutive (max blockSize 1) (rng.genRange path len)
      (unalignedRanges rng len blockSize path) len := by
  rw [unalignedRanges, if_neg (by omega)]
  exact consecutive_rangesFrom (Nat.le_of_lt (rng.genRange_lt path len hlen))

/-- `&payload[offset..offset + len]`, which panics outside of the payload. -/
def slice (payload : List UInt8) (offset len : Nat) : Option (List UInt8) :=
  if offset + len ≤ payload.length then some ((payload.drop offset).take len) else none

section

variable (calls : WriteCalls)

/-- The loop over the ranges, which ends in a panic where a slice does. -/
def writeSlices (payload : List UInt8) :
    Nat → Nat → List UInt8 → List (Nat × Nat) → Option (Except String (List UInt8))
  | _, _, content, [] => some (.ok content)
  | turn, call, content, (offset, len) :: ranges =>
      match calls.seek turn with
      | .error source => some (.error source)
      | .ok () => match slice payload offset len with
        | none => none
        | some bytes => match writeAll calls call content offset bytes with
          | .error source => some (.error source)
          | .ok (call, content) => writeSlices payload (turn + 1) call content ranges

variable (rng : Rng) (path : String)

def writeBufferedSlices (payload : FileContent) (profile : IoProfile) :
    Option (Except String (List UInt8)) :=
  match profile.ioMode with
  | .seq =>
      if profile.ioAligned then some ((writeAll calls 0 [] 0 payload.bytes).map Prod.snd)
      else
        writeSlices calls payload.bytes 0 0 []
          (unalignedRanges rng payload.length (usizeBlock profile.blockSize) path)
  | .rand =>
      writeSlices calls payload.bytes 0 0 []
        (rng.shuffle path payload.length
          (chunkRanges payload.length (usizeBlock profile.blockSize)))

variable {calls rng path}

theorem writeSlices_eq {payload : List UInt8} {ranges : List (Nat × Nat)}
    (h : ∀ r ∈ ranges, r.1 + r.2 ≤ payload.length) (turn call : Nat) (content : List UInt8) :
    writeSlices calls payload turn call content ranges =
      some (writeRanges calls payload turn call content ranges) := by
  induction ranges generalizing turn call content with
  | nil => rfl
  | cons r ranges ih =>
    obtain ⟨offset, len⟩ := r
    obtain ⟨hfits, hrest⟩ := List.forall_mem_cons.mp h
    have hslice : slice payload offset len = some ((payload.drop offset).take len) := if_pos hfits
    simp only [writeSlices, writeRanges, hslice, bind, Except.bind]
    cases calls.seek turn with
    | error source => rfl
    | ok =>
      simp only
      cases writeAll calls call content offset ((payload.drop offset).take len) with
      | error source => rfl
      | ok res => exact ih hrest (turn + 1) res.1 res.2

theorem unalignedRanges_within {len blockSize : Nat} {r : Nat × Nat}
    (hr : r ∈ unalignedRanges rng len blockSize path) : r.1 + r.2 ≤ len := by
  unfold unalignedRanges at hr
  split at hr
  · cases hr
  · exact (mem_rangesFrom hr).2

theorem shuffled_within {len blockSize : Nat} {r : Nat × Nat}
    (hr : r ∈ rng.shuffle path len (chunkRanges len blockSize)) : r.1 + r.2 ≤ len :=
  (mem_rangesFrom ((rng.shuffle_perm path len _).mem_iff.mp hr)).2

theorem writeBufferedSlices_eq (payload : FileContent) (profile : IoProfile) :
    writeBufferedSlices calls rng path payload profile =
      some (writeBuffered calls rng path payload profile) := by
  unfold writeBufferedSlices writeBuffered
  cases profile.ioMode with
  | seq =>
    simp only
    split
    · rfl
    · exact writeSlices_eq (fun r hr => unalignedRanges_within hr) 0 0 []
  | rand => exact writeSlices_eq (fun r hr => shuffled_within hr) 0 0 []

end

/-- The ranges of a file of `len` bytes. -/
structure BlockRanges (rng : Rng) (path : String) (len blockSize : Nat) : Prop where
  chunks : Consecutive (max blockSize 1) 0 (chunkRanges len blockSize) len
  chunkRounds : (chunkRanges len blockSize).length ≤ len
  chunkBytes : positions (chunkRanges len blockSize) = List.range len
  permuted : ∀ ranges, ranges.Perm (chunkRanges len blockSize) →
    ∀ i, coverCount ranges i = if i < len then 1 else 0
  shuffled : ∀ i, coverCount (rng.shuffle path len (chunkRanges len blockSize)) i =
    if i < len then 1 else 0
  unaligned : 0 < len → ∃ start, start < len ∧ start = rng.genRange path len ∧
    Consecutive (max blockSize 1) start (unalignedRanges rng len blockSize path) len ∧
    positions (unalignedRanges rng len blockSize path) = List.range' start (len - start)
  empty : len = 0 → unalignedRanges rng len blockSize path = []

/-- The ranges partition the file, whatever the block size, and no write panics. -/
theorem ranges_partition (rng : Rng) (path : String) :
    (∀ len blockSize, BlockRanges rng path len blockSize) ∧
      ∀ calls payload profile, writeBufferedSlices calls rng path payload profile =
        some (writeBuffered calls rng path payload profile) := by
  refine ⟨fun len blockSize => ?_, fun calls payload profile =>
    writeBufferedSlices_eq payload profile⟩
  have hchunks := consecutive_chunkRanges len blockSize
  have hpermuted : ∀ ranges, ranges.Perm (chunkRanges len blockSize) →
      ∀ i, coverCount ranges i = if i < len then 1 else 0 := by
    intro ranges hperm i
    rw [hchunks.coverCount_perm hperm]
    simp
  refine {
    chunks := hchunks
    chunkRounds := hchunks.length_le
    chunkBytes := ?_
    permuted := hpermuted
    shuffled := hpermuted _ (rng.shuffle_perm path len _)
    unaligned := fun hlen => ?_
    empty := fun hlen => if_pos hlen }
  · rw [hchunks.positions_eq, List.range_eq_range']
    rfl
  · have hconsecutive := consecutive_unalignedRanges rng blockSize path hlen
    exact ⟨_, rng.genRange_lt path len hlen, rfl, hconsecutive, hconsecutive.positions_eq⟩

end CvdBench.Worker
