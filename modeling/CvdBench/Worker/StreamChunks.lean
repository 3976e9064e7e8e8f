import CvdBench.Worker.Consistency
import CvdBench.Worker.StreamRead

/-!
The chunks that the strategies of `stream_read_file` send: a read in order sends the file,
whatever its reads deliver, and a read by ranges loses what a read leaves of its range.
-/

set_option autoImplicit false

namespace CvdBench.Worker

def ReadStreamItem.chunk? : ReadStreamItem → Option (List UInt8)
  | .ok (.chunk bytes) => some bytes
  | _ => none

def chunksOf (items : List ReadStreamItem) : List (List UInt8) :=
  items.filterMap ReadStreamItem.chunk?

@[simp] theorem chunksOf_nil : chunksOf [] = [] := rfl

@[simp] theorem chunksOf_chunk (bytes : List UInt8) (items : List ReadStreamItem) :
    chunksOf (.ok (.chunk bytes) :: items) = bytes :: chunksOf items := rfl

@[simp] theorem chunksOf_opened (items : List ReadStreamItem) :
    chunksOf (.ok .opened :: items) = chunksOf items := rfl

@[simp] theorem chunksOf_closed : chunksOf [.ok .closed] = [] := rfl

@[simp] theorem chunksOf_error (err : ReadStreamError) : chunksOf [.error err] = [] := rfl

section

variable {calls : FileCalls}

theorem chunksOf_whenOpened (h : calls.Legal) (items : List ReadStreamItem) :
    chunksOf (whenOpened calls.openFile items) = chunksOf items := by
  rw [h.openFile]
  rfl

theorem FileCalls.readAt_drop {call offset wanted : Nat} {bytes : List UInt8}
    (h : calls.readAt call offset wanted = .ok bytes) :
    bytes ++ calls.file.bytes.drop (offset + bytes.length) = calls.file.bytes.drop offset := by
  obtain ⟨n, _, rfl⟩ := FileCalls.readAt_spec h
  rw [← List.drop_drop, List.length_take]
  by_cases hle : min n wanted ≤ (calls.file.bytes.drop offset).length
  · rw [Nat.min_eq_left hle, List.take_append_drop]
  · have hlt : (calls.file.bytes.drop offset).length ≤ min n wanted := by omega
    rw [Nat.min_eq_right hlt, List.take_of_length_le hlt, List.drop_length, List.append_nil]

theorem FileCalls.Legal.readAt_ok (h : calls.Legal) (call offset wanted : Nat) :
    ∃ bytes, calls.readAt call offset wanted = .ok bytes := by
  obtain ⟨n, _, hread⟩ := h.read call
  refine ⟨(calls.file.bytes.drop offset).take (min n wanted), ?_⟩
  rw [FileCalls.readAt, hread]
  rfl

theorem FileCalls.Legal.readAt_nil (h : calls.Legal) {call offset wanted : Nat}
    (hwanted : 0 < wanted) (hnil : calls.readAt call offset wanted = .ok []) :
    calls.file.bytes.drop offset = [] := by
  obtain ⟨n, hpos, hread⟩ := h.read call
  obtain ⟨n', hread', htake⟩ := FileCalls.readAt_spec hnil
  obtain rfl := Except.ok.inj (hread.symm.trans hread')
  rcases List.take_eq_nil_iff.mp htake.symm with hmin | hdrop
  · omega
  · exact hdrop

theorem usizeBlock_eq {blockSize : Nat} (hpos : 0 < blockSize) (hle : blockSize < 2^64) :
    usizeBlock blockSize = blockSize := by
  have hmax : max blockSize 1 = blockSize := by omega
  rw [usizeBlock, hmax, usizeTryFrom, if_pos hle]
  rfl

theorem seqLoop_chunks (h : calls.Legal) {bufSize : Nat} (hbuf : 0 < bufSize)
    (call offset : Nat) :
    (chunksOf (seqLoop calls bufSize call offset)).flatten = calls.file.bytes.drop offset := by
  induction call, offset using seqLoop.induct calls bufSize with
  | case1 call offset source herr =>
    obtain ⟨bytes, hok⟩ := h.readAt_ok call offset bufSize
    rw [herr] at hok
    cases hok
  | case2 call offset hnil =>
    rw [seqLoop]
    split
    · simp_all
    · rw [h.readAt_nil hbuf hnil]
      rfl
    · simp_all
  | case3 call offset b bytes hread ih =>
    rw [seqLoop]
    split
    · simp_all
    · simp_all
    · next b' bytes' hread' =>
      rw [hread] at hread'
      cases hread'
      rw [chunksOf_chunk, List.flatten_cons, ih]
      exact FileCalls.readAt_drop hread

/-- A read that delivers more than is left of the file has its excess cut off. -/
theorem directLoop_chunks (h : calls.Legal) {readSize : Nat} (hsize : 0 < readSize)
    (call offset : Nat) :
    (chunksOf (directLoop calls readSize call offset)).flatten =
      calls.file.bytes.drop offset := by
  induction call, offset using directLoop.induct calls readSize with
  | case1 call offset hlt source herr =>
    obtain ⟨bytes, hok⟩ := h.readAt_ok call offset readSize
    rw [herr] at hok
    cases hok
  | case2 call offset hlt hnil =>
    rw [directLoop, if_pos hlt]
    split
    · simp_all
    · rw [h.readAt_nil hsize hnil]
      rfl
    · simp_all
  | case3 call offset hlt b bytes hread ih =>
    rw [directLoop, if_pos hlt]
    split
    · simp_all
    · simp_all
    · next b' bytes' hread' =>
      rw [hread] at hread'
      cases hread'
      have hle := FileCalls.readAt_length hread
      have hfits := calls.file.fits
      have hadd : Spec.saturatingAddU64 offset (b :: bytes).length =
          offset + (b :: bytes).length := by
        unfold FileContent.length at hlt hle
        unfold Spec.saturatingAddU64 Spec.u64Max
        omega
      rw [chunksOf_chunk, List.flatten_cons, ih, hadd, List.take_of_length_le hle]
      exact FileCalls.readAt_drop hread
  | case4 call offset hge =>
    rw [directLoop, if_neg hge, List.drop_of_length_le (Nat.le_of_not_lt hge)]
    rfl

theorem rangesFrom_length_le (len blockSize offset : Nat) :
    (rangesFrom len blockSize offset).length ≤ len - offset := by
  induction offset using rangesFrom.induct len blockSize with
  | case1 offset hlt n ih =>
    rw [rangesFrom, if_pos hlt, List.length_cons]
    have hrest : (rangesFrom len blockSize
        (offset + min (len - offset) (max blockSize 1))).length ≤
      len - (offset + min (len - offset) (max blockSize 1)) := ih
    omega
  | case2 offset hge =>
    rw [rangesFrom, if_neg hge]
    exact Nat.zero_le _

theorem rangesFrom_length_lt {len blockSize offset : Nat} (hblock : 2 ≤ blockSize)
    (hroom : 2 ≤ len - offset) : (rangesFrom len blockSize offset).length < len - offset := by
  rw [rangesFrom, if_pos (by omega), List.length_cons]
  have hrest := rangesFrom_length_le len blockSize
    (offset + min (len - offset) (max blockSize 1))
  have htwo : 2 ≤ min (len - offset) (max blockSize 1) := by omega
  omega

theorem rangeLoop_bytes (hone : ∀ call, calls.read call = .ok 1) (call : Nat)
    (ranges : List (Nat × Nat)) :
    (chunksOf (rangeLoop calls call ranges)).flatten.length ≤ ranges.length := by
  induction ranges generalizing call with
  | nil => exact Nat.le_refl 0
  | cons range ranges ih =>
    obtain ⟨offset, wanted⟩ := range
    unfold rangeLoop
    rw [List.length_cons]
    split
    · exact Nat.zero_le _
    · split
      · exact Nat.zero_le _
      · exact Nat.le_trans (ih _) (Nat.le_succ _)
      · next b bytes hread =>
        obtain ⟨n, hn, hbytes⟩ := FileCalls.readAt_spec hread
        obtain rfl := Except.ok.inj ((hone call).symm.trans hn)
        have hlen : (b :: bytes).length ≤ 1 := by
          rw [hbytes, List.length_take]
          omega
        have hrest := ih (call + 1)
        rw [chunksOf_chunk, List.flatten_cons, List.length_append]
        omega

theorem rangeLoop_single (h : calls.Legal) (hone : calls.file.length = 1) :
    (chunksOf (rangeLoop calls 0 [(0, 1)])).flatten = calls.file.bytes := by
  obtain ⟨bytes, hread⟩ := h.readAt_ok 0 0 1
  have hdrop := FileCalls.readAt_drop hread
  cases bytes with
  | nil =>
    have hnil := h.readAt_nil (by omega) hread
    rw [List.drop_zero] at hnil
    rw [FileContent.length, hnil] at hone
    cases hone
  | cons b bytes =>
    have hlen := FileCalls.readAt_length hread
    have hrest : calls.file.bytes.drop (0 + (b :: bytes).length) = [] := by
      apply List.drop_of_length_le
      unfold FileContent.length at hone
      rw [hone, List.length_cons]
      omega
    rw [hrest, List.append_nil, List.drop_zero] at hdrop
    unfold rangeLoop
    rw [h.seek 0]
    simp only [hread, rangeLoop, chunksOf_chunk, chunksOf_closed, List.flatten_cons,
      List.flatten_nil, List.append_nil]
    exact hdrop

end

end CvdBench.Worker
