import CvdBench.Foundation.Overwrite
import CvdBench.Worker.StreamRead

/-!
`write_file` (`fs_io`, `fs_io/direct_io.rs`) and the check after it: what the file holds
when the calls have succeeded.
-/

set_option autoImplicit false

namespace CvdBench.Worker

open Foundation Spec

/-- What the system answers to the calls of one write of a file. -/
structure WriteCalls where
  create : Except String Unit
  seek : Nat → Except String Unit
  /-- how many bytes the given call of `write` or `pwrite` takes at most -/
  write : Nat → Except String Nat
  setLen : Except String Unit
  sync : Except String Unit
  flush : Except String Unit

/-- No call fails, and a write takes something. -/
structure WriteCalls.Legal (calls : WriteCalls) : Prop where
  create : calls.create = .ok ()
  seek : ∀ call, calls.seek call = .ok ()
  write : ∀ call, ∃ n, 0 < n ∧ calls.write call = .ok n
  setLen : calls.setLen = .ok ()
  sync : calls.sync = .ok ()
  flush : calls.flush = .ok ()

section

variable (calls : WriteCalls)

/-- Writes until nothing is left. `advance` moves the offset on; a write that takes nothing
is an error. -/
def writeLoop (advance : Nat → Nat → Nat) (writeZero : String) (call : Nat)
    (content : List UInt8) (offset : Nat) (bytes : List UInt8) :
    Except String (Nat × List UInt8) :=
  if _hnil : bytes = [] then .ok (call, content)
  else match calls.write call with
    | .error source => .error source
    | .ok 0 => .error writeZero
    | .ok (n + 1) =>
        let taken := bytes.take (n + 1)
        writeLoop advance writeZero (call + 1) (overwrite 0 content offset taken)
          (advance offset taken.length) (bytes.drop (n + 1))
termination_by bytes.length
decreasing_by
  have hpos : 0 < bytes.length := List.length_pos_iff.mpr _hnil
  rw [List.length_drop]
  omega

/-- `write_all` at the cursor of the file. -/
def writeAll : Nat → List UInt8 → Nat → List UInt8 → Except String (Nat × List UInt8) :=
  writeLoop calls (· + ·) "failed to write whole buffer"

def pwriteAll : Nat → List UInt8 → Nat → List UInt8 → Except String (Nat × List UInt8) :=
  writeLoop calls saturatingAddU64 "direct pwrite wrote zero bytes"

def writeRanges (payload : List UInt8) :
    Nat → Nat → List UInt8 → List (Nat × Nat) → Except String (List UInt8)
  | _, _, content, [] => .ok content
  | turn, call, content, (offset, len) :: ranges => do
      calls.seek turn
      let (call, content) ← writeAll calls call content offset ((payload.drop offset).take len)
      writeRanges payload (turn + 1) call content ranges

/-- The loop of `write_file_blocking`: blocks of the alignment, the last one padded. -/
def directWriteLoop (payload : List UInt8) (call : Nat) (content : List UInt8)
    (offset writtenLogical : Nat) : Except String (List UInt8) :=
  if writtenLogical < payload.length then
    let logicalChunk := min (payload.length - writtenLogical) defaultAlignment
    let buffer := (payload.drop writtenLogical).take logicalChunk ++
      List.replicate (defaultAlignment - logicalChunk) 0
    match pwriteAll calls call content offset buffer with
    | .error source => .error source
    | .ok (call, content) =>
        directWriteLoop payload call content (saturatingAddU64 offset defaultAlignment)
          (writtenLogical + logicalChunk)
  else .ok content
termination_by payload.length - writtenLogical
decreasing_by
  unfold defaultAlignment
  omega

/-- `sync_all`, if the workload asks for it. -/
def syncWhen (fsync : Bool) : Except String Unit := if fsync then calls.sync else .ok ()

def writeFileBlocking (payload : List UInt8) (fsync : Bool) : Except String (List UInt8) := do
  calls.create
  -- the file is opened with `truncate(true)`
  let content ← directWriteLoop calls payload 0 [] 0 0
  calls.setLen
  syncWhen calls fsync
  return resize 0 content payload.length

variable (rng : Rng) (path : String)

def writeBuffered (payload : FileContent) (profile : IoProfile) : Except String (List UInt8) :=
  match profile.ioMode with
  | .seq =>
      if profile.ioAligned then (writeAll calls 0 [] 0 payload.bytes).map Prod.snd
      else
        writeRanges calls payload.bytes 0 0 []
          (unalignedRanges rng payload.length (usizeBlock profile.blockSize) path)
  | .rand =>
      writeRanges calls payload.bytes 0 0 []
        (rng.shuffle path payload.length
          (chunkRanges payload.length (usizeBlock profile.blockSize)))

/-- What the file holds in the end. It was truncated when it was created, so nothing depends
on what it held before. -/
def writeFile (payload : FileContent) (profile : IoProfile) (fsync : Bool) :
    Except String (List UInt8) :=
  if profile.directIo then writeFileBlocking calls payload.bytes fsync
  else do
    calls.create
    let content ← writeBuffered calls rng path payload profile
    syncWhen calls fsync
    calls.flush
    return content

end

inductive VerifyError where
  | read (source : String)
  | mismatch (path : String)
  deriving DecidableEq, Repr

section

variable (calls : FileCalls)

/-- The loop of `stream_sha256` with a buffer of 8 KiB: all that is fed to the hasher. -/
def sha256Loop (call offset : Nat) (hasher : List UInt8) : Except String (List UInt8) :=
  match _h : calls.readAt call offset 8192 with
  | .error source => .error source
  | .ok [] => .ok hasher
  | .ok (b :: bytes) =>
      sha256Loop (call + 1) (offset + (b :: bytes).length) (hasher ++ b :: bytes)
termination_by calls.file.length - offset
decreasing_by
  have hle := FileCalls.readAt_length _h
  rw [List.length_cons] at hle ⊢
  omega

def streamSha256 (sha256 : List UInt8 → List UInt8) : Except String (List UInt8) := do
  calls.openFile
  let hasher ← sha256Loop calls 0 0 []
  return sha256 hasher

def verifyAfterWrite (sha256 : List UInt8 → List UInt8) (path : String) (payload : List UInt8) :
    Except VerifyError Unit :=
  match streamSha256 calls sha256 with
  | .error source => .error (.read source)
  | .ok actual => if actual ≠ sha256 payload then .error (.mismatch path) else .ok ()

end

section

variable {calls : WriteCalls}

theorem writeLoop_ok {advance : Nat → Nat → Nat} {writeZero : String} {call : Nat}
    {content : List UInt8} {offset : Nat} {bytes : List UInt8} {res : Nat × List UInt8}
    (hadvance : ∀ o n, o + n ≤ offset + bytes.length → advance o n = o + n) (hne : bytes ≠ [])
    (h : writeLoop calls advance writeZero call content offset bytes = .ok res) :
    res.2 = overwrite 0 content offset bytes := by
  induction call, content, offset, bytes using writeLoop.induct calls advance with
  | case1 => exact absurd rfl hne
  | case2 call content offset bytes hnil source herr =>
    rw [writeLoop, dif_neg hnil, herr] at h
    cases h
  | case3 call content offset bytes hnil hzero =>
    rw [writeLoop, dif_neg hnil, hzero] at h
    cases h
  | case4 call content offset bytes hnil n hwrite taken ih =>
    rw [writeLoop, dif_neg hnil, hwrite] at h
    have hlen : taken.length + (bytes.drop (n + 1)).length = bytes.length := by
      rw [← List.length_append, List.take_append_drop]
    have hoffset : advance offset taken.length = offset + taken.length := hadvance _ _ (by omega)
    simp only at h
    rw [hoffset] at h ih
    by_cases hrest : bytes.drop (n + 1) = []
    · have hall : bytes.take (n + 1) = bytes := by
        have hsplit := List.take_append_drop (n + 1) bytes
        rwa [hrest, List.append_nil] at hsplit
      rw [writeLoop, dif_pos hrest] at h
      rw [← Except.ok.inj h, hall]
    · rw [ih (fun o k hk => hadvance o k (by omega)) hrest h, overwrite_append,
        List.take_append_drop]

theorem writeLoop_legal (hlegal : calls.Legal) (advance : Nat → Nat → Nat) (writeZero : String)
    (call : Nat) (content : List UInt8) (offset : Nat) (bytes : List UInt8) :
    ∃ res, writeLoop calls advance writeZero call content offset bytes = .ok res := by
  induction call, content, offset, bytes using writeLoop.induct calls advance with
  | case1 call content offset =>
    rw [writeLoop, dif_pos rfl]
    exact ⟨_, rfl⟩
  | case2 call content offset bytes hnil source herr =>
    obtain ⟨n, -, hok⟩ := hlegal.write call
    rw [herr] at hok
    cases hok
  | case3 call content offset bytes hnil hzero =>
    obtain ⟨n, hpos, hok⟩ := hlegal.write call
    rw [hzero] at hok
    obtain rfl := Except.ok.inj hok
    omega
  | case4 call content offset bytes hnil n hwrite taken ih =>
    rw [writeLoop, dif_neg hnil, hwrite]
    exact ih

theorem writeAll_ok {call : Nat} {content : List UInt8} {offset : Nat} {bytes : List UInt8}
    {res : Nat × List UInt8} (hne : bytes ≠ [])
    (h : writeAll calls call content offset bytes = .ok res) :
    res.2 = overwrite 0 content offset bytes :=
  writeLoop_ok (fun _ _ _ => rfl) hne h

theorem pwriteAll_ok {call : Nat} {content : List UInt8} {offset : Nat} {bytes : List UInt8}
    {res : Nat × List UInt8} (hne : bytes ≠ []) (hfits : offset + bytes.length < 2^64)
    (h : pwriteAll calls call content offset bytes = .ok res) :
    res.2 = overwrite 0 content offset bytes := by
  refine writeLoop_ok (fun o n hle => ?_) hne h
  unfold saturatingAddU64 u64Max
  omega

theorem mem_rangesFrom {len blockSize offset : Nat} {r : Nat × Nat}
    (h : r ∈ rangesFrom len blockSize offset) : 0 < r.2 ∧ r.1 + r.2 ≤ len := by
  induction offset using rangesFrom.induct len blockSize with
  | case1 offset hlt n ih =>
    rw [rangesFrom, if_pos hlt] at h
    rcases List.mem_cons.mp h with rfl | h
    · simp only
      omega
    · exact ih h
  | case2 offset hge =>
    rw [rangesFrom, if_neg hge] at h
    simp at h

theorem covered_cons {r : Nat × Nat} {ranges : List (Nat × Nat)} {i : Nat} :
    Covered (r :: ranges) i ↔ (r.1 ≤ i ∧ i < r.1 + r.2) ∨ Covered ranges i := by
  simp [Covered]

theorem covered_rangesFrom {len blockSize offset i : Nat} :
    Covered (rangesFrom len blockSize offset) i ↔ offset ≤ i ∧ i < len := by
  induction offset using rangesFrom.induct len blockSize with
  | case1 offset hlt n ih =>
    rw [rangesFrom, if_pos hlt]
    simp only [covered_cons]
    rw [ih]
    omega
  | case2 offset hge =>
    rw [rangesFrom, if_neg hge]
    simp only [Covered, List.not_mem_nil, false_and, exists_false, false_iff]
    omega

theorem writeRanges_painted {payload : List UInt8} {turn call : Nat} {content out : List UInt8}
    {ranges : List (Nat × Nat)}
    (hranges : ∀ r ∈ ranges, 0 < r.2 ∧ r.1 + r.2 ≤ payload.length) {done : List (Nat × Nat)}
    (hdone : Painted 0 payload done content)
    (h : writeRanges calls payload turn call content ranges = .ok out) :
    Painted 0 payload (done ++ ranges) out := by
  induction ranges generalizing turn call content done with
  | nil =>
    rw [writeRanges] at h
    obtain rfl := Except.ok.inj h
    rwa [List.append_nil]
  | cons r ranges ih =>
    obtain ⟨offset, len⟩ := r
    obtain ⟨hpos, hfits⟩ := hranges (offset, len) List.mem_cons_self
    simp only at hpos hfits
    simp only [writeRanges, exceptBind_ok] at h
    obtain ⟨_, _, ⟨call', content'⟩, hwrite, hrest⟩ := h
    have hne : (payload.drop offset).take len ≠ [] := by
      rw [← List.length_pos_iff, List.length_take, List.length_drop]
      omega
    have hcontent : content' = _ := writeAll_ok hne hwrite
    rw [hcontent] at hrest
    have hnext := ih (fun r' hr' => hranges r' (List.mem_cons_of_mem _ hr'))
      (hdone.concat hfits) hrest
    rwa [List.append_assoc] at hnext

theorem writeRanges_legal (hlegal : calls.Legal) (payload : List UInt8) (turn call : Nat)
    (content : List UInt8) (ranges : List (Nat × Nat)) :
    ∃ out, writeRanges calls payload turn call content ranges = .ok out := by
  induction ranges generalizing turn call content with
  | nil => exact ⟨content, rfl⟩
  | cons r ranges ih =>
    obtain ⟨res, hres⟩ := writeLoop_legal hlegal (· + ·) "failed to write whole buffer" call content
      r.1 ((payload.drop r.1).take r.2)
    have hwrite : writeAll calls call content r.1 ((payload.drop r.1).take r.2) = .ok res := hres
    simp only [writeRanges, hlegal.seek turn, hwrite]
    exact ih (turn + 1) res.1 res.2

theorem prefix_overwrite {payload content pad : List UInt8} {written len : Nat}
    (htaken : payload.take written <+: content) (hwritten : written ≤ payload.length) :
    payload.take (written + len) <+:
      overwrite 0 content written ((payload.drop written).take len ++ pad) := by
  have hlen : (payload.take written).length = written := by
    rw [List.length_take]
    omega
  obtain ⟨rest, rfl⟩ := htaken
  have hhead : (payload.take written ++ rest ++
      List.replicate (written - (payload.take written ++ rest).length) (0 : UInt8)).take written =
        payload.take written := by
    rw [List.append_assoc, List.take_left' hlen]
  rw [overwrite, hhead, List.take_add, List.append_assoc, List.append_assoc, ← List.append_assoc]
  exact List.prefix_append _ _

theorem directWriteLoop_ok {payload : List UInt8} (hfits : payload.length < 2^63) {call : Nat}
    {content out : List UInt8} {offset written : Nat}
    (hoffset : written < payload.length → offset = written)
    (htaken : payload.take written <+: content)
    (h : directWriteLoop calls payload call content offset written = .ok out) :
    payload <+: out := by
  induction call, content, offset, written using directWriteLoop.induct calls payload with
  | case1 call content offset written hlt logicalChunk buffer source herr =>
    rw [directWriteLoop, if_pos hlt] at h
    simp only [buffer, logicalChunk] at herr
    simp only [herr] at h
    cases h
  | case2 call content offset written hlt logicalChunk buffer call' content' hwrite ih =>
    obtain rfl := hoffset hlt
    have halign : defaultAlignment = 4096 := rfl
    have hchunk : logicalChunk = min (payload.length - offset) defaultAlignment := rfl
    have hlen : buffer.length = 4096 := by
      simp only [buffer, List.length_append, List.length_take, List.length_drop,
        List.length_replicate]
      omega
    have hne : buffer ≠ [] := List.ne_nil_of_length_pos (by omega)
    have hcontent : content' = _ := pwriteAll_ok hne (by omega) hwrite
    rw [directWriteLoop, if_pos hlt] at h
    simp only [buffer, logicalChunk] at hwrite
    simp only [hwrite] at h
    refine ih ?_ ?_ h
    · intro hmore
      unfold saturatingAddU64 u64Max
      omega
    · rw [hcontent]
      exact prefix_overwrite htaken (by omega)
  | case3 call content offset written hge =>
    rw [directWriteLoop, if_neg hge] at h
    obtain rfl := Except.ok.inj h
    rwa [List.take_of_length_le (by omega)] at htaken

theorem directWriteLoop_legal (hlegal : calls.Legal) (payload : List UInt8) (call : Nat)
    (content : List UInt8) (offset written : Nat) :
    ∃ out, directWriteLoop calls payload call content offset written = .ok out := by
  induction call, content, offset, written using directWriteLoop.induct calls payload with
  | case1 call content offset written hlt logicalChunk buffer source herr =>
    obtain ⟨res, hok⟩ := writeLoop_legal hlegal saturatingAddU64 "direct pwrite wrote zero bytes"
      call content offset buffer
    have hwrite : pwriteAll calls call content offset buffer = .ok res := hok
    rw [herr] at hwrite
    cases hwrite
  | case2 call content offset written hlt logicalChunk buffer call' content' hwrite ih =>
    rw [directWriteLoop, if_pos hlt]
    simp only [buffer, logicalChunk] at hwrite
    simp only [hwrite]
    exact ih
  | case3 call content offset written hge =>
    rw [directWriteLoop, if_neg hge]
    exact ⟨content, rfl⟩

theorem syncWhen_legal (hlegal : calls.Legal) (fsync : Bool) : syncWhen calls fsync = .ok () := by
  cases fsync with
  | false => rfl
  | true => exact hlegal.sync

theorem resize_of_prefix {payload out : List UInt8} (h : payload <+: out) :
    resize 0 out payload.length = payload := by
  obtain ⟨rest, rfl⟩ := h
  simp [resize]

end

end CvdBench.Worker
