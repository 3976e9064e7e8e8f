import CvdBench.Worker.StreamChunks
import CvdBench.Worker.WriteFile

/-!
Whether the file that `write_file` leaves behind is the payload.
-/

set_option autoImplicit false

namespace CvdBench.Worker

open Foundation Spec

section

variable {calls : WriteCalls} {rng : Rng} {path : String} {payload : FileContent}
  {profile : IoProfile} {fsync : Bool} {out : List UInt8}

theorem writeFileBlocking_ok (h : writeFileBlocking calls payload.bytes fsync = .ok out) :
    out = payload.bytes := by
  simp only [writeFileBlocking, exceptBind_ok] at h
  obtain ⟨_, _, content, hloop, _, _, _, _, hout⟩ := h
  have hprefix : payload.bytes <+: content :=
    directWriteLoop_ok payload.fits (fun _ => rfl) (by rw [List.take_zero]) hloop
  rw [← Except.ok.inj hout]
  exact resize_of_prefix hprefix

theorem writeFile_buffered (hdirect : profile.directIo = false)
    (h : writeFile calls rng path payload profile fsync = .ok out) :
    writeBuffered calls rng path payload profile = .ok out := by
  rw [writeFile, hdirect, if_neg (by simp)] at h
  simp only [exceptBind_ok] at h
  obtain ⟨_, _, content, hcontent, _, _, _, _, hout⟩ := h
  rw [← Except.ok.inj hout]
  exact hcontent

theorem writeAll_whole (h : (writeAll calls 0 [] 0 payload.bytes).map Prod.snd = .ok out) :
    out = payload.bytes := by
  cases hres : writeAll calls 0 [] 0 payload.bytes with
  | error e =>
    rw [hres] at h
    cases h
  | ok res =>
    rw [hres] at h
    rw [← Except.ok.inj h]
    by_cases hnil : payload.bytes = []
    · rw [hnil, writeAll, writeLoop, dif_pos rfl] at hres
      rw [← Except.ok.inj hres, hnil]
    · rw [writeAll_ok hnil hres]
      simp [overwrite]

/-- Ranges that cover the payload from an index on leave zeros before it. -/
theorem writeRanges_from {ranges : List (Nat × Nat)} {start : Nat}
    (hranges : ∀ r ∈ ranges, 0 < r.2 ∧ r.1 + r.2 ≤ payload.bytes.length)
    (hcover : ∀ i, Covered ranges i ↔ start ≤ i ∧ i < payload.bytes.length)
    (hstart : start < payload.bytes.length)
    (h : writeRanges calls payload.bytes 0 0 [] ranges = .ok out) :
    out = List.replicate start 0 ++ payload.bytes.drop start := by
  have hpainted := writeRanges_painted hranges (Painted.nil payload.bytes) h
  rw [List.nil_append] at hpainted
  exact hpainted.eq_of_covered hstart hcover

theorem writeRanges_rand {blockSize : Nat}
    (h : writeRanges calls payload.bytes 0 0 []
      (rng.shuffle path payload.length (chunkRanges payload.length blockSize)) = .ok out) :
    out = payload.bytes := by
  have hperm := rng.shuffle_perm path payload.length (chunkRanges payload.length blockSize)
  have hranges : ∀ r ∈ rng.shuffle path payload.length (chunkRanges payload.length blockSize),
      0 < r.2 ∧ r.1 + r.2 ≤ payload.bytes.length :=
    fun r hr => mem_rangesFrom (hperm.mem_iff.mp hr)
  by_cases hnil : payload.bytes = []
  · have hpainted := writeRanges_painted hranges (Painted.nil payload.bytes) h
    have hlen := hpainted.within
    rw [hnil] at hlen ⊢
    exact List.eq_nil_of_length_eq_zero (by simpa using hlen)
  · have hcover : ∀ i, Covered
        (rng.shuffle path payload.length (chunkRanges payload.length blockSize)) i ↔
          0 ≤ i ∧ i < payload.bytes.length :=
      fun i => (covered_perm hperm i).trans covered_rangesFrom
    have hout := writeRanges_from hranges hcover (List.length_pos_iff.mpr hnil) h
    simpa using hout

theorem writeRanges_unaligned {blockSize : Nat}
    (h : writeRanges calls payload.bytes 0 0 []
      (unalignedRanges rng payload.length blockSize path) = .ok out) :
    (rng.genRange path payload.length < payload.length ∧
        out = List.replicate (rng.genRange path payload.length) 0 ++
          payload.bytes.drop (rng.genRange path payload.length)) ∨
      payload.bytes = [] ∧ out = [] := by
  by_cases hnil : payload.bytes = []
  · right
    have hlen : payload.length = 0 := by rw [FileContent.length, hnil]; rfl
    rw [unalignedRanges, if_pos hlen, writeRanges] at h
    exact ⟨hnil, (Except.ok.inj h).symm⟩
  · left
    have hpos : 0 < payload.length := List.length_pos_iff.mpr hnil
    rw [unalignedRanges, if_neg (by omega)] at h
    have hstart := rng.genRange_lt path payload.length hpos
    exact ⟨hstart, writeRanges_from (fun r hr => mem_rangesFrom hr)
      (fun i => covered_rangesFrom) hstart h⟩

theorem writeBuffered_legal (hlegal : calls.Legal) (rng : Rng) (path : String)
    (payload : FileContent) (profile : IoProfile) :
    ∃ out, writeBuffered calls rng path payload profile = .ok out := by
  unfold writeBuffered
  split
  · split
    · obtain ⟨res, hres⟩ := writeLoop_legal hlegal (· + ·) "failed to write whole buffer" 0 [] 0
        payload.bytes
      have hwrite : writeAll calls 0 [] 0 payload.bytes = .ok res := hres
      rw [hwrite]
      exact ⟨res.2, rfl⟩
    · exact writeRanges_legal hlegal _ _ _ _ _
  · exact writeRanges_legal hlegal _ _ _ _ _

theorem writeFile_legal (hlegal : calls.Legal) (rng : Rng) (path : String) (payload : FileContent)
    (profile : IoProfile) (fsync : Bool) :
    ∃ out, writeFile calls rng path payload profile fsync = .ok out := by
  unfold writeFile
  split
  · obtain ⟨out, hout⟩ := directWriteLoop_legal hlegal payload.bytes 0 [] 0 0
    refine ⟨resize 0 out payload.bytes.length, ?_⟩
    simp only [writeFileBlocking, exceptBind_ok]
    exact ⟨(), hlegal.create, out, hout, (), hlegal.setLen, (), syncWhen_legal hlegal fsync, rfl⟩
  · obtain ⟨out, hout⟩ := writeBuffered_legal hlegal rng path payload profile
    refine ⟨out, ?_⟩
    simp only [exceptBind_ok]
    exact ⟨(), hlegal.create, out, hout, (), syncWhen_legal hlegal fsync, (), hlegal.flush, rfl⟩

end

theorem sha256Loop_ok {calls : FileCalls} (hlegal : calls.Legal) {call offset : Nat}
    {hasher fed : List UInt8} (h : sha256Loop calls call offset hasher = .ok fed) :
    fed = hasher ++ calls.file.bytes.drop offset := by
  induction call, offset, hasher using sha256Loop.induct calls with
  | case1 call offset hasher source herr =>
    obtain ⟨bytes, hok⟩ := hlegal.readAt_ok call offset 8192
    rw [herr] at hok
    cases hok
  | case2 call offset hasher hnil =>
    rw [sha256Loop] at h
    split at h
    · cases h
    · rw [← Except.ok.inj h, hlegal.readAt_nil (by decide) hnil, List.append_nil]
    · simp_all
  | case3 call offset hasher b bytes hread ih =>
    rw [sha256Loop] at h
    split at h
    · cases h
    · simp_all
    · next b' bytes' hread' =>
      rw [hread] at hread'
      cases hread'
      rw [ih h, List.append_assoc, FileCalls.readAt_drop hread]

theorem verifyAfterWrite_whole {calls : FileCalls} (hlegal : calls.Legal)
    (sha256 : List UInt8 → List UInt8) (path : String) (p : String) :
    verifyAfterWrite calls sha256 path calls.file.bytes ≠ .error (.mismatch p) := by
  intro hmismatch
  unfold verifyAfterWrite at hmismatch
  cases hread : streamSha256 calls sha256 with
  | error source =>
    rw [hread] at hmismatch
    cases hmismatch
  | ok actual =>
    simp only [streamSha256, exceptBind_ok] at hread
    obtain ⟨_, hopen, fed, hfed, hactual⟩ := hread
    have hwhole : fed = calls.file.bytes := by
      rw [sha256Loop_ok hlegal hfed, List.drop_zero, List.nil_append]
    have hsame : actual = sha256 calls.file.bytes := by
      rw [← Except.ok.inj hactual, hwhole]
    have hread : streamSha256 calls sha256 = .ok actual := by
      simp only [streamSha256, exceptBind_ok]
      exact ⟨(), hopen, fed, hfed, hactual⟩
    simp only [hread, hsame, ne_eq, not_true_eq_false, if_false] at hmismatch
    cases hmismatch

def WriteCalls.whole : WriteCalls :=
  { create := .ok (), seek := fun _ => .ok (), write := fun _ => .ok (2^63), setLen := .ok ()
    sync := .ok (), flush := .ok () }

theorem WriteCalls.whole_legal : WriteCalls.whole.Legal :=
  ⟨rfl, fun _ => rfl, fun _ => ⟨2^63, by decide, rfl⟩, rfl, rfl, rfl⟩

theorem take_zeros {bytes : List UInt8} {n : Nat} (hzero : ∀ b ∈ bytes.take n, b = 0)
    (hle : n ≤ bytes.length) : bytes.take n = List.replicate n 0 := by
  refine List.eq_replicate_of_mem hzero |>.trans ?_
  rw [List.length_take, Nat.min_eq_left hle]

section

variable (rng : Rng) (path : String) (payload : FileContent) (profile : IoProfile) (fsync : Bool)

structure WritesPayload : Prop where
  returns : ∀ calls : WriteCalls, calls.Legal →
    ∃ out, writeFile calls rng path payload profile fsync = .ok out
  persists : ∀ (calls : WriteCalls) out,
    writeFile calls rng path payload profile fsync = .ok out → out = payload.bytes
  verifies : ∀ (calls : WriteCalls) out,
    writeFile calls rng path payload profile fsync = .ok out →
      ∀ (reads : FileCalls) sha256, reads.Legal → reads.file.bytes = out →
        ∀ p, verifyAfterWrite reads sha256 path payload.bytes ≠ .error (.mismatch p)

/-- The strategy leaves nothing out, or what it leaves out is zero anyway. -/
def WriteCovers : Prop :=
  profile.directIo = true ∨ profile.ioMode = .rand ∨ profile.ioAligned = true ∨
    ∀ b ∈ payload.bytes.take (rng.genRange path payload.length), b = 0

theorem writeFile_payload (hcover : WriteCovers rng path payload profile) {calls : WriteCalls}
    {out : List UInt8} (h : writeFile calls rng path payload profile fsync = .ok out) :
    out = payload.bytes := by
  cases hdirect : profile.directIo with
  | true =>
    rw [writeFile, if_pos hdirect] at h
    exact writeFileBlocking_ok h
  | false =>
    have hcontent := writeFile_buffered hdirect h
    unfold writeBuffered at hcontent
    cases hmode : profile.ioMode with
    | rand =>
      rw [hmode] at hcontent
      exact writeRanges_rand hcontent
    | seq =>
      rw [hmode] at hcontent
      cases haligned : profile.ioAligned with
      | true =>
        rw [haligned] at hcontent
        exact writeAll_whole hcontent
      | false =>
        have hzero : ∀ b ∈ payload.bytes.take (rng.genRange path payload.length), b = 0 := by
          rcases hcover with hd | hm | ha | hzero
          · rw [hdirect] at hd
            cases hd
          · rw [hmode] at hm
            cases hm
          · rw [haligned] at ha
            cases ha
          · exact hzero
        rw [haligned] at hcontent
        rcases writeRanges_unaligned hcontent with ⟨hstart, hout⟩ | ⟨hnil, hout⟩
        · rw [hout, ← take_zeros hzero (Nat.le_of_lt hstart), List.take_append_drop]
        · rw [hout, hnil]

theorem covers_of_payload (hreturns : ∀ calls : WriteCalls, calls.Legal →
      ∃ out, writeFile calls rng path payload profile fsync = .ok out)
    (hall : ∀ (calls : WriteCalls) out,
      writeFile calls rng path payload profile fsync = .ok out → out = payload.bytes) :
    WriteCovers rng path payload profile := by
  cases hdirect : profile.directIo with
  | true => exact Or.inl hdirect
  | false =>
    cases hmode : profile.ioMode with
    | rand => exact Or.inr (Or.inl hmode)
    | seq =>
      cases haligned : profile.ioAligned with
      | true => exact Or.inr (Or.inr (Or.inl haligned))
      | false =>
        refine Or.inr (Or.inr (Or.inr ?_))
        obtain ⟨out, hout⟩ := hreturns .whole WriteCalls.whole_legal
        have hpayload := hall _ out hout
        have hcontent := writeFile_buffered hdirect hout
        rw [writeBuffered, hmode] at hcontent
        simp only [haligned] at hcontent
        intro b hb
        rcases writeRanges_unaligned hcontent with ⟨-, heq⟩ | ⟨hnil, -⟩
        · rw [← hpayload, heq, List.take_left' (List.length_replicate)] at hb
          exact List.eq_of_mem_replicate hb
        · rw [hnil, List.take_nil] at hb
          simp at hb

/-- Every write leaves the payload, and the check after it agrees, exactly for the strategies
that begin at the beginning, or where only zeros come before. -/
theorem writes_payload_iff :
    WritesPayload rng path payload profile fsync ↔ WriteCovers rng path payload profile := by
  constructor
  · intro h
    exact covers_of_payload rng path payload profile fsync h.returns h.persists
  · intro hcover
    refine ⟨fun calls hlegal => writeFile_legal hlegal rng path payload profile fsync,
      fun calls out h => writeFile_payload rng path payload profile fsync hcover h, ?_⟩
    intro calls out h reads sha256 hlegal hfile p
    have hpayload := writeFile_payload rng path payload profile fsync hcover h
    rw [← hpayload, ← hfile]
    exact verifyAfterWrite_whole hlegal sha256 path p

end

namespace Small

theorem lastByte_lt {len : Nat} (h : 0 < len) : len - 1 < len := Nat.sub_lt h Nat.one_pos

def lastByte : Rng where
  genRange _ len := len - 1
  genRange_lt _ _ h := lastByte_lt h
  shuffle _ _ ranges := ranges
  shuffle_perm _ _ ranges := .refl ranges

def alphabet : FileContent := ⟨[97, 98, 99], by decide⟩

def unalignedSeq : IoProfile := ⟨.seq, false, false, 512⟩

end Small

/-- Sequential and unaligned, the file begins with zeros. -/
theorem unaligned_write_loses_head :
    writeFile .whole Small.lastByte "/mnt/fs/out/f" Small.alphabet Small.unalignedSeq false =
        .ok [0, 0, 99] ∧
      ¬ WritesPayload Small.lastByte "/mnt/fs/out/f" Small.alphabet Small.unalignedSeq false := by
  obtain ⟨out, hout⟩ := writeFile_legal WriteCalls.whole_legal Small.lastByte "/mnt/fs/out/f"
    Small.alphabet Small.unalignedSeq false
  have hcontent : writeRanges .whole Small.alphabet.bytes 0 0 []
      (unalignedRanges Small.lastByte Small.alphabet.length
        (usizeBlock Small.unalignedSeq.blockSize) "/mnt/fs/out/f") = .ok out :=
    writeFile_buffered rfl hout
  have hzeros : out = [0, 0, 99] := by
    rcases writeRanges_unaligned hcontent with ⟨-, heq⟩ | ⟨hnil, -⟩
    · exact heq
    · exact absurd hnil (by decide)
  rw [hzeros] at hout
  refine ⟨hout, ?_⟩
  intro h
  exact absurd (h.persists _ _ hout) (by decide)

end CvdBench.Worker
