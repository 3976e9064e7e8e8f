import CvdBench.Properties.PathContainment
import CvdBench.Worker.Identity

/-!
A daemon's own id: the master accepts it, unless the name of the host is too long, it tells
what it was made of, and it is the name of a directory.
-/

set_option autoImplicit false

namespace CvdBench.Worker

open Spec

theorem utf8Size_of_isAllowed {c : Char} (h : isAllowed c = true) : c.utf8Size = 1 := by
  rw [Char.utf8Size_eq_one_iff]
  simp only [isAllowed, Bool.or_eq_true, Bool.and_eq_true, decide_eq_true_eq, beq_iff_eq,
    Char.le_def] at h
  rcases h with ((((h | h) | h) | rfl) | rfl) | rfl
  · exact Nat.le_trans h.2 (by decide)
  · exact Nat.le_trans h.2 (by decide)
  · exact Nat.le_trans h.2 (by decide)
  · decide
  · decide
  · decide

theorem utf8ByteSize_of_isAllowed (cs : List Char) (h : ∀ c ∈ cs, isAllowed c = true) :
    (String.ofList cs).utf8ByteSize = cs.length := by
  induction cs with
  | nil => rfl
  | cons c cs ih =>
    have hc := utf8Size_of_isAllowed (h c (List.mem_cons_self ..))
    have hcs := ih fun c' hc' => h c' (List.mem_cons_of_mem _ hc')
    rw [String.ofList_cons, String.utf8ByteSize_append, String.utf8ByteSize_singleton, hc, hcs,
      List.length_cons, Nat.add_comm]

theorem append_cons_inj_right {α : Type} {a : α} {xs ys xs' ys' : List α} (hys : a ∉ ys)
    (hys' : a ∉ ys') (h : xs ++ a :: ys = xs' ++ a :: ys') : xs = xs' ∧ ys = ys' := by
  have hrev : ys.reverse ++ a :: xs.reverse = ys'.reverse ++ a :: xs'.reverse := by
    simpa using congrArg List.reverse h
  rcases List.append_eq_append_iff.mp hrev with ⟨zs, hlong, hcut⟩ | ⟨zs, hlong, hcut⟩
  · cases zs with
    | nil =>
      obtain ⟨-, hxs⟩ := List.cons.inj hcut
      exact ⟨(List.reverse_injective hxs), List.reverse_injective (by simpa using hlong.symm)⟩
    | cons z zs =>
      obtain ⟨rfl, -⟩ := List.cons.inj hcut
      have hmem : a ∈ ys'.reverse := by simp [hlong]
      exact absurd (List.mem_reverse.mp hmem) hys'
  · cases zs with
    | nil =>
      obtain ⟨-, hxs⟩ := List.cons.inj hcut
      exact ⟨(List.reverse_injective hxs).symm, List.reverse_injective (by simpa using hlong)⟩
    | cons z zs =>
      obtain ⟨rfl, -⟩ := List.cons.inj hcut
      have hmem : a ∈ ys.reverse := by simp [hlong]
      exact absurd (List.mem_reverse.mp hmem) hys

theorem dash_notMem_digits (n : Nat) : '-' ∉ Nat.toDigits 10 n := fun h =>
  absurd (Nat.isDigit_of_mem_toDigits (by decide) (by decide) h) (by decide)

theorem dash_notMem_hex : '-' ∉ hexDigits := by decide

theorem dash_notMem_uuid (uuid : SimpleUuid) : '-' ∉ uuid.chars.take 8 := fun h =>
  dash_notMem_hex (uuid.digits _ (List.mem_of_mem_take h))

theorem generate_inj {content content' : Option String} {pid pid' : UInt32}
    {uuid uuid' : SimpleUuid} (h : generate content pid uuid = generate content' pid' uuid') :
    sanitizeHostname (hostnameOrDefault content) = sanitizeHostname (hostnameOrDefault content') ∧
      pid = pid' ∧ uuid8 uuid = uuid8 uuid' := by
  have hchars := congrArg String.toList h
  rw [toList_generate, toList_generate] at hchars
  obtain ⟨hleft, huuid⟩ :=
    append_cons_inj_right (dash_notMem_uuid uuid) (dash_notMem_uuid uuid') hchars
  obtain ⟨hhost, hdigits⟩ :=
    append_cons_inj_right (dash_notMem_digits _) (dash_notMem_digits _) hleft
  refine ⟨String.toList_inj.mp hhost, UInt32.toNat_inj.mp ?_, congrArg String.ofList huuid⟩
  calc
    pid.toNat = Nat.ofDigitChars 10 (Nat.toDigits 10 pid.toNat) 0 :=
      Nat.ofDigitChars_ten_toDigits.symm
    _ = Nat.ofDigitChars 10 (Nat.toDigits 10 pid'.toNat) 0 := by rw [hdigits]
    _ = pid'.toNat := Nat.ofDigitChars_ten_toDigits

theorem length_generate (content : Option String) (pid : UInt32) (uuid : SimpleUuid) :
    (generate content pid uuid).toList.length =
      (hostnameOrDefault content).toList.length + (Nat.toDigits 10 pid.toNat).length + 10 := by
  rw [toList_generate, toList_sanitizeHostname]
  simp only [List.length_append, List.length_map, List.length_cons, List.length_take, uuid.length]
  omega

theorem length_pid (pid : UInt32) : (Nat.toDigits 10 pid.toNat).length ≤ 10 := by
  rw [Nat.length_toDigits_le_iff (by decide) (by decide)]
  have hlt := pid.toNat_lt
  omega

theorem validate_generate (content : Option String) (pid : UInt32) (uuid : SimpleUuid) :
    validateWorkerId (generate content pid uuid) =
      if (generate content pid uuid).toList.length ≤ maxWorkerIdLen then .ok ()
      else .error (.tooLong (generate content pid uuid).toList.length) := by
  have hallowed := generate_allowed content pid uuid
  have hsize : (generate content pid uuid).utf8ByteSize =
      (generate content pid uuid).toList.length := by
    have hbytes := utf8ByteSize_of_isAllowed _ hallowed
    rwa [String.ofList_toList] at hbytes
  have hlength := length_generate content pid uuid
  have hne : (generate content pid uuid).isEmpty = false := by
    rw [Bool.eq_false_iff]
    intro hempty
    rw [String.isEmpty_iff] at hempty
    simp [hempty] at hlength
  have hfind : (generate content pid uuid).toList.find? (fun ch => !isAllowed ch) = none := by
    rw [List.find?_eq_none]
    intro c hc
    simp [hallowed c hc]
  unfold validateWorkerId
  rw [hne, hsize, hfind]
  by_cases hle : (generate content pid uuid).toList.length ≤ maxWorkerIdLen
  · simp [hle]
  · simp [hle, Nat.lt_of_not_le hle]

theorem generate_plain (content : Option String) (pid : UInt32) (uuid : SimpleUuid) :
    ¬ Dotted (generate content pid uuid) := by
  have hlength := length_generate content pid uuid
  rintro (hdot | hdot) <;> rw [hdot] at hlength <;> simp at hlength

/-- The master accepts the id of a daemon exactly if the host name is not too long for it, which
it is not up to 108 characters; two daemons with one id share the host's part, the process and
the digits of the UUID; and the directory of a daemon that is accepted lies below the one that
the job names. -/
theorem generated_worker_id {mountPoint dir jobId : String} (hmount : PlainMount mountPoint)
    (hdir : validateRelative dir = .ok ()) (hjob : IsUuid jobId) (content : Option String)
    (pid : UInt32) (uuid : SimpleUuid) :
    (validateWorkerId (generate content pid uuid) = .ok () ↔
      (hostnameOrDefault content).toList.length + (Nat.toDigits 10 pid.toNat).length + 10 ≤
        maxWorkerIdLen) ∧
    ((hostnameOrDefault content).toList.length ≤ 108 →
      validateWorkerId (generate content pid uuid) = .ok ()) ∧
    (∀ content' pid' uuid', generate content pid uuid = generate content' pid' uuid' →
      sanitizeHostname (hostnameOrDefault content) =
        sanitizeHostname (hostnameOrDefault content') ∧ pid = pid' ∧ uuid8 uuid = uuid8 uuid') ∧
    (validateWorkerId (generate content pid uuid) = .ok () →
      Contained mountPoint dir (generate content pid uuid) jobId) ∧
    ∃ id, validateWorkerId id = .ok () ∧ ¬ Contained mountPoint dir id jobId := by
  have hvalid : validateWorkerId (generate content pid uuid) = .ok () ↔
      (hostnameOrDefault content).toList.length + (Nat.toDigits 10 pid.toNat).length + 10 ≤
        maxWorkerIdLen := by
    rw [validate_generate, length_generate]
    split
    · next hle => exact ⟨fun _ => hle, fun _ => rfl⟩
    · next hlong => exact ⟨nofun, fun hle => absurd hle hlong⟩
  refine ⟨hvalid, fun hhost => hvalid.mpr ?_, fun _ _ _ h => generate_inj h, fun hok => ?_,
    "..", by decide, ?_⟩
  · have hpid := length_pid pid
    unfold maxWorkerIdLen
    omega
  · exact (contained_iff hmount hdir hok hjob).mpr (generate_plain content pid uuid)
  · intro hcontained
    exact (contained_iff hmount hdir (by decide) hjob).mp hcontained (.inr rfl)

namespace Small

def simpleChars : List Char := "7af2c9100d1e4f2a8b3c4d5e6f708192".toList

theorem length_simpleChars : simpleChars.length = 32 := by decide

theorem simpleChars_digits : ∀ c ∈ simpleChars, c ∈ hexDigits := by
  intro c hc
  have hall : simpleChars.all hexDigits.contains = true := by decide
  exact List.contains_iff_mem.mp (List.all_eq_true.mp hall c hc)

def simple : SimpleUuid := ⟨simpleChars, length_simpleChars, simpleChars_digits⟩

end Small

theorem generated_worker_id_small :
    validateWorkerId (generate (some "node 12\n") 3941 Small.simple) = .ok () ∧
      Contained "/mnt/cvd" "bench" (generate (some "node 12\n") 3941 Small.simple) Small.uuid := by
  obtain ⟨-, hshort, -, hcontained, -⟩ := generated_worker_id
    (⟨by decide, by decide⟩ : PlainMount "/mnt/cvd")
    (by decide : validateRelative "bench" = .ok ()) (by decide : IsUuid Small.uuid)
    (some "node 12\n") 3941 Small.simple
  have hok := hshort (by decide +kernel)
  exact ⟨hok, hcontained hok⟩

end CvdBench.Worker
