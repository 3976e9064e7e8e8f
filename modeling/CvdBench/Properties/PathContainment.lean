import CvdBench.Worker.WorkRoot

/-!
Where the work roots of a worker lie, and that the removal of one stays inside it.
-/

set_option autoImplicit false

namespace CvdBench.Worker

open Foundation

/-- A mount point of the configuration: absolute, without `.` and `..`. -/
structure PlainMount (mountPoint : String) : Prop where
  absolute : mountPoint.toList.head? = some '/'
  plain : ∀ seg ∈ Spec.splitSlash mountPoint.toList, seg ≠ ['.'] ∧ seg ≠ ['.', '.']

def isHexLower (c : Char) : Bool := ('0' ≤ c && c ≤ '9') || ('a' ≤ c && c ≤ 'f')

/-- The text of a UUID: 32 hexadecimal digits, hyphens after the 8th, 12th, 16th and 20th. -/
def IsUuid (id : String) : Prop :=
  id.toList.length = 36 ∧ ∀ item ∈ id.toList.zipIdx,
    if item.2 = 8 ∨ item.2 = 13 ∨ item.2 = 18 ∨ item.2 = 23 then item.1 = '-'
    else isHexLower item.1 = true

instance (id : String) : Decidable (IsUuid id) :=
  inferInstanceAs (Decidable (_ ∧ ∀ item ∈ id.toList.zipIdx, _))

def baseOf (mountPoint dir : String) : List (List Char) :=
  segments mountPoint.toList ++ segments dir.toList

structure Contained (mountPoint dir workerId jobId : String) : Prop where
  normalized : normalize (workRoot mountPoint dir workerId jobId) =
    baseOf mountPoint dir ++ [workerId.toList, jobId.toList]
  inside : ∀ kind s, (cleanupRoot mountPoint.toList (workRoot mountPoint dir workerId jobId) kind =
        .sweep s ∨
      bestEffortCleanup mountPoint.toList (workRoot mountPoint dir workerId jobId) kind =
        .sweep s) →
    ∃ below, below ≠ [] ∧
      normalize (workRoot mountPoint dir workerId jobId) = baseOf mountPoint dir ++ below
  cleaned : ∀ kind s, (cleanupRoot mountPoint.toList (workRoot mountPoint dir workerId jobId) kind =
        .sweep s ∨
      bestEffortCleanup mountPoint.toList (workRoot mountPoint dir workerId jobId) kind =
        .sweep s) →
    ∀ tr t, (sweeping s).Run (sweeping s).init tr t → ∀ e ∈ tr, ∀ removal, e.out = some removal →
      baseOf mountPoint dir ++ [workerId.toList, jobId.toList] <+: normalize removal.path

/-- The roots of two jobs below one directory: each contained, and neither within the other. -/
structure RootsSeparate (mountPoint dir : String) (owner owner' : String × String) : Prop where
  left : Contained mountPoint dir owner.1 owner.2
  right : Contained mountPoint dir owner'.1 owner'.2
  apart : owner ≠ owner' →
    ¬ normalize (workRoot mountPoint dir owner.1 owner.2) <+:
        normalize (workRoot mountPoint dir owner'.1 owner'.2) ∧
      ¬ normalize (workRoot mountPoint dir owner'.1 owner'.2) <+:
        normalize (workRoot mountPoint dir owner.1 owner.2)

/-- The two names that `id::validate` lets through and that are no names of an entry. -/
def Dotted (workerId : String) : Prop := workerId = "." ∨ workerId = ".."

theorem isAllowed_slash : Spec.isAllowed '/' = false := by decide

theorem validateWorkerId_ok {id : String} (h : Spec.validateWorkerId id = .ok ()) :
    id.toList ≠ [] ∧ '/' ∉ id.toList := by
  unfold Spec.validateWorkerId at h
  split at h
  · cases h
  · next hempty =>
    split at h
    · cases h
    · split at h
      · cases h
      · next hnone =>
        constructor
        · intro hnil
          apply hempty
          rw [String.isEmpty_iff, ← String.toList_eq_nil_iff, hnil]
        · intro hslash
          have hall := List.find?_eq_none.mp hnone '/' hslash
          rw [isAllowed_slash] at hall
          simp at hall

theorem IsUuid.name {id : String} (h : IsUuid id) :
    id.toList ≠ [] ∧ '/' ∉ id.toList ∧ id.toList ≠ ['.'] ∧ id.toList ≠ ['.', '.'] := by
  obtain ⟨hlen, hchars⟩ := h
  refine ⟨?_, ?_, ?_, ?_⟩
  · intro hnil
    simp [hnil] at hlen
  · intro hslash
    obtain ⟨i, hi⟩ := List.getElem?_of_mem hslash
    have hc := hchars ('/', i) (List.mk_mem_zipIdx_iff_getElem?.mpr hi)
    simp only at hc
    split at hc
    · exact absurd hc (by decide)
    · exact absurd hc (by decide)
  · intro hdot
    simp [hdot] at hlen
  · intro hdots
    simp [hdots] at hlen

theorem dotted_iff (id : String) : Dotted id ↔ id.toList = ['.'] ∨ id.toList = ['.', '.'] := by
  unfold Dotted
  rw [← String.toList_inj, ← String.toList_inj]
  rfl

section

variable {mountPoint dir workerId jobId : String}

theorem plain_segments {path : List Char}
    (h : ∀ seg ∈ Spec.splitSlash path, seg ≠ ['.'] ∧ seg ≠ ['.', '.']) :
    ∀ seg ∈ segments path, seg ≠ ['.'] ∧ seg ≠ ['.', '.'] :=
  fun seg hseg => h seg (List.mem_filter.mp hseg).1

theorem segments_workRoot (hmount : PlainMount mountPoint)
    (hdir : Spec.validateRelative dir = .ok ()) (hworker : Spec.validateWorkerId workerId = .ok ())
    (hjob : IsUuid jobId) :
    segments (workRoot mountPoint dir workerId jobId) =
      baseOf mountPoint dir ++ [workerId.toList, jobId.toList] := by
  have hmount' : mountPoint.toList ≠ [] := by
    intro hnil
    have habs := hmount.absolute
    simp [hnil] at habs
  obtain ⟨hw, hwslash⟩ := validateWorkerId_ok hworker
  obtain ⟨hj, hjslash, -⟩ := hjob.name
  have hbase := joinPath_ne_nil dir.toList hmount'
  unfold workRoot
  rw [segments_join (joinPath_ne_nil _ hbase) (noSlash_head hjslash),
    segments_join hbase (noSlash_head hwslash),
    segments_join hmount' (Spec.validateRelative_ok hdir).2.1, segments_name hw hwslash,
    segments_name hj hjslash, baseOf]
  simp

theorem baseOf_plain (hmount : PlainMount mountPoint) (hdir : Spec.validateRelative dir = .ok ()) :
    ∀ seg ∈ baseOf mountPoint dir, seg ≠ ['.'] ∧ seg ≠ ['.', '.'] := by
  intro seg hseg
  rcases List.mem_append.mp hseg with hseg | hseg
  · exact plain_segments hmount.plain seg hseg
  · exact plain_segments (Spec.validateRelative_ok hdir).2.2 seg hseg

theorem normalize_workRoot_iff (hmount : PlainMount mountPoint)
    (hdir : Spec.validateRelative dir = .ok ()) (hworker : Spec.validateWorkerId workerId = .ok ())
    (hjob : IsUuid jobId) :
    normalize (workRoot mountPoint dir workerId jobId) =
      baseOf mountPoint dir ++ [workerId.toList, jobId.toList] ↔ ¬ Dotted workerId := by
  have hbase := baseOf_plain hmount hdir
  have hjplain : ∀ n ∈ [jobId.toList], n ≠ ['.'] ∧ n ≠ ['.', '.'] := by
    simpa using hjob.name.2.2
  have hresolved : normalize (workRoot mountPoint dir workerId jobId) =
      resolve ['.'] ['.', '.'] (baseOf mountPoint dir ++ [workerId.toList]) ++ [jobId.toList] := by
    unfold normalize
    rw [segments_workRoot hmount hdir hworker hjob, ← resolve_append_names _ hjplain]
    simp
  rw [hresolved, dotted_iff]
  constructor
  · intro heq hdots
    have hlen := congrArg List.length heq
    rcases hdots with hdot | hdots
    · rw [hdot, resolve_concat_here, resolve_names hbase] at hlen
      simp at hlen
    · rw [hdots, resolve_concat_parent _ (by decide), resolve_names hbase] at hlen
      simp at hlen
  · intro hplain
    have hwplain : ∀ n ∈ [workerId.toList], n ≠ ['.'] ∧ n ≠ ['.', '.'] := by
      simpa [not_or] using hplain
    rw [resolve_append_names _ hwplain, resolve_names hbase]
    simp

theorem workRoot_ne_nil (hmount : PlainMount mountPoint) :
    workRoot mountPoint dir workerId jobId ≠ [] := by
  have hmount' : mountPoint.toList ≠ [] := by
    intro hnil
    have habs := hmount.absolute
    simp [hnil] at habs
  exact joinPath_ne_nil _ (joinPath_ne_nil _ (joinPath_ne_nil _ hmount'))

theorem cleanup_sweep {mount root : List Char} {kind : RootKind} {s : Sweep}
    (h : cleanupRoot mount root kind = .sweep s ∨ bestEffortCleanup mount root kind = .sweep s) :
    s = .from root := by
  unfold cleanupRoot bestEffortCleanup at h
  rcases h with h | h
  · split at h
    · cases h
    · cases kind <;> cases h
      rfl
  · split at h
    · cases h
    · cases kind <;> cases h
      rfl

theorem contained_iff (hmount : PlainMount mountPoint) (hdir : Spec.validateRelative dir = .ok ())
    (hworker : Spec.validateWorkerId workerId = .ok ()) (hjob : IsUuid jobId) :
    Contained mountPoint dir workerId jobId ↔ ¬ Dotted workerId := by
  constructor
  · intro h
    exact (normalize_workRoot_iff hmount hdir hworker hjob).mp h.normalized
  · intro hplain
    have hnorm := (normalize_workRoot_iff hmount hdir hworker hjob).mpr hplain
    refine ⟨hnorm, ?_, ?_⟩
    · intro kind s _
      exact ⟨_, by simp, hnorm⟩
    · intro kind s hstart tr t hrun e he removal hout
      obtain rfl := cleanup_sweep hstart
      rw [← hnorm]
      exact (removal_below (workRoot_ne_nil hmount) hrun e he removal hout).2

end

/-- The work roots below a directory are contained and apart exactly for the worker ids that
are not `.` or `..`. -/
theorem path_containment_iff (mountPoint dir : String) (owner owner' : String × String)
    (hmount : PlainMount mountPoint) (hdir : Spec.validateRelative dir = .ok ())
    (hworker : Spec.validateWorkerId owner.1 = .ok ())
    (hworker' : Spec.validateWorkerId owner'.1 = .ok ())
    (hjob : IsUuid owner.2) (hjob' : IsUuid owner'.2) :
    RootsSeparate mountPoint dir owner owner' ↔ ¬ Dotted owner.1 ∧ ¬ Dotted owner'.1 := by
  constructor
  · intro h
    exact ⟨(contained_iff hmount hdir hworker hjob).mp h.left,
      (contained_iff hmount hdir hworker' hjob').mp h.right⟩
  · rintro ⟨hplain, hplain'⟩
    have hleft := (contained_iff hmount hdir hworker hjob).mpr hplain
    have hright := (contained_iff hmount hdir hworker' hjob').mpr hplain'
    refine ⟨hleft, hright, ?_⟩
    intro hne
    rw [hleft.normalized, hright.normalized]
    have hsame : ∀ a b : String × String,
        baseOf mountPoint dir ++ [a.1.toList, a.2.toList] <+:
          baseOf mountPoint dir ++ [b.1.toList, b.2.toList] → a = b := by
      intro a b hprefix
      have heq := hprefix.eq_of_length (by simp)
      have hpair := List.append_cancel_left heq
      simp only [List.cons.injEq, and_true, String.toList_inj] at hpair
      exact Prod.ext hpair.1 hpair.2
    exact ⟨fun hp => hne (hsame _ _ hp), fun hp => hne (hsame _ _ hp).symm⟩

namespace Small

def uuid : String := "0a1b2c3d-0000-4000-8000-00000000000a"

def otherUuid : String := "0a1b2c3d-0000-4000-8000-00000000000b"

end Small

theorem path_containment_small :
    RootsSeparate "/mnt/fs" "bench/out" ("node12-3941-7af2c910", Small.uuid)
      ("node12-3941-7af2c910", Small.otherUuid) :=
  (path_containment_iff "/mnt/fs" "bench/out" ("node12-3941-7af2c910", Small.uuid)
    ("node12-3941-7af2c910", Small.otherUuid) ⟨by decide, by decide⟩ (by decide) (by decide)
    (by decide) (by decide) (by decide)).mpr
    ⟨by unfold Dotted; decide, by unfold Dotted; decide⟩

/-- The id `..` is accepted, and its roots lie beside the directory of the workload. -/
theorem dotted_worker_escapes : Spec.validateWorkerId ".." = .ok () ∧
    ¬ RootsSeparate "/mnt/fs" "bench/out" ("..", Small.uuid) ("..", Small.uuid) := by
  refine ⟨by decide, ?_⟩
  intro h
  have hnorm := h.left.normalized
  have hbeside : normalize (workRoot "/mnt/fs" "bench/out" ".." Small.uuid) =
      ["mnt".toList, "fs".toList, "bench".toList, Small.uuid.toList] := by decide
  rw [hbeside] at hnorm
  exact absurd hnorm (by decide)

end CvdBench.Worker
