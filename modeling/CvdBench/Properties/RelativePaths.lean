import CvdBench.Worker.WorkRoot

/-!
`normalize_relative` keeps the non-empty segments of a relative path, and nothing else.
-/

set_option autoImplicit false

namespace CvdBench.Spec

open Foundation.Text

theorem mem_splitSlash {cs seg : List Char} (h : seg ∈ splitSlash cs) : '/' ∉ seg := by
  induction cs generalizing seg with
  | nil =>
    obtain rfl := List.mem_singleton.mp h
    simp
  | cons c cs ih =>
    by_cases hc : c = '/'
    · subst hc
      rcases List.mem_cons.mp h with rfl | h
      · simp
      · exact ih h
    · obtain ⟨first, rest, hsplit⟩ := List.exists_cons_of_ne_nil (splitSlash_ne_nil cs)
      rw [splitSlash_cons hc, hsplit] at h
      rw [hsplit] at ih
      rcases List.mem_cons.mp h with rfl | h
      · have hfirst := ih List.mem_cons_self
        simp [hfirst, Ne.symm hc]
      · exact ih (List.mem_cons_of_mem _ h)

theorem joinSlash_splitSlash (cs : List Char) : joinSlash (splitSlash cs) = cs := by
  induction cs with
  | nil => rfl
  | cons c cs ih =>
    by_cases hc : c = '/'
    · subst hc
      rw [splitSlash, joinSlash_cons (splitSlash_ne_nil cs), ih, List.nil_append]
    · obtain ⟨first, rest, hsplit⟩ := List.exists_cons_of_ne_nil (splitSlash_ne_nil cs)
      rw [hsplit] at ih
      rw [splitSlash_cons hc, hsplit]
      cases rest with
      | nil => exact congrArg (c :: ·) ih
      | cons seg segs => exact congrArg (c :: ·) ih

theorem mem_joinSlash_of_mem {c : Char} {seg : List Char} {segs : List (List Char)}
    (hseg : seg ∈ segs) (hc : c ∈ seg) : c ∈ joinSlash segs := by
  induction segs with
  | nil => cases hseg
  | cons first segs ih =>
    by_cases hsegs : segs = []
    · subst hsegs
      obtain rfl := List.mem_singleton.mp hseg
      exact hc
    · rw [joinSlash_cons hsegs, List.mem_append, List.mem_cons]
      rcases List.mem_cons.mp hseg with rfl | hseg
      · exact .inl hc
      · exact .inr (.inr (ih hseg))

theorem mem_segment_iff {c : Char} {cs : List Char} (hc : c ≠ '/') :
    (∃ seg ∈ splitSlash cs, c ∈ seg) ↔ c ∈ cs := by
  constructor
  · rintro ⟨seg, hseg, hmem⟩
    have hjoin := mem_joinSlash_of_mem hseg hmem
    rwa [joinSlash_splitSlash] at hjoin
  · intro hmem
    rw [← joinSlash_splitSlash cs] at hmem
    exact mem_joinSlash hc hmem

theorem popSlashes_append (front back : List Char) :
    popSlashes (front ++ back) =
      if popSlashes back = [] then popSlashes front else front ++ popSlashes back := by
  unfold popSlashes
  rw [List.reverse_append, List.dropWhile_append]
  by_cases hback : back.reverse.dropWhile (· == '/') = []
  · simp [hback]
  · rw [if_neg (by simpa using hback), if_neg (by simpa using hback), List.reverse_append,
      List.reverse_reverse]

theorem popSlashes_self {seg : List Char} (h : '/' ∉ seg) : popSlashes seg = seg := by
  have hkeep : seg.reverse.dropWhile (· == '/') = seg.reverse := by
    cases hrev : seg.reverse with
    | nil => rfl
    | cons c cs =>
      have hmem : c ∈ seg := List.mem_reverse.mp (by rw [hrev]; exact List.mem_cons_self)
      have hc : c ≠ '/' := fun heq => h (heq ▸ hmem)
      rw [List.dropWhile_cons_of_neg (by simpa using hc)]
  unfold popSlashes
  rw [hkeep, List.reverse_reverse]

theorem popSlashes_segment {seg : List Char} (h : '/' ∉ seg) (back : List Char) :
    popSlashes (seg ++ '/' :: back) =
      if popSlashes back = [] then seg else seg ++ '/' :: popSlashes back := by
  have hslash : popSlashes ['/'] = [] := rfl
  rw [List.append_cons, popSlashes_append]
  split
  · rw [popSlashes_append, if_pos hslash, popSlashes_self h]
  · rw [List.append_assoc, List.singleton_append]

theorem joinSlash_eq_nil {segs : List (List Char)} (h : ∀ seg ∈ segs, seg ≠ []) :
    joinSlash segs = [] ↔ segs = [] := by
  constructor
  · intro hnil
    cases segs with
    | nil => rfl
    | cons seg segs =>
      have hseg := h seg List.mem_cons_self
      cases segs with
      | nil => exact absurd hnil hseg
      | cons seg' segs => exact absurd (List.append_eq_nil_iff.mp hnil).1 hseg
  · rintro rfl
    rfl

/-- After a slash, an empty segment leaves no trace. The induction is on the segments, so
that a round takes a whole segment and the slash behind it. -/
theorem popSlashes_foldSlashes_joinSlash {segs : List (List Char)}
    (h : ∀ seg ∈ segs, '/' ∉ seg) :
    popSlashes (foldSlashes true (joinSlash segs)) = joinSlash (segs.filter (· ≠ [])) := by
  induction segs with
  | nil => rfl
  | cons seg segs ih =>
    obtain ⟨hseg, hrest⟩ := List.forall_mem_cons.mp h
    have hnames : ∀ seg ∈ segs.filter (· ≠ []), seg ≠ [] := by simp
    by_cases hempty : seg = []
    · subst hempty
      rw [List.filter_cons_of_neg (by simp), ← ih hrest]
      cases segs with
      | nil => rfl
      | cons seg' segs => rfl
    · rw [List.filter_cons_of_pos (by simp [hempty])]
      by_cases hsegs : segs = []
      · subst hsegs
        have hfold := foldSlashes_append hseg hempty true []
        rw [List.append_nil] at hfold
        rw [joinSlash, hfold, foldSlashes, List.append_nil, popSlashes_self hseg]
        rfl
      · rw [joinSlash_cons hsegs, foldSlashes_append hseg hempty, foldSlashes, if_pos rfl,
          if_neg (by simp), popSlashes_segment hseg, ih hrest]
        by_cases hall : segs.filter (· ≠ []) = []
        · rw [if_pos ((joinSlash_eq_nil hnames).mpr hall), hall]
          rfl
        · rw [if_neg (mt (joinSlash_eq_nil hnames).mp hall), joinSlash_cons hall]

theorem popSlashes_foldSlashes {cs : List Char} (h : cs.head? ≠ some '/') :
    popSlashes (foldSlashes false cs) = joinSlash ((splitSlash cs).filter (· ≠ [])) := by
  have hfold : foldSlashes false cs = foldSlashes true cs := by
    cases cs with
    | nil => rfl
    | cons c cs =>
      have hc : c ≠ '/' := fun heq => h (by rw [heq]; rfl)
      rw [foldSlashes, foldSlashes, if_neg hc, if_neg hc]
  have hnoslash : ∀ seg ∈ splitSlash cs, '/' ∉ seg := fun seg hseg => mem_splitSlash hseg
  have hall := popSlashes_foldSlashes_joinSlash hnoslash
  rw [joinSlash_splitSlash] at hall
  rw [hfold, hall]

end CvdBench.Spec

namespace CvdBench.Worker

open Foundation Foundation.Text Spec

structure RelativePath (path : List Char) : Prop where
  notEmpty : path ≠ []
  noRoot : path.head? ≠ some '/'
  noNul : Char.ofNat 0 ∉ path
  noBackslash : '\\' ∉ path
  noDots : ∀ seg ∈ splitSlash path, seg ≠ ['.'] ∧ seg ≠ ['.', '.']

theorem mem_segments {path seg : List Char} :
    seg ∈ segments path ↔ seg ∈ splitSlash path ∧ seg ≠ [] := by
  simp [segments]

theorem relativePath_iff (path : List Char) :
    RelativePath path ↔ path.head? ≠ some '/' ∧ segments path ≠ [] ∧
      ∀ seg ∈ segments path, CleanName seg := by
  constructor
  · intro h
    refine ⟨h.noRoot, ?_, fun seg hmem => ?_⟩
    · obtain ⟨c, cs, hcs⟩ := List.exists_cons_of_ne_nil h.notEmpty
      have hc : c ≠ '/' := fun heq => h.noRoot (by rw [hcs, heq]; rfl)
      obtain ⟨seg, hseg, hin⟩ :=
        (mem_segment_iff hc).mpr (show c ∈ path by rw [hcs]; exact List.mem_cons_self)
      exact List.ne_nil_of_mem (mem_segments.mpr ⟨hseg, List.ne_nil_of_mem hin⟩)
    · obtain ⟨hseg, hne⟩ := mem_segments.mp hmem
      exact {
        notEmpty := hne
        noSlash := mem_splitSlash hseg
        noNul := fun hc => h.noNul ((mem_segment_iff (by decide)).mp ⟨seg, hseg, hc⟩)
        noBackslash := fun hc =>
          h.noBackslash ((mem_segment_iff (by decide)).mp ⟨seg, hseg, hc⟩)
        notDot := (h.noDots seg hseg).1
        notDotDot := (h.noDots seg hseg).2 }
  · rintro ⟨hhead, hsegs, hclean⟩
    have hname : ∀ {seg : List Char}, seg ∈ splitSlash path → seg ≠ [] → CleanName seg :=
      fun hseg hne => hclean _ (mem_segments.mpr ⟨hseg, hne⟩)
    refine ⟨?_, hhead, fun hc => ?_, fun hc => ?_, fun seg hseg => ⟨?_, ?_⟩⟩
    · rintro rfl
      exact hsegs rfl
    · obtain ⟨seg, hseg, hin⟩ := (mem_segment_iff (by decide)).mpr hc
      exact (hname hseg (List.ne_nil_of_mem hin)).noNul hin
    · obtain ⟨seg, hseg, hin⟩ := (mem_segment_iff (by decide)).mpr hc
      exact (hname hseg (List.ne_nil_of_mem hin)).noBackslash hin
    · rintro rfl
      exact (hname hseg (by simp)).notDot rfl
    · rintro rfl
      exact (hname hseg (by simp)).notDotDot rfl

theorem validateRelative_iff (path : String) :
    validateRelative path = .ok () ↔ path.toList ≠ [] ∧ Char.ofNat 0 ∉ path.toList ∧
      path.toList.head? ≠ some '/' ∧
      ∀ seg ∈ splitSlash path.toList, seg ≠ ['.'] ∧ seg ≠ ['.', '.'] := by
  constructor
  · intro h
    obtain ⟨hne, hhead, hdots⟩ := validateRelative_ok h
    refine ⟨hne, fun hnul => ?_, hhead, hdots⟩
    unfold validateRelative at h
    simp [hne, hnul] at h
  · rintro ⟨hne, hnul, hhead, hdots⟩
    unfold validateRelative
    simp only
    rw [if_neg (by simpa using hne), if_neg hnul, if_neg hhead]
    exact checkSegments_clean hdots

theorem normalizeRelative_ok {path out : String} (h : normalizeRelative path = .ok out) :
    RelativePath path.toList := by
  unfold normalizeRelative at h
  split at h
  · cases h
  · next hback =>
    cases hvalid : validateRelative path with
    | error e =>
      rw [hvalid] at h
      cases h
    | ok u =>
      obtain ⟨hne, hnul, hhead, hdots⟩ := (validateRelative_iff path).mp hvalid
      exact ⟨hne, hhead, hnul, hback, hdots⟩

theorem normalizeRelative_eq {path : String} (h : RelativePath path.toList) :
    normalizeRelative path = .ok (String.ofList (joinSlash (segments path.toList))) := by
  obtain ⟨hhead, hsegs, hclean⟩ := (relativePath_iff _).mp h
  have hvalid := (validateRelative_iff path).mpr ⟨h.notEmpty, h.noNul, hhead, h.noDots⟩
  have hout : popSlashes (foldSlashes false path.toList) = joinSlash (segments path.toList) :=
    popSlashes_foldSlashes hhead
  have hne : joinSlash (segments path.toList) ≠ [] :=
    mt (joinSlash_eq_nil fun seg hseg => (hclean seg hseg).notEmpty).mp hsegs
  unfold normalizeRelative
  rw [if_neg h.noBackslash, hvalid, hout]
  simp [hne, Bind.bind, Except.bind]

/-- What `out` is for `path` when `normalize_relative` returns it. -/
structure Normalized (path out : String) : Prop where
  joined : out.toList = joinSlash (segments path.toList)
  clean : ∀ seg ∈ splitSlash out.toList, seg ≠ [] ∧ seg ≠ ['.'] ∧ seg ≠ ['.', '.']
  valid : validateRelative out = .ok ()
  fixed : normalizeRelative out = .ok out
  below : ∀ mount : List Char, mount.head? = some '/' → ∃ names, names ≠ [] ∧
    pathComponents (joinPath mount out.toList) = pathComponents mount ++ names ∧
    normalize (joinPath mount out.toList) = normalize mount ++ names
  same : ∀ other : String, normalizeRelative other = .ok out ↔
    other.toList.head? ≠ some '/' ∧ segments other.toList = segments path.toList

section

variable {path : String} (h : RelativePath path.toList)

include h

theorem splitSlash_normalized :
    splitSlash (joinSlash (segments path.toList)) = segments path.toList := by
  obtain ⟨-, hsegs, hclean⟩ := (relativePath_iff _).mp h
  exact splitSlash_joinSlash hsegs fun seg hseg => (hclean seg hseg).noSlash

theorem normalized_head : (joinSlash (segments path.toList)).head? ≠ some '/' := by
  obtain ⟨-, hsegs, hclean⟩ := (relativePath_iff _).mp h
  have hfixed := normalizeRelative_ok (normalizeRelative_joinSlash hsegs hclean)
  rw [String.toList_ofList] at hfixed
  exact hfixed.noRoot

theorem components_normalized {mount : List Char} (hmount : mount ≠ []) :
    pathComponents (joinPath mount (joinSlash (segments path.toList))) =
      pathComponents mount ++ segments path.toList := by
  obtain ⟨-, -, hclean⟩ := (relativePath_iff _).mp h
  have hkeep : (segments path.toList).filter (fun seg => seg ≠ [] ∧ seg ≠ ['.']) =
      segments path.toList := by
    rw [List.filter_eq_self]
    intro seg hseg
    simpa using ⟨(hclean seg hseg).notEmpty, (hclean seg hseg).notDot⟩
  unfold pathComponents
  rw [joinPath_head hmount (normalized_head h),
    splitSlash_joinPath (by simp) hmount (normalized_head h), splitSlash_normalized h, hkeep,
    List.append_assoc]

theorem normalize_normalized {mount : List Char} (hmount : mount ≠ []) :
    normalize (joinPath mount (joinSlash (segments path.toList))) =
      normalize mount ++ segments path.toList := by
  obtain ⟨-, -, hclean⟩ := (relativePath_iff _).mp h
  have hsegs : segments (joinSlash (segments path.toList)) = segments path.toList := by
    rw [segments, splitSlash_normalized h, segments, List.filter_filter]
    simp
  unfold normalize
  rw [segments_join hmount (normalized_head h), hsegs]
  exact resolve_append_names _ fun seg hseg =>
    ⟨(hclean seg hseg).notDot, (hclean seg hseg).notDotDot⟩

theorem normalizeRelative_same (other : String) :
    normalizeRelative other = .ok (String.ofList (joinSlash (segments path.toList))) ↔
      other.toList.head? ≠ some '/' ∧ segments other.toList = segments path.toList := by
  constructor
  · intro hother
    have hrel := normalizeRelative_ok hother
    rw [normalizeRelative_eq hrel] at hother
    have hjoin := congrArg String.toList (Except.ok.inj hother)
    rw [String.toList_ofList, String.toList_ofList] at hjoin
    refine ⟨hrel.noRoot, ?_⟩
    rw [← splitSlash_normalized hrel, hjoin, splitSlash_normalized h]
  · rintro ⟨hhead, hsegs⟩
    have hrel : RelativePath other.toList := by
      rw [relativePath_iff, hsegs]
      exact ⟨hhead, ((relativePath_iff _).mp h).2⟩
    rw [normalizeRelative_eq hrel, hsegs]

theorem normalized : Normalized path (String.ofList (joinSlash (segments path.toList))) := by
  obtain ⟨-, hsegs, hclean⟩ := (relativePath_iff _).mp h
  have hfixed := normalizeRelative_joinSlash hsegs hclean
  have hout := normalizeRelative_ok hfixed
  refine {
    joined := String.toList_ofList
    clean := ?_
    valid := (validateRelative_iff _).mpr ⟨hout.notEmpty, hout.noNul, hout.noRoot, hout.noDots⟩
    fixed := hfixed
    below := ?_
    same := normalizeRelative_same h }
  · rw [String.toList_ofList, splitSlash_normalized h]
    exact fun seg hseg =>
      ⟨(hclean seg hseg).notEmpty, (hclean seg hseg).notDot, (hclean seg hseg).notDotDot⟩
  · intro mount hmount
    have hne : mount ≠ [] := by
      rintro rfl
      cases hmount
    rw [String.toList_ofList]
    exact ⟨segments path.toList, hsegs, components_normalized h hne, normalize_normalized h hne⟩

end

/-- Which paths are accepted, and what is made of them. -/
theorem normalizeRelative_exact (path : String) :
    ((∃ out, normalizeRelative path = .ok out) ↔ RelativePath path.toList) ∧
      ∀ out, normalizeRelative path = .ok out → Normalized path out := by
  refine ⟨⟨fun ⟨out, hout⟩ => normalizeRelative_ok hout, fun h => ⟨_, normalizeRelative_eq h⟩⟩, ?_⟩
  intro out hout
  have hrel := normalizeRelative_ok hout
  rw [normalizeRelative_eq hrel] at hout
  obtain rfl := Except.ok.inj hout
  exact normalized hrel

theorem normalizeRelative_exact_small : Normalized "a//b/" "a/b" :=
  (normalizeRelative_exact "a//b/").2 "a/b" (by decide)

end CvdBench.Worker
