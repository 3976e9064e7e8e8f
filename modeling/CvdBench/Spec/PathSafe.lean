import CvdBench.Foundation.Text

/-!
Relative paths of a spec (`cvd_common::path_safe`). Segments are cut from the raw
text, since `Path::components` would drop a `.` in the middle.
-/

set_option autoImplicit false

namespace CvdBench.Spec

inductive PathSafeError where
  | empty
  | nulByte (path : String)
  | mustBeRelative (path : String)
  | forbiddenComponent (path : String) (component : String)
  deriving DecidableEq, Repr

/-- `str::split('/')`: one segment more than there are slashes. -/
def splitSlash : List Char → List (List Char)
  | [] => [[]]
  | '/' :: cs => [] :: splitSlash cs
  | c :: cs => match splitSlash cs with
    | [] => [[c]]
    | seg :: segs => (c :: seg) :: segs

def checkSegments (path : String) : List (List Char) → Except PathSafeError Unit
  | [] => .ok ()
  | ['.'] :: _ => .error (.forbiddenComponent path ".")
  | ['.', '.'] :: _ => .error (.forbiddenComponent path "..")
  | _ :: segs => checkSegments path segs

def validateRelative (path : String) : Except PathSafeError Unit :=
  let cs := path.toList
  if cs.isEmpty then .error .empty
  else if Char.ofNat 0 ∈ cs then .error (.nulByte path)
  else if cs.head? = some '/' then .error (.mustBeRelative path)
  else checkSegments path (splitSlash cs)

def foldSlashes (prevSlash : Bool) : List Char → List Char
  | [] => []
  | c :: cs =>
      if c = '/' then
        if prevSlash then foldSlashes true cs else '/' :: foldSlashes true cs
      else c :: foldSlashes false cs

def popSlashes (cs : List Char) : List Char := (cs.reverse.dropWhile (· == '/')).reverse

def normalizeRelative (path : String) : Except PathSafeError String :=
  if '\\' ∈ path.toList then .error (.forbiddenComponent path "\\")
  else do
    validateRelative path
    let out := popSlashes (foldSlashes false path.toList)
    if out.isEmpty then .error .empty else .ok (String.ofList out)

open Foundation.Text

/-- What can be the name of an entry of a directory and has no backslash in it. -/
structure CleanName (name : List Char) : Prop where
  notEmpty : name ≠ []
  noSlash : '/' ∉ name
  noNul : Char.ofNat 0 ∉ name
  noBackslash : '\\' ∉ name
  notDot : name ≠ ['.']
  notDotDot : name ≠ ['.', '.']

instance (name : List Char) : Decidable (CleanName name) :=
  decidable_of_iff (name ≠ [] ∧ '/' ∉ name ∧ Char.ofNat 0 ∉ name ∧ '\\' ∉ name ∧
      name ≠ ['.'] ∧ name ≠ ['.', '.'])
    ⟨fun ⟨h₁, h₂, h₃, h₄, h₅, h₆⟩ => ⟨h₁, h₂, h₃, h₄, h₅, h₆⟩,
      fun ⟨h₁, h₂, h₃, h₄, h₅, h₆⟩ => ⟨h₁, h₂, h₃, h₄, h₅, h₆⟩⟩

theorem splitSlash_cons {c : Char} {cs : List Char} (hc : c ≠ '/') :
    splitSlash (c :: cs) = match splitSlash cs with
      | [] => [[c]]
      | seg :: segs => (c :: seg) :: segs := by
  rw [splitSlash]
  simpa using hc

theorem splitSlash_ne_nil (cs : List Char) : splitSlash cs ≠ [] := by
  cases cs with
  | nil => simp [splitSlash]
  | cons c cs =>
    by_cases hc : c = '/'
    · subst hc
      simp [splitSlash]
    · rw [splitSlash_cons hc]
      split <;> simp

theorem splitSlash_join (left right : List Char) :
    splitSlash (left ++ '/' :: right) = splitSlash left ++ splitSlash right := by
  induction left with
  | nil => rfl
  | cons c left ih =>
    by_cases hc : c = '/'
    · subst hc
      rw [List.cons_append, splitSlash, ih, splitSlash, List.cons_append]
    · obtain ⟨seg, segs, hsegs⟩ := List.exists_cons_of_ne_nil (splitSlash_ne_nil left)
      rw [List.cons_append, splitSlash_cons hc, splitSlash_cons hc, ih, hsegs]
      rfl

theorem splitSlash_self {seg : List Char} (h : '/' ∉ seg) : splitSlash seg = [seg] := by
  induction seg with
  | nil => rfl
  | cons c seg ih =>
    have hc : c ≠ '/' := by
      intro heq
      simp [heq] at h
    have hseg : '/' ∉ seg := by
      intro hmem
      simp [hmem] at h
    rw [splitSlash_cons hc, ih hseg]

theorem splitSlash_append {seg : List Char} (h : '/' ∉ seg) (cs : List Char) :
    splitSlash (seg ++ '/' :: cs) = seg :: splitSlash cs := by
  rw [splitSlash_join, splitSlash_self h, List.singleton_append]

theorem splitSlash_joinSlash {segs : List (List Char)} (hne : segs ≠ [])
    (h : ∀ seg ∈ segs, '/' ∉ seg) : splitSlash (joinSlash segs) = segs := by
  induction segs with
  | nil => exact absurd rfl hne
  | cons seg segs ih =>
    have hseg := h seg (by simp)
    by_cases hsegs : segs = []
    · subst hsegs
      exact splitSlash_self hseg
    · have hrest : ∀ seg' ∈ segs, '/' ∉ seg' := fun seg' hmem => h seg' (by simp [hmem])
      rw [joinSlash_cons hsegs, splitSlash_append hseg, ih hsegs hrest]

theorem checkSegments_clean {path : String} {segs : List (List Char)}
    (h : ∀ seg ∈ segs, seg ≠ ['.'] ∧ seg ≠ ['.', '.']) : checkSegments path segs = .ok () := by
  induction segs with
  | nil => rfl
  | cons seg segs ih =>
    have hseg := h seg (by simp)
    have hrest := ih fun seg' hmem => h seg' (by simp [hmem])
    unfold checkSegments
    split
    · rfl
    · simp_all
    · simp_all
    · simp_all

theorem checkSegments_ok {path : String} {segs : List (List Char)}
    (h : checkSegments path segs = .ok ()) : ∀ seg ∈ segs, seg ≠ ['.'] ∧ seg ≠ ['.', '.'] := by
  induction segs with
  | nil => simp
  | cons seg segs ih =>
    unfold checkSegments at h
    split at h
    · simp_all
    · cases h
    · cases h
    · next hdot hdotdot heq =>
      obtain ⟨rfl, rfl⟩ := List.cons.inj heq
      intro seg' hmem
      rcases List.mem_cons.mp hmem with rfl | hmem
      · exact ⟨fun hseg => hdot hseg, fun hseg => hdotdot hseg⟩
      · exact ih h seg' hmem

theorem validateRelative_ok {path : String} (h : validateRelative path = .ok ()) :
    path.toList ≠ [] ∧ path.toList.head? ≠ some '/' ∧
      ∀ seg ∈ splitSlash path.toList, seg ≠ ['.'] ∧ seg ≠ ['.', '.'] := by
  unfold validateRelative at h
  simp only at h
  split at h
  · cases h
  · next hempty =>
    split at h
    · cases h
    · split at h
      · cases h
      · next hhead =>
        refine ⟨?_, hhead, checkSegments_ok h⟩
        intro hnil
        simp [hnil] at hempty

theorem foldSlashes_append {seg : List Char} (h : '/' ∉ seg) (hne : seg ≠ []) (b : Bool)
    (cs : List Char) : foldSlashes b (seg ++ cs) = seg ++ foldSlashes false cs := by
  induction seg generalizing b with
  | nil => exact absurd rfl hne
  | cons c seg ih =>
    have hc : c ≠ '/' := by
      intro heq
      simp [heq] at h
    have hseg : '/' ∉ seg := by
      intro hmem
      simp [hmem] at h
    rw [List.cons_append, foldSlashes, if_neg hc]
    by_cases hempty : seg = []
    · subst hempty
      rfl
    · rw [ih hseg hempty false, List.cons_append]

theorem foldSlashes_joinSlash {segs : List (List Char)} (b : Bool)
    (h : ∀ seg ∈ segs, seg ≠ [] ∧ '/' ∉ seg) :
    foldSlashes b (joinSlash segs) = joinSlash segs := by
  induction segs generalizing b with
  | nil => rfl
  | cons seg segs ih =>
    have hseg := h seg (by simp)
    have hrest : ∀ seg' ∈ segs, seg' ≠ [] ∧ '/' ∉ seg' := fun seg' hmem => h seg' (by simp [hmem])
    by_cases hsegs : segs = []
    · subst hsegs
      have hfold := foldSlashes_append hseg.2 hseg.1 b []
      simpa [joinSlash, foldSlashes] using hfold
    · rw [joinSlash_cons hsegs, foldSlashes_append hseg.2 hseg.1, foldSlashes, if_pos rfl,
        if_neg (by simp), ih true hrest]

theorem joinSlash_getLast {segs : List (List Char)} (hne : segs ≠ [])
    (h : ∀ seg ∈ segs, seg ≠ [] ∧ '/' ∉ seg) :
    ∃ cs c, joinSlash segs = cs ++ [c] ∧ c ≠ '/' := by
  induction segs with
  | nil => exact absurd rfl hne
  | cons seg segs ih =>
    have hseg := h seg (by simp)
    by_cases hsegs : segs = []
    · subst hsegs
      obtain ⟨cs, c, rfl⟩ := (List.eq_nil_or_concat seg).resolve_left hseg.1
      refine ⟨cs, c, by simp [joinSlash], ?_⟩
      intro heq
      subst heq
      simp at hseg
    · obtain ⟨cs, c, hcs, hc⟩ := ih hsegs fun seg' hmem => h seg' (by simp [hmem])
      refine ⟨seg ++ '/' :: cs, c, ?_, hc⟩
      rw [joinSlash_cons hsegs, hcs]
      simp

theorem normalizeRelative_joinSlash {segs : List (List Char)} (hne : segs ≠ [])
    (h : ∀ seg ∈ segs, CleanName seg) :
    normalizeRelative (String.ofList (joinSlash segs)) = .ok (String.ofList (joinSlash segs)) := by
  have hplain : ∀ seg ∈ segs, seg ≠ [] ∧ '/' ∉ seg :=
    fun seg hmem => ⟨(h seg hmem).notEmpty, (h seg hmem).noSlash⟩
  have hback : '\\' ∉ joinSlash segs := by
    intro hmem
    obtain ⟨seg, hseg, hc⟩ := mem_joinSlash (by decide) hmem
    exact (h seg hseg).noBackslash hc
  have hnul : Char.ofNat 0 ∉ joinSlash segs := by
    intro hmem
    obtain ⟨seg, hseg, hc⟩ := mem_joinSlash (by decide) hmem
    exact (h seg hseg).noNul hc
  obtain ⟨cs, c, hcs, hc⟩ := joinSlash_getLast hne hplain
  have hempty : (joinSlash segs).isEmpty = false := by simp [hcs]
  have hhead : (joinSlash segs).head? ≠ some '/' := by
    obtain ⟨seg, rest, rfl⟩ := List.exists_cons_of_ne_nil hne
    have hseg := hplain seg (by simp)
    obtain ⟨a, as, rfl⟩ := List.exists_cons_of_ne_nil hseg.1
    have ha : a ≠ '/' := by
      intro heq
      simp [heq] at hseg
    cases rest <;> simpa [joinSlash] using ha
  have hsegs : ∀ seg ∈ segs, seg ≠ ['.'] ∧ seg ≠ ['.', '.'] :=
    fun seg hmem => ⟨(h seg hmem).notDot, (h seg hmem).notDotDot⟩
  have hvalid : validateRelative (String.ofList (joinSlash segs)) = .ok () := by
    unfold validateRelative
    simp only [String.toList_ofList]
    rw [hempty, if_neg (by simp), if_neg hnul, if_neg hhead,
      splitSlash_joinSlash hne fun seg hmem => (hplain seg hmem).2]
    exact checkSegments_clean hsegs
  have hout : popSlashes (foldSlashes false (joinSlash segs)) = joinSlash segs := by
    rw [foldSlashes_joinSlash false hplain, hcs]
    simp [popSlashes, hc]
  unfold normalizeRelative
  rw [String.toList_ofList, if_neg hback, hvalid, hout]
  simp [hempty, Bind.bind, Except.bind]

end CvdBench.Spec
