import CvdBench.Foundation.HashMap
import Mathlib.Data.List.Infix

/-!
A finite tree of directories, files and symbolic links: how a path is resolved in it, and
the calls that look at it and change it.
-/

set_option autoImplicit false

namespace CvdBench.Foundation

/-- A component of a path. -/
inductive Comp (κ : Type) where
  | parent
  | name (k : κ)
  deriving DecidableEq, Repr

/-- What a link says: a path from the top, or from the directory of the link. -/
structure LinkTarget (κ : Type) where
  absolute : Bool
  comps : List (Comp κ)
  deriving DecidableEq, Repr

inductive Node (κ : Type) where
  | dir | file | special
  | link (target : LinkTarget κ)
  deriving DecidableEq, Repr

inductive Errno where
  | notFound | notADirectory | isADirectory | alreadyExists | notEmpty | tooManyLinks | invalid
  deriving DecidableEq, Repr

/-- The nodes by their locations, the names from the top down. Whatever has a node lies in
a directory. -/
structure FileTree (κ : Type) [DecidableEq κ] where
  nodes : HashMap (List κ) (Node κ)
  top : nodes.get? [] = some .dir
  parents : ∀ dir k n, nodes.get? (dir ++ [k]) = some n → nodes.get? dir = some .dir

section

variable {κ : Type} (look : List κ → Option (Node κ))

/-- Goes down the components from a directory, and hands over at a link. -/
def walkWith (follow : List (Comp κ) → List κ → Except Errno (List κ)) :
    List (Comp κ) → List κ → Except Errno (List κ)
  | [], cwd => .ok cwd
  | .parent :: rest, cwd => walkWith follow rest cwd.dropLast
  | .name k :: rest, cwd => match look (cwd ++ [k]) with
      | none => .error .notFound
      | some .dir => walkWith follow rest (cwd ++ [k])
      | some (.link target) =>
          follow (target.comps ++ rest) (if target.absolute then [] else cwd)
      | some .file | some .special =>
          if rest.isEmpty then .ok (cwd ++ [k]) else .error .notADirectory

def walk : Nat → List (Comp κ) → List κ → Except Errno (List κ)
  | 0 => walkWith look fun _ _ => .error .tooManyLinks
  | budget + 1 => walkWith look (walk budget)

def maxLinks : Nat := 40

def find (path : List (Comp κ)) : Except Errno (List κ) := walk look maxLinks path []

variable {look} {look' : List κ → Option (Node κ)}

theorem walkWith_mono {follow follow' : List (Comp κ) → List κ → Except Errno (List κ)}
    (hlook : ∀ l n, look l = some n → look' l = some n)
    (hfollow : ∀ path cwd l, follow path cwd = .ok l → follow' path cwd = .ok l)
    {path : List (Comp κ)} {cwd l : List κ} (h : walkWith look follow path cwd = .ok l) :
    walkWith look' follow' path cwd = .ok l := by
  induction path generalizing cwd with
  | nil => exact h
  | cons comp rest ih =>
    cases comp with
    | parent => exact ih h
    | name k =>
      cases hk : look (cwd ++ [k]) with
      | none =>
        simp only [walkWith, hk] at h
        cases h
      | some n =>
        simp only [walkWith, hk] at h
        simp only [walkWith, hlook _ _ hk]
        cases n with
        | dir => exact ih h
        | link target => exact hfollow _ _ _ h
        | file => exact h
        | special => exact h

/-- Nothing that a tree has can mislead a path that a part of it leads on. -/
theorem walk_mono (hlook : ∀ l n, look l = some n → look' l = some n) {budget : Nat}
    {path : List (Comp κ)} {cwd l : List κ} (h : walk look budget path cwd = .ok l) :
    walk look' budget path cwd = .ok l := by
  induction budget generalizing path cwd l with
  | zero => exact walkWith_mono hlook (fun _ _ _ h => h) h
  | succ budget ih => exact walkWith_mono hlook (fun _ _ _ h => ih h) h

theorem find_mono (hlook : ∀ l n, look l = some n → look' l = some n) {path : List (Comp κ)}
    {l : List κ} (h : find look path = .ok l) : find look' path = .ok l := walk_mono hlook h

theorem walkWith_append {follow : List (Comp κ) → List κ → Except Errno (List κ)}
    {path rest : List (Comp κ)} {cwd l : List κ} {res : Except Errno (List κ)}
    (hdir : look l = some .dir) (hrest : walkWith look follow rest l = res)
    (hfollow : ∀ path cwd, follow path cwd = .ok l → follow (path ++ rest) cwd = res)
    (h : walkWith look follow path cwd = .ok l) :
    walkWith look follow (path ++ rest) cwd = res := by
  induction path generalizing cwd with
  | nil =>
    obtain rfl : cwd = l := Except.ok.inj h
    exact hrest
  | cons comp path ih =>
    cases comp with
    | parent => exact ih h
    | name k =>
      cases hk : look (cwd ++ [k]) with
      | none =>
        simp only [walkWith, hk] at h
        cases h
      | some n =>
        simp only [walkWith, hk] at h
        simp only [List.cons_append, walkWith, hk]
        cases n with
        | dir => exact ih h
        | link target =>
          have hjoin := hfollow _ _ h
          rw [List.append_assoc] at hjoin
          exact hjoin
        | file | special =>
          -- what the path leads to is no file
          simp only at h
          split at h
          · rw [← Except.ok.inj h, hk] at hdir
            cases hdir
          · cases h

theorem walk_append {budget : Nat} {path rest : List (Comp κ)} {cwd l : List κ}
    {res : Except Errno (List κ)} (hdir : look l = some .dir)
    (hrest : ∀ follow, walkWith look follow rest l = res)
    (h : walk look budget path cwd = .ok l) : walk look budget (path ++ rest) cwd = res := by
  induction budget generalizing path cwd with
  | zero => exact walkWith_append hdir (hrest _) (fun _ _ h => by cases h) h
  | succ budget ih => exact walkWith_append hdir (hrest _) (fun _ _ h => ih h) h

def stepInto (look : List κ → Option (Node κ)) (dir : List κ) (k : κ) : Except Errno (List κ) :=
  match look (dir ++ [k]) with
  | none => .error .notFound
  | some _ => .ok (dir ++ [k])

theorem find_join {path : List (Comp κ)} {l : List κ} {k : κ} (hdir : look l = some .dir)
    (hnolink : ∀ target, look (l ++ [k]) ≠ some (.link target)) (h : find look path = .ok l) :
    find look (path ++ [.name k]) = stepInto look l k := by
  refine walk_append hdir (fun follow => ?_) h
  cases hk : look (l ++ [k]) with
  | none => simp [walkWith, stepInto, hk]
  | some n =>
    cases n with
    | link target => exact absurd hk (hnolink target)
    | dir | file | special => simp [walkWith, stepInto, hk]

theorem find_missing {path : List (Comp κ)} {l : List κ} {k : κ} (rest : List (Comp κ))
    (hdir : look l = some .dir) (hnone : look (l ++ [k]) = none) (h : find look path = .ok l) :
    find look (path ++ .name k :: rest) = .error .notFound :=
  walk_append hdir (fun follow => by simp [walkWith, hnone]) h

theorem walkWith_error {follow : List (Comp κ) → List κ → Except Errno (List κ)}
    {path : List (Comp κ)} {cwd : List κ} {e : Errno} (rest : List (Comp κ))
    (hfollow : ∀ path cwd, follow path cwd = .error e → follow (path ++ rest) cwd = .error e)
    (h : walkWith look follow path cwd = .error e) :
    walkWith look follow (path ++ rest) cwd = .error e := by
  induction path generalizing cwd with
  | nil => cases h
  | cons comp path ih =>
    cases comp with
    | parent => exact ih h
    | name k =>
      cases hk : look (cwd ++ [k]) with
      | none => simpa [walkWith, hk] using h
      | some n =>
        simp only [walkWith, hk] at h
        simp only [List.cons_append, walkWith, hk]
        cases n with
        | dir => exact ih h
        | link target =>
          have hjoin := hfollow _ _ h
          rw [List.append_assoc] at hjoin
          exact hjoin
        | file | special =>
          simp only at h ⊢
          split at h
          · cases h
          · next hne =>
            rw [if_neg (fun hempty => hne (by simp_all))]
            exact h

theorem walk_error {budget : Nat} {path : List (Comp κ)} {cwd : List κ} {e : Errno}
    (rest : List (Comp κ)) (h : walk look budget path cwd = .error e) :
    walk look budget (path ++ rest) cwd = .error e := by
  induction budget generalizing path cwd with
  | zero => exact walkWith_error rest (fun _ _ h => h) h
  | succ budget ih => exact walkWith_error rest (fun _ _ h => ih h) h

theorem find_error {path : List (Comp κ)} {e : Errno} (rest : List (Comp κ))
    (h : find look path = .error e) : find look (path ++ rest) = .error e := walk_error rest h

theorem find_names {path : List (Comp κ)} {l : List κ} (h : find look path = .ok l)
    (names : List κ)
    (hdirs : ∀ pre, pre <+: names → look (l ++ pre) = some .dir) :
    find look (path ++ names.map .name) = .ok (l ++ names) := by
  induction names using List.reverseRecOn with
  | nil => simpa using h
  | append_singleton names k ih =>
    have hpre := ih fun pre hpre => hdirs pre (hpre.trans (List.prefix_append _ _))
    have hnames := hdirs names (List.prefix_append _ _)
    have hlast := hdirs (names ++ [k]) (List.prefix_refl _)
    rw [← List.append_assoc] at hlast
    rw [List.map_append, ← List.append_assoc, List.map_singleton,
      find_join hnames (fun target => by rw [hlast]; simp) hpre, stepInto, hlast,
      List.append_assoc]

end

namespace FileTree

variable {κ : Type} [DecidableEq κ]

def get? (t : FileTree κ) (l : List κ) : Option (Node κ) := t.nodes.get? l

theorem ext_get? {t t' : FileTree κ} (h : ∀ l, t.get? l = t'.get? l) : t = t' := by
  obtain ⟨nodes, _, _⟩ := t
  obtain ⟨nodes', _, _⟩ := t'
  obtain rfl : nodes = nodes' := HashMap.ext_get? h
  rfl

theorem exists_depth (t : FileTree κ) : ∃ depth, ∀ l n, t.get? l = some n → l.length < depth := by
  refine ⟨(Finmap.keys t.nodes).sup List.length + 1, fun l n hl => Nat.lt_succ_of_le ?_⟩
  exact Finset.le_sup (f := List.length) (HashMap.mem_keys_of_get? hl)

def new : FileTree κ where
  nodes := HashMap.put ∅ [] .dir
  top := HashMap.get?_put_self ..
  parents := by
    intro dir k n h
    rw [HashMap.get?_put_ne _ _ (by simp), HashMap.get?_empty] at h
    cases h

theorem get?_parent {t : FileTree κ} {dir : List κ} {k : κ} {n : Node κ}
    (h : t.get? (dir ++ [k]) = some n) : t.get? dir = some .dir := t.parents dir k n h

theorem get?_above {t : FileTree κ} {l : List κ} {n : Node κ} (below : List κ) (hne : below ≠ [])
    (h : t.get? (l ++ below) = some n) : t.get? l = some .dir := by
  induction below using List.reverseRecOn generalizing n with
  | nil => exact absurd rfl hne
  | append_singleton below k ih =>
    rw [← List.append_assoc] at h
    have hdir := get?_parent h
    cases below with
    | nil => simpa using hdir
    | cons k' below => exact ih (by simp) hdir

omit [DecidableEq κ] in
theorem not_concat_prefix (dir : List κ) (k : κ) : ¬ dir ++ [k] <+: dir := by
  intro h
  have hlen := h.length_le
  rw [List.length_append, List.length_singleton] at hlen
  omega

def nameIn (dir l : List κ) : Option κ := if l.dropLast = dir then l.getLast? else none

theorem nameIn_eq_some {dir l : List κ} {k : κ} : nameIn dir l = some k ↔ l = dir ++ [k] := by
  unfold nameIn
  constructor
  · intro h
    split at h
    · next hdir =>
      obtain ⟨init, rfl⟩ := List.getLast?_eq_some_iff.mp h
      rw [List.dropLast_concat] at hdir
      rw [hdir]
    · cases h
  · rintro rfl
    simp

def children (t : FileTree κ) (dir : List κ) : Finset κ :=
  (Finmap.keys t.nodes).filterMap (nameIn dir) fun l l' k hl hl' => by
    rw [Option.mem_def, nameIn_eq_some] at hl hl'
    rw [hl, hl']

@[simp] theorem mem_children {t : FileTree κ} {dir : List κ} {k : κ} :
    k ∈ t.children dir ↔ ∃ n, t.get? (dir ++ [k]) = some n := by
  rw [children, Finset.mem_filterMap]
  constructor
  · rintro ⟨l, hl, hk⟩
    obtain rfl := nameIn_eq_some.mp hk
    exact HashMap.mem_keys_iff.mp hl
  · rintro ⟨n, hn⟩
    exact ⟨dir ++ [k], HashMap.mem_keys_of_get? hn, nameIn_eq_some.mpr rfl⟩

theorem children_eq_empty {t : FileTree κ} {dir : List κ} :
    t.children dir = ∅ ↔ ∀ k, t.get? (dir ++ [k]) = none := by
  rw [Finset.eq_empty_iff_forall_notMem]
  refine forall_congr' fun k => ?_
  rw [mem_children, ← Option.isSome_iff_exists, Option.not_isSome_iff_eq_none]

theorem get?_below_empty {t : FileTree κ} {l l' : List κ} (h : t.children l = ∅) (hl : l <+: l')
    (hne : l' ≠ l) : t.get? l' = none := by
  obtain ⟨below, rfl⟩ := hl
  cases below with
  | nil => simp at hne
  | cons k below =>
    by_contra hsome
    obtain ⟨n, hn⟩ := Option.ne_none_iff_exists'.mp hsome
    have hnone := children_eq_empty.mp h k
    cases below with
    | nil =>
      rw [hnone] at hn
      cases hn
    | cons k' below =>
      have hsplit : l ++ k :: k' :: below = (l ++ [k]) ++ (k' :: below) := by simp
      rw [hsplit] at hn
      rw [get?_above _ (by simp) hn] at hnone
      cases hnone

/-- The tree without what lies below a directory. -/
def emptied (t : FileTree κ) (dir : List κ) (l : List κ) : Option (Node κ) :=
  if dir <+: l ∧ l ≠ dir then none else t.get? l

theorem emptied_eq_some {t : FileTree κ} {dir l : List κ} {n : Node κ} :
    t.emptied dir l = some n ↔ t.get? l = some n ∧ (dir <+: l → l = dir) := by
  unfold emptied
  split
  · next h =>
    refine iff_of_false (by simp) ?_
    rintro ⟨_, himp⟩
    exact h.2 (himp h.1)
  · next h =>
    rw [not_and_not_right] at h
    exact ⟨fun hn => ⟨hn, h⟩, fun hn => hn.1⟩

def insert (t : FileTree κ) (dir : List κ) (k : κ) (n : Node κ) : FileTree κ :=
  if h : t.get? dir = some .dir ∧ t.get? (dir ++ [k]) = none then
    { nodes := t.nodes.put (dir ++ [k]) n
      top := by rw [HashMap.get?_put_ne _ _ (by simp)]; exact t.top
      parents := by
        intro dir' k' n' h'
        have hdir' : t.get? dir' = some .dir := by
          by_cases heq : dir' ++ [k'] = dir ++ [k]
          · rw [(List.append_inj' heq rfl).1]
            exact h.1
          · rw [HashMap.get?_put_ne _ _ heq] at h'
            exact t.parents dir' k' n' h'
        have hne : dir' ≠ dir ++ [k] := by
          rintro rfl
          rw [h.2] at hdir'
          cases hdir'
        rw [HashMap.get?_put_ne _ _ hne]
        exact hdir' }
  else t

theorem get?_insert {t : FileTree κ} {dir : List κ} {k : κ} (hdir : t.get? dir = some .dir)
    (hnew : t.get? (dir ++ [k]) = none) (n : Node κ) (l : List κ) :
    (t.insert dir k n).get? l = if l = dir ++ [k] then some n else t.get? l := by
  unfold insert
  rw [dif_pos ⟨hdir, hnew⟩]
  exact HashMap.get?_put ..

def erase (t : FileTree κ) (l : List κ) : FileTree κ :=
  if h : l ≠ [] ∧ t.children l = ∅ then
    { nodes := t.nodes.remove l
      top := by rw [HashMap.get?_remove, if_neg (Ne.symm h.1)]; exact t.top
      parents := by
        intro dir k n hn
        rw [HashMap.get?_remove] at hn
        split at hn
        · cases hn
        · have hne : dir ≠ l := by
            rintro rfl
            have hnone := children_eq_empty.mp h.2 k
            rw [get?, hn] at hnone
            cases hnone
          rw [HashMap.get?_remove, if_neg hne]
          exact t.parents dir k n hn }
  else t

theorem get?_erase {t : FileTree κ} {l : List κ} (hl : l ≠ []) (hempty : t.children l = ∅)
    (l' : List κ) : (t.erase l).get? l' = if l' = l then none else t.get? l' := by
  unfold erase
  rw [dif_pos ⟨hl, hempty⟩]
  exact HashMap.get?_remove ..

theorem children_of_not_dir {t : FileTree κ} {l : List κ} (h : t.get? l ≠ some .dir) :
    t.children l = ∅ :=
  children_eq_empty.mpr fun k => by
    by_contra hne
    obtain ⟨n, hn⟩ := Option.ne_none_iff_exists'.mp hne
    exact h (get?_parent hn)

/-- The directory and the name that a path speaks of; the last component is not followed. -/
def entry (t : FileTree κ) (path : List (Comp κ)) : Except Errno (List κ × κ) :=
  match path.getLast? with
  | some (.name k) =>
      match find t.get? path.dropLast with
      | .error e => .error e
      | .ok dir => if t.get? dir = some .dir then .ok (dir, k) else .error .notADirectory
  | _ => .error .invalid

theorem entry_join {t : FileTree κ} {path : List (Comp κ)} {dir : List κ} (k : κ)
    (hfind : find t.get? path = .ok dir) (hdir : t.get? dir = some .dir) :
    t.entry (path ++ [.name k]) = .ok (dir, k) := by
  simp [entry, hfind, hdir]

theorem entry_eq_ok {t : FileTree κ} {path : List (Comp κ)} {dir : List κ} {k : κ}
    (h : t.entry path = .ok (dir, k)) :
    ∃ base, path = base ++ [.name k] ∧ find t.get? base = .ok dir ∧ t.get? dir = some .dir := by
  unfold entry at h
  split at h
  · next k' hlast =>
    obtain ⟨base, rfl⟩ := List.getLast?_eq_some_iff.mp hlast
    rw [List.dropLast_concat] at h
    split at h
    · cases h
    · next dir' hfind =>
      split at h
      · next hdir =>
        cases h
        exact ⟨base, rfl, hfind, hdir⟩
      · cases h
  · cases h

/-- `symlink_metadata` -/
def symlinkMetadata (t : FileTree κ) (path : List (Comp κ)) : Except Errno (Node κ) :=
  match t.entry path with
  | .error e => .error e
  | .ok (dir, k) => match t.get? (dir ++ [k]) with
      | none => .error .notFound
      | some n => .ok n

/-- `metadata`: every link is followed. -/
def metadata (t : FileTree κ) (path : List (Comp κ)) : Except Errno (Node κ) :=
  match find t.get? path with
  | .error e => .error e
  | .ok l => match t.get? l with
      | none => .error .notFound
      | some n => .ok n

/-- `File::open` for reading; a directory is opened like a file. -/
def openFile (t : FileTree κ) (path : List (Comp κ)) : Except Errno Unit :=
  (t.metadata path).map fun _ => ()

/-- `read_dir`: the names come in an order of the file system. -/
def readDir (t : FileTree κ) (order : HashOrder κ) (path : List (Comp κ)) :
    Except Errno (List κ) :=
  match find t.get? path with
  | .error e => .error e
  | .ok dir =>
      if t.get? dir = some .dir then .ok (order.iter (t.children dir)) else .error .notADirectory

def removeDir (t : FileTree κ) (path : List (Comp κ)) : Except Errno (FileTree κ) :=
  match t.entry path with
  | .error e => .error e
  | .ok (dir, k) => match t.get? (dir ++ [k]) with
      | none => .error .notFound
      | some .dir =>
          if t.children (dir ++ [k]) = ∅ then .ok (t.erase (dir ++ [k])) else .error .notEmpty
      | some _ => .error .notADirectory

def removeFile (t : FileTree κ) (path : List (Comp κ)) : Except Errno (FileTree κ) :=
  match t.entry path with
  | .error e => .error e
  | .ok (dir, k) => match t.get? (dir ++ [k]) with
      | none => .error .notFound
      | some .dir => .error .isADirectory
      | some _ => .ok (t.erase (dir ++ [k]))

/-- `create_dir` -/
def createDir (t : FileTree κ) (path : List (Comp κ)) : Except Errno (FileTree κ) :=
  match t.entry path with
  | .error e => .error e
  | .ok (dir, k) => match t.get? (dir ++ [k]) with
      | none => .ok (t.insert dir k .dir)
      | some _ => .error .alreadyExists

def isDir (t : FileTree κ) (path : List (Comp κ)) : Bool :=
  match find t.get? path with
  | .error _ => false
  | .ok l => decide (t.get? l = some .dir)

/-- `create_dir_all`, the last component first. -/
def createDirAllRev (t : FileTree κ) : List (Comp κ) → Except Errno (FileTree κ)
  | [] => .ok t
  | comp :: above =>
      let path := (comp :: above).reverse
      match t.createDir path with
      | .ok t' => .ok t'
      | .error .notFound => match createDirAllRev t above with
          | .error e => .error e
          | .ok t' => match t'.createDir path with
              | .ok t'' => .ok t''
              | .error e => if t'.isDir path then .ok t' else .error e
      | .error e => if t.isDir path then .ok t else .error e

def createDirAll (t : FileTree κ) (path : List (Comp κ)) : Except Errno (FileTree κ) :=
  t.createDirAllRev path.reverse

/-- `File::create`: a file that is there is emptied, and a link is followed. -/
def createFileBy (t : FileTree κ) (budget : Nat) (path : List (Comp κ)) :
    Except Errno (FileTree κ) :=
  match t.entry path with
  | .error e => .error e
  | .ok (dir, k) => match t.get? (dir ++ [k]) with
      | none => .ok (t.insert dir k .file)
      | some .dir => .error .isADirectory
      | some .file | some .special => .ok t
      | some (.link target) => match budget with
          | 0 => .error .tooManyLinks
          | budget + 1 => t.createFileBy budget
              ((if target.absolute then [] else dir.map .name) ++ target.comps)

def createFile (t : FileTree κ) (path : List (Comp κ)) : Except Errno (FileTree κ) :=
  t.createFileBy maxLinks path

theorem createDir_join {t : FileTree κ} {base : List (Comp κ)} {dir : List κ} {k : κ}
    (hfind : find t.get? base = .ok dir) (hdir : t.get? dir = some .dir)
    (hnew : t.get? (dir ++ [k]) = none) :
    t.createDir (base ++ [.name k]) = .ok (t.insert dir k .dir) := by
  rw [createDir, entry_join k hfind hdir]
  simp only [hnew]

theorem createFile_join {t : FileTree κ} {base : List (Comp κ)} {dir : List κ} {k : κ}
    (hfind : find t.get? base = .ok dir) (hdir : t.get? dir = some .dir)
    (hnew : t.get? (dir ++ [k]) = none) :
    t.createFile (base ++ [.name k]) = .ok (t.insert dir k .file) := by
  rw [createFile]
  unfold createFileBy
  rw [entry_join k hfind hdir]
  simp only [hnew]

theorem createDir_missing {t : FileTree κ} {base : List (Comp κ)} {dir : List κ} {k : κ}
    (rest : List (Comp κ)) (k' : κ) (hfind : find t.get? base = .ok dir)
    (hdir : t.get? dir = some .dir) (hnew : t.get? (dir ++ [k]) = none) :
    t.createDir (base ++ .name k :: rest ++ [.name k']) = .error .notFound := by
  have hentry : t.entry (base ++ .name k :: rest ++ [.name k']) = .error .notFound := by
    unfold entry
    rw [List.getLast?_concat, List.dropLast_concat, find_missing rest hdir hnew hfind]
  rw [createDir, hentry]

theorem isDir_iff {t : FileTree κ} {path : List (Comp κ)} :
    t.isDir path = true ↔ ∃ l, find t.get? path = .ok l ∧ t.get? l = some .dir := by
  unfold isDir
  cases hfind : find t.get? path with
  | error e => simp
  | ok l => simp

theorem createDir_there {t : FileTree κ} {path : List (Comp κ)} (h : t.isDir path = true) :
    ∃ e, e ≠ .notFound ∧ t.createDir path = .error e := by
  obtain ⟨l, hfind, hdir⟩ := isDir_iff.mp h
  unfold createDir
  cases hentry : t.entry path with
  | error e =>
    refine ⟨e, ?_, rfl⟩
    rintro rfl
    unfold entry at hentry
    split at hentry
    · next k hlast =>
      obtain ⟨base, rfl⟩ := List.getLast?_eq_some_iff.mp hlast
      rw [List.dropLast_concat] at hentry
      split at hentry
      · next e he =>
        cases hentry
        rw [find_error _ he] at hfind
        cases hfind
      · split at hentry
        · cases hentry
        · cases hentry
    · cases hentry
  | ok place =>
    obtain ⟨dir, k⟩ := place
    cases hk : t.get? (dir ++ [k]) with
    | some n => exact ⟨.alreadyExists, by simp, by simp only [hk]⟩
    | none =>
      obtain ⟨base, rfl, hbase, hnode⟩ := entry_eq_ok hentry
      rw [find_missing [] hnode hk hbase] at hfind
      cases hfind

theorem createDirAll_there {t : FileTree κ} {path : List (Comp κ)} (h : t.isDir path = true) :
    t.createDirAll path = .ok t := by
  obtain ⟨e, hne, hcreate⟩ := createDir_there h
  unfold createDirAll
  cases hrev : path.reverse with
  | nil => rfl
  | cons comp above =>
    unfold createDirAllRev
    rw [← hrev, List.reverse_reverse]
    simp only [hcreate]
    cases e with
    | notFound => exact absurd rfl hne
    | _ => simp only [h, if_true]

theorem get?_insert_of_some {t : FileTree κ} {dir : List κ} {k : κ}
    (hdir : t.get? dir = some .dir) (hnew : t.get? (dir ++ [k]) = none) (n : Node κ) (l : List κ)
    (n' : Node κ) (hl : t.get? l = some n') : (t.insert dir k n).get? l = some n' := by
  rw [get?_insert hdir hnew, if_neg]
  · exact hl
  · rintro rfl
    rw [hnew] at hl
    cases hl

theorem insert_dir {t : FileTree κ} {path : List (Comp κ)} {dir : List κ} {k : κ}
    (hfind : find t.get? path = .ok dir) (hdir : t.get? dir = some .dir)
    (hnew : t.get? (dir ++ [k]) = none) :
    find (t.insert dir k .dir).get? (path ++ [.name k]) = .ok (dir ++ [k]) ∧
      (t.insert dir k .dir).get? (dir ++ [k]) = some .dir ∧
      (t.insert dir k .dir).children (dir ++ [k]) = ∅ := by
  have hmono := get?_insert_of_some hdir hnew .dir
  have hnode : (t.insert dir k .dir).get? (dir ++ [k]) = some .dir := by
    rw [get?_insert hdir hnew, if_pos rfl]
  refine ⟨?_, hnode, children_eq_empty.mpr fun k' => ?_⟩
  · rw [find_join (hmono _ _ hdir) (fun target => by rw [hnode]; simp) (find_mono hmono hfind),
      stepInto, hnode]
  · rw [get?_insert hdir hnew, if_neg (by simp)]
    by_contra hne
    obtain ⟨n, hn⟩ := Option.ne_none_iff_exists'.mp hne
    rw [get?_parent hn] at hnew
    cases hnew

theorem createDirAll_one {t : FileTree κ} {path : List (Comp κ)} {l : List κ} {k : κ}
    (hfound : find t.get? path = .ok l) (hnode : t.get? l = some .dir)
    (hnew : t.get? (l ++ [k]) = none) :
    t.createDirAll (path ++ [.name k]) = .ok (t.insert l k .dir) := by
  unfold createDirAll
  rw [List.reverse_append, List.reverse_singleton, List.singleton_append]
  unfold createDirAllRev
  rw [List.reverse_cons, List.reverse_reverse]
  simp only [createDir_join hfound hnode hnew]

theorem createDirAll_under {t t' : FileTree κ} {path : List (Comp κ)} {l : List κ} {k : κ}
    (hmissing : t.createDir (path ++ [.name k]) = .error .notFound)
    (hmade : t.createDirAll path = .ok t') (hfound : find t'.get? path = .ok l)
    (hnode : t'.get? l = some .dir) (hnew : t'.get? (l ++ [k]) = none) :
    t.createDirAll (path ++ [.name k]) = .ok (t'.insert l k .dir) := by
  unfold createDirAll at hmade ⊢
  rw [List.reverse_append, List.reverse_singleton, List.singleton_append]
  unfold createDirAllRev
  rw [List.reverse_cons, List.reverse_reverse]
  simp only [hmissing, hmade, createDir_join hfound hnode hnew]

/-- `create_dir_all` of a path of which nothing is there from the name `first` on. -/
theorem createDirAll_missing {t : FileTree κ} {above : List (Comp κ)} {base : List κ} {first : κ}
    (hfind : find t.get? above = .ok base) (hdir : t.get? base = some .dir)
    (hnone : t.get? (base ++ [first]) = none) (names : List κ) :
    ∃ t', t.createDirAll (above ++ .name first :: names.map .name) = .ok t' ∧
      find t'.get? (above ++ .name first :: names.map .name) = .ok (base ++ first :: names) ∧
      t'.get? (base ++ first :: names) = some .dir ∧ t'.children (base ++ first :: names) = ∅ := by
  induction names using List.reverseRecOn with
  | nil =>
    exact ⟨t.insert base first .dir, createDirAll_one hfind hdir hnone, insert_dir hfind hdir hnone⟩
  | append_singleton names k ih =>
    obtain ⟨t', hmade, hfound, hnode, hempty⟩ := ih
    have hassoc : base ++ first :: (names ++ [k]) = base ++ first :: names ++ [k] := by simp
    have hpath : above ++ .name first :: (names ++ [k]).map .name =
        above ++ .name first :: names.map .name ++ [.name k] := by simp
    have hnone' := children_eq_empty.mp hempty k
    rw [hassoc, hpath]
    refine ⟨t'.insert (base ++ first :: names) k .dir, ?_, insert_dir hfound hnode hnone'⟩
    have hmissing := createDir_missing (names.map .name) k hfind hdir hnone
    exact createDirAll_under hmissing hmade hfound hnode hnone'

theorem get?_createDirAll {t t' : FileTree κ} {above : List (Comp κ)} {base : List κ} {first : κ}
    (hfind : find t.get? above = .ok base) (hdir : t.get? base = some .dir)
    (hnone : t.get? (base ++ [first]) = none) {names : List κ}
    (h : t.createDirAll (above ++ .name first :: names.map .name) = .ok t') (l : List κ) :
    t'.get? l = if base ++ [first] <+: l ∧ l <+: base ++ first :: names then some .dir
      else t.get? l := by
  induction names using List.reverseRecOn generalizing t' with
  | nil =>
    rw [List.map_nil, createDirAll_one hfind hdir hnone, Except.ok.injEq] at h
    subst h
    rw [get?_insert hdir hnone]
    refine if_congr ⟨?_, fun h => h.2.eq_of_length_le h.1.length_le⟩ rfl rfl
    rintro rfl
    exact ⟨List.prefix_refl _, List.prefix_refl _⟩
  | append_singleton names k ih =>
    obtain ⟨t₁, hmade, hfound, hnode, hempty⟩ := createDirAll_missing hfind hdir hnone names
    have hassoc : base ++ first :: (names ++ [k]) = base ++ first :: names ++ [k] := by simp
    have hpath : above ++ .name first :: (names ++ [k]).map .name =
        above ++ .name first :: names.map .name ++ [.name k] := by simp
    have hnone' := children_eq_empty.mp hempty k
    have hmissing := createDir_missing (names.map .name) k hfind hdir hnone
    rw [hpath, createDirAll_under hmissing hmade hfound hnode hnone', Except.ok.injEq] at h
    subst h
    have hpre : base ++ [first] <+: base ++ first :: names ++ [k] := by
      rw [List.append_assoc]
      exact (List.prefix_append_right_inj _).mpr ⟨names ++ [k], rfl⟩
    rw [hassoc, get?_insert hnode hnone', ih hmade]
    by_cases hl : l = base ++ first :: names ++ [k]
    · subst hl
      rw [if_pos rfl, if_pos ⟨hpre, List.prefix_refl _⟩]
    · rw [if_neg hl]
      refine if_congr (and_congr_right fun _ => ?_) rfl rfl
      rw [List.prefix_concat_iff, or_iff_right hl]

theorem symlinkMetadata_eq_ok {t : FileTree κ} {path : List (Comp κ)} {n : Node κ}
    (h : t.symlinkMetadata path = .ok n) :
    ∃ dir k, t.entry path = .ok (dir, k) ∧ t.get? (dir ++ [k]) = some n := by
  unfold symlinkMetadata at h
  split at h
  · cases h
  · next dir k hentry =>
    split at h
    · cases h
    · next n' hn =>
      cases h
      exact ⟨dir, k, hentry, hn⟩

theorem removeDir_eq_ok {t t' : FileTree κ} {path : List (Comp κ)} (h : t.removeDir path = .ok t') :
    ∃ dir k, t.entry path = .ok (dir, k) ∧ t.get? (dir ++ [k]) = some .dir ∧
      t.children (dir ++ [k]) = ∅ ∧ t' = t.erase (dir ++ [k]) := by
  unfold removeDir at h
  split at h
  · cases h
  · next dir k hentry =>
    split at h
    · cases h
    · next hdir =>
      split at h
      · next hempty =>
        cases h
        exact ⟨dir, k, hentry, hdir, hempty, rfl⟩
      · cases h
    · cases h

theorem removeFile_eq_ok {t t' : FileTree κ} {path : List (Comp κ)}
    (h : t.removeFile path = .ok t') :
    ∃ dir k, t.entry path = .ok (dir, k) ∧ t.get? (dir ++ [k]) ≠ some .dir ∧
      t' = t.erase (dir ++ [k]) := by
  unfold removeFile at h
  split at h
  · cases h
  · next dir k hentry =>
    split at h
    · cases h
    · cases h
    · next n hnotdir hn =>
      cases h
      refine ⟨dir, k, hentry, fun hdir => ?_, rfl⟩
      rw [hn] at hdir
      exact hnotdir (Option.some.inj hdir)

end FileTree

end CvdBench.Foundation
