import CvdBench.Manifest.DirContents

/-!
A directory tree as a value of its own, the regular files below a directory, and the
file systems that show the tree: what a directory of such a file system amounts to is
what the tree says.
-/

set_option autoImplicit false

namespace CvdBench.Manifest

open Foundation Foundation.Text Proto

/-- The entries of a directory, one after the other. -/
inductive DirTree where
  | nil
  | file (name : String) (rest : DirTree)
  | dir (name : String) (sub rest : DirTree)
  | symlink (name : String) (rest : DirTree)
  | other (name : String) (rest : DirTree)

namespace DirTree

def listing : DirTree → List DirEntry
  | .nil => []
  | .file name rest => (name, .file) :: rest.listing
  | .dir name _ rest => (name, .dir) :: rest.listing
  | .symlink name rest => (name, .symlink) :: rest.listing
  | .other name rest => (name, .other) :: rest.listing

def names (t : DirTree) : List String := t.listing.map Prod.fst

def child (name : String) : DirTree → Option DirTree
  | .nil => none
  | .dir name' sub rest => if name' = name then some sub else rest.child name
  | .file _ rest | .symlink _ rest | .other _ rest => rest.child name

def lookup : DirTree → Path → Option DirTree
  | t, [] => some t
  | t, name :: path => (t.child name).bind fun sub => lookup sub path

/-- Names are clean, and no directory has two entries of one name. -/
def WellFormed : DirTree → Prop
  | .nil => True
  | .file name rest | .symlink name rest | .other name rest =>
      Spec.CleanName name.toList ∧ name ∉ rest.names ∧ rest.WellFormed
  | .dir name sub rest =>
      Spec.CleanName name.toList ∧ name ∉ rest.names ∧ sub.WellFormed ∧ rest.WellFormed

instance decidableWellFormed : (t : DirTree) → Decidable t.WellFormed
  | .nil => inferInstanceAs (Decidable True)
  | .file name rest | .symlink name rest | .other name rest =>
      have := decidableWellFormed rest
      inferInstanceAs (Decidable (Spec.CleanName name.toList ∧ name ∉ rest.names ∧ rest.WellFormed))
  | .dir name sub rest =>
      have := decidableWellFormed sub
      have := decidableWellFormed rest
      inferInstanceAs (Decidable
        (Spec.CleanName name.toList ∧ name ∉ rest.names ∧ sub.WellFormed ∧ rest.WellFormed))

def filesBelow (path : Path) : DirTree → Multiset FileEntry
  | .nil => 0
  | .file name rest => {⟨Path.toText (path ++ [name]), ""⟩} + rest.filesBelow path
  | .dir name sub rest => sub.filesBelow (path ++ [name]) + rest.filesBelow path
  | .symlink _ rest | .other _ rest => rest.filesBelow path

def dirsBelow : DirTree → Nat
  | .nil => 0
  | .dir _ sub rest => 1 + sub.dirsBelow + rest.dirsBelow
  | .file _ rest | .symlink _ rest | .other _ rest => rest.dirsBelow

theorem mem_names_of_child {t sub : DirTree} {name : String} (h : t.child name = some sub) :
    name ∈ t.names := by
  induction t with
  | nil => simp [child] at h
  | dir name' sub' rest _ ih =>
    simp only [child] at h
    split at h
    · next heq => simp [names, listing, heq]
    · exact List.mem_cons_of_mem _ (ih h)
  | file name' rest ih | symlink name' rest ih | other name' rest ih =>
    exact List.mem_cons_of_mem _ (ih h)

theorem child_isSome {t : DirTree} {name : String} (h : (name, FileType.dir) ∈ t.listing) :
    ∃ sub, t.child name = some sub := by
  induction t with
  | nil => simp [listing] at h
  | dir name' sub' rest _ ih =>
    simp only [child]
    split
    · exact ⟨_, rfl⟩
    · next hne =>
      simp only [listing, List.mem_cons, Prod.mk.injEq, and_true] at h
      rcases h with heq | h
      · exact absurd heq.symm hne
      · exact ih h
  | file name' rest ih | symlink name' rest ih | other name' rest ih =>
    simp only [listing, List.mem_cons, Prod.mk.injEq, reduceCtorEq, and_false, false_or] at h
    exact ih h

theorem lookup_append (t : DirTree) (path : Path) (name : String) :
    t.lookup (path ++ [name]) = (t.lookup path).bind (child name) := by
  induction path generalizing t with
  | nil => cases h : t.child name <;> simp [lookup, h]
  | cons first path ih =>
    simp only [List.cons_append, lookup]
    cases t.child first with
    | none => rfl
    | some sub => exact ih sub

theorem WellFormed.child {t sub : DirTree} {name : String} (h : t.WellFormed)
    (hsub : t.child name = some sub) : Spec.CleanName name.toList ∧ sub.WellFormed := by
  induction t with
  | nil => simp [DirTree.child] at hsub
  | dir name' sub' rest _ ih =>
    simp only [DirTree.child] at hsub
    split at hsub
    · next heq =>
      cases hsub
      subst heq
      exact ⟨h.1, h.2.2.1⟩
    · exact ih h.2.2.2 hsub
  | file name' rest ih | symlink name' rest ih | other name' rest ih => exact ih h.2.2 hsub

theorem WellFormed.lookup {t d : DirTree} {path : Path} (h : t.WellFormed)
    (hd : t.lookup path = some d) :
    (∀ name ∈ path, Spec.CleanName name.toList) ∧ d.WellFormed := by
  induction path generalizing t with
  | nil =>
    cases hd
    exact ⟨by simp, h⟩
  | cons first path ih =>
    simp only [DirTree.lookup, Option.bind_eq_some_iff] at hd
    obtain ⟨sub, hsub, hd⟩ := hd
    obtain ⟨hclean, hwf⟩ := h.child hsub
    obtain ⟨hpath, hd⟩ := ih hwf hd
    refine ⟨fun name hname => ?_, hd⟩
    cases List.mem_cons.mp hname with
    | inl heq =>
      rw [heq]
      exact hclean
    | inr hmem => exact hpath name hmem

theorem WellFormed.clean {t : DirTree} {e : DirEntry} (h : t.WellFormed) (he : e ∈ t.listing) :
    Spec.CleanName e.1.toList := by
  induction t with
  | nil => simp [listing] at he
  | dir name sub rest _ ih =>
    simp only [listing, List.mem_cons] at he
    rcases he with rfl | he
    · exact h.1
    · exact ih h.2.2.2 he
  | file name rest ih | symlink name rest ih | other name rest ih =>
    simp only [listing, List.mem_cons] at he
    rcases he with rfl | he
    · exact h.1
    · exact ih h.2.2 he

end DirTree

/-- A tree of clean names. -/
structure FileTree where
  root : DirTree
  wellFormed : root.WellFormed

/-- Below its mount point the file system is this tree: the directories list what the tree
says, and the canonical path of a regular file is the path on which the tree has it. -/
structure DirFs.Shows (fs : DirFs) (t : FileTree) : Prop where
  readDir : ∀ path d, t.root.lookup path = some d →
    fs.readDir (fs.mountPoint ++ path) = some d.listing
  canonicalize : ∀ path d name, t.root.lookup path = some d → (name, FileType.file) ∈ d.listing →
    fs.canonicalize (fs.mountPoint ++ path ++ [name]) = some (fs.mountPoint ++ path ++ [name])

def DirTree.load (path : Path) (d : DirTree) : Load :=
  (d.filesBelow path, 1 + d.dirsBelow, (d.filesBelow path).card)

namespace DirFs.Shows

variable {fs : DirFs} {t : FileTree} (h : fs.Shows t)

include h

theorem fileEntry {path : Path} {d : DirTree} {name : String}
    (hd : t.root.lookup path = some d) (hname : (name, FileType.file) ∈ d.listing) :
    fs.fileEntry path name = .ok ⟨Path.toText (path ++ [name]), ""⟩ := by
  obtain ⟨hpath, hwf⟩ := t.wellFormed.lookup hd
  have hsegs : ∀ seg ∈ (path ++ [name]).map String.toList, Spec.CleanName seg := by
    intro seg hseg
    obtain ⟨n, hn, rfl⟩ := List.mem_map.mp hseg
    rcases List.mem_append.mp hn with hn | hn
    · exact hpath n hn
    · rw [List.mem_singleton.mp hn]
      exact hwf.clean hname
  have hnorm := Spec.normalizeRelative_joinSlash (by simp) hsegs
  unfold DirFs.fileEntry
  simp only [h.canonicalize path d name hd hname]
  rw [List.append_assoc, Path.stripPrefix_append]
  simp only [Path.toText, hnorm]

theorem listingLoad {d : DirTree} {path : Path} (hwf : d.WellFormed)
    (hdirs : ∀ name sub, d.child name = some sub → t.root.lookup (path ++ [name]) = some sub)
    (hfiles : ∀ name, (name, FileType.file) ∈ d.listing →
      fs.fileEntry path name = .ok ⟨Path.toText (path ++ [name]), ""⟩) :
    fs.listingLoad fs.load path d.listing =
      (d.filesBelow path, d.dirsBelow, (d.filesBelow path).card) := by
  induction d generalizing path with
  | nil => rfl
  | file name rest ih =>
    have hrest := ih hwf.2.2 hdirs fun n hn => hfiles n (List.mem_cons_of_mem _ hn)
    have hfile := hfiles name (by simp [DirTree.listing])
    simp only [DirFs.listingLoad] at hrest
    simp only [DirTree.listing, DirFs.listingLoad, List.map_cons, List.sum_cons, hrest,
      DirFs.entryLoad, hfile, DirTree.filesBelow, DirTree.dirsBelow]
    simp [Nat.add_comm]
  | symlink name rest ih | other name rest ih =>
    have hrest := ih hwf.2.2 hdirs fun n hn => hfiles n (List.mem_cons_of_mem _ hn)
    simp only [DirFs.listingLoad] at hrest
    simp only [DirTree.listing, DirFs.listingLoad, List.map_cons, List.sum_cons, hrest,
      DirFs.entryLoad, DirTree.filesBelow, DirTree.dirsBelow, zero_add]
  | dir name sub rest ihsub ih =>
    have hsub : t.root.lookup (path ++ [name]) = some sub :=
      hdirs name sub (by simp [DirTree.child])
    have hrest := by
      refine ih hwf.2.2.2 (fun n s hs => ?_) fun n hn => hfiles n (List.mem_cons_of_mem _ hn)
      have hne : name ≠ n := by
        intro heq
        subst heq
        exact hwf.2.1 (DirTree.mem_names_of_child hs)
      exact hdirs n s (by simp [DirTree.child, hne, hs])
    have hbelow : fs.listingLoad fs.load (path ++ [name]) sub.listing =
        (sub.filesBelow (path ++ [name]), sub.dirsBelow,
          (sub.filesBelow (path ++ [name])).card) := by
      refine ihsub hwf.2.2.1 (fun n s hs => ?_) fun n hn => ?_
      · rw [DirTree.lookup_append, hsub]
        exact hs
      · exact h.fileEntry hsub hn
    have hload : fs.load (path ++ [name]) = sub.load (path ++ [name]) := by
      rw [DirFs.load_eq (h.readDir _ _ hsub), hbelow]
      simp [DirTree.load]
    simp only [DirFs.listingLoad] at hrest
    simp only [DirTree.listing, DirFs.listingLoad, List.map_cons, List.sum_cons, hrest,
      DirFs.entryLoad, hload, DirTree.load, DirTree.filesBelow, DirTree.dirsBelow]
    simp

theorem load {path : Path} {d : DirTree} (hd : t.root.lookup path = some d) :
    fs.load path = d.load path := by
  have hlisting : fs.listingLoad fs.load path d.listing =
      (d.filesBelow path, d.dirsBelow, (d.filesBelow path).card) := by
    refine h.listingLoad (t.wellFormed.lookup hd).2 (fun name sub hsub => ?_) fun name hname => ?_
    · rw [DirTree.lookup_append, hd]
      exact hsub
    · exact h.fileEntry hd hname
  rw [DirFs.load_eq (h.readDir _ _ hd), hlisting]
  simp [DirTree.load]

end DirFs.Shows

namespace DirTree

def size : DirTree → Nat
  | .nil => 1
  | .file _ rest | .symlink _ rest | .other _ rest => 1 + rest.size
  | .dir _ sub rest => 1 + sub.size + rest.size

theorem listingSize_lt {d : DirTree} {dir : Path} {f : Path → Nat} (hwf : d.WellFormed)
    (hf : ∀ name sub, d.child name = some sub → f (dir ++ [name]) = sub.size) :
    listingSize f dir d.listing < d.size := by
  induction d with
  | nil => simp [listingSize, listing, size]
  | file name rest ih | symlink name rest ih | other name rest ih =>
    have hrest := ih hwf.2.2 hf
    simp only [listingSize] at hrest
    simp only [listingSize, listing, List.map_cons, List.sum_cons, entrySize, reduceCtorEq,
      if_false, size]
    omega
  | dir name sub rest _ ih =>
    have hsub := hf name sub (by simp [child])
    have hrest := by
      refine ih hwf.2.2.2 fun n s hs => hf n s ?_
      have hne : name ≠ n := by
        intro heq
        subst heq
        exact hwf.2.1 (mem_names_of_child hs)
      simp [child, hne, hs]
    simp only [listingSize] at hrest
    simp only [listingSize, listing, List.map_cons, List.sum_cons, entrySize, if_true, size, hsub]
    omega

end DirTree

theorem Path.append_of_stripPrefix {p mount rel : Path} (h : p.stripPrefix mount = some rel) :
    p = mount ++ rel := by
  induction mount generalizing p with
  | nil =>
    cases p <;> cases h <;> rfl
  | cons a mount ih =>
    cases p with
    | nil => cases h
    | cons b p =>
      simp only [Path.stripPrefix] at h
      split at h
      · next heq => rw [heq, ih h, List.cons_append]
      · cases h

namespace FileTree

variable (t : FileTree) (mount : Path)

def at? (path : Path) : Option DirTree := (path.stripPrefix mount).bind t.root.lookup

def fs : DirFs where
  mountPoint := mount
  readDir := fun path => (t.at? mount path).map DirTree.listing
  canonicalize := some
  size := fun path => (t.at? mount path).elim 0 DirTree.size
  finite := by
    intro dir es hes
    obtain ⟨d, hd, rfl⟩ := Option.map_eq_some_iff.mp hes
    simp only [at?, Option.bind_eq_some_iff] at hd
    obtain ⟨rel, hrel, hd⟩ := hd
    have hself : t.at? mount dir = some d := by simp [at?, hrel, hd]
    simp only [hself, Option.elim_some]
    refine DirTree.listingSize_lt (t.wellFormed.lookup hd).2 fun name sub hsub => ?_
    have hchild : t.at? mount (dir ++ [name]) = some sub := by
      rw [Path.append_of_stripPrefix hrel, List.append_assoc]
      simp [at?, Path.stripPrefix_append, DirTree.lookup_append, hd, hsub]
    simp [hchild]

theorem shows : (t.fs mount).Shows t where
  readDir := by
    intro path d hd
    simp [fs, at?, Path.stripPrefix_append, hd]
  canonicalize := fun _ _ _ _ _ => rfl

end FileTree

def FileTree.lineLoad (t : FileTree) (line : List Char) : Load :=
  match dirLine line with
  | .dir path => (t.root.lookup path).elim 0 (·.load path)
  | .skip | .invalid _ => 0

/-- The sum over all lines: a directory that is listed twice counts twice. -/
def FileTree.load (t : FileTree) (content : String) : Load :=
  ((Text.lines content.toList).map t.lineLoad).sum

/-- Every line is blank, a comment, or an existing directory. -/
def FileTree.Lists (t : FileTree) (content : String) : Prop :=
  ∀ line ∈ Text.lines content.toList, dirLine line = .skip ∨
    ∃ path d, dirLine line = .dir path ∧ t.root.lookup path = some d

theorem FileTree.load_card (t : FileTree) (content : String) :
    (t.load content).2.2 = (t.load content).1.card := by
  unfold FileTree.load
  induction Text.lines content.toList with
  | nil => rfl
  | cons line lines ih =>
    have hline : (t.lineLoad line).2.2 = (t.lineLoad line).1.card := by
      unfold FileTree.lineLoad
      split
      · next path _ => cases t.root.lookup path <;> rfl
      · rfl
      · rfl
    simp only [List.map_cons, List.sum_cons, Prod.snd_add, Prod.fst_add, Multiset.card_add, ih,
      hline]

theorem ScanEnv.load_eq {env : ScanEnv} {t : FileTree} (hshows : env.fs.Shows t)
    (hlists : t.Lists env.content) : env.load = t.load env.content := by
  unfold ScanEnv.load linesLeft FileTree.load
  congr 1
  refine List.map_congr_left fun line hline => ?_
  unfold Manifest.lineLoad FileTree.lineLoad
  rcases hlists line hline with hskip | ⟨path, d, hdir, hd⟩
  · simp only [hskip]
  · simp only [hdir, hd, hshows.load hd, Option.elim_some]

end CvdBench.Manifest
