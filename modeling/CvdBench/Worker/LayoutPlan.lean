import CvdBench.Worker.Prebuild
import Mathlib.Algebra.BigOperators.Intervals
import Mathlib.Data.List.Nodup

/-!
The paths of a metadata layout that the worker builds itself: how they are named, how many
they are, and that no two of them are the same.
-/

set_option autoImplicit false

namespace CvdBench.Worker

open Foundation Spec

/-- `{:04}` -/
def padded (i : Nat) : List Char :=
  List.replicate (4 - (Nat.toDigits 10 i).length) '0' ++ Nat.toDigits 10 i

theorem padded_injective {i j : Nat} (h : padded i = padded j) : i = j := by
  have hvalue : ∀ n, Nat.ofDigitChars 10 (padded n) 0 = n := by
    intro n
    unfold padded
    rw [Nat.ofDigitChars_append, Nat.ofDigitChars_replicate_zero, Nat.mul_zero,
      Nat.ofDigitChars_ten_toDigits]
  rw [← hvalue i, h, hvalue j]

theorem slash_notMem_padded (i : Nat) : '/' ∉ padded i := by
  unfold padded
  rw [List.mem_append]
  rintro (h | h)
  · exact absurd (List.eq_of_mem_replicate h) (by decide)
  · exact absurd (Nat.isDigit_of_mem_toDigits (by decide) (by decide) h) (by decide)

def numberedName (letter : Char) (hletter : letter ≠ '/' ∧ letter ≠ '.') (ext : List Char)
    (hext : '/' ∉ ext) (i : Nat) : EntryName where
  chars := letter :: '_' :: (padded i ++ ext)
  notEmpty := by simp
  noSlash := by simp [slash_notMem_padded, hletter.1.symm, hext]
  notDots := by simp [hletter.2]

/-- `d_{i:04}` -/
def dirName : Nat → EntryName := numberedName 'd' (by decide) [] (by decide)

/-- `f_{i:04}.dat` -/
def fileName : Nat → EntryName := numberedName 'f' (by decide) ['.', 'd', 'a', 't'] (by decide)

/-- `t_{i:04}` -/
def taskName : Nat → EntryName := numberedName 't' (by decide) [] (by decide)

def tasksName : EntryName := ⟨['_', 't', 'a', 's', 'k', 's'], by decide, by decide, by decide⟩

theorem numberedName_injective {letter : Char} {hletter : letter ≠ '/' ∧ letter ≠ '.'}
    {ext : List Char} {hext : '/' ∉ ext} :
    Function.Injective (numberedName letter hletter ext hext) := by
  intro i j h
  have hchars := congrArg EntryName.chars h
  simp only [numberedName, List.cons.injEq, true_and] at hchars
  exact padded_injective (List.append_cancel_right hchars)

def pathsIn (name : Nat → EntryName) (count : Nat) (parents : List (List Char)) :
    List (List Char) :=
  parents.flatMap fun parent => (List.range count).map fun i => joinPath parent (name i).chars

def nextLayer (width : Nat) (currentLayer : List (List Char)) : List (List Char) :=
  pathsIn dirName width currentLayer

def layers (width : Nat) : Nat → List (List Char) → List (List (List Char))
  | 0, _ => []
  | depth + 1, currentLayer =>
      nextLayer width currentLayer :: layers width depth (nextLayer width currentLayer)

def filePaths (filesPerDir : Nat) (allDirs : List (List Char)) : List (List Char) :=
  pathsIn fileName filesPerDir allDirs

def tasksRoot (root : List Char) : List Char := joinPath root tasksName.chars

def taskRoots (concurrency : Nat) (tasksRoot : List Char) : List (List Char) :=
  pathsIn taskName concurrency [tasksRoot]

def buildLayout (root : List Char) (config : MetadataConfig) : Layout :=
  let directories := (layers config.width config.depth [root]).flatten
  ⟨root, directories, filePaths config.filesPerDir directories,
    taskRoots config.concurrency (tasksRoot root)⟩

theorem length_pathsIn (name : Nat → EntryName) (count : Nat) (parents : List (List Char)) :
    (pathsIn name count parents).length = parents.length * count := by
  induction parents with
  | nil => simp [pathsIn]
  | cons parent parents ih =>
    unfold pathsIn at ih ⊢
    rw [List.flatMap_cons, List.length_append, ih, List.length_cons, List.length_map,
      List.length_range, Nat.succ_mul, Nat.add_comm]

theorem length_layers (width depth : Nat) (current : List (List Char)) :
    (layers width depth current).flatten.length =
      ∑ i ∈ Finset.range depth, current.length * width ^ (i + 1) := by
  induction depth generalizing current with
  | zero => rfl
  | succ depth ih =>
    rw [layers, List.flatten_cons, List.length_append, ih, Finset.sum_range_succ', nextLayer,
      length_pathsIn, Nat.add_comm, Nat.zero_add, Nat.pow_one]
    congr 1
    refine Finset.sum_congr rfl fun i _ => ?_
    rw [Nat.mul_assoc, ← Nat.pow_succ']

def placesIn (name : Nat → EntryName) (count : Nat) (dirs : List (List EntryName)) :
    List (List EntryName) :=
  dirs.flatMap fun dir => (List.range count).map fun i => dir ++ [name i]

def layerPlaces (width : Nat) : Nat → List (List EntryName) → List (List (List EntryName))
  | 0, _ => []
  | depth + 1, current =>
      placesIn dirName width current :: layerPlaces width depth (placesIn dirName width current)

theorem pathsIn_joinNames (root : List Char) (name : Nat → EntryName) (count : Nat)
    (dirs : List (List EntryName)) :
    pathsIn name count (dirs.map (joinNames root)) =
      (placesIn name count dirs).map (joinNames root) := by
  unfold pathsIn placesIn
  rw [List.flatMap_map, List.map_flatMap]
  refine congrArg (List.flatMap · dirs) (funext fun dir => ?_)
  rw [List.map_map]
  refine List.map_congr_left fun i _ => ?_
  exact (joinNames_concat root dir (name i)).symm

theorem layers_joinNames (root : List Char) (width depth : Nat) (current : List (List EntryName)) :
    layers width depth (current.map (joinNames root)) =
      (layerPlaces width depth current).map fun layer => layer.map (joinNames root) := by
  induction depth generalizing current with
  | zero => rfl
  | succ depth ih =>
    rw [layers, nextLayer, pathsIn_joinNames, ih]
    rfl

theorem mem_placesIn {name : Nat → EntryName} {count : Nat} {dirs : List (List EntryName)}
    {l : List EntryName} :
    l ∈ placesIn name count dirs ↔ ∃ dir ∈ dirs, ∃ i < count, l = dir ++ [name i] := by
  unfold placesIn
  simp only [List.mem_flatMap, List.mem_map, List.mem_range]
  constructor
  · rintro ⟨dir, hdir, i, hi, rfl⟩
    exact ⟨dir, hdir, i, hi, rfl⟩
  · rintro ⟨dir, hdir, i, hi, rfl⟩
    exact ⟨dir, hdir, i, hi, rfl⟩

theorem placesIn_nodup {name : Nat → EntryName} (hname : Function.Injective name) (count : Nat)
    {dirs : List (List EntryName)} (h : dirs.Nodup) : (placesIn name count dirs).Nodup := by
  unfold placesIn
  rw [List.nodup_flatMap]
  constructor
  · intro dir _
    refine List.nodup_range.map fun i j heq => hname ?_
    exact List.singleton_injective (List.append_cancel_left heq)
  · refine h.imp fun {dir dir'} hne => ?_
    intro l hl hl'
    obtain ⟨i, _, rfl⟩ := List.mem_map.mp hl
    obtain ⟨j, _, heq⟩ := List.mem_map.mp hl'
    exact hne (List.append_inj' heq rfl).1.symm

theorem length_placesIn {name : Nat → EntryName} {count m : Nat} {dirs : List (List EntryName)}
    (h : ∀ dir ∈ dirs, dir.length = m) : ∀ l ∈ placesIn name count dirs, l.length = m + 1 := by
  intro l hl
  obtain ⟨dir, hdir, i, _, rfl⟩ := mem_placesIn.mp hl
  rw [List.length_append, h dir hdir, List.length_singleton]

theorem lt_length_layerPlaces {width depth m : Nat} {current : List (List EntryName)}
    (h : ∀ l ∈ current, l.length = m) :
    ∀ l ∈ (layerPlaces width depth current).flatten, m < l.length := by
  induction depth generalizing current m with
  | zero => simp [layerPlaces]
  | succ depth ih =>
    have hnext : ∀ l ∈ placesIn dirName width current, l.length = m + 1 := length_placesIn h
    intro l hl
    rw [layerPlaces, List.flatten_cons, List.mem_append] at hl
    rcases hl with hl | hl
    · rw [hnext l hl]
      exact Nat.lt_succ_self m
    · exact Nat.lt_of_succ_lt (ih hnext l hl)

theorem layerPlaces_nodup {width depth m : Nat} {current : List (List EntryName)}
    (hnodup : current.Nodup) (h : ∀ l ∈ current, l.length = m) :
    (layerPlaces width depth current).flatten.Nodup := by
  induction depth generalizing current m with
  | zero => exact List.nodup_nil
  | succ depth ih =>
    have hnext : ∀ l ∈ placesIn dirName width current, l.length = m + 1 := length_placesIn h
    have hfirst := placesIn_nodup (numberedName_injective : Function.Injective dirName) width hnodup
    rw [layerPlaces, List.flatten_cons, List.nodup_append]
    refine ⟨hfirst, ih hfirst hnext, fun l hl l' hl' heq => ?_⟩
    have hlen := lt_length_layerPlaces hnext l' hl'
    rw [← heq, hnext l hl] at hlen
    exact Nat.lt_irrefl _ hlen

def letterOf (l : List EntryName) : Option Char := l.getLast?.bind fun name => name.chars.head?

theorem letterOf_concat (dir : List EntryName) (name : EntryName) :
    letterOf (dir ++ [name]) = name.chars.head? := by
  unfold letterOf
  rw [List.getLast?_concat]
  rfl

theorem letterOf_placesIn {letter : Char} {hletter : letter ≠ '/' ∧ letter ≠ '.'} {ext : List Char}
    {hext : '/' ∉ ext} {count : Nat} {dirs : List (List EntryName)} {l : List EntryName}
    (h : l ∈ placesIn (numberedName letter hletter ext hext) count dirs) :
    letterOf l = some letter := by
  obtain ⟨dir, _, i, _, rfl⟩ := mem_placesIn.mp h
  rw [letterOf_concat]
  rfl

theorem letterOf_layerPlaces {width depth : Nat} {current : List (List EntryName)}
    {l : List EntryName} (h : l ∈ (layerPlaces width depth current).flatten) :
    letterOf l = some 'd' := by
  induction depth generalizing current with
  | zero => simp [layerPlaces] at h
  | succ depth ih =>
    rw [layerPlaces, List.flatten_cons, List.mem_append] at h
    rcases h with h | h
    · exact letterOf_placesIn h
    · exact ih h

def layoutPlaces (config : MetadataConfig) : List (List EntryName) :=
  let dirs := (layerPlaces config.width config.depth [[]]).flatten
  dirs ++ placesIn fileName config.filesPerDir dirs ++ [[tasksName]] ++
    placesIn taskName config.concurrency [[tasksName]]

theorem layoutPlaces_nodup (config : MetadataConfig) : (layoutPlaces config).Nodup := by
  have hdirs : (layerPlaces config.width config.depth [[]]).flatten.Nodup :=
    layerPlaces_nodup (List.nodup_singleton _) fun l hl => by rw [List.mem_singleton.mp hl]
  have hne : ∀ {l l' : List EntryName} {c c' : Char}, letterOf l = some c → letterOf l' = some c' →
      c ≠ c' → l ≠ l' := by
    rintro l l' c c' hl hl' hc rfl
    rw [hl, Option.some.injEq] at hl'
    exact hc hl'
  have htasks : letterOf [tasksName] = some '_' := rfl
  unfold layoutPlaces
  rw [List.nodup_append, List.nodup_append, List.nodup_append]
  refine ⟨⟨⟨hdirs, placesIn_nodup numberedName_injective _ hdirs, ?_⟩, List.nodup_singleton _, ?_⟩,
    placesIn_nodup numberedName_injective _ (List.nodup_singleton _), ?_⟩
  · intro l hl l' hl'
    exact hne (letterOf_layerPlaces hl) (letterOf_placesIn hl') (by decide)
  · intro l hl l' hl'
    rw [List.mem_singleton.mp hl']
    rcases List.mem_append.mp hl with hl | hl
    · exact hne (letterOf_layerPlaces hl) htasks (by decide)
    · exact hne (letterOf_placesIn hl) htasks (by decide)
  · intro l hl l' hl'
    rcases List.mem_append.mp hl with hl | hl
    · rcases List.mem_append.mp hl with hl | hl
      · exact hne (letterOf_layerPlaces hl) (letterOf_placesIn hl') (by decide)
      · exact hne (letterOf_placesIn hl) (letterOf_placesIn hl') (by decide)
    · rw [List.mem_singleton.mp hl]
      exact hne htasks (letterOf_placesIn hl') (by decide)

theorem nil_notMem_layoutPlaces (config : MetadataConfig) : [] ∉ layoutPlaces config := by
  have hletter : letterOf [] = none := rfl
  unfold layoutPlaces
  rw [List.mem_append, List.mem_append, List.mem_append]
  rintro (((h | h) | h) | h)
  · rw [letterOf_layerPlaces h] at hletter
    cases hletter
  · rw [letterOf_placesIn h] at hletter
    cases hletter
  · cases List.mem_singleton.mp h
  · rw [letterOf_placesIn h] at hletter
    cases hletter

def layoutPaths (root : List Char) (config : MetadataConfig) : List (List Char) :=
  let layout := buildLayout root config
  layout.directories ++ layout.files ++ [tasksRoot root] ++ layout.taskRoots

theorem layoutPaths_eq (root : List Char) (config : MetadataConfig) :
    layoutPaths root config = (layoutPlaces config).map (joinNames root) := by
  have hlayers := layers_joinNames root config.width config.depth [[]]
  rw [List.map_singleton, joinNames_nil] at hlayers
  have htask : tasksRoot root = joinNames root [tasksName] := rfl
  have hflat : (layers config.width config.depth [root]).flatten =
      (layerPlaces config.width config.depth [[]]).flatten.map (joinNames root) := by
    rw [hlayers, List.map_flatten]
  unfold layoutPaths buildLayout layoutPlaces
  simp only [List.map_append, List.map_singleton]
  rw [hflat, filePaths, pathsIn_joinNames, taskRoots, htask, ← List.map_singleton,
    pathsIn_joinNames]

end CvdBench.Worker
