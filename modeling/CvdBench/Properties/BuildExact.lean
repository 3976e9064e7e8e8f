import CvdBench.Properties.RemovalExact
import CvdBench.Worker.BuildRun
import Mathlib.Algebra.Order.BigOperators.Group.Finset

/-!
The layout that a build makes is the one that the checks of the spec count.
-/

set_option autoImplicit false

namespace CvdBench.Spec

theorem totalDirsLoop_eq {width : Nat} (depth layer sum : Nat)
    (h : totalDirsLoop width depth layer sum < u64Max) :
    totalDirsLoop width depth layer sum =
      sum + ∑ i ∈ Finset.range depth, layer * width ^ (i + 1) := by
  induction depth generalizing layer sum with
  | zero => rfl
  | succ depth ih =>
    unfold totalDirsLoop at h ⊢
    simp only at h ⊢
    split at h
    · next hfull =>
      rw [hfull] at h
      exact absurd h (Nat.lt_irrefl _)
    · next hroom =>
      -- a layer at the maximum would have filled the sum
      have hlayer : saturatingMulU64 layer width = layer * width := by
        unfold saturatingAddU64 saturatingMulU64 at hroom
        unfold saturatingMulU64
        omega
      have hsum : saturatingAddU64 sum (layer * width) = sum + layer * width := by
        rw [hlayer] at hroom
        unfold saturatingAddU64 at hroom ⊢
        omega
      rw [hlayer, hsum] at h hroom ⊢
      rw [if_neg hroom, ih _ _ h, Finset.sum_range_succ', Nat.zero_add, Nat.pow_one, Nat.add_assoc]
      congr 1
      rw [Nat.add_comm]
      congr 1
      refine Finset.sum_congr rfl fun i _ => ?_
      rw [Nat.mul_assoc, ← Nat.pow_succ']

theorem totalDirs_eq {depth width : Nat} (h : totalDirs depth width < u64Max) :
    totalDirs depth width = ∑ i ∈ Finset.Icc 1 depth, width ^ i := by
  unfold totalDirs at h ⊢
  rw [totalDirsLoop_eq depth 1 0 h, Nat.zero_add, ← Finset.Ico_succ_right_eq_Icc,
    Finset.sum_Ico_eq_sum_range]
  refine Finset.sum_congr rfl fun i _ => ?_
  rw [Nat.one_mul, Nat.add_comm]

theorem checkDimension_pos {field : String} {value cap : Nat}
    (h : checkDimension true field value cap = []) : 0 < value := by
  unfold checkDimension at h
  split at h
  · cases h
  · next hpos =>
    simp at hpos
    omega

theorem validate_layout {spec : BenchSpec} {ctx : ValidationContext} {md : MetadataConfig}
    (h : validate spec ctx = .ok ()) (hmd : spec.metadata = some md)
    (hmanifest : md.dirManifest = none) (hreadOnly : md.readOnly = false) :
    totalDirs md.depth md.width ≤ ctx.layoutCaps.maxTotalDirs ∧
      saturatingMulU64 (totalDirs md.depth md.width) md.filesPerDir ≤
        ctx.layoutCaps.maxTotalFiles := by
  have hnone := validateInto_eq_nil h
  simp only [validateInto, List.append_eq_nil_iff, hmd, validateMetadata, hmanifest, hreadOnly]
    at hnone
  obtain ⟨-, ⟨⟨⟨⟨⟨-, hdepth⟩, hwidth⟩, -⟩, hlayout⟩, -⟩⟩ := hnone
  have hbuilds : md.depth > 0 && md.width > 0 := by
    rw [Bool.and_eq_true, decide_eq_true_eq, decide_eq_true_eq]
    exact ⟨checkDimension_pos hdepth, checkDimension_pos hwidth⟩
  unfold validateLayout at hlayout
  rw [if_pos hbuilds] at hlayout
  simp only [List.append_eq_nil_iff, violates_eq_nil, decide_eq_false_iff_not, Nat.not_lt,
    gt_iff_lt] at hlayout
  exact hlayout

end CvdBench.Spec

namespace CvdBench.Worker

open Foundation Spec

/-- What is said of a layout before it is built. -/
structure Counted (caps : LayoutCaps) (config : MetadataConfig) (layout : Layout) : Prop where
  directories : layout.directories.length = totalDirs config.depth config.width
  total : totalDirs config.depth config.width = ∑ i ∈ Finset.Icc 1 config.depth, config.width ^ i
  files : layout.files.length = layout.directories.length * config.filesPerDir
  caps : layout.directories.length ≤ caps.maxTotalDirs ∧ layout.files.length ≤ caps.maxTotalFiles
  taskRoots : layout.taskRoots.length = config.concurrency
  distinct : ((layout.directories ++ layout.files ++ [tasksRoot layout.root] ++
    layout.taskRoots).map pathComps).Nodup

theorem buildLayout_counted {spec : BenchSpec} {ctx : ValidationContext} {config : MetadataConfig}
    (hvalid : validate spec ctx = .ok ()) (hmd : spec.metadata = some config)
    (hmanifest : config.dirManifest = none) (hreadOnly : config.readOnly = false)
    (hcaps : ctx.layoutCaps.maxTotalDirs < u64Max ∧ ctx.layoutCaps.maxTotalFiles < u64Max)
    {root : List Char} (hroot : root ≠ []) :
    Counted ctx.layoutCaps config (buildLayout root config) := by
  obtain ⟨hdirs, hfiles⟩ := validate_layout hvalid hmd hmanifest hreadOnly
  have htotal := totalDirsLoop_eq config.depth 1 0 (Nat.lt_of_le_of_lt hdirs hcaps.1)
  have hlen : (buildLayout root config).directories.length =
      totalDirs config.depth config.width := by
    rw [totalDirs, htotal, Nat.zero_add]
    exact length_layers ..
  have hlenFiles : (buildLayout root config).files.length =
      (buildLayout root config).directories.length * config.filesPerDir := length_pathsIn ..
  refine ⟨hlen, totalDirs_eq (Nat.lt_of_le_of_lt hdirs hcaps.1), hlenFiles, ⟨?_, ?_⟩, ?_, ?_⟩
  · rw [hlen]
    exact hdirs
  · rw [hlenFiles, hlen]
    unfold saturatingMulU64 at hfiles
    omega
  · rw [buildLayout, taskRoots, length_pathsIn, List.length_singleton, Nat.one_mul]
  · have hnodup := (layoutPlaces_nodup config).map
      (fun _ _ heq => pathComps_joinNames_inj hroot heq :
        Function.Injective (pathComps ∘ joinNames root))
    rw [← List.map_map, ← layoutPaths_eq] at hnodup
    exact hnodup

/-- There is nothing at the root: it is an empty directory, or it is missing from some
name on. -/
def Fresh (t : FileTree EntryName) (root : List Char) : Prop :=
  root ≠ [] ∧
    ((∃ base, find t.get? (pathComps root) = .ok base ∧ t.get? base = some .dir ∧
        t.children base = ∅) ∨
      ∃ (above : List (Comp EntryName)) (base : List EntryName) (first : EntryName)
        (names : List EntryName), pathComps root = above ++ .name first :: names.map .name ∧
        find t.get? above = .ok base ∧ t.get? base = some .dir ∧ t.get? (base ++ [first]) = none)

theorem makeRoot_fresh {t : FileTree EntryName} {root : List Char} (h : Fresh t root) :
    ∃ t' base, makeRoot t root = .ok t' ∧ Opens t' root base ∧ t'.children base = ∅ := by
  obtain ⟨hroot, ⟨base, hfind, hdir, hempty⟩ |
    ⟨above, base, first, names, hpath, hfind, hdir, hnone⟩⟩ := h
  · refine ⟨t, base, ?_, ⟨hroot, hfind, hdir⟩, hempty⟩
    rw [makeRoot, FileTree.createDirAll_there (FileTree.isDir_iff.mpr ⟨base, hfind, hdir⟩)]
  · obtain ⟨t', hmade, hfound, hnode, hempty⟩ :=
      FileTree.createDirAll_missing hfind hdir hnone names
    rw [← hpath] at hmade hfound
    refine ⟨t', base ++ first :: names, ?_, ⟨hroot, hfound, hnode⟩, hempty⟩
    rw [makeRoot, hmade]

def HasNode (t : FileTree EntryName) (n : Node EntryName) (path : List Char) : Prop :=
  ∃ l, find t.get? (pathComps path) = .ok l ∧ t.get? l = some n

theorem LiesBelow.hasNode {t : FileTree EntryName} {root path : List Char}
    {base : List EntryName} {n : Node EntryName} (hbase : Opens t root base)
    (h : LiesBelow t root base n path) (hnolink : ∀ target, n ≠ .link target) :
    HasNode t n path := by
  obtain ⟨names, rfl, hn⟩ := h
  exact ⟨base ++ names, hbase.found_node hn hnolink, hn⟩

theorem BuildCall.node_ne_link (c : BuildCall) : ∀ target, c.node ≠ .link target := by
  intro target
  unfold BuildCall.node
  split <;> simp

/-- What a state of a build is like: no call has failed; what has been issued has its parent;
there is a step to take until the end; and the end is a success with everything in place. -/
structure BuildState (config : MetadataConfig) (root : List Char)
    (s : Batches (FileTree EntryName) BuildCall Errno) : Prop where
  smooth : ∀ p ∈ s.performed, p.2 = none
  issued : ∀ c ∈ s.running, ∃ dir name, c.path = joinPath dir (EntryName.chars name) ∧
    HasNode s.world .dir dir
  continues : s.outcome = none →
    ∃ a s', Batches.step BuildCall.run (layoutConcurrency config) s a = some s'
  ends : ∀ res, s.outcome = some res →
    buildResult root config res = .ok (buildLayout root config) ∧
      (∀ path ∈ (buildLayout root config).directories ++ [tasksRoot root] ++
        (buildLayout root config).taskRoots, HasNode s.world .dir path) ∧
      ∀ path ∈ (buildLayout root config).files, HasNode s.world .file path

theorem underway_start {t : FileTree EntryName} {root : List Char} {base : List EntryName}
    (hopens : Opens t root base) (hempty : t.children base = ∅) (config : MetadataConfig) :
    Underway root base (buildCalls root config).flatten t [] (buildCalls root config) where
  opens := hopens
  ordered := by
    refine ⟨fun c hc => absurd hc List.not_mem_nil, ?_⟩
    exact buildCalls_ordered (.inl ⟨[], rfl, by rw [List.append_nil, hopens.node]⟩) config
  nodup := by
    rw [List.nil_append, buildCalls_paths, layoutPaths_eq]
    exact (layoutPlaces_nodup config).map (joinNames_injective hopens.nonempty)
  absent := by
    intro c hc n hn
    have hpath : c.path ∈ layoutPaths root config := by
      rw [← buildCalls_paths]
      exact List.mem_map_of_mem hc
    rw [layoutPaths_eq] at hpath
    obtain ⟨l, hl, heq⟩ := List.mem_map.mp hpath
    obtain ⟨names, heq', hnode⟩ := hn
    rw [← heq] at heq'
    obtain rfl := joinNames_injective hopens.nonempty heq'
    have hne : l ≠ [] := by
      rintro rfl
      exact absurd hl (nil_notMem_layoutPlaces config)
    have hnone := FileTree.get?_below_empty hempty (List.prefix_append base l) (by simpa using hne)
    rw [hnone] at hnode
    cases hnode
  made := fun c hc => .inr hc

theorem mem_buildCalls (root : List Char) (config : MetadataConfig) :
    (∀ path ∈ (buildLayout root config).directories ++ [tasksRoot root] ++
      (buildLayout root config).taskRoots,
      ∃ c ∈ (buildCalls root config).flatten, c.path = path ∧ c.node = .dir) ∧
    ∀ path ∈ (buildLayout root config).files,
      ∃ c ∈ (buildCalls root config).flatten, c.path = path ∧ c.node = .file := by
  unfold buildCalls
  simp only [List.flatten_append, List.flatten_cons, List.flatten_nil, List.append_nil]
  constructor
  · intro path hpath
    rcases List.mem_append.mp hpath with hpath | hpath
    · rcases List.mem_append.mp hpath with hpath | hpath
      · obtain ⟨layer, hlayer, hpath⟩ := List.mem_flatten.mp hpath
        refine ⟨⟨.mkdir, path⟩, ?_, rfl, rfl⟩
        refine List.mem_append_left _ (List.mem_append_left _ ?_)
        exact List.mem_flatten.mpr ⟨_, List.mem_map_of_mem hlayer, List.mem_map_of_mem hpath⟩
      · rw [List.mem_singleton.mp hpath]
        refine ⟨⟨.mkdirTasksRoot, tasksRoot root⟩, ?_, rfl, rfl⟩
        refine List.mem_append_left _ (List.mem_append_right _ (List.mem_append_right _ ?_))
        exact List.mem_singleton_self _
    · refine ⟨⟨.mkdirTaskRoot, path⟩, List.mem_append_right _ ?_, rfl, rfl⟩
      exact List.mem_flatten.mpr ⟨_, List.mem_map_of_mem hpath, List.mem_singleton_self _⟩
  · intro path hpath
    refine ⟨⟨.createFile, path⟩, ?_, rfl, rfl⟩
    refine List.mem_append_left _ (List.mem_append_right _ (List.mem_append_left _ ?_))
    exact List.mem_map_of_mem hpath

theorem building_state {t : FileTree EntryName} {root : List Char} {base : List EntryName}
    (hopens : Opens t root base) (hempty : t.children base = ∅) (config : MetadataConfig)
    {s : Batches (FileTree EntryName) BuildCall Errno}
    (h : (building config root t).Reachable s) : BuildState config root s := by
  have hsmooth := Batches.smooth_run (underway_steady root base (buildCalls root config).flatten)
    (underway_start hopens hempty config) h
  refine ⟨hsmooth.performed, fun c hc => ?_, Batches.exists_step (Nat.lt_of_lt_of_le Nat.one_pos
    (Nat.le_max_right _ _)), fun res hres => ?_⟩
  · obtain ⟨dir, name, hdir, hpath⟩ :=
      hsmooth.keeps.ordered.1 c (List.mem_append_left _ hc)
    exact ⟨dir, name, hpath, hdir.hasNode hsmooth.keeps.opens (by simp)⟩
  · obtain ⟨rfl, hwait, hrun, -, hrest⟩ := hsmooth.outcome res hres
    have hmade : ∀ c ∈ (buildCalls root config).flatten, HasNode s.world c.node c.path := by
      intro c hc
      have hkeeps := hsmooth.keeps.made c hc
      rw [hwait, hrun, hrest] at hkeeps
      exact (hkeeps.resolve_right List.not_mem_nil).hasNode hsmooth.keeps.opens c.node_ne_link
    refine ⟨rfl, fun path hpath => ?_, fun path hpath => ?_⟩
    · obtain ⟨c, hc, rfl, hnode⟩ := (mem_buildCalls root config).1 path hpath
      rw [← hnode]
      exact hmade c hc
    · obtain ⟨c, hc, rfl, hnode⟩ := (mem_buildCalls root config).2 path hpath
      rw [← hnode]
      exact hmade c hc

def Builds (config : MetadataConfig) (root : List Char) (tree : FileTree EntryName) : Prop :=
  ∀ tr s, (building config root tree).Run (building config root tree).init tr s →
    BuildState config root s ∧
      tr.length ≤ ((buildCalls root config).map fun batch => 3 * batch.length + 1).sum + 1

/-- The build of an accepted spec on a fresh root makes the layout that the checks have
counted. -/
theorem build_exact {spec : BenchSpec} {ctx : ValidationContext} {config : MetadataConfig}
    (hvalid : validate spec ctx = .ok ()) (hmd : spec.metadata = some config)
    (hmanifest : config.dirManifest = none) (hreadOnly : config.readOnly = false)
    (hcaps : ctx.layoutCaps.maxTotalDirs < u64Max ∧ ctx.layoutCaps.maxTotalFiles < u64Max)
    {t : FileTree EntryName} {mountPoint workerId jobId : List Char}
    (hfresh : Fresh t (buildRoot mountPoint config workerId jobId)) :
    Counted ctx.layoutCaps config
        (buildLayout (buildRoot mountPoint config workerId jobId) config) ∧
      ∃ tree, makeRoot t (buildRoot mountPoint config workerId jobId) = .ok tree ∧
        Builds config (buildRoot mountPoint config workerId jobId) tree := by
  obtain ⟨tree, base, hmade, hopens, hempty⟩ := makeRoot_fresh hfresh
  refine ⟨buildLayout_counted hvalid hmd hmanifest hreadOnly hcaps hfresh.1, tree, hmade,
    fun tr s hrun => ⟨building_state hopens hempty config ⟨tr, hrun⟩, ?_⟩⟩
  have hlength := Batches.run_length hrun
  omega

namespace Small

def builtConfig : MetadataConfig :=
  { concurrency := 2, dir := "d", dirManifest := none, ops := [.stat, .mkdir], readOnly := false
    readOnlyScanLimit := 0, depth := 2, width := 2, filesPerDir := 2, layoutConcurrency := 4
    thinkTime := none, rateLimit := none }

def builtSpec : BenchSpec :=
  { fsName := "fs", ioMode := .seq, ioAligned := true, directIo := false, blockSize := 4096
    duration := 1000, warmup := 0, targetWorkers := 1, read := none, write := none
    metadata := some builtConfig }

def w : EntryName := ⟨['w'], by decide, by decide, by decide⟩

def mounted : FileTree EntryName := FileTree.new.insert [] m .dir

def builtRoot : List Char := buildRoot "/m".toList builtConfig ['w'] ['a']

theorem mounted_fresh : Fresh mounted builtRoot :=
  ⟨by decide, .inr ⟨[.name m], [m], ⟨['d'], by decide, by decide, by decide⟩, [w, a], by decide,
    by decide, by decide, by decide⟩⟩

end Small

theorem build_exact_small :
    Counted {} Small.builtConfig (buildLayout Small.builtRoot Small.builtConfig) ∧
      ∃ tree, makeRoot Small.mounted Small.builtRoot = .ok tree ∧
        Builds Small.builtConfig Small.builtRoot tree :=
  build_exact (by decide : validate Small.builtSpec {} = .ok ()) rfl rfl rfl (by decide)
    Small.mounted_fresh

end CvdBench.Worker
