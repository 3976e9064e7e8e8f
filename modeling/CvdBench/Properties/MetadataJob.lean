import CvdBench.Properties.LayoutExact
import CvdBench.Properties.LayoutRuns
import CvdBench.Properties.MeasureWindow
import CvdBench.Properties.PathContainment

/-!
A metadata job from its layout to its cleanup, on one file tree.
-/

set_option autoImplicit false

namespace CvdBench.Worker

open Foundation Spec Metrics

def firstLetter (l : List EntryName) : Option Char := l.head?.bind fun name => name.chars.head?

theorem firstLetter_append {l : List EntryName} (hl : l ≠ []) (l' : List EntryName) :
    firstLetter (l ++ l') = firstLetter l := by
  obtain ⟨name, l, rfl⟩ := List.exists_cons_of_ne_nil hl
  rfl

theorem firstLetter_layerPlaces {width depth : Nat} {current : List (List EntryName)}
    (hcurrent : ∀ l ∈ current, l = [] ∨ firstLetter l = some 'd') :
    ∀ l ∈ (layerPlaces width depth current).flatten, firstLetter l = some 'd' := by
  induction depth generalizing current with
  | zero => simp [layerPlaces]
  | succ depth ih =>
    have hnext : ∀ l ∈ placesIn dirName width current, firstLetter l = some 'd' := by
      intro l hl
      obtain ⟨dir, hdir, i, -, rfl⟩ := mem_placesIn.mp hl
      rcases hcurrent dir hdir with rfl | hfirst
      · rfl
      · rw [firstLetter_append, hfirst]
        rintro rfl
        cases hfirst
    intro l hl
    rw [layerPlaces, List.flatten_cons, List.mem_append] at hl
    rcases hl with hl | hl
    · exact hnext l hl
    · exact ih (fun l hl => .inr (hnext l hl)) l hl

theorem taskName_notMem_layoutPlaces (config : MetadataConfig) (i : Nat) (name : EntryName) :
    [tasksName, taskName i, name] ∉ layoutPlaces config := by
  have hletter : firstLetter [tasksName, taskName i, name] = some '_' := rfl
  have hdirs : ∀ l ∈ (layerPlaces config.width config.depth [[]]).flatten,
      firstLetter l = some 'd' :=
    firstLetter_layerPlaces fun l hl => .inl (List.mem_singleton.mp hl)
  unfold layoutPlaces
  rw [List.mem_append, List.mem_append, List.mem_append]
  rintro (((h | h) | h) | h)
  · rw [hdirs _ h] at hletter
    exact absurd hletter (by decide)
  · obtain ⟨dir, hdir, j, -, heq⟩ := mem_placesIn.mp h
    have hne : dir ≠ [] := by
      rintro rfl
      cases hdirs _ hdir
    rw [heq, firstLetter_append hne, hdirs _ hdir] at hletter
    exact absurd hletter (by decide)
  · cases List.mem_singleton.mp h
  · obtain ⟨dir, hdir, j, -, heq⟩ := mem_placesIn.mp h
    rw [List.mem_singleton.mp hdir] at heq
    have hlen := congrArg List.length heq
    cases hlen

theorem mem_taskRoots {root path : List Char} {config : MetadataConfig} :
    path ∈ (buildLayout root config).taskRoots ↔
      ∃ i < config.concurrency, path = joinNames root [tasksName, taskName i] := by
  unfold buildLayout taskRoots pathsIn
  simp only [List.mem_flatMap, List.mem_singleton, List.mem_map, List.mem_range]
  constructor
  · rintro ⟨_, rfl, i, hi, rfl⟩
    exact ⟨i, hi, rfl⟩
  · rintro ⟨i, hi, rfl⟩
    exact ⟨_, rfl, i, hi, rfl⟩

theorem taskRoots_nodup {root : List Char} (hroot : root ≠ []) (config : MetadataConfig) :
    (buildLayout root config).taskRoots.Nodup := by
  have hall := (layoutPlaces_nodup config).map (joinNames_injective hroot)
  rw [← layoutPaths_eq, layoutPaths, List.nodup_append] at hall
  exact hall.2.1

/-- What holds while a layout is built: nothing lies below the root but what the calls make,
and elsewhere the tree is as before. -/
structure Confined (root : List Char) (base : List EntryName) (all : List BuildCall)
    (t₀ t : FileTree EntryName) (batch : List BuildCall) (rest : List (List BuildCall)) :
    Prop where
  underway : Underway root base all t batch rest
  known : ∀ c ∈ batch ++ rest.flatten, c ∈ all
  below : ∀ n path, LiesBelow t root base n path → path = root ∨ ∃ c ∈ all, c.path = path
  outside : Outside t₀ t base

theorem confined_steady (root : List Char) (base : List EntryName) (all : List BuildCall)
    (t₀ : FileTree EntryName) : Batches.Steady BuildCall.run (Confined root base all t₀) where
  perm := by
    intro t batch batch' rest hperm h
    refine ⟨(underway_steady root base all).perm hperm h.underway, fun c hc => ?_, h.below,
      h.outside⟩
    exact h.known c ((hperm.append_right _).mem_iff.mpr hc)
  call := by
    intro t c batch rest h
    obtain ⟨t', hrun, hunderway⟩ := (underway_steady root base all).call h.underway
    have hdue : Due t root base c.path := h.underway.ordered.1 c List.mem_cons_self
    have habsent := h.underway.absent c List.mem_cons_self
    obtain ⟨t'', hrun', -, hgains⟩ := c.run_due h.underway.opens hdue habsent
    rw [hrun, Except.ok.injEq] at hrun'
    subst hrun'
    refine ⟨t', hrun, hunderway, fun c' hc' => h.known c' (List.mem_cons_of_mem _ hc'),
      fun n path hn => ?_,
      h.outside.trans (BuildCall.run_outside h.underway.opens hdue habsent hrun)⟩
    rcases (hgains path n).mp hn with hold | ⟨rfl, -⟩
    · exact h.below n path hold
    · exact .inr ⟨c, h.known c List.mem_cons_self, rfl⟩
  next h := ⟨(underway_steady root base all).next h.underway, h.known, h.below, h.outside⟩

theorem confined_start {t : FileTree EntryName} {root : List Char} {base : List EntryName}
    (hopens : Opens t root base) (hempty : t.children base = ∅) (config : MetadataConfig) :
    Confined root base (buildCalls root config).flatten t t [] (buildCalls root config) where
  underway := underway_start hopens hempty config
  known _ hc := hc
  below := by
    rintro n path ⟨names, rfl, hn⟩
    cases names with
    | nil => exact .inl rfl
    | cons name names =>
      rw [FileTree.get?_below_empty hempty (List.prefix_append _ _) (by simp)] at hn
      cases hn
  outside := .refl t base

theorem validate_ops {spec : BenchSpec} {ctx : ValidationContext} {md : MetadataConfig}
    (h : validate spec ctx = .ok ()) (hmd : spec.metadata = some md)
    (hmanifest : md.dirManifest = none) : md.ops ≠ [] ∧
      (md.readOnly = true → ∀ op ∈ md.ops, makes op = false) ∧
      (md.readOnly = false → (.stat ∈ md.ops ∨ .open ∈ md.ops → 0 < md.filesPerDir) ∧
        0 < md.depth ∧ 0 < md.width) := by
  have hnone := validateInto_eq_nil h
  simp only [validateInto, List.append_eq_nil_iff, hmd, validateMetadata, hmanifest] at hnone
  obtain ⟨-, ⟨⟨⟨⟨⟨⟨⟨⟨⟨⟨-, -⟩, hops⟩, -⟩, hreads⟩, hfiles⟩, hdepth⟩, hwidth⟩, -⟩, -⟩, -⟩⟩ := hnone
  rw [violates_eq_nil] at hops hreads hfiles
  refine ⟨fun hnil => by simp [hnil] at hops, fun hro op hop => ?_, fun hro => ⟨?_, ?_, ?_⟩⟩
  · rw [hro, Bool.true_and, List.any_eq_false] at hreads
    have hop' := hreads op hop
    cases op <;> simp_all [makes]
  · intro hneeds
    rw [hro] at hfiles
    have hany : (md.ops.any fun op => op == .stat || op == .open) = true := by
      rw [List.any_eq_true]
      rcases hneeds with hop | hop
      · exact ⟨_, hop, rfl⟩
      · exact ⟨_, hop, rfl⟩
    rw [hany] at hfiles
    simp at hfiles
    omega
  · rw [hro] at hdepth
    exact checkDimension_pos hdepth
  · rw [hro] at hwidth
    exact checkDimension_pos hwidth

theorem buildLayout_ne_nil (root : List Char) {config : MetadataConfig} (hdepth : 0 < config.depth)
    (hwidth : 0 < config.width) : (buildLayout root config).directories ≠ [] ∧
      (0 < config.filesPerDir → (buildLayout root config).files ≠ []) := by
  have hdirs : (buildLayout root config).directories ≠ [] := by
    obtain ⟨depth, hd⟩ := Nat.exists_eq_succ_of_ne_zero hdepth.ne'
    have hfirst : nextLayer config.width [root] ≠ [] := by
      refine List.ne_nil_of_length_pos ?_
      rw [nextLayer, length_pathsIn, List.length_singleton, Nat.one_mul]
      exact hwidth
    rw [buildLayout, hd, layers, List.flatten_cons]
    exact List.append_ne_nil_of_left_ne_nil hfirst _
  refine ⟨hdirs, fun hfiles => List.ne_nil_of_length_pos ?_⟩
  have hlen : (buildLayout root config).files.length =
      (buildLayout root config).directories.length * config.filesPerDir := length_pathsIn ..
  rw [hlen]
  exact Nat.mul_pos (List.length_pos_of_ne_nil hdirs) hfiles

theorem building_ready {spec : BenchSpec} {ctx : ValidationContext} {config : MetadataConfig}
    (hvalid : validate spec ctx = .ok ()) (hmd : spec.metadata = some config)
    (hmanifest : config.dirManifest = none) (hreadOnly : config.readOnly = false)
    {t : FileTree EntryName} {root : List Char} {base : List EntryName} (hopens : Opens t root base)
    (hempty : t.children base = ∅) {s : Batches (FileTree EntryName) BuildCall Errno}
    (h : (building config root t).Reachable s) {res : Except (BuildCall × Errno) Unit}
    (hres : s.outcome = some res) :
    LayoutReady config (buildLayout root config) s.world root base ∧ Outside t s.world base := by
  obtain ⟨hops, -, hbuilt⟩ := validate_ops hvalid hmd hmanifest
  obtain ⟨hfiles, hdepth, hwidth⟩ := hbuilt hreadOnly
  obtain ⟨hsomeDir, hsomeFile⟩ := buildLayout_ne_nil root hdepth hwidth
  have hsmooth := Batches.smooth_run (confined_steady root base (buildCalls root config).flatten t)
    (confined_start hopens hempty config) h
  obtain ⟨-, hwait, hrun, -, hrest⟩ := hsmooth.outcome res hres
  have hkeeps := hsmooth.keeps
  rw [hwait, hrun, hrest] at hkeeps
  have hunderway : Underway root base (buildCalls root config).flatten s.world [] [] :=
    hkeeps.underway
  have hmade : ∀ c ∈ (buildCalls root config).flatten,
      LiesBelow s.world root base c.node c.path :=
    fun c hc => (hunderway.made c hc).resolve_right List.not_mem_nil
  have hdirs : ∀ path ∈ (buildLayout root config).directories ++ [tasksRoot root] ++
      (buildLayout root config).taskRoots, LiesBelow s.world root base .dir path := by
    intro path hpath
    obtain ⟨c, hc, rfl, hnode⟩ := (mem_buildCalls root config).1 path hpath
    exact hnode ▸ hmade c hc
  refine ⟨⟨hunderway.opens, hops, ?_, fun path hpath => ?_, fun path hpath => hdirs path ?_,
    fun hneeds => hsomeFile (hfiles hneeds), fun _ => hsomeDir, fun op _ _ =>
      ⟨taskRoots_nodup hopens.nonempty config, fun path hpath => ⟨hdirs path ?_, ?_⟩⟩⟩,
    hkeeps.outside⟩
  · rw [buildLayout, taskRoots, length_pathsIn, List.length_singleton, Nat.one_mul]
  · obtain ⟨c, hc, rfl, hnode⟩ := (mem_buildCalls root config).2 path hpath
    exact hnode ▸ hmade c hc
  · exact List.mem_append_left _ (List.mem_append_left _ hpath)
  · exact List.mem_append_right _ hpath
  · -- a path below a task root is none of the layout
    obtain ⟨i, -, rfl⟩ := mem_taskRoots.mp hpath
    intro name n hn
    rw [← joinNames_concat] at hn
    rcases hkeeps.below n _ hn with heq | ⟨c, hc, heq⟩
    · cases joinNames_injective hopens.nonempty (heq.trans (joinNames_nil root).symm)
    · have hmem : c.path ∈ layoutPaths root config := by
        rw [← buildCalls_paths]
        exact List.mem_map_of_mem hc
      rw [layoutPaths_eq] at hmem
      obtain ⟨l, hl, hpath⟩ := List.mem_map.mp hmem
      have hplace := joinNames_injective hopens.nonempty (hpath.trans heq)
      rw [hplace] at hl
      exact taskName_notMem_layoutPlaces config i name hl

/-- An accepted spec never makes the workload fail: however the build of its layout on a fresh
root went about it, every run of the tasks on what it has made is well. -/
theorem metadata_workload {spec : BenchSpec} {ctx : ValidationContext} {config : MetadataConfig}
    (hvalid : validate spec ctx = .ok ()) (hmd : spec.metadata = some config)
    (hmanifest : config.dirManifest = none) (hreadOnly : config.readOnly = false)
    {t : FileTree EntryName} {root : List Char} (hfresh : Fresh t root) {H : Type}
    (cfg : MeasureCfg) (lib : HdrRecorder H) (fresh : PerOpMetrics H)
    (order : List Char → HashOrder EntryName) (start : Nat) :
    ∃ tree base, makeRoot t root = .ok tree ∧ ∀ built res,
      (building config root tree).Reachable built → built.outcome = some res → ∀ tr s,
      (layoutRunning cfg lib fresh order config (buildLayout root config) start built.world).Run
        (layoutRunning cfg lib fresh order config (buildLayout root config) start built.world).init
        tr s →
      LayoutRuns cfg lib fresh order config (buildLayout root config) start built.world root base
        tr s := by
  obtain ⟨tree, base, hmade, hopens, hempty⟩ := makeRoot_fresh hfresh
  refine ⟨tree, base, hmade, fun built res hreach hres tr s hrun => ?_⟩
  obtain ⟨hready, -⟩ := building_ready hvalid hmd hmanifest hreadOnly hopens hempty hreach hres
  exact (layout_run hready hrun).2

/-- The path goes on from a directory with names of which the first is missing. -/
structure MissingFrom (t : FileTree EntryName) (root : List Char) (above : List (Comp EntryName))
    (base : List EntryName) (first : EntryName) (names : List EntryName) : Prop where
  nonempty : root ≠ []
  path : pathComps root = above ++ .name first :: names.map .name
  found : find t.get? above = .ok base
  node : t.get? base = some .dir
  missing : t.get? (base ++ [first]) = none

theorem MissingFrom.fresh {t : FileTree EntryName} {root : List Char}
    {above : List (Comp EntryName)} {base : List EntryName} {first : EntryName}
    {names : List EntryName} (h : MissingFrom t root above base first names) : Fresh t root :=
  ⟨h.nonempty, .inr ⟨above, base, first, names, h.path, h.found, h.node, h.missing⟩⟩

namespace Small

def tinyConfig : MetadataConfig :=
  { builtConfig with
    concurrency := 1
    ops := [.create]
    depth := 1
    width := 1
    filesPerDir := 0 }

def tinySpec : BenchSpec := { builtSpec with metadata := some tinyConfig }

def jobRoot : List Char :=
  buildRoot "/m".toList tinyConfig "node12-3941-7af2c910".toList otherUuid.toList

def madeTree : FileTree EntryName :=
  match makeRoot mounted jobRoot with
  | .ok tree => tree
  | .error _ => mounted

def built : Batches (FileTree EntryName) BuildCall Errno :=
  (building tinyConfig jobRoot madeTree).play (building tinyConfig jobRoot madeTree).init
    [.next, .start, .perform 0, .collect 0, .next, .next, .start, .perform 0, .collect 0, .next,
      .start, .perform 0, .collect 0, .next]

def minute : MeasureCfg := ⟨0, 60000000, "/m", false, false, false⟩

abbrev working : Machine (LayoutRun Unit) LayoutAct (Option OpRecord) :=
  layoutRunning minute recorder fresh byName tinyConfig (buildLayout jobRoot tinyConfig) 0
    built.world

def oneFile : List LayoutAct :=
  [.run 0, .choose 0 0, .run 0, .operate 0 0, .run 0, .elapse 60000000, .choose 0 0]

def d : EntryName := ⟨['d'], by decide, by decide, by decide⟩

def node : EntryName :=
  ⟨"node12-3941-7af2c910".toList, by decide, by decide, by decide⟩

def jobName : EntryName := ⟨otherUuid.toList, by decide, by decide, by decide⟩

theorem mounted_missing : MissingFrom mounted jobRoot [.name m] [m] d [node, jobName] :=
  ⟨by decide, by decide, by decide, by decide, by decide⟩

end Small

theorem metadata_workload_small :
    recorded .create (Small.working.trace Small.working.init Small.oneFile) = 1 ∧
      ∃ base, LayoutRuns Small.minute Small.recorder Small.fresh Small.byName Small.tinyConfig
        (buildLayout Small.jobRoot Small.tinyConfig) 0 Small.built.world Small.jobRoot base
        (Small.working.trace Small.working.init Small.oneFile)
        (Small.working.play Small.working.init Small.oneFile) := by
  obtain ⟨tree, base, hmade, hall⟩ :=
    metadata_workload (by decide : validate Small.tinySpec {} = .ok ()) rfl rfl rfl
      Small.mounted_missing.fresh Small.minute Small.recorder Small.fresh Small.byName 0
  have htree : Small.madeTree = tree := by rw [Small.madeTree, hmade]
  subst htree
  exact ⟨by decide +kernel, base, hall Small.built (.ok ()) (Machine.reachable_play _ _)
    (by decide +kernel) _ _ (Small.working.run_play _ _)⟩

theorem Grown.eq_of_idle {layout : Layout} {t₀ t : FileTree EntryName} {root : List Char}
    {base : List EntryName} {seqs : List LayoutSeqs} (hroot : root ≠ [])
    (h : Grown layout t₀ root base seqs t)
    (hidle : ∀ q ∈ seqs, q.create = 0 ∧ q.mkdir = 0) : t = t₀ := by
  have hnone : ∀ path n, ¬ TaskMade layout seqs path n := by
    rintro path n ⟨i, taskRoot, q, name, -, hq, hgave, -⟩
    obtain ⟨hcreate, hmkdir⟩ := hidle q (List.mem_of_getElem? hq)
    rcases hgave with ⟨-, j, hj, -⟩ | ⟨-, j, hj, -⟩
    · exact absurd (hcreate ▸ hj) (Nat.not_lt_zero j)
    · exact absurd (hmkdir ▸ hj) (Nat.not_lt_zero j)
  have hbelow : ∀ names n, t.get? (base ++ names) = some n ↔ t₀.get? (base ++ names) = some n := by
    have hlies : ∀ (t : FileTree EntryName) names n,
        LiesBelow t root base n (joinNames root names) ↔ t.get? (base ++ names) = some n := by
      intro t names n
      constructor
      · rintro ⟨names', heq, hn⟩
        rwa [joinNames_injective hroot heq]
      · exact fun hn => ⟨names, rfl, hn⟩
    intro names n
    rw [← hlies, ← hlies, h.below, or_iff_left (hnone _ _)]
  refine FileTree.ext_get? fun l => ?_
  by_cases hl : base <+: l
  · obtain ⟨names, rfl⟩ := hl
    exact Option.ext (hbelow names)
  · exact h.outside l hl

theorem scanRoot_ne_nil {mountPoint : List Char} {config : MetadataConfig}
    (hdir : validateRelative config.dir = .ok ()) : scanRoot mountPoint config ≠ [] := by
  obtain ⟨hne, hhead, -⟩ := validateRelative_ok hdir
  unfold scanRoot joinPath
  rw [if_neg hhead]
  split <;> simp [hne]

theorem opens_of_scan {config : MetadataConfig} (hdir : validateRelative config.dir = .ok ())
    {order : List Char → HashOrder EntryName} {t : FileTree EntryName} {mountPoint : List Char}
    {layout : Layout}
    (hscan : Results (fun fuel => scanExisting order fuel t mountPoint config) (.ok layout)) :
    ∃ base, Opens t (scanRoot mountPoint config) base := by
  obtain ⟨n, hresult⟩ := hscan
  have hres := hresult (n + 1) (Nat.le_succ n)
  unfold scanExisting at hres
  cases hread : t.readDir (order (scanRoot mountPoint config))
      (pathComps (scanRoot mountPoint config)) with
  | error e =>
    simp [LayoutScan.loop, LayoutScan.turn, LayoutScan.new, hread, Except.bind] at hres
  | ok names =>
    unfold FileTree.readDir at hread
    split at hread
    · cases hread
    · next base hfound =>
      split at hread
      · next hnode => exact ⟨base, scanRoot_ne_nil hdir, hfound, hnode⟩
      · cases hread

theorem scan_ready {spec : BenchSpec} {ctx : ValidationContext} {config : MetadataConfig}
    (hvalid : validate spec ctx = .ok ()) (hmd : spec.metadata = some config)
    (hmanifest : config.dirManifest = none) (hreadOnly : config.readOnly = true)
    (hlimit : config.readOnlyScanLimit ≤ u32Max) {order : List Char → HashOrder EntryName}
    {t : FileTree EntryName} {mountPoint : List Char} {base : List EntryName} {layout : Layout}
    (hbase : Opens t (scanRoot mountPoint config) base)
    (hscan : Results (fun fuel => scanExisting order fuel t mountPoint config) (.ok layout)) :
    LayoutReady config layout t (scanRoot mountPoint config) base := by
  obtain ⟨hops, hreads, -⟩ := validate_ops hvalid hmd hmanifest
  obtain ⟨directories, files, ⟨n, s, hloop, rfl, rfl⟩, hfinds, -⟩ := exists_scans order hlimit hbase
  obtain ⟨n', hresult⟩ := hscan
  have hres := hresult (max n n') (le_max_right _ _)
  simp only [scanExisting, hloop (max n n') (le_max_left _ _), Option.map_some, Option.some.injEq]
    at hres
  have hne : s.directories ≠ [] := List.ne_nil_of_mem hfinds.root_mem
  have hmade : scanResult config (scanRoot mountPoint config) s = .ok layout := hres
  rw [scanResult_eq hne] at hmade
  split at hmade
  · cases hmade
  · next hfiles =>
    cases hmade
    exact ⟨hbase, hops, List.length_replicate, hfinds.files_below, hfinds.directories_below,
      fun hneeds hnil => hfiles ⟨hneeds, hnil⟩, fun _ => hne, fun op hop hmakes => by
        rw [hreads hreadOnly op hop] at hmakes
        cases hmakes⟩

/-- A read-only workload of an accepted spec never fails either, and it changes nothing. -/
theorem read_only_workload {spec : BenchSpec} {ctx : ValidationContext} {config : MetadataConfig}
    (hvalid : validate spec ctx = .ok ()) (hmd : spec.metadata = some config)
    (hmanifest : config.dirManifest = none) (hreadOnly : config.readOnly = true)
    (hlimit : config.readOnlyScanLimit ≤ u32Max) {order order' : List Char → HashOrder EntryName}
    {t : FileTree EntryName} {mountPoint : List Char} {layout : Layout}
    (hscan : Results (fun fuel => scanExisting order fuel t mountPoint config) (.ok layout))
    {H : Type} {cfg : MeasureCfg} {lib : HdrRecorder H} {fresh : PerOpMetrics H} {start : Nat}
    {tr : LayoutTrace H} {s : LayoutRun H}
    (h : (layoutRunning cfg lib fresh order' config layout start t).Run
      (layoutRunning cfg lib fresh order' config layout start t).init tr s) :
    ∃ base, Opens t (scanRoot mountPoint config) base ∧
      LayoutRuns cfg lib fresh order' config layout start t (scanRoot mountPoint config) base tr s ∧
        s.tree = t := by
  obtain ⟨base, hbase⟩ := opens_of_scan (validate_metadataDir hvalid hmd hmanifest) hscan
  have hready := scan_ready hvalid hmd hmanifest hreadOnly hlimit hbase hscan
  obtain ⟨hstate, hruns⟩ := layout_run hready h
  refine ⟨base, hbase, hruns, hstate.grown.eq_of_idle hbase.nonempty fun q hq => ?_⟩
  obtain ⟨-, hreads, -⟩ := validate_ops hvalid hmd hmanifest
  have hidle : ∀ op, makes op = true → q.count op = 0 := by
    intro op hmakes
    refine hstate.idle op (fun hop => ?_) q hq
    rw [hreads hreadOnly op hop] at hmakes
    cases hmakes
  exact ⟨hidle .create rfl, hidle .mkdir rfl⟩

theorem LayoutScan.loop_add {order : List Char → HashOrder EntryName} {t : FileTree EntryName}
    {limit fuel : Nat} {s : LayoutScan} {res : Except BuildError LayoutScan}
    (h : s.loop order t limit fuel = some res) (more : Nat) :
    s.loop order t limit (fuel + more) = some res := by
  induction fuel generalizing s with
  | zero => cases h
  | succ fuel ih =>
    rw [Nat.succ_add]
    unfold LayoutScan.loop at h ⊢
    split
    · next e hturn =>
      rw [hturn] at h
      exact h
    · next hturn =>
      rw [hturn] at h
      exact h
    · next s' hturn =>
      rw [hturn] at h
      exact ih h

theorem results_of_scan {order : List Char → HashOrder EntryName} {t : FileTree EntryName}
    {mountPoint : List Char} {config : MetadataConfig} (fuel : Nat) {res : Except BuildError Layout}
    (h : scanExisting order fuel t mountPoint config = some res) :
    Results (fun fuel => scanExisting order fuel t mountPoint config) res := by
  obtain ⟨res', hloop, rfl⟩ := Option.map_eq_some_iff.mp h
  refine ⟨fuel, fun fuel' hfuel => ?_⟩
  obtain ⟨more, rfl⟩ := Nat.exists_eq_add_of_le hfuel
  simp only [scanExisting, LayoutScan.loop_add hloop more, Option.map_some]

namespace Small

def readOnlySpec : BenchSpec := { builtSpec with metadata := some readOnlyConfig }

def scanned : Layout :=
  ⟨"/m/a".toList, ["/m/a".toList, "/m/a/x".toList], ["/m/a/f".toList],
    ["/m/a".toList, "/m/a".toList]⟩

theorem stocked_scanned :
    Results (fun fuel => scanExisting byName fuel stocked "/m".toList readOnlyConfig)
      (.ok scanned) :=
  results_of_scan 20 (by decide +kernel)

abbrev reading : Machine (LayoutRun Unit) LayoutAct (Option OpRecord) :=
  layoutRunning minute recorder fresh byName readOnlyConfig scanned 0 stocked

def lookAround : List LayoutAct :=
  [.run 0, .choose 0 0, .run 0, .run 1, .choose 1 1, .run 1, .operate 1 1, .operate 0 0]

end Small

theorem read_only_workload_small :
    (Small.reading.trace Small.reading.init Small.lookAround).length = 8 ∧
      ∃ base, Opens Small.stocked (scanRoot "/m".toList Small.readOnlyConfig) base ∧
        LayoutRuns Small.minute Small.recorder Small.fresh Small.byName Small.readOnlyConfig
          Small.scanned 0 Small.stocked (scanRoot "/m".toList Small.readOnlyConfig) base
          (Small.reading.trace Small.reading.init Small.lookAround)
          (Small.reading.play Small.reading.init Small.lookAround) ∧
        (Small.reading.play Small.reading.init Small.lookAround).tree = Small.stocked :=
  ⟨by decide +kernel, read_only_workload (by decide : validate Small.readOnlySpec {} = .ok ()) rfl
    rfl rfl (by decide) Small.stocked_scanned (Small.reading.run_play _ _)⟩

section

variable {t tree tree' : FileTree EntryName} {root parent : List Char} {job : EntryName}
  {above : List (Comp EntryName)} {base : List EntryName} {first : EntryName}
  {names : List EntryName}

theorem MissingFrom.make (h : MissingFrom t root above base first names) :
    ∃ tree, makeRoot t root = .ok tree ∧ Opens tree root (base ++ first :: names) ∧
      tree.children (base ++ first :: names) = ∅ ∧ ∀ l, tree.get? l =
        if base ++ [first] <+: l ∧ l <+: base ++ first :: names then some .dir
        else t.get? l := by
  obtain ⟨tree, hmade, hfound, hnode, hempty⟩ :=
    FileTree.createDirAll_missing h.found h.node h.missing names
  have hget := FileTree.get?_createDirAll h.found h.node h.missing hmade
  rw [← h.path] at hmade hfound
  refine ⟨tree, ?_, ⟨h.nonempty, hfound, hnode⟩, hempty, hget⟩
  rw [makeRoot, hmade]

theorem MissingFrom.none_below (h : MissingFrom t root above base first names)
    {l : List EntryName} (hl : base ++ [first] <+: l) : t.get? l = none := by
  obtain ⟨below, rfl⟩ := hl
  by_contra hne
  obtain ⟨n, hn⟩ := Option.ne_none_iff_exists'.mp hne
  have hmissing := h.missing
  by_cases hnil : below = []
  · subst hnil
    rw [List.append_nil, hmissing] at hn
    cases hn
  · rw [FileTree.get?_above below hnil hn] at hmissing
    cases hmissing

theorem MissingFrom.apart (h : MissingFrom t (joinPath parent job.chars) above base first names)
    (hparent : parent ≠ [])
    (htree : ∀ l, ¬ base ++ first :: names <+: l → tree.get? l =
      if base ++ [first] <+: l ∧ l <+: base ++ first :: names then some .dir else t.get? l) :
    ∃ dir, dir ++ [job] = base ++ first :: names ∧ Apart tree parent job dir := by
  -- the last of the names is the job's
  obtain ⟨init, last, hnames⟩ : ∃ init last, first :: names = init ++ [last] := by
    rcases List.eq_nil_or_concat (first :: names) with hnil | ⟨init, last, heq⟩
    · cases hnil
    · exact ⟨init, last, by rw [heq, List.concat_eq_append]⟩
  have hpath := h.path
  have hcomps : (Comp.name first :: names.map .name : List (Comp EntryName)) =
      init.map .name ++ [.name last] := by
    rw [← List.map_cons, hnames, List.map_append, List.map_singleton]
  rw [pathComps_join hparent, hcomps, ← List.append_assoc] at hpath
  obtain ⟨hpre, hlast⟩ := List.append_inj' hpath rfl
  obtain rfl : job = last := Comp.name.inj (List.singleton_injective hlast)
  have hplace : base ++ init ++ [job] = base ++ first :: names := by
    rw [hnames, List.append_assoc]
  refine ⟨base ++ init, hplace, ?_⟩
  have hget : ∀ l, ¬ base ++ first :: names <+: l →
      tree.emptied (base ++ init ++ [job]) l = tree.get? l := by
    intro l hl
    rw [FileTree.emptied, hplace, if_neg fun hin => hl hin.1]
  rw [Apart, hpre]
  refine find_names (find_mono (fun l n hn => ?_) h.found) init fun pre hpre => ?_
  · -- what was there before is not below the root
    have hout : ¬ base ++ [first] <+: l := by
      intro hl
      rw [h.none_below hl] at hn
      cases hn
    have hout' : ¬ base ++ first :: names <+: l := fun hl =>
      hout (List.IsPrefix.trans ((List.prefix_append_right_inj _).mpr ⟨names, rfl⟩) hl)
    rw [hget l hout', htree l hout', if_neg fun hin => hout hin.1, hn]
  · have hshort : ¬ base ++ first :: names <+: base ++ pre := by
      intro hl
      have hlen := hl.length_le
      have hle := hpre.length_le
      rw [hnames] at hlen
      simp only [List.length_append, List.length_singleton] at hlen
      omega
    rw [hget _ hshort, htree _ hshort]
    cases pre with
    | nil =>
      rw [List.append_nil, if_neg fun hin => FileTree.not_concat_prefix base first hin.1, h.node]
    | cons name pre =>
      have hin : name :: pre <+: first :: names := by
        rw [hnames]
        exact hpre.trans (List.prefix_append _ _)
      obtain ⟨rfl, hin'⟩ := List.cons_prefix_cons.mp hin
      rw [if_pos ⟨(List.prefix_append_right_inj _).mpr ⟨pre, rfl⟩,
        (List.prefix_append_right_inj _).mpr hin⟩]

variable (job) in
/-- The directory that is taken out when the job is over is the one that was made for it. -/
theorem MissingFrom.cleanup (h : MissingFrom t (joinPath parent job.chars) above base first names)
    (hparent : parent ≠ []) (hnode : tree.get? (base ++ first :: names) = some .dir)
    (htree : ∀ l, ¬ base ++ first :: names <+: l → tree.get? l =
      if base ++ [first] <+: l ∧ l <+: base ++ first :: names then some .dir else t.get? l)
    {mount : List Char} (hstarts : pathStartsWith (joinPath parent job.chars) mount = true)
    (order : List Char → HashOrder EntryName) :
    ∃ t', (∀ start, start = cleanupRoot ∨ start = bestEffortCleanup →
        Leaves (fun fuel => cleanupIn order start fuel tree mount (joinPath parent job.chars)) t') ∧
      ∀ l, t'.get? l = if base ++ first :: names <+: l then none
        else if base ++ [first] <+: l ∧ l <+: base ++ first :: names then some .dir
        else t.get? l := by
  obtain ⟨dir, hdir, hapart⟩ := h.apart hparent htree
  have hreal : RealDir tree parent job dir := by
    refine ⟨hparent, find_mono (emptied_le _ _) hapart, ?_⟩
    rw [hdir]
    exact hnode
  obtain ⟨t', hremoved, n, hn⟩ := removeDirAllNoFollow_leaves order hreal hapart
  refine ⟨t', fun start hstart => ⟨n, fun fuel hfuel => ?_⟩, fun l => ?_⟩
  · have hloop : Clearing.loop order fuel ⟨tree, .from (joinPath parent job.chars), []⟩ =
        some (t', .ok ()) := hn fuel hfuel
    have hsweep : start mount (joinPath parent job.chars) .dir =
        .sweep (.from (joinPath parent job.chars)) := by
      rcases hstart with rfl | rfl
      · simp [cleanupRoot, hstarts]
      · simp [bestEffortCleanup, hstarts]
    unfold cleanupIn
    simp only [hstarts, not_true, if_false, hreal.kind, hsweep, hloop, Option.map_some]
    rfl
  · rw [hremoved l, hdir]
    by_cases hl : base ++ first :: names <+: l
    · rw [if_pos hl, if_pos hl]
    · rw [if_neg hl, if_neg hl, htree l hl]

end

theorem pathStartsWith_buildRoot {mountPoint : List Char} {config : MetadataConfig}
    {workerId jobId : List Char} (hmount : mountPoint ≠ [])
    (hdir : config.dir.toList.head? ≠ some '/') (hworker : workerId.head? ≠ some '/')
    (hjob : jobId.head? ≠ some '/') :
    pathStartsWith (buildRoot mountPoint config workerId jobId) mountPoint = true := by
  have hbase := joinPath_ne_nil config.dir.toList hmount
  refine List.isPrefixOf_iff_prefix.mpr ?_
  exact (pathComponents_join hmount hdir).trans ((pathComponents_join hbase hworker).trans
    (pathComponents_join (joinPath_ne_nil _ hbase) hjob))

/-- The whole life of a metadata job leaves the tree as it was, but for the directories above
its root: the root is made, the layout is built, the tasks run as they please, and the
cleanup takes out all that lies there. -/
theorem metadata_job_cleanup {spec : BenchSpec} {ctx : ValidationContext} {config : MetadataConfig}
    (hvalid : validate spec ctx = .ok ()) (hmd : spec.metadata = some config)
    (hmanifest : config.dirManifest = none) (hreadOnly : config.readOnly = false)
    {mountPoint : List Char} {workerId jobId : String} (hmount : mountPoint ≠ [])
    (hworker : validateWorkerId workerId = .ok ()) (hjob : IsUuid jobId)
    {t : FileTree EntryName} {above : List (Comp EntryName)} {base : List EntryName}
    {first : EntryName} {names : List EntryName}
    (hmissing : MissingFrom t (buildRoot mountPoint config workerId.toList jobId.toList) above base
      first names) {H : Type} (cfg : MeasureCfg) (lib : HdrRecorder H) (fresh : PerOpMetrics H)
    (order order' : List Char → HashOrder EntryName) (start : Nat) :
    let root := buildRoot mountPoint config workerId.toList jobId.toList
    let layout := buildLayout root config
    ∃ tree, makeRoot t root = .ok tree ∧ ∀ built res,
      (building config root tree).Reachable built → built.outcome = some res → ∀ s,
      (layoutRunning cfg lib fresh order config layout start built.world).Reachable s →
      ∃ t', Leaves (fun fuel => bestEffortCleanupIn order' fuel s.tree mountPoint root) t' ∧
        ∀ l, t'.get? l = if base ++ first :: names <+: l then none
          else if base ++ [first] <+: l ∧ l <+: base ++ first :: names then some .dir
          else t.get? l := by
  intro root layout
  obtain ⟨hj, hjslash, hjdot, hjdots⟩ := hjob.name
  obtain ⟨hw, hwslash⟩ := validateWorkerId_ok hworker
  let job : EntryName := ⟨jobId.toList, hj, hjslash, hjdot, hjdots⟩
  have hbase := joinPath_ne_nil config.dir.toList hmount
  have hparent := joinPath_ne_nil workerId.toList hbase
  have hstarts : pathStartsWith root mountPoint = true :=
    pathStartsWith_buildRoot hmount
      (validateRelative_ok (validate_metadataDir hvalid hmd hmanifest)).2.1
      (noSlash_head hwslash) (noSlash_head hjslash)
  obtain ⟨tree, hmade, hopens, hempty, hget⟩ := hmissing.make
  refine ⟨tree, hmade, fun built res hreach hres s hs => ?_⟩
  obtain ⟨hready, hbuilt⟩ :=
    building_ready hvalid hmd hmanifest hreadOnly hopens hempty hreach hres
  obtain ⟨tr, hrun⟩ := hs
  have hgrown : Grown layout built.world root (base ++ first :: names) s.seqs s.tree :=
    (layout_run hready hrun).1.grown
  have htree : ∀ l, ¬ base ++ first :: names <+: l → s.tree.get? l =
      if base ++ [first] <+: l ∧ l <+: base ++ first :: names then some .dir else t.get? l := by
    intro l hl
    rw [hgrown.outside l hl, hbuilt l hl, hget]
  obtain ⟨t', hleaves, ht'⟩ :=
    MissingFrom.cleanup job hmissing hparent hgrown.opens.node htree hstarts order'
  exact ⟨t', hleaves _ (.inr rfl), ht'⟩

theorem metadata_job_cleanup_small : ∃ t',
    Leaves (fun fuel => bestEffortCleanupIn Small.byName fuel
      (Small.working.play Small.working.init Small.oneFile).tree "/m".toList Small.jobRoot) t' ∧
    t'.get? [Small.m, Small.d, Small.node, Small.jobName] = none ∧
    t'.get? [Small.m, Small.d, Small.node] = some .dir := by
  obtain ⟨tree, hmade, hall⟩ :=
    metadata_job_cleanup (by decide : validate Small.tinySpec {} = .ok ()) rfl rfl rfl
      (by decide) (by decide : validateWorkerId "node12-3941-7af2c910" = .ok ())
      (by decide : IsUuid Small.otherUuid) Small.mounted_missing Small.minute Small.recorder
      Small.fresh Small.byName Small.byName 0
  have htree : Small.madeTree = tree := by
    have hroot : makeRoot Small.mounted Small.jobRoot = .ok tree := hmade
    rw [Small.madeTree, hroot]
  subst htree
  obtain ⟨t', hleaves, hget⟩ := hall Small.built (.ok ()) (Machine.reachable_play _ _)
    (by decide +kernel) _ (Small.working.reachable_play Small.oneFile)
  refine ⟨t', hleaves, ?_, ?_⟩
  · rw [hget]
    decide
  · rw [hget]
    decide

end CvdBench.Worker
