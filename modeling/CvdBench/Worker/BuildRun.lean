import CvdBench.Foundation.Batches
import CvdBench.Worker.LayoutPlan

/-!
Building a metadata layout: `build` makes the root, and then one batch after the other.
-/

set_option autoImplicit false

namespace CvdBench.Worker

open Foundation Spec

inductive BuildOp where
  | mkdir | createFile | mkdirTasksRoot | mkdirTaskRoot
  deriving DecidableEq, Repr

def BuildOp.name : BuildOp → String
  | .mkdir => "mkdir"
  | .createFile => "create_file"
  | .mkdirTasksRoot => "mkdir_tasks_root"
  | .mkdirTaskRoot => "mkdir_task_root"

structure BuildCall where
  op : BuildOp
  path : List Char
  deriving DecidableEq, Repr

def BuildCall.run (c : BuildCall) (t : FileTree EntryName) : Except Errno (FileTree EntryName) :=
  match c.op with
  | .createFile => t.createFile (pathComps c.path)
  | .mkdir | .mkdirTasksRoot | .mkdirTaskRoot => t.createDir (pathComps c.path)

def BuildCall.node (c : BuildCall) : Node EntryName :=
  match c.op with
  | .createFile => .file
  | .mkdir | .mkdirTasksRoot | .mkdirTaskRoot => .dir

/-- The batches of `mkdir_many` and `create_many`; a call that is awaited at once is a batch
of its own. -/
def buildCalls (root : List Char) (config : MetadataConfig) : List (List BuildCall) :=
  let layout := buildLayout root config
  (layers config.width config.depth [root]).map (fun layer => layer.map (⟨.mkdir, ·⟩)) ++
    [layout.files.map (⟨.createFile, ·⟩), [⟨.mkdirTasksRoot, tasksRoot root⟩]] ++
    layout.taskRoots.map fun path => [⟨.mkdirTaskRoot, path⟩]

def layoutConcurrency (config : MetadataConfig) : Nat := max config.layoutConcurrency 1

def buildRoot (mountPoint : List Char) (config : MetadataConfig) (workerId jobId : List Char) :
    List Char :=
  joinPath (joinPath (joinPath mountPoint config.dir.toList) workerId) jobId

def building (config : MetadataConfig) (root : List Char) (tree : FileTree EntryName) :
    Machine (Batches (FileTree EntryName) BuildCall Errno) BatchAct Unit :=
  Batches.machine BuildCall.run (layoutConcurrency config) tree (buildCalls root config)

/-- `create_dir_all` of the root. -/
def makeRoot (tree : FileTree EntryName) (root : List Char) :
    Except BuildError (FileTree EntryName) :=
  match tree.createDirAll (pathComps root) with
  | .error e => .error (.io "mkdir_root" root e)
  | .ok tree => .ok tree

def buildResult (root : List Char) (config : MetadataConfig) :
    Except (BuildCall × Errno) Unit → Except BuildError Layout
  | .error (c, e) => .error (.io c.op.name c.path e)
  | .ok () => .ok (buildLayout root config)

section

variable {t t' : FileTree EntryName} {root : List Char} {base : List EntryName}

def Absent (t : FileTree EntryName) (root : List Char) (base : List EntryName)
    (path : List Char) : Prop :=
  ∀ n, ¬ LiesBelow t root base n path

def Due (t : FileTree EntryName) (root : List Char) (base : List EntryName)
    (path : List Char) : Prop :=
  ∃ dir name, LiesBelow t root base .dir dir ∧ path = joinPath dir (EntryName.chars name)

def Gains (t t' : FileTree EntryName) (root : List Char) (base : List EntryName)
    (path : List Char) (n : Node EntryName) : Prop :=
  ∀ path' n', LiesBelow t' root base n' path' ↔
    LiesBelow t root base n' path' ∨ path' = path ∧ n' = n

theorem Opens.insert (hbase : Opens t root base) {dir : List EntryName} {k : EntryName}
    (hdir : t.get? dir = some .dir) (hnew : t.get? (dir ++ [k]) = none) (n : Node EntryName) :
    Opens (t.insert dir k n) root base := by
  have hsub := FileTree.get?_insert_of_some hdir hnew n
  exact ⟨hbase.nonempty, find_mono hsub hbase.found, hsub _ _ hbase.node⟩

theorem joinNames_injective {root : List Char} (hroot : root ≠ []) :
    Function.Injective (joinNames root) := by
  intro names names' h
  exact pathComps_joinNames_inj hroot (congrArg pathComps h)

theorem BuildCall.run_due (hbase : Opens t root base) {c : BuildCall}
    (hdue : Due t root base c.path) (habsent : Absent t root base c.path) :
    ∃ t', c.run t = .ok t' ∧ Opens t' root base ∧ Gains t t' root base c.path c.node := by
  obtain ⟨op, path⟩ := c
  obtain ⟨_, name, ⟨names, rfl, hdir⟩, rfl⟩ := hdue
  have hnew : t.get? (base ++ names ++ [name]) = none := by
    by_contra hne
    obtain ⟨n, hn⟩ := Option.ne_none_iff_exists'.mp hne
    refine habsent n ⟨names ++ [name], (joinNames_concat _ _ _).symm, ?_⟩
    rw [← List.append_assoc, hn]
  have hfound := hbase.found_below hdir
  have hcomps : pathComps (joinPath (joinNames root names) name.chars) =
      pathComps (joinNames root names) ++ [.name name] :=
    pathComps_join (joinNames_ne_nil hbase.nonempty names) name
  have hgains : ∀ n, Gains t (t.insert (base ++ names) name n) root base
      (joinPath (joinNames root names) name.chars) n := by
    intro n path' n'
    constructor
    · rintro ⟨names', rfl, hn'⟩
      rw [FileTree.get?_insert hdir hnew] at hn'
      split at hn'
      · next heq =>
        rw [List.append_assoc] at heq
        rw [List.append_cancel_left heq, joinNames_concat]
        exact .inr ⟨rfl, (Option.some.inj hn').symm⟩
      · exact .inl ⟨names', rfl, hn'⟩
    · rintro (⟨names', rfl, hn'⟩ | ⟨rfl, rfl⟩)
      · refine ⟨names', rfl, ?_⟩
        rw [FileTree.get?_insert hdir hnew, if_neg, hn']
        intro heq
        rw [heq, hnew] at hn'
        cases hn'
      · refine ⟨names ++ [name], (joinNames_concat _ _ _).symm, ?_⟩
        rw [FileTree.get?_insert hdir hnew, if_pos (List.append_assoc ..).symm]
  refine ⟨t.insert (base ++ names) name (BuildCall.node ⟨op, _⟩), ?_,
    hbase.insert hdir hnew _, hgains _⟩
  unfold BuildCall.run BuildCall.node
  simp only [hcomps]
  cases op with
  | createFile => exact FileTree.createFile_join hfound hdir hnew
  | mkdir | mkdirTasksRoot | mkdirTaskRoot => exact FileTree.createDir_join hfound hdir hnew

end

/-- Every path of the batches is that of an entry of a directory, which is one of `dirs`
or is made by a batch before. -/
def Ordered : (List Char → Prop) → List (List BuildCall) → Prop
  | _, [] => True
  | dirs, batch :: rest =>
      (∀ c ∈ batch, ∃ dir name, dirs dir ∧ c.path = joinPath dir (EntryName.chars name)) ∧
        Ordered (fun path => dirs path ∨ ∃ c ∈ batch, c.node = .dir ∧ c.path = path) rest

theorem Ordered.mono {dirs dirs' : List Char → Prop} {batches : List (List BuildCall)}
    (h : Ordered dirs batches) (hsub : ∀ path, dirs path → dirs' path) :
    Ordered dirs' batches := by
  induction batches generalizing dirs dirs' with
  | nil => trivial
  | cons batch rest ih =>
    refine ⟨fun c hc => ?_, ih h.2 fun path hpath => hpath.imp_left (hsub path)⟩
    obtain ⟨dir, name, hdir, hpath⟩ := h.1 c hc
    exact ⟨dir, name, hsub dir hdir, hpath⟩

/-- What holds while the batches run: the tree below the root has what the calls have made,
and nothing stands where the others will make something. -/
structure Underway (root : List Char) (base : List EntryName) (all : List BuildCall)
    (t : FileTree EntryName) (batch : List BuildCall) (rest : List (List BuildCall)) : Prop where
  opens : Opens t root base
  ordered : Ordered (LiesBelow t root base .dir) (batch :: rest)
  nodup : ((batch ++ rest.flatten).map BuildCall.path).Nodup
  absent : ∀ c ∈ batch ++ rest.flatten, Absent t root base c.path
  made : ∀ c ∈ all, LiesBelow t root base c.node c.path ∨ c ∈ batch ++ rest.flatten

theorem underway_steady (root : List Char) (base : List EntryName) (all : List BuildCall) :
    Batches.Steady BuildCall.run (Underway root base all) where
  perm := by
    intro t batch batch' rest hperm h
    have hall : (batch ++ rest.flatten).Perm (batch' ++ rest.flatten) := hperm.append_right _
    refine ⟨h.opens, ⟨fun c hc => h.ordered.1 c (hperm.mem_iff.mpr hc), ?_⟩,
      (hall.map _).nodup_iff.mp h.nodup, fun c hc => h.absent c (hall.mem_iff.mpr hc),
      fun c hc => (h.made c hc).imp_right hall.mem_iff.mp⟩
    refine h.ordered.2.mono fun path hpath => hpath.imp_right ?_
    rintro ⟨c, hc, hmakes⟩
    exact ⟨c, hperm.mem_iff.mp hc, hmakes⟩
  call := by
    intro t c batch rest h
    obtain ⟨t', hrun, hopens, hgains⟩ := c.run_due h.opens
      (h.ordered.1 c List.mem_cons_self) (h.absent c List.mem_cons_self)
    obtain ⟨hnew, hnodup⟩ := List.nodup_cons.mp h.nodup
    have hgrown : ∀ path, LiesBelow t root base .dir path → LiesBelow t' root base .dir path :=
      fun path hpath => (hgains path .dir).mpr (.inl hpath)
    refine ⟨t', hrun, hopens, ⟨fun c' hc' => ?_, ?_⟩, hnodup, fun c' hc' n hn => ?_,
      fun c' hc' => ?_⟩
    · obtain ⟨dir, name, hdir, hpath⟩ := h.ordered.1 c' (List.mem_cons_of_mem _ hc')
      exact ⟨dir, name, hgrown dir hdir, hpath⟩
    · refine h.ordered.2.mono ?_
      rintro path (hpath | ⟨c', hc', hdir, rfl⟩)
      · exact .inl (hgrown path hpath)
      · rcases List.mem_cons.mp hc' with rfl | hc'
        · exact .inl ((hgains _ _).mpr (.inr ⟨rfl, hdir.symm⟩))
        · exact .inr ⟨c', hc', hdir, rfl⟩
    · rcases (hgains _ n).mp hn with hn | ⟨heq, -⟩
      · exact h.absent c' (List.mem_cons_of_mem _ hc') n hn
      · exact hnew (heq ▸ List.mem_map_of_mem hc')
    · rcases h.made c' hc' with hmade | hleft
      · exact .inl ((hgains _ _).mpr (.inl hmade))
      · rcases List.mem_cons.mp hleft with rfl | hleft
        · exact .inl ((hgains _ _).mpr (.inr ⟨rfl, rfl⟩))
        · exact .inr hleft
  next := by
    intro t batch rest h
    refine ⟨h.opens, h.ordered.2.mono ?_, h.nodup, h.absent, h.made⟩
    rintro path (hpath | ⟨c, hc, -⟩)
    · exact hpath
    · exact absurd hc List.not_mem_nil

theorem Ordered.layers {dirs : List Char → Prop} (width depth : Nat)
    {current : List (List Char)} (hcurrent : ∀ path ∈ current, dirs path)
    {tail : List (List BuildCall)}
    (htail : Ordered (fun path => dirs path ∨ path ∈ (layers width depth current).flatten) tail) :
    Ordered dirs ((layers width depth current).map (fun layer => layer.map (⟨.mkdir, ·⟩)) ++
      tail) := by
  induction depth generalizing dirs current with
  | zero => exact htail.mono fun path hpath => hpath.resolve_right List.not_mem_nil
  | succ depth ih =>
    refine ⟨fun c hc => ?_, ih (fun path hpath => ?_) (htail.mono ?_)⟩
    · obtain ⟨path, hpath, rfl⟩ := List.mem_map.mp hc
      obtain ⟨parent, hparent, hname⟩ := List.mem_flatMap.mp hpath
      obtain ⟨i, -, rfl⟩ := List.mem_map.mp hname
      exact ⟨parent, dirName i, hcurrent parent hparent, rfl⟩
    · exact .inr ⟨⟨.mkdir, path⟩, List.mem_map_of_mem hpath, rfl, rfl⟩
    · rintro path (hpath | hpath)
      · exact .inl (.inl hpath)
      · rw [Worker.layers, List.flatten_cons, List.mem_append] at hpath
        rcases hpath with hpath | hpath
        · exact .inl (.inr ⟨⟨.mkdir, path⟩, List.mem_map_of_mem hpath, rfl, rfl⟩)
        · exact .inr hpath

theorem Ordered.singles {dirs : List Char → Prop} {paths : List (List Char)}
    (h : ∀ path ∈ paths, ∃ dir name, dirs dir ∧ path = joinPath dir (EntryName.chars name)) :
    Ordered dirs (paths.map fun path => [⟨.mkdirTaskRoot, path⟩]) := by
  induction paths generalizing dirs with
  | nil => trivial
  | cons path paths ih =>
    refine ⟨fun c hc => ?_, ih fun path' hpath' => ?_⟩
    · rw [List.mem_singleton.mp hc]
      exact h path List.mem_cons_self
    · obtain ⟨dir, name, hdir, hpath⟩ := h path' (List.mem_cons_of_mem _ hpath')
      exact ⟨dir, name, .inl hdir, hpath⟩

theorem buildCalls_ordered {dirs : List Char → Prop} {root : List Char} (hroot : dirs root)
    (config : MetadataConfig) : Ordered dirs (buildCalls root config) := by
  unfold buildCalls
  rw [List.append_assoc]
  refine .layers _ _ (fun path hpath => by rwa [List.mem_singleton.mp hpath]) ⟨?_, ?_, .singles ?_⟩
  · intro c hc
    obtain ⟨path, hpath, rfl⟩ := List.mem_map.mp hc
    obtain ⟨parent, hparent, hname⟩ := List.mem_flatMap.mp hpath
    obtain ⟨i, -, rfl⟩ := List.mem_map.mp hname
    exact ⟨parent, fileName i, .inr hparent, rfl⟩
  · intro c hc
    rw [List.mem_singleton.mp hc]
    exact ⟨root, tasksName, .inl (.inl hroot), rfl⟩
  · intro path hpath
    obtain ⟨parent, hparent, hname⟩ := List.mem_flatMap.mp hpath
    obtain ⟨i, -, rfl⟩ := List.mem_map.mp hname
    rw [List.mem_singleton.mp hparent]
    exact ⟨tasksRoot root, taskName i,
      .inr ⟨⟨.mkdirTasksRoot, tasksRoot root⟩, List.mem_singleton_self _, rfl, rfl⟩, rfl⟩

theorem buildCalls_paths (root : List Char) (config : MetadataConfig) :
    (buildCalls root config).flatten.map BuildCall.path = layoutPaths root config := by
  have hcalls : ∀ (op : BuildOp) (paths : List (List Char)),
      (paths.map fun path => (⟨op, path⟩ : BuildCall)).map BuildCall.path = paths := by
    intro op paths
    rw [List.map_map]
    exact List.map_id paths
  have hlayers : ∀ ls : List (List (List Char)),
      (ls.map fun layer => layer.map fun path => (⟨.mkdir, path⟩ : BuildCall)).flatten.map
        BuildCall.path = ls.flatten := by
    intro ls
    rw [← List.map_flatten, hcalls]
  have hsingles : ∀ paths : List (List Char),
      (paths.map fun path => [(⟨.mkdirTaskRoot, path⟩ : BuildCall)]).flatten.map
        BuildCall.path = paths := by
    intro paths
    induction paths with
    | nil => rfl
    | cons path paths ih =>
      rw [List.map_cons, List.flatten_cons, List.map_append, ih]
      rfl
  unfold buildCalls layoutPaths
  rw [List.flatten_append, List.flatten_append, List.map_append, List.map_append, hlayers,
    hsingles, List.flatten_cons, List.flatten_cons, List.flatten_nil, List.append_nil,
    List.map_append, hcalls, ← List.append_assoc]
  rfl

end CvdBench.Worker
