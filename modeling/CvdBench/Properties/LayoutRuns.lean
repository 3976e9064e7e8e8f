import CvdBench.Properties.BuildExact
import CvdBench.Worker.LayoutRun

/-!
The metadata workload never gets in its own way: on the layout that was made for it no
operation fails, whatever the tasks draw and however they take turns.
-/

set_option autoImplicit false

namespace CvdBench.Worker

open Foundation Spec Metrics

def LayoutSeqs.Gave (q : LayoutSeqs) (name : EntryName) (n : Node EntryName) : Prop :=
  (n = .file ∧ ∃ j, j < q.create ∧ name = createName (j + 1)) ∨
    (n = .dir ∧ ∃ j, j < q.mkdir ∧ name = mkdirName (j + 1))

def LayoutSeqs.count (q : LayoutSeqs) : MetadataOp → Nat
  | .create => q.create
  | .mkdir => q.mkdir
  | .stat | .open | .readdir => 0

def makes : MetadataOp → Bool
  | .create | .mkdir => true
  | .stat | .open | .readdir => false

/-- The counters have gone on by one entry, whose name is new. -/
structure LayoutSeqs.Bumps (q q' : LayoutSeqs) (name : EntryName) (n : Node EntryName) : Prop where
  gave : ∀ name' n', q'.Gave name' n' ↔ q.Gave name' n' ∨ name' = name ∧ n' = n
  new : ∀ n', ¬ q.Gave name n'

theorem LayoutSeqs.bumps_create (q : LayoutSeqs) :
    q.Bumps { q with create := q.create + 1 } (createName (q.create + 1)) .file where
  gave := by
    intro name n
    constructor
    · rintro (⟨rfl, j, hj, rfl⟩ | hdir)
      · rcases Nat.lt_succ_iff_lt_or_eq.mp hj with hlt | rfl
        · exact .inl (.inl ⟨rfl, j, hlt, rfl⟩)
        · exact .inr ⟨rfl, rfl⟩
      · exact .inl (.inr hdir)
    · rintro ((⟨rfl, j, hj, rfl⟩ | hdir) | ⟨rfl, rfl⟩)
      · exact .inl ⟨rfl, j, Nat.lt_succ_of_lt hj, rfl⟩
      · exact .inr hdir
      · exact .inl ⟨rfl, q.create, Nat.lt_succ_self _, rfl⟩
  new := by
    rintro n (⟨-, j, hj, heq⟩ | ⟨-, j, -, heq⟩)
    · have hseq := seqName_injective heq
      omega
    · exact createName_ne_mkdirName _ _ heq

theorem LayoutSeqs.bumps_mkdir (q : LayoutSeqs) :
    q.Bumps { q with mkdir := q.mkdir + 1 } (mkdirName (q.mkdir + 1)) .dir where
  gave := by
    intro name n
    constructor
    · rintro (hfile | ⟨rfl, j, hj, rfl⟩)
      · exact .inl (.inl hfile)
      · rcases Nat.lt_succ_iff_lt_or_eq.mp hj with hlt | rfl
        · exact .inl (.inr ⟨rfl, j, hlt, rfl⟩)
        · exact .inr ⟨rfl, rfl⟩
    · rintro ((hfile | ⟨rfl, j, hj, rfl⟩) | ⟨rfl, rfl⟩)
      · exact .inl hfile
      · exact .inr ⟨rfl, j, Nat.lt_succ_of_lt hj, rfl⟩
      · exact .inr ⟨rfl, q.mkdir, Nat.lt_succ_self _, rfl⟩
  new := by
    rintro n (⟨-, j, -, heq⟩ | ⟨-, j, hj, heq⟩)
    · exact createName_ne_mkdirName _ _ heq.symm
    · have hseq := seqName_injective heq
      omega

def TaskMade (layout : Layout) (seqs : List LayoutSeqs) (path : List Char) (n : Node EntryName) :
    Prop :=
  ∃ (i : Nat) (taskRoot : List Char) (q : LayoutSeqs) (name : EntryName),
    layout.taskRoots[i]? = some taskRoot ∧ seqs[i]? = some q ∧ q.Gave name n ∧
    path = joinPath taskRoot name.chars

theorem TaskMade.set {layout : Layout} {seqs : List LayoutSeqs} {i : Nat} {taskRoot : List Char}
    {q q' : LayoutSeqs} {name : EntryName} {n : Node EntryName}
    (hroot : layout.taskRoots[i]? = some taskRoot) (hq : seqs[i]? = some q)
    (hbumps : q.Bumps q' name n) {path : List Char} {n' : Node EntryName} :
    TaskMade layout (seqs.set i q') path n' ↔
      TaskMade layout seqs path n' ∨ path = joinPath taskRoot name.chars ∧ n' = n := by
  have hset : (seqs.set i q')[i]? = some q' := by
    rw [List.getElem?_set_self (List.getElem?_eq_some_iff.mp hq).1]
  constructor
  · rintro ⟨i', taskRoot', p, name', hroot', hp, hgave, rfl⟩
    by_cases hi : i = i'
    · subst hi
      rw [hroot, Option.some.injEq] at hroot'
      rw [hset, Option.some.injEq] at hp
      subst hroot' hp
      rcases (hbumps.gave name' n').mp hgave with hgave | ⟨rfl, rfl⟩
      · exact .inl ⟨i, taskRoot, q, name', hroot, hq, hgave, rfl⟩
      · exact .inr ⟨rfl, rfl⟩
    · rw [List.getElem?_set_ne hi] at hp
      exact .inl ⟨i', taskRoot', p, name', hroot', hp, hgave, rfl⟩
  · rintro (⟨i', taskRoot', p, name', hroot', hp, hgave, rfl⟩ | ⟨rfl, rfl⟩)
    · by_cases hi : i = i'
      · subst hi
        rw [hq, Option.some.injEq] at hp
        subst hp
        exact ⟨i, taskRoot', q', name', hroot', hset, (hbumps.gave _ _).mpr (.inl hgave), rfl⟩
      · exact ⟨i', taskRoot', p, name', hroot', by rw [List.getElem?_set_ne hi, hp], hgave, rfl⟩
    · exact ⟨i, taskRoot, q', name, hroot, hset, (hbumps.gave _ _).mpr (.inr ⟨rfl, rfl⟩), rfl⟩

def Outside (t t' : FileTree EntryName) (base : List EntryName) : Prop :=
  ∀ l, ¬ base <+: l → t'.get? l = t.get? l

theorem Outside.refl (t : FileTree EntryName) (base : List EntryName) : Outside t t base :=
  fun _ _ => rfl

theorem Outside.trans {t t' t'' : FileTree EntryName} {base : List EntryName}
    (h : Outside t t' base) (h' : Outside t' t'' base) : Outside t t'' base :=
  fun l hl => (h' l hl).trans (h l hl)

section

variable {t t' : FileTree EntryName} {root : List Char} {base : List EntryName}

theorem BuildCall.run_outside (hbase : Opens t root base) {c : BuildCall}
    (hdue : Due t root base c.path) (habsent : Absent t root base c.path)
    (hrun : c.run t = .ok t') : Outside t t' base := by
  obtain ⟨op, path⟩ := c
  obtain ⟨_, name, ⟨names, rfl, hdir⟩, rfl⟩ := hdue
  have hnew : t.get? (base ++ names ++ [name]) = none := by
    by_contra hne
    obtain ⟨n, hn⟩ := Option.ne_none_iff_exists'.mp hne
    refine habsent n ⟨names ++ [name], (joinNames_concat _ _ _).symm, ?_⟩
    rw [← List.append_assoc, hn]
  have hfound := hbase.found_below hdir
  have houtside : ∀ n, Outside t (t.insert (base ++ names) name n) base := by
    intro n l hl
    rw [FileTree.get?_insert hdir hnew, if_neg]
    rintro rfl
    exact hl (by rw [List.append_assoc]; exact List.prefix_append _ _)
  unfold BuildCall.run at hrun
  simp only [pathComps_join (joinNames_ne_nil hbase.nonempty names)] at hrun
  cases op with
  | createFile =>
    rw [FileTree.createFile_join hfound hdir hnew] at hrun
    cases hrun
    exact houtside _
  | mkdir | mkdirTasksRoot | mkdirTaskRoot =>
    rw [FileTree.createDir_join hfound hdir hnew] at hrun
    cases hrun
    exact houtside _

theorem Opens.stat (hbase : Opens t root base) {path : List Char} {n : Node EntryName}
    (h : LiesBelow t root base n path) (hnolink : ∀ target, n ≠ .link target) :
    t.metadata (pathComps path) = .ok n := by
  obtain ⟨names, rfl, hn⟩ := h
  rw [FileTree.metadata, hbase.found_node hn hnolink]
  simp only [hn]

theorem Opens.drain (hbase : Opens t root base) (order : List Char → HashOrder EntryName)
    {path : List Char} (h : LiesBelow t root base .dir path) :
    drainReaddir order t path = .ok () := by
  obtain ⟨names, rfl, hn⟩ := h
  rw [drainReaddir, hbase.read _ hn]
  rfl

end

/-- The layout is there for the operations of the workload, and the task roots are empty
and each its task's own where entries are made in them. -/
structure LayoutReady (config : MetadataConfig) (layout : Layout) (t : FileTree EntryName)
    (root : List Char) (base : List EntryName) : Prop where
  opens : Opens t root base
  ops : config.ops ≠ []
  taskRoots : layout.taskRoots.length = config.concurrency
  files : ∀ path ∈ layout.files, LiesBelow t root base .file path
  directories : ∀ path ∈ layout.directories, LiesBelow t root base .dir path
  someFile : .stat ∈ config.ops ∨ .open ∈ config.ops → layout.files ≠ []
  someDirectory : .readdir ∈ config.ops → layout.directories ≠ []
  own : ∀ op ∈ config.ops, makes op = true → layout.taskRoots.Nodup ∧
    ∀ path ∈ layout.taskRoots, LiesBelow t root base .dir path ∧
      ∀ name, Absent t root base (joinPath path (EntryName.chars name))

/-- The tree below the root has the layout and what the tasks have made, and it is as
before elsewhere. -/
structure Grown (layout : Layout) (t₀ : FileTree EntryName) (root : List Char)
    (base : List EntryName) (seqs : List LayoutSeqs) (t : FileTree EntryName) : Prop where
  opens : Opens t root base
  below : ∀ path n, LiesBelow t root base n path ↔
    LiesBelow t₀ root base n path ∨ TaskMade layout seqs path n
  outside : Outside t₀ t base

section

variable {order : List Char → HashOrder EntryName} {config : MetadataConfig} {layout : Layout}
  {t₀ t : FileTree EntryName} {root : List Char} {base : List EntryName} {seqs : List LayoutSeqs}
  {i : Nat} {taskRoot : List Char} {q : LayoutSeqs}

theorem joinPath_joinNames_inj (hroot : root ≠ []) {path path' : List Char} {n n' : Node EntryName}
    {name name' : EntryName} (h : LiesBelow t root base n path)
    (h' : LiesBelow t root base n' path')
    (heq : joinPath path name.chars = joinPath path' name'.chars) :
    path = path' ∧ name = name' := by
  obtain ⟨names, rfl, -⟩ := h
  obtain ⟨names', rfl, -⟩ := h'
  rw [← joinNames_concat, ← joinNames_concat] at heq
  obtain ⟨rfl, hlast⟩ := List.append_inj' (joinNames_injective hroot heq) rfl
  exact ⟨rfl, List.singleton_injective hlast⟩

theorem Grown.absent (hready : LayoutReady config layout t₀ root base)
    (h : Grown layout t₀ root base seqs t) {op : MetadataOp} (hop : op ∈ config.ops)
    (hmakes : makes op = true) (hroot : layout.taskRoots[i]? = some taskRoot)
    (hq : seqs[i]? = some q) {name : EntryName} (hnew : ∀ n, ¬ q.Gave name n) :
    Absent t root base (joinPath taskRoot name.chars) := by
  obtain ⟨hnodup, hempty⟩ := hready.own op hop hmakes
  intro n hn
  rcases (h.below _ _).mp hn with hn | ⟨i', taskRoot', q', name', hroot', hq', hgave, heq⟩
  · exact (hempty taskRoot (List.mem_of_getElem? hroot)).2 name n hn
  · obtain ⟨rfl, rfl⟩ := joinPath_joinNames_inj hready.opens.nonempty
      (hempty taskRoot (List.mem_of_getElem? hroot)).1
      (hempty taskRoot' (List.mem_of_getElem? hroot')).1 heq
    obtain rfl : i = i' := (List.getElem?_inj (List.getElem?_eq_some_iff.mp hroot).1 hnodup).mp
      (hroot.trans hroot'.symm)
    rw [hq, Option.some.injEq] at hq'
    subst hq'
    exact hnew n hgave

theorem operateOn_ok {op : MetadataOp} {call : List Char → Except Errno Unit}
    {paths : List (List Char)} {idx : Nat} {res : Operated} (hne : paths ≠ [])
    (hcall : ∀ path ∈ paths, call path = .ok ()) (h : operateOn t q op call paths idx = some res) :
    res = ⟨t, q, .ok ()⟩ := by
  obtain ⟨picked, hpick, rfl⟩ := Option.map_eq_some_iff.mp h
  obtain ⟨path, paths, rfl⟩ := List.exists_cons_of_ne_nil hne
  obtain ⟨target, htarget, rfl⟩ := Option.map_eq_some_iff.mp hpick
  simp only [hcall target (List.mem_of_getElem? htarget)]
  rfl

theorem Grown.lies (h : Grown layout t₀ root base seqs t) {n : Node EntryName} {path : List Char}
    (hn : LiesBelow t₀ root base n path) : LiesBelow t root base n path :=
  (h.below path n).mpr (.inl hn)

theorem Grown.call (hready : LayoutReady config layout t₀ root base)
    (h : Grown layout t₀ root base seqs t) {op : MetadataOp} (hop : op ∈ config.ops)
    (hmakes : makes op = true) (hroot : layout.taskRoots[i]? = some taskRoot)
    (hq : seqs[i]? = some q) {q' : LayoutSeqs} {name : EntryName} {c : BuildCall}
    (hbumps : q.Bumps q' name c.node) (hpath : c.path = joinPath taskRoot name.chars) :
    ∃ t', c.run t = .ok t' ∧ Grown layout t₀ root base (seqs.set i q') t' := by
  obtain ⟨-, hempty⟩ := hready.own op hop hmakes
  have hdir := h.lies (hempty taskRoot (List.mem_of_getElem? hroot)).1
  have hdue : Due t root base c.path := ⟨taskRoot, name, hdir, hpath⟩
  have habsent : Absent t root base c.path := by
    rw [hpath]
    exact h.absent hready hop hmakes hroot hq hbumps.new
  obtain ⟨t', hrun, hopens, hgains⟩ := c.run_due h.opens hdue habsent
  refine ⟨t', hrun, hopens, fun path n => ?_,
    h.outside.trans (BuildCall.run_outside h.opens hdue habsent hrun)⟩
  rw [hgains, h.below, TaskMade.set hroot hq hbumps, hpath, or_assoc]

theorem Grown.operate (hready : LayoutReady config layout t₀ root base)
    (h : Grown layout t₀ root base seqs t) {op : MetadataOp} (hop : op ∈ config.ops)
    (hroot : layout.taskRoots[i]? = some taskRoot) (hq : seqs[i]? = some q) {idx : Nat}
    {res : Operated} (hres : operate order layout t taskRoot q op idx = some res) :
    res.outcome = .ok () ∧ Grown layout t₀ root base (seqs.set i res.seqs) res.tree ∧
      ∀ op', makes op' = true → res.seqs.count op' = q.count op' + if op = op' then 1 else 0 := by
  have hlooks : makes op = false → res = ⟨t, q, .ok ()⟩ → res.outcome = .ok () ∧
      Grown layout t₀ root base (seqs.set i res.seqs) res.tree ∧
      ∀ op', makes op' = true →
        res.seqs.count op' = q.count op' + if op = op' then 1 else 0 := by
    rintro hnot rfl
    refine ⟨rfl, ?_, fun op' hop' => ?_⟩
    · obtain ⟨hlt, rfl⟩ := List.getElem?_eq_some_iff.mp hq
      rwa [List.set_getElem_self]
    · rw [if_neg]
      · rfl
      · rintro rfl
        rw [hnot] at hop'
        cases hop'
  cases op with
  | stat =>
    refine hlooks rfl (operateOn_ok (hready.someFile (.inl hop)) (fun path hpath => ?_) hres)
    rw [h.opens.stat (h.lies (hready.files path hpath)) (by simp)]
    rfl
  | «open» =>
    refine hlooks rfl (operateOn_ok (hready.someFile (.inr hop)) (fun path hpath => ?_) hres)
    rw [FileTree.openFile, h.opens.stat (h.lies (hready.files path hpath)) (by simp)]
    rfl
  | readdir =>
    refine hlooks rfl (operateOn_ok (hready.someDirectory hop) (fun path hpath => ?_) hres)
    exact h.opens.drain order (h.lies (hready.directories path hpath))
  | create =>
    obtain ⟨t', hrun, hgrown⟩ := h.call hready hop rfl hroot hq q.bumps_create
      (c := ⟨.createFile, _⟩) rfl
    have hcall : t.createFile (pathComps (joinPath taskRoot (createName (q.create + 1)).chars)) =
        .ok t' := hrun
    simp only [Worker.operate, operateNew, hcall, Option.some.injEq] at hres
    subst hres
    refine ⟨rfl, hgrown, fun op' _ => ?_⟩
    cases op' <;> rfl
  | mkdir =>
    obtain ⟨t', hrun, hgrown⟩ := h.call hready hop rfl hroot hq q.bumps_mkdir
      (c := ⟨.mkdir, _⟩) rfl
    have hcall : t.createDir (pathComps (joinPath taskRoot (mkdirName (q.mkdir + 1)).chars)) =
        .ok t' := hrun
    simp only [Worker.operate, operateNew, hcall, Option.some.injEq] at hres
    subst hres
    refine ⟨rfl, hgrown, fun op' _ => ?_⟩
    cases op' <;> rfl

end

/-- Where a task of the workload can be. It ends at the deadline or on a flag only. -/
def Orderly (cfg : MeasureCfg) (config : MetadataConfig) (start now : Nat) (stop : Bool) :
    TimedTask → Prop
  | .spawned w => w = .layout
  | .layout .top | .layout .think => True
  | .layout (.acquire op) => op ∈ config.ops
  | .layout (.operate op inMeasure _) =>
      op ∈ config.ops ∧ (cfg.measureStart ≤ start → inMeasure = true)
  | .finished => cfg.quits now stop = true
  | .write _ | .read _ | .manifestStat _ => False

section

variable {cfg : MeasureCfg} {config : MetadataConfig} {start now now' : Nat} {stop stop' : Bool}
  {task : TimedTask} {act : TimedAct}

theorem MeasureCfg.quits_iff : cfg.quits now stop = true ↔ cfg.deadline ≤ now ∨ stop = true := by
  rw [MeasureCfg.quits, Bool.or_eq_true, decide_eq_true_iff]

theorem Orderly.later (h : Orderly cfg config start now stop task) (hnow : now ≤ now')
    (hstop : stop = true → stop' = true) : Orderly cfg config start now' stop' task := by
  cases task with
  | finished =>
    rw [Orderly, MeasureCfg.quits_iff] at h ⊢
    exact h.imp (Nat.le_trans · hnow) hstop
  | layout pc => cases pc <;> exact h
  | _ => exact h

theorem Orderly.quiet (h : Orderly cfg config start now stop task) (hnow : start ≤ now)
    (hact : act = .run ∨ ∃ op ∈ config.ops, act = .chosen (some op)) {res : TimedStep TimedTask}
    (hstep : task.step cfg now stop act = some res) :
    res.rec? = none ∧ (∀ rec, res ≠ .fail rec) ∧
      Orderly cfg config start now stop (res.next?.getD .finished) := by
  cases task with
  | spawned w =>
    obtain rfl : w = .layout := h
    rcases hact with rfl | ⟨op, -, rfl⟩
    · cases hstep
      exact ⟨rfl, nofun, trivial⟩
    · cases hstep
  | layout pc =>
    obtain ⟨moved, hmoved, rfl⟩ := Option.map_eq_some_iff.mp hstep
    rcases hact with rfl | ⟨op, hop, rfl⟩
    · cases pc with
      | top => cases hmoved
      | acquire op =>
        cases hmoved
        refine ⟨rfl, nofun, h, fun hstart => ?_⟩
        exact MeasureCfg.inMeasure_iff.mpr (Nat.le_trans hstart hnow)
      | operate => cases hmoved
      | think =>
        cases hmoved
        exact ⟨rfl, nofun, trivial⟩
    · cases pc with
      | top =>
        simp only [LayoutPc.step, Option.some.injEq] at hmoved
        subst hmoved
        split
        · next hquits => exact ⟨rfl, nofun, hquits⟩
        · exact ⟨rfl, nofun, hop⟩
      | _ => cases hmoved
  | write | read | manifestStat => exact h.elim
  | finished => cases hstep

end

section

variable {H : Type} {cfg : MeasureCfg} {lib : HdrRecorder H} {fresh : PerOpMetrics H}

variable (lib fresh) in
theorem Measured.goOn_fields (s : Measured H) (i : Nat) (opened : List String)
    (res : TimedStep TimedTask) (hres : ∀ rec, res ≠ .fail rec) :
    (s.goOn lib fresh i opened res).1.now = s.now ∧
      (s.goOn lib fresh i opened res).1.abort = s.abort ∧
      (s.goOn lib fresh i opened res).1.cancelled = s.cancelled ∧
      (s.goOn lib fresh i opened res).1.tasks = s.tasks.set i (res.next?.getD .finished) ∧
      (s.goOn lib fresh i opened res).2 = res.rec? := by
  cases res with
  | more => exact ⟨rfl, rfl, rfl, rfl, rfl⟩
  | leave => exact ⟨rfl, rfl, rfl, rfl, rfl⟩
  | fail rec => exact absurd rfl (hres rec)

theorem Measured.task_step {s s' : Measured H} {i : Nat} {act : TimedAct} {out : Option OpRecord}
    (h : s.step cfg lib fresh (.task i act) = some (s', out)) :
    ∃ task res, s.tasks[i]? = some task ∧
      task.step cfg s.now (s.abort || s.cancelled) act = some res ∧
      s.goOn lib fresh i (task.opens cfg) res = (s', out) := by
  obtain ⟨task, htask, h⟩ := Option.bind_eq_some_iff.mp h
  obtain ⟨res, hres, h⟩ := Option.bind_eq_some_iff.mp h
  exact ⟨task, res, htask, hres, Option.some.inj h⟩

end

/-- What holds in every state of the workload. -/
structure LayoutState {H : Type} (cfg : MeasureCfg) (config : MetadataConfig) (layout : Layout)
    (start : Nat) (t₀ : FileTree EntryName) (root : List Char) (base : List EntryName)
    (s : LayoutRun H) : Prop where
  grown : Grown layout t₀ root base s.seqs s.tree
  idle : ∀ op, op ∉ config.ops → ∀ q ∈ s.seqs, q.count op = 0
  errors : ∀ e ∈ s.errors, e = none
  tasks : ∀ task ∈ s.timed.tasks, Orderly cfg config start s.timed.now s.stopped task
  size : s.timed.tasks.length = config.concurrency ∧ s.seqs.length = config.concurrency
  now : start ≤ s.timed.now

def total (seqs : List LayoutSeqs) (op : MetadataOp) : Nat := (seqs.map (·.count op)).sum

def isRecordOf (op : MetadataOp) (out : Option OpRecord) : Bool :=
  out.any fun r => r.key == metadataKey op

/-- What a step can do besides: it records no error, nothing but the act raises the abort
flag, and what it records of the operations that make entries is what they have made. -/
structure LayoutEffect {H : Type} (cfg : MeasureCfg) (start : Nat) (s : LayoutRun H)
    (a : LayoutAct) (out : Option OpRecord) (s' : LayoutRun H) : Prop where
  record : ∀ r, out = some r → r.recording ≠ .error
  abort : s'.timed.abort = true → s.timed.abort = true ∨ a = .abort
  counted : ∀ op, makes op = true →
    total s.seqs op + (if isRecordOf op out then 1 else 0) ≤ total s'.seqs op
  exact : ∀ op, makes op = true → cfg.measureStart ≤ start →
    total s.seqs op + (if isRecordOf op out then 1 else 0) = total s'.seqs op

section

variable {H : Type} {cfg : MeasureCfg} {lib : HdrRecorder H} {fresh : PerOpMetrics H}
  {order : List Char → HashOrder EntryName} {config : MetadataConfig} {layout : Layout}
  {start : Nat} {t₀ : FileTree EntryName} {root : List Char} {base : List EntryName}
  {s s' : LayoutRun H} {a : LayoutAct} {out : Option OpRecord}

theorem LayoutEffect.quiet (hout : out = none) (hseqs : s'.seqs = s.seqs)
    (habort : s'.timed.abort = true → s.timed.abort = true ∨ a = .abort) :
    LayoutEffect cfg start s a out s' := by
  subst hout
  refine ⟨nofun, habort, fun op _ => ?_, fun op _ _ => ?_⟩
  · rw [hseqs]
    exact Nat.le_refl _
  · rw [hseqs]
    rfl

theorem LayoutState.world (h : LayoutState cfg config layout start t₀ root base s)
    {timed : Measured H} (htasks : timed.tasks = s.timed.tasks) (hnow : s.timed.now ≤ timed.now)
    (hstop : s.stopped = true → (timed.abort || timed.cancelled) = true) :
    LayoutState cfg config layout start t₀ root base { s with timed } where
  grown := h.grown
  idle := h.idle
  errors := h.errors
  tasks task htask := by
    simp only [htasks] at htask
    exact (h.tasks task htask).later hnow hstop
  size := ⟨by simp only [htasks]; exact h.size.1, h.size.2⟩
  now := Nat.le_trans h.now hnow

theorem LayoutState.quiet (h : LayoutState cfg config layout start t₀ root base s) {i : Nat}
    {act : TimedAct} (hact : act = .run ∨ ∃ op ∈ config.ops, act = .chosen (some op))
    (hstep : s.tick cfg lib fresh (.task i act) = some (s', out)) :
    LayoutState cfg config layout start t₀ root base s' ∧ LayoutEffect cfg start s a out s' := by
  obtain ⟨⟨timed, out'⟩, htimed, heq⟩ := Option.map_eq_some_iff.mp hstep
  obtain ⟨rfl, rfl⟩ := Prod.mk.inj heq
  obtain ⟨task, res, htask, hres, hgo⟩ := Measured.task_step htimed
  obtain ⟨hrec, hfail, horderly⟩ :=
    (h.tasks task (List.mem_of_getElem? htask)).quiet h.now hact hres
  obtain ⟨hnow, habort, hcancelled, htasks, hout⟩ :=
    Measured.goOn_fields lib fresh s.timed i (task.opens cfg) res hfail
  rw [hgo] at hnow habort hcancelled htasks hout
  simp only at hnow habort hcancelled htasks hout
  refine ⟨⟨h.grown, h.idle, h.errors, fun task' htask' => ?_, ?_, ?_⟩, .quiet ?_ rfl ?_⟩
  · simp only [htasks, hnow, LayoutRun.stopped, habort, hcancelled] at htask' ⊢
    rcases List.mem_or_eq_of_mem_set htask' with hold | rfl
    · exact h.tasks task' hold
    · exact horderly
  · rw [htasks, List.length_set]
    exact h.size
  · rw [hnow]
    exact h.now
  · rw [hout, hrec]
  · rw [habort]
    exact .inl

theorem total_set {seqs : List LayoutSeqs} {i : Nat} {q q' : LayoutSeqs} {op : MetadataOp} {k : Nat}
    (hq : seqs[i]? = some q) (hcount : q'.count op = q.count op + k) :
    total (seqs.set i q') op = total seqs op + k := by
  induction seqs generalizing i with
  | nil => cases hq
  | cons p seqs ih =>
    unfold total at ih ⊢
    cases i with
    | zero =>
      obtain rfl : p = q := Option.some.inj hq
      simp only [List.set_cons_zero, List.map_cons, List.sum_cons, hcount]
      omega
    | succ i =>
      have hrest := ih (i := i) hq
      simp only [List.set_cons_succ, List.map_cons, List.sum_cons, hrest]
      omega

theorem metadataKey_inj {op op' : MetadataOp} : metadataKey op = metadataKey op' ↔ op = op' := by
  cases op <;> cases op' <;> decide

theorem LayoutRun.operation?_eq_some {task : TimedTask} {op : MetadataOp}
    (h : LayoutRun.operation? task = some op) :
    ∃ inMeasure began, task = .layout (.operate op inMeasure began) := by
  unfold LayoutRun.operation? at h
  split at h
  · next op' inMeasure began =>
    cases h
    exact ⟨inMeasure, began, rfl⟩
  · cases h

theorem LayoutState.operates (hready : LayoutReady config layout t₀ root base)
    (h : LayoutState cfg config layout start t₀ root base s) {i idx : Nat}
    (hstep : s.step cfg lib fresh order config layout (.operate i idx) = some (s', out)) :
    LayoutState cfg config layout start t₀ root base s' ∧
      LayoutEffect cfg start s (.operate i idx) out s' := by
  obtain ⟨task, htask, hstep⟩ := Option.bind_eq_some_iff.mp hstep
  obtain ⟨op, hop, hstep⟩ := Option.bind_eq_some_iff.mp hstep
  obtain ⟨taskRoot, hroot, hstep⟩ := Option.bind_eq_some_iff.mp hstep
  obtain ⟨q, hq, hstep⟩ := Option.bind_eq_some_iff.mp hstep
  obtain ⟨res, hres, hstep⟩ := Option.bind_eq_some_iff.mp hstep
  obtain ⟨⟨timed, rec⟩, htimed, hstep⟩ := Option.bind_eq_some_iff.mp hstep
  obtain ⟨rfl, rfl⟩ := Prod.mk.inj (Option.some.inj hstep)
  obtain ⟨inMeasure, began, rfl⟩ := LayoutRun.operation?_eq_some hop
  obtain ⟨hmem, hgate⟩ := h.tasks _ (List.mem_of_getElem? htask)
  obtain ⟨hok, hgrown, hcount⟩ := h.grown.operate hready hmem hroot hq hres
  have hact : res.act = .op (some (.ok ())) := by rw [Operated.act, hok]
  have herror : res.error? = none := by rw [Operated.error?, hok]
  -- the loop goes on, and records the operation if it began in the measurement
  rw [hact] at htimed
  obtain ⟨task', moved, htask', hmoved, hgo⟩ := Measured.task_step htimed
  rw [htask, Option.some.injEq] at htask'
  subst htask'
  cases hmoved
  obtain ⟨hnow, habort, hcancelled, htasks, hout⟩ := Measured.goOn_fields lib
    fresh s.timed i [] (.more (.layout .think) (recordIf inMeasure
      ⟨metadataKey op, .op (elapsedUsSaturating (s.timed.now - began)) 0, began, s.timed.now⟩))
      nofun
  have hgo' : s.timed.goOn lib fresh i [] (.more (.layout .think) (recordIf inMeasure
      ⟨metadataKey op, .op (elapsedUsSaturating (s.timed.now - began)) 0, began, s.timed.now⟩)) =
      (timed, rec) := hgo
  rw [hgo'] at hnow habort hcancelled htasks hout
  simp only at hnow habort hcancelled htasks hout
  have hrec : ∀ op', isRecordOf op' rec = (inMeasure && decide (op = op')) := by
    intro op'
    rw [hout, TimedStep.rec?, recordIf, isRecordOf]
    cases inMeasure with
    | false => rfl
    | true =>
      rw [Bool.true_and, Bool.eq_iff_iff, decide_eq_true_iff, ← metadataKey_inj]
      exact beq_iff_eq
  refine ⟨⟨hgrown, fun op' hop' q' hq' => ?_, fun e he => ?_, fun task' htask' => ?_, ⟨?_, ?_⟩, ?_⟩,
    ?_, fun h => .inl (habort ▸ h), fun op' hop' => ?_, fun op' hop' hstart => ?_⟩
  · rcases List.mem_or_eq_of_mem_set hq' with hold | rfl
    · exact h.idle op' hop' q' hold
    · by_cases hmakes : makes op' = true
      · rw [hcount op' hmakes, if_neg (fun heq : op = op' => hop' (heq ▸ hmem)),
          h.idle op' hop' q (List.mem_of_getElem? hq)]
      · cases op' <;> first | rfl | exact absurd rfl hmakes
  · rcases List.mem_or_eq_of_mem_set he with hold | rfl
    · exact h.errors e hold
    · exact herror
  · simp only [LayoutRun.stopped, hnow, habort, hcancelled, htasks] at htask' ⊢
    rcases List.mem_or_eq_of_mem_set htask' with hold | rfl
    · exact h.tasks task' hold
    · trivial
  · rw [htasks, List.length_set]
    exact h.size.1
  · rw [List.length_set]
    exact h.size.2
  · rw [hnow]
    exact h.now
  · intro r hr
    rw [hout, TimedStep.rec?, recordIf] at hr
    split at hr
    · cases hr
      simp
    · cases hr
  · rw [total_set hq (hcount op' hop'), hrec]
    cases inMeasure with
    | false =>
      rw [Bool.false_and, if_neg (by simp)]
      exact Nat.add_le_add_left (Nat.zero_le _) _
    | true => simp
  · rw [total_set hq (hcount op' hop'), hrec, hgate hstart]
    simp

theorem pick_eq_some {α : Type} {list : List α} {idx : Nat} {picked : Option α} (hne : list ≠ [])
    (h : pick list idx = some picked) : ∃ a ∈ list, picked = some a := by
  obtain ⟨b, list, rfl⟩ := List.exists_cons_of_ne_nil hne
  obtain ⟨a, ha, rfl⟩ := Option.map_eq_some_iff.mp h
  exact ⟨a, List.mem_of_getElem? ha, rfl⟩

theorem LayoutState.step (hready : LayoutReady config layout t₀ root base)
    (h : LayoutState cfg config layout start t₀ root base s)
    (hstep : s.step cfg lib fresh order config layout a = some (s', out)) :
    LayoutState cfg config layout start t₀ root base s' ∧ LayoutEffect cfg start s a out s' := by
  cases a with
  | elapse d =>
    cases hstep
    exact ⟨h.world rfl (Nat.le_add_right _ _) id, .quiet rfl rfl .inl⟩
  | abort =>
    cases hstep
    exact ⟨h.world rfl (Nat.le_refl _) fun _ => rfl, .quiet rfl rfl fun _ => .inr rfl⟩
  | cancel =>
    cases hstep
    exact ⟨h.world rfl (Nat.le_refl _) fun _ => Bool.or_true _, .quiet rfl rfl .inl⟩
  | run i =>
    simp only [LayoutRun.step] at hstep
    split at hstep
    · next htask hroot =>
      -- every task has a root
      obtain ⟨hlt, -⟩ := List.getElem?_eq_some_iff.mp htask
      rw [List.getElem?_eq_none_iff, hready.taskRoots, ← h.size.1] at hroot
      exact absurd hlt (Nat.not_lt.mpr hroot)
    · exact h.quiet (.inl rfl) hstep
  | choose i idx =>
    obtain ⟨picked, hpick, hstep⟩ := Option.bind_eq_some_iff.mp hstep
    obtain ⟨op, hop, rfl⟩ := pick_eq_some hready.ops hpick
    rw [if_neg (by simp)] at hstep
    exact h.quiet (.inr ⟨op, hop, rfl⟩) hstep
  | operate i idx => exact h.operates hready hstep

def LayoutAct.owner : LayoutAct → Option Nat
  | .run i | .choose i _ | .operate i _ => some i
  | .elapse _ | .abort | .cancel => none

theorem pick_zero {α : Type} (list : List α) : ∃ picked, pick list 0 = some picked := by
  cases list with
  | nil => exact ⟨none, rfl⟩
  | cons a list => exact ⟨some a, rfl⟩

theorem exists_operate (order : List Char → HashOrder EntryName) (layout : Layout)
    (t : FileTree EntryName) (taskRoot : List Char) (q : LayoutSeqs) (op : MetadataOp) :
    ∃ res, operate order layout t taskRoot q op 0 = some res := by
  have hlooks : ∀ (call : List Char → Except Errno Unit) (paths : List (List Char)),
      ∃ res, operateOn t q op call paths 0 = some res := by
    intro call paths
    obtain ⟨picked, hpick⟩ := pick_zero paths
    rw [operateOn, hpick]
    exact ⟨_, rfl⟩
  cases op with
  | stat | «open» | readdir => exact hlooks _ _
  | create | mkdir => exact ⟨_, rfl⟩

variable (cfg lib fresh) in
theorem Measured.exists_task_step {s : Measured H} {i : Nat} (act : TimedAct) {task : TimedTask}
    (htask : s.tasks[i]? = some task)
    (h : (task.step cfg s.now (s.abort || s.cancelled) act).isSome = true) :
    ∃ res, s.step cfg lib fresh (.task i act) = some res := by
  obtain ⟨moved, hmoved⟩ := Option.isSome_iff_exists.mp h
  refine ⟨s.goOn lib fresh i (task.opens cfg) moved, ?_⟩
  simp only [Measured.step, htask, Option.bind_eq_bind, Option.bind_some, hmoved, Option.pure_def]

theorem LayoutState.continues (hready : LayoutReady config layout t₀ root base)
    (h : LayoutState cfg config layout start t₀ root base s) {i : Nat} {task : TimedTask}
    (htask : s.timed.tasks[i]? = some task) (hleft : task ≠ .finished) :
    ∃ a res, LayoutAct.owner a = some i ∧
      s.step cfg lib fresh order config layout a = some res := by
  have hlt : i < config.concurrency := h.size.1 ▸ (List.getElem?_eq_some_iff.mp htask).1
  have hroot : layout.taskRoots[i]? = some (layout.taskRoots.get ⟨i, hready.taskRoots ▸ hlt⟩) :=
    List.getElem?_eq_getElem _
  have hrun : (task.step cfg s.timed.now s.stopped .run).isSome = true →
      ∃ a res, LayoutAct.owner a = some i ∧
        s.step cfg lib fresh order config layout a = some res := by
    intro hsome
    obtain ⟨res, hres⟩ := Measured.exists_task_step cfg lib fresh .run htask hsome
    refine ⟨.run i, ({ s with timed := res.1 }, res.2), rfl, ?_⟩
    simp only [LayoutRun.step, htask, hroot, LayoutRun.tick, hres, Option.map_some]
  have horderly := h.tasks task (List.mem_of_getElem? htask)
  cases task with
  | spawned w => exact hrun rfl
  | layout pc =>
    cases pc with
    | top =>
      obtain ⟨op, ops, hops⟩ := List.exists_cons_of_ne_nil hready.ops
      obtain ⟨res, hres⟩ := Measured.exists_task_step cfg lib fresh (.chosen (some op)) htask rfl
      refine ⟨.choose i 0, ({ s with timed := res.1 }, res.2), rfl, ?_⟩
      have hpick : pick config.ops 0 = some (some op) := by
        rw [hops]
        rfl
      simp only [LayoutRun.step, hpick, Option.bind_eq_bind, Option.bind_some, reduceCtorEq,
        and_false, if_false, LayoutRun.tick, hres, Option.map_some]
    | acquire op => exact hrun rfl
    | think => exact hrun rfl
    | operate op inMeasure began =>
      have hq : s.seqs[i]? = some (s.seqs.get ⟨i, h.size.2 ▸ hlt⟩) := List.getElem?_eq_getElem _
      obtain ⟨done, hdone⟩ := exists_operate order layout s.tree
        (layout.taskRoots.get ⟨i, hready.taskRoots ▸ hlt⟩) (s.seqs.get ⟨i, h.size.2 ▸ hlt⟩) op
      obtain ⟨hok, -, -⟩ := h.grown.operate hready horderly.1 hroot hq hdone
      have hact : done.act = .op (some (.ok ())) := by rw [Operated.act, hok]
      obtain ⟨res, hres⟩ := Measured.exists_task_step cfg lib fresh (.op (some (.ok ()))) htask rfl
      refine ⟨.operate i 0, (⟨res.1, done.tree, s.seqs.set i done.seqs,
        s.errors.set i done.error?⟩, res.2), rfl, ?_⟩
      simp only [LayoutRun.step, htask, LayoutRun.operation?, hroot, hq, hdone, hact, hres,
        Option.bind_eq_bind, Option.bind_some, Option.pure_def]
  | write | read | manifestStat => exact horderly.elim
  | finished => exact absurd rfl hleft

abbrev LayoutTrace (H : Type) := List (Event (LayoutRun H) LayoutAct (Option OpRecord))

def recorded (op : MetadataOp) (tr : LayoutTrace H) : Nat := tr.countP fun e => isRecordOf op e.out

/-- What a run of the workload is like: no operation fails, and the result is no error; a
task ends at the deadline or on a flag, and can go on until then; the tree has the layout
and what the tasks have made, and is as before elsewhere; and what they have made is what
the metrics show, if there is no warmup. -/
structure LayoutRuns (cfg : MeasureCfg) (lib : HdrRecorder H) (fresh : PerOpMetrics H)
    (order : List Char → HashOrder EntryName) (config : MetadataConfig) (layout : Layout)
    (start : Nat) (t₀ : FileTree EntryName) (root : List Char) (base : List EntryName)
    (tr : LayoutTrace H) (s : LayoutRun H) : Prop where
  records : ∀ e ∈ tr, ∀ r, e.out = some r → r.recording ≠ .error
  result : ∀ res, layoutResult s = some res → res = .ok ()
  abort : s.timed.abort = true → ∃ e ∈ tr, e.act = .abort
  ends : .finished ∈ s.timed.tasks → cfg.deadline ≤ s.timed.now ∨ s.stopped = true
  continues : ∀ i task, s.timed.tasks[i]? = some task → task ≠ .finished → ∃ a res,
    LayoutAct.owner a = some i ∧ s.step cfg lib fresh order config layout a = some res
  tree : Grown layout t₀ root base s.seqs s.tree
  counted : ∀ op, makes op = true → recorded op tr ≤ total s.seqs op ∧
    (cfg.measureStart ≤ start → recorded op tr = total s.seqs op)

theorem total_start (n : Nat) (op : MetadataOp) : total (List.replicate n ⟨0, 0⟩) op = 0 := by
  have hzero : LayoutSeqs.count ⟨0, 0⟩ op = 0 := by cases op <;> rfl
  rw [total, List.map_replicate, hzero, List.sum_replicate, Nat.nsmul_eq_mul, Nat.mul_zero]

theorem layoutState_start (hready : LayoutReady config layout t₀ root base) (start : Nat) :
    LayoutState cfg config layout start t₀ root base
      (layoutRunning cfg lib fresh order config layout start t₀).init where
  grown := by
    refine ⟨hready.opens, fun path n => (or_iff_left ?_).symm, .refl _ _⟩
    rintro ⟨i, taskRoot, q, name, -, hq, hgave, -⟩
    obtain rfl := List.eq_of_mem_replicate (List.mem_of_getElem? hq)
    rcases hgave with ⟨-, j, hj, -⟩ | ⟨-, j, hj, -⟩ <;> exact absurd hj (Nat.not_lt_zero _)
  idle := by
    intro op _ q hq
    obtain rfl := List.eq_of_mem_replicate hq
    cases op <;> rfl
  errors := fun e he => List.eq_of_mem_replicate he
  tasks := by
    intro task htask
    obtain ⟨w, hw, rfl⟩ := List.mem_map.mp htask
    exact List.eq_of_mem_replicate hw
  size := ⟨by rw [layoutRunning, measuring, List.length_map, List.length_replicate],
    List.length_replicate⟩
  now := Nat.le_refl _

theorem layout_run (hready : LayoutReady config layout t₀ root base) {tr : LayoutTrace H}
    (h : (layoutRunning cfg lib fresh order config layout start t₀).Run
      (layoutRunning cfg lib fresh order config layout start t₀).init tr s) :
    LayoutState cfg config layout start t₀ root base s ∧
      LayoutRuns cfg lib fresh order config layout start t₀ root base tr s := by
  let P : LayoutTrace H → LayoutRun H → Prop := fun tr s =>
    LayoutState cfg config layout start t₀ root base s ∧
      (∀ e ∈ tr, ∀ r, e.out = some r → r.recording ≠ .error) ∧
      (s.timed.abort = true → ∃ e ∈ tr, e.act = .abort) ∧
      ∀ op, makes op = true → recorded op tr ≤ total s.seqs op ∧
        (cfg.measureStart ≤ start → recorded op tr = total s.seqs op)
  have hP : P tr s := by
    refine h.history ⟨layoutState_start hready start, nofun, nofun, fun op _ => ?_⟩ ?_
    · rw [layoutRunning, total_start]
      exact ⟨Nat.le_refl _, fun _ => rfl⟩
    · rintro tr s a s' out - ⟨hstate, hrecords, habort, hcounted⟩ hstep
      obtain ⟨hstate', heffect⟩ := hstate.step hready hstep
      refine ⟨hstate', fun e he => ?_, fun hset => ?_, fun op hop => ?_⟩
      · rcases List.mem_append.mp he with he | he
        · exact hrecords e he
        · rw [List.mem_singleton.mp he]
          exact heffect.record
      · rcases heffect.abort hset with hset | rfl
        · obtain ⟨e, he, hact⟩ := habort hset
          exact ⟨e, List.mem_append_left _ he, hact⟩
        · exact ⟨_, List.mem_append_right _ (List.mem_singleton_self _), rfl⟩
      · obtain ⟨hle, hexact⟩ := hcounted op hop
        rw [recorded, List.countP_append, List.countP_singleton]
        refine ⟨Nat.le_trans (Nat.add_le_add_right hle _) (heffect.counted op hop),
          fun hstart => ?_⟩
        rw [← heffect.exact op hop hstart, ← hexact hstart]
        rfl
  obtain ⟨hstate, hrecords, habort, hcounted⟩ := hP
  refine ⟨hstate, hrecords, fun res hres => ?_, habort, fun hmem => ?_,
    fun i task htask hleft => hstate.continues hready htask hleft, hstate.grown, hcounted⟩
  · unfold layoutResult at hres
    split at hres
    · have hnone : s.errors.findSome? id = none := by
        rw [List.findSome?_eq_none_iff]
        exact hstate.errors
      rw [hnone] at hres
      exact (Option.some.inj hres).symm
    · cases hres
  · exact MeasureCfg.quits_iff.mp (hstate.tasks _ hmem)

end

end CvdBench.Worker
