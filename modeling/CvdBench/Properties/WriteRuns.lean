import CvdBench.Properties.MetadataJob
import CvdBench.Worker.WriteRun

/-!
The write workload never gets in its own way either: whatever paths its tasks draw, and
however their calls take turns, every directory can be made and every file opened.
-/

set_option autoImplicit false

namespace CvdBench.Worker

open Foundation Spec Metrics

def Segmented (names : List EntryName) : Prop := ∀ k ∈ names, ∃ v, k = hexSegment v

inductive Shaped : List EntryName → Node EntryName → Prop where
  | dir (names : List EntryName) : Segmented names → Shaped names .dir
  | file (names : List EntryName) (v : Nat) : names ≠ [] → Segmented names →
      Shaped (names ++ [randomFileName v]) .file

theorem Segmented.sub {names pre : List EntryName} (h : Segmented names) (hpre : pre <+: names) :
    Segmented pre := fun k hk => h k (hpre.subset hk)

theorem Shaped.eq_dir {names : List EntryName} {n : Node EntryName} (h : Shaped names n)
    (hsegs : Segmented names) : n = .dir := by
  cases h with
  | dir _ _ => rfl
  | file names v _ _ =>
    obtain ⟨v', hv⟩ := hsegs (randomFileName v)
      (List.mem_append_right _ (List.mem_singleton_self _))
    exact absurd hv.symm (hexSegment_ne_randomFileName v' v)

theorem Shaped.eq_file {names : List EntryName} {v : Nat} {n : Node EntryName}
    (h : Shaped (names ++ [randomFileName v]) n) : n = .file := by
  generalize hall : names ++ [randomFileName v] = all at h
  cases h with
  | dir _ hsegs =>
    obtain ⟨v', hv⟩ := hsegs (randomFileName v) (by rw [← hall]; simp)
    exact absurd hv.symm (hexSegment_ne_randomFileName v' v)
  | file => rfl

/-- The tree below the root while the workload runs. -/
structure WriteTree (t₀ : FileTree EntryName) (root : List Char) (base : List EntryName)
    (t : FileTree EntryName) : Prop where
  opens : Opens t root base
  shaped : ∀ names n, t.get? (base ++ names) = some n → Shaped names n
  outside : Outside t₀ t base

def Keeps (t t' : FileTree EntryName) : Prop := ∀ l n, t.get? l = some n → t'.get? l = some n

section

variable {t₀ t t' : FileTree EntryName} {root : List Char} {base names : List EntryName}
  {k : EntryName} {n : Node EntryName}

theorem writeTree_start (hopens : Opens t root base) (hempty : t.children base = ∅) :
    WriteTree t root base t where
  opens := hopens
  shaped := by
    intro names n hn
    cases names with
    | nil =>
      rw [List.append_nil, hopens.node, Option.some.injEq] at hn
      subst hn
      exact .dir [] nofun
    | cons name names =>
      rw [FileTree.get?_below_empty hempty (List.prefix_append _ _) (by simp)] at hn
      cases hn
  outside := .refl t base

theorem WriteTree.clear (h : WriteTree t₀ root base t) (hsegs : Segmented names) :
    MakeDirs.Clear t base names :=
  fun pre hpre n hn => (h.shaped pre n hn).eq_dir (hsegs.sub hpre)

theorem WriteTree.insert (h : WriteTree t₀ root base t) (hdir : t.get? (base ++ names) = some .dir)
    (hnew : t.get? (base ++ names ++ [k]) = none) (hshaped : Shaped (names ++ [k]) n) :
    WriteTree t₀ root base (t.insert (base ++ names) k n) where
  opens := h.opens.insert hdir hnew n
  shaped := by
    intro names' n' hn'
    rw [FileTree.get?_insert hdir hnew] at hn'
    split at hn'
    · next heq =>
      rw [List.append_assoc] at heq
      obtain rfl := List.append_cancel_left heq
      obtain rfl := Option.some.inj hn'
      exact hshaped
    · exact h.shaped names' n' hn'
  outside := by
    refine h.outside.trans fun l hl => ?_
    rw [FileTree.get?_insert hdir hnew, if_neg]
    rintro rfl
    exact hl (by rw [List.append_assoc]; exact List.prefix_append _ _)

theorem keeps_insert (hdir : t.get? (base ++ names) = some .dir)
    (hnew : t.get? (base ++ names ++ [k]) = none) : Keeps t (t.insert (base ++ names) k n) :=
  FileTree.get?_insert_of_some hdir hnew n

theorem WriteTree.made (h : WriteTree t₀ root base t) (hsegs : Segmented names)
    (hmade : MakeDirs.MadeOne base names t t') : WriteTree t₀ root base t' ∧ Keeps t t' := by
  rcases hmade with rfl | ⟨pre, k, hpre, hdir, hnew, rfl⟩
  · exact ⟨h, fun _ _ => id⟩
  · exact ⟨h.insert hdir hnew (.dir _ (hsegs.sub hpre)), keeps_insert hdir hnew⟩

theorem WriteTree.createFile (h : WriteTree t₀ root base t) (hsegs : Segmented names)
    (hne : names ≠ []) (hdir : t.get? (base ++ names) = some .dir) (v : Nat) :
    ∃ t', t.createFile (pathComps (joinNames root (names ++ [randomFileName v]))) = .ok t' ∧
      WriteTree t₀ root base t' ∧ Keeps t t' ∧
      t'.get? (base ++ names ++ [randomFileName v]) = some .file := by
  have hfound := h.opens.found_below hdir
  rw [joinNames_concat, pathComps_join (joinNames_ne_nil h.opens.nonempty names)]
  cases hnew : t.get? (base ++ names ++ [randomFileName v]) with
  | none =>
    refine ⟨_, FileTree.createFile_join hfound hdir hnew,
      h.insert hdir hnew (.file names v hne hsegs), keeps_insert hdir hnew, ?_⟩
    rw [FileTree.get?_insert hdir hnew, if_pos rfl]
  | some n =>
    rw [List.append_assoc] at hnew
    obtain rfl := (h.shaped _ n hnew).eq_file
    rw [← List.append_assoc] at hnew
    refine ⟨t, ?_, h, fun _ _ => id, hnew⟩
    rw [FileTree.createFile]
    unfold FileTree.createFileBy
    rw [FileTree.entry_join _ hfound hdir]
    simp only [hnew]

end

def separator (base : List Char) : List Char :=
  if base = [] ∨ base.getLast? = some '/' then [] else ['/']

theorem joinPath_eq {path : List Char} (base : List Char) (hpath : path.head? ≠ some '/') :
    joinPath base path = base ++ separator base ++ path := by
  unfold joinPath separator
  rw [if_neg hpath]
  split
  · rw [List.append_nil]
  · rw [List.append_assoc, List.singleton_append]

theorem separator_append {path : List Char} (base : List Char) (hne : path ≠ []) :
    separator (base ++ path) = separator path := by
  unfold separator
  have hlast : (base ++ path).getLast? = path.getLast? := by
    rw [List.getLast?_append_of_ne_nil _ hne]
  rw [hlast]
  refine if_congr (or_congr_left ?_) rfl rfl
  rw [List.append_eq_nil_iff]
  exact iff_of_false (fun h => hne h.2) hne

theorem joinPath_assoc {path name : List Char} (root : List Char) (hne : path ≠ [])
    (hpath : path.head? ≠ some '/') (hname : name.head? ≠ some '/') :
    joinPath root (joinPath path name) = joinPath (joinPath root path) name := by
  have hhead : (joinPath path name).head? ≠ some '/' := by
    rw [joinPath_head hne hname]
    exact hpath
  rw [joinPath_eq root hhead, joinPath_eq path hname, joinPath_eq _ hname, joinPath_eq root hpath,
    separator_append _ hne]
  simp only [List.append_assoc]

theorem hexSegment_head (v : Nat) : (hexSegment v).chars.head? ≠ some '/' :=
  noSlash_head (hexSegment v).noSlash

theorem randomSubdir_concat (draws : List Nat) (v : Nat) :
    randomSubdir (draws ++ [v]) = joinPath (randomSubdir draws) (hexSegment v).chars := by
  rw [randomSubdir, List.foldl_append]
  rfl

theorem randomSubdir_plain {draws : List Nat} (hne : draws ≠ []) :
    randomSubdir draws ≠ [] ∧ (randomSubdir draws).head? ≠ some '/' := by
  induction draws using List.reverseRecOn with
  | nil => exact absurd rfl hne
  | append_singleton draws v ih =>
    rw [randomSubdir_concat]
    cases draws with
    | nil =>
      have hone : joinPath (randomSubdir []) (hexSegment v).chars = (hexSegment v).chars := by
        rw [joinPath_eq _ (hexSegment_head v)]
        rfl
      rw [hone]
      exact ⟨(hexSegment v).notEmpty, hexSegment_head v⟩
    | cons d draws =>
      obtain ⟨hne', hhead⟩ := ih (by simp)
      refine ⟨joinPath_ne_nil _ hne', ?_⟩
      rwa [joinPath_head hne' (hexSegment_head v)]

theorem joinPath_randomSubdir (root : List Char) {draws : List Nat} (hne : draws ≠ []) :
    joinPath root (randomSubdir draws) = joinNames root (draws.map hexSegment) := by
  induction draws using List.reverseRecOn with
  | nil => exact absurd rfl hne
  | append_singleton draws v ih =>
    rw [randomSubdir_concat, List.map_append, List.map_singleton, joinNames_concat]
    cases draws with
    | nil =>
      have hone : joinPath (randomSubdir []) (hexSegment v).chars = (hexSegment v).chars := by
        rw [joinPath_eq _ (hexSegment_head v)]
        rfl
      rw [hone]
      rfl
    | cons d draws =>
      obtain ⟨hne', hhead⟩ := randomSubdir_plain (List.cons_ne_nil d draws)
      rw [joinPath_assoc root hne' hhead (hexSegment_head v), ih (List.cons_ne_nil d draws)]

structure Placed (root : List Char) (job : WriteJob) (names : List EntryName) (v : Nat) : Prop where
  segmented : Segmented names
  nonempty : names ≠ []
  dirPath : job.dirPath = joinNames root names
  filePath : job.filePath = joinNames root (names ++ [randomFileName v])

theorem placed_drawn {root : List Char} {draws : List Nat} {file : Nat}
    (hdraws : drawable draws file = true) :
    Placed root (WriteRun.drawn root draws file) (draws.map hexSegment) file := by
  have hne : draws ≠ [] := by
    rintro rfl
    cases hdraws
  have hdir := joinPath_randomSubdir root hne
  refine ⟨fun k hk => ?_, by simpa using hne, hdir, ?_⟩
  · obtain ⟨v, -, rfl⟩ := List.mem_map.mp hk
    exact ⟨v, rfl⟩
  · rw [joinNames_concat, ← hdir]
    rfl

/-- Where a task of the workload can be, and what of its paths is there. -/
def Turn (cfg : MeasureCfg) (config : WriteConfig) (root : List Char) (base : List EntryName)
    (t : FileTree EntryName) (now : Nat) (stop : Bool) (job : WriteJob) : TimedTask → Prop
  | .spawned w => w = .write
  | .write .top | .write .think => True
  | .write (.acquire n) => samples config.size n = true
  | .write (.mkdir n _) => samples config.size n = true ∧ job.opened = false ∧
      ∃ names v, Placed root job names v ∧
        MakeDirs.Goes (pathComps root) base names t job.dirs
  | .write (.payload n) => samples config.size n = true ∧ job.opened = false ∧
      ∃ names v, Placed root job names v ∧ t.get? (base ++ names) = some .dir
  | .write (.write n _ _) => samples config.size n = true ∧
      ∃ names v, Placed root job names v ∧ t.get? (base ++ names) = some .dir ∧
        (job.opened = true → t.get? (base ++ names ++ [randomFileName v]) = some .file)
  | .write (.verify n _ _) => samples config.size n = true ∧
      ∃ names v, Placed root job names v ∧
        t.get? (base ++ names ++ [randomFileName v]) = some .file
  | .finished => cfg.quits now stop = true
  | .read _ | .layout _ | .manifestStat _ => False

theorem Turn.mono {cfg : MeasureCfg} {config : WriteConfig} {root : List Char}
    {base : List EntryName} {t t' : FileTree EntryName} {now now' : Nat} {stop stop' : Bool}
    {job : WriteJob} {task : TimedTask} (h : Turn cfg config root base t now stop job task)
    (hkeeps : Keeps t t') (hnow : now ≤ now') (hstop : stop = true → stop' = true) :
    Turn cfg config root base t' now' stop' job task := by
  cases task with
  | spawned w => exact h
  | write pc =>
    cases pc with
    | top => trivial
    | think => trivial
    | acquire n => exact h
    | mkdir n began =>
      obtain ⟨hsize, hopened, names, v, hplaced, hgoes⟩ := h
      exact ⟨hsize, hopened, names, v, hplaced, hgoes.mono hkeeps⟩
    | payload n =>
      obtain ⟨hsize, hopened, names, v, hplaced, hdir⟩ := h
      exact ⟨hsize, hopened, names, v, hplaced, hkeeps _ _ hdir⟩
    | write n inMeasure began =>
      obtain ⟨hsize, names, v, hplaced, hdir, hfile⟩ := h
      exact ⟨hsize, names, v, hplaced, hkeeps _ _ hdir, fun hopened => hkeeps _ _ (hfile hopened)⟩
    | verify n inMeasure began =>
      obtain ⟨hsize, names, v, hplaced, hfile⟩ := h
      exact ⟨hsize, names, v, hplaced, hkeeps _ _ hfile⟩
  | finished =>
    rw [Turn, MeasureCfg.quits_iff] at h ⊢
    exact h.imp (Nat.le_trans · hnow) hstop
  | read | layout | manifestStat => exact h.elim

/-- What holds in every state of the workload. -/
structure WriteState {H : Type} (cfg : MeasureCfg) (config : WriteConfig) (t₀ : FileTree EntryName)
    (root : List Char) (base : List EntryName) (s : WriteRun H) : Prop where
  tree : WriteTree t₀ root base s.tree
  errors : ∀ e ∈ s.errors, ∀ err, e = some err → ∃ path, err = .verifyMismatch path
  size : s.timed.tasks.length = config.concurrency ∧ s.jobs.length = config.concurrency
  turns : ∀ (i : Nat) task job, s.timed.tasks[i]? = some task → s.jobs[i]? = some job →
    Turn cfg config root base s.tree s.timed.now s.stopped job task

inductive WriteRecorded (config : WriteConfig) : WriteAct → OpRecord → Prop where
  | written (i elapsed : Nat) {us n began ended : Nat} : samples config.size n = true →
      WriteRecorded config (.written i elapsed) ⟨"write", .op us n, began, ended⟩
  | verified (i : Nat) {us n began ended : Nat} : samples config.size n = true →
      WriteRecorded config (.verify i true) ⟨"write_verify", .op us n, began, ended⟩
  | mismatch (i : Nat) {began ended : Nat} :
      WriteRecorded config (.verify i false) ⟨"write_verify", .error, began, ended⟩

/-- What a step can do besides: only a hash that is not the expected one is an error, which
raises the abort flag; nothing that is there goes away, and a file that is written is there. -/
structure WriteEffect {H : Type} (config : WriteConfig) (root : List Char) (base : List EntryName)
    (s : WriteRun H) (a : WriteAct) (out : Option OpRecord) (s' : WriteRun H) : Prop where
  record : ∀ r, out = some r → WriteRecorded config a r
  errors : ∀ err, some err ∈ s'.errors → some err ∈ s.errors ∨ ∃ i, a = .verify i false
  abort : s'.timed.abort = true → s.timed.abort = true ∨ a = .abort ∨ ∃ i, a = .verify i false
  keeps : Keeps s.tree s'.tree
  written : ∀ i elapsed, a = .written i elapsed →
    ∃ job, s.jobs[i]? = some job ∧ LiesBelow s.tree root base .file job.filePath

section

variable {H : Type} {cfg : MeasureCfg} {lib : HdrRecorder H} {fresh : PerOpMetrics H}
  {config : WriteConfig} {t₀ : FileTree EntryName} {root : List Char} {base : List EntryName}
  {s s' : WriteRun H} {a : WriteAct} {out : Option OpRecord} {i : Nat} {act : TimedAct}
  {task : TimedTask} {res : TimedStep TimedTask}

theorem WriteState.advance (h : WriteState cfg config t₀ root base s)
    (htasks : ∀ j, j ≠ i → s'.timed.tasks[j]? = s.timed.tasks[j]?)
    (hjobs : ∀ j, j ≠ i → s'.jobs[j]? = s.jobs[j]?)
    (hsize : s'.timed.tasks.length = s.timed.tasks.length ∧ s'.jobs.length = s.jobs.length)
    (htree : WriteTree t₀ root base s'.tree) (hkeeps : Keeps s.tree s'.tree)
    (hnow : s.timed.now ≤ s'.timed.now) (hstop : s.stopped = true → s'.stopped = true)
    (herrors : ∀ e ∈ s'.errors, ∀ err, e = some err → ∃ path, err = .verifyMismatch path)
    (hturn : ∀ task job, s'.timed.tasks[i]? = some task → s'.jobs[i]? = some job →
      Turn cfg config root base s'.tree s'.timed.now s'.stopped job task) :
    WriteState cfg config t₀ root base s' where
  tree := htree
  errors := herrors
  size := ⟨hsize.1.trans h.size.1, hsize.2.trans h.size.2⟩
  turns := by
    intro j task job htask hjob
    by_cases hj : j = i
    · subst hj
      exact hturn task job htask hjob
    · rw [htasks j hj] at htask
      rw [hjobs j hj] at hjob
      exact (h.turns j task job htask hjob).mono hkeeps hnow hstop

structure Ticked (lib : HdrRecorder H) (s : WriteRun H) (i : Nat) (res : TimedStep TimedTask)
    (s' : WriteRun H) (out : Option OpRecord) : Prop where
  tree : s'.tree = s.tree
  jobs : s'.jobs = s.jobs
  errors : s'.errors = s.errors
  tasks : s'.timed.tasks = s.timed.tasks.set i (res.next?.getD .finished)
  now : s'.timed.now = s.timed.now
  out : out = res.rec?
  abort : s'.timed.abort = true → s.timed.abort = true ∨ ∃ rec, res = .fail rec
  stopped : s.stopped = true ∨ (∃ rec, res = .fail rec) → s'.stopped = true

theorem WriteRun.ticked (hstep : s.tick cfg lib fresh i act = some (s', out)) :
    ∃ task res, s.timed.tasks[i]? = some task ∧
      task.step cfg s.timed.now s.stopped act = some res ∧ Ticked lib s i res s' out := by
  obtain ⟨⟨timed, out'⟩, htimed, heq⟩ := Option.map_eq_some_iff.mp hstep
  obtain ⟨rfl, rfl⟩ := Prod.mk.inj heq
  obtain ⟨task, res, htask, hres, hgo⟩ := Measured.task_step htimed
  refine ⟨task, res, htask, hres, ?_⟩
  cases res with
  | more st rec =>
    cases hgo
    exact ⟨rfl, rfl, rfl, rfl, rfl, rfl, .inl, fun h => h.resolve_right nofun⟩
  | leave =>
    cases hgo
    exact ⟨rfl, rfl, rfl, rfl, rfl, rfl, .inl, fun h => h.resolve_right nofun⟩
  | fail rec =>
    cases hgo
    exact ⟨rfl, rfl, rfl, rfl, rfl, rfl, fun _ => .inr ⟨rec, rfl⟩, fun _ => rfl⟩

theorem WriteState.tick (h : WriteState cfg config t₀ root base s)
    (hticked : Ticked lib s i res s' out)
    (hturn : ∀ job, s.jobs[i]? = some job →
      Turn cfg config root base s.tree s.timed.now s'.stopped job (res.next?.getD .finished)) :
    WriteState cfg config t₀ root base s' := by
  refine h.advance (i := i) (fun j hj => ?_) (fun j _ => by rw [hticked.jobs]) ⟨?_, ?_⟩ ?_ ?_ ?_ ?_
    ?_ fun task job htask hjob => ?_
  · rw [hticked.tasks, List.getElem?_set_ne hj.symm]
  · rw [hticked.tasks, List.length_set]
  · rw [hticked.jobs]
  · rw [hticked.tree]
    exact h.tree
  · rw [hticked.tree]
    exact fun _ _ => id
  · rw [hticked.now]
  · exact fun hstop => hticked.stopped (.inl hstop)
  · rw [hticked.errors]
    exact h.errors
  · rw [hticked.jobs] at hjob
    rw [hticked.tree, hticked.now]
    have hlt : i < s.timed.tasks.length := by
      rw [h.size.1, ← h.size.2]
      exact (List.getElem?_eq_some_iff.mp hjob).1
    rw [hticked.tasks, List.getElem?_set_self hlt, Option.some.injEq] at htask
    exact htask ▸ hturn job hjob

theorem WriteEffect.tick (hticked : Ticked lib s i res s' out) (hfail : ∀ rec, res ≠ .fail rec)
    (hrec : ∀ r, res.rec? = some r → WriteRecorded config a r)
    (hwritten : ∀ i elapsed, a = .written i elapsed →
      ∃ job, s.jobs[i]? = some job ∧ LiesBelow s.tree root base .file job.filePath) :
    WriteEffect config root base s a out s' where
  record := by
    intro r hr
    rw [hticked.out] at hr
    exact hrec r hr
  errors err h := .inl (hticked.errors ▸ h)
  abort := fun habort => (hticked.abort habort).imp_right fun ⟨rec, hres⟩ => absurd hres (hfail rec)
  keeps := by
    rw [hticked.tree]
    exact fun _ _ => id
  written := hwritten

theorem recordIf_eq {b : Bool} {r r' : OpRecord} (h : recordIf b r = some r') : r' = r := by
  unfold recordIf at h
  split at h
  · exact (Option.some.inj h).symm
  · cases h

theorem WriteState.world (h : WriteState cfg config t₀ root base s) {timed : Measured H}
    (htasks : timed.tasks = s.timed.tasks) (hnow : s.timed.now ≤ timed.now)
    (hstop : s.stopped = true → (timed.abort || timed.cancelled) = true) :
    WriteState cfg config t₀ root base { s with timed } where
  tree := h.tree
  errors := h.errors
  size := ⟨by simp only [htasks]; exact h.size.1, h.size.2⟩
  turns := by
    intro i task job htask hjob
    simp only [htasks] at htask
    exact (h.turns i task job htask hjob).mono (fun _ _ => id) hnow hstop

theorem WriteEffect.world {timed : Measured H}
    (habort : timed.abort = true → s.timed.abort = true ∨ a = .abort)
    (ha : ∀ i elapsed, a ≠ .written i elapsed) :
    WriteEffect config root base s a none { s with timed } where
  record := nofun
  errors _ := .inl
  abort h := (habort h).imp_right .inl
  keeps _ _ := id
  written i elapsed h := absurd h (ha i elapsed)

theorem WriteState.job (h : WriteState cfg config t₀ root base s)
    (htask : s.timed.tasks[i]? = some task) : ∃ job, s.jobs[i]? = some job := by
  have hlt : i < s.jobs.length := by
    rw [h.size.2, ← h.size.1]
    exact (List.getElem?_eq_some_iff.mp htask).1
  exact ⟨_, List.getElem?_eq_getElem hlt⟩

theorem WriteState.run (h : WriteState cfg config t₀ root base s)
    (hstep : s.step cfg lib fresh config root (.run i) = some (s', out)) :
    WriteState cfg config t₀ root base s' ∧ WriteEffect config root base s (.run i) out s' := by
  simp only [WriteRun.step] at hstep
  split at hstep
  · cases hstep
  · next hno =>
    obtain ⟨task, res, htask, hres, hticked⟩ := WriteRun.ticked hstep
    obtain ⟨job, hjob⟩ := h.job htask
    have hturn := h.turns i task job htask hjob
    have hquiet : ∀ st, res = .more st none →
        Turn cfg config root base s.tree s.timed.now s.stopped job st →
        WriteState cfg config t₀ root base s' ∧
          WriteEffect config root base s (.run i) out s' := by
      rintro st rfl hst
      refine ⟨h.tick hticked fun job' hjob' => ?_, .tick hticked nofun nofun nofun⟩
      rw [hjob, Option.some.injEq] at hjob'
      subst hjob'
      exact hst.mono (fun _ _ => id) (Nat.le_refl _) fun hstop => hticked.stopped (.inl hstop)
    cases task with
    | spawned w =>
      obtain rfl : w = .write := hturn
      cases hres
      exact hquiet _ rfl trivial
    | write pc =>
      obtain ⟨moved, hmoved, rfl⟩ := Option.map_eq_some_iff.mp hres
      cases pc with
      | acquire n => exact (hno n htask).elim
      | payload n =>
        cases hmoved
        obtain ⟨hsize, hopened, names, v, hplaced, hdir⟩ := hturn
        refine hquiet _ rfl ⟨hsize, names, v, hplaced, hdir, fun ho => ?_⟩
        rw [hopened] at ho
        cases ho
      | think =>
        cases hmoved
        exact hquiet _ rfl trivial
      | top | mkdir | write | verify => cases hmoved
    | finished => cases hres
    | read | layout | manifestStat => exact hturn.elim

theorem WriteState.sized {n : Nat} (h : WriteState cfg config t₀ root base s)
    (hstep : s.step cfg lib fresh config root (.size i n) = some (s', out)) :
    WriteState cfg config t₀ root base s' ∧ WriteEffect config root base s (.size i n) out s' := by
  simp only [WriteRun.step] at hstep
  split at hstep
  · next hsize =>
    obtain ⟨task, res, htask, hres, hticked⟩ := WriteRun.ticked hstep
    obtain ⟨job, hjob⟩ := h.job htask
    have hturn := h.turns i task job htask hjob
    cases task with
    | write pc =>
      obtain ⟨moved, hmoved, rfl⟩ := Option.map_eq_some_iff.mp hres
      cases pc with
      | top =>
        cases hmoved
        split at hticked
        · next hquits =>
          refine ⟨h.tick hticked fun job _ => ?_, .tick hticked nofun nofun nofun⟩
          have hfinished : Turn cfg config root base s.tree s.timed.now s.stopped job .finished :=
            hquits
          exact hfinished.mono (fun _ _ => id) (Nat.le_refl _) fun hstop =>
            hticked.stopped (.inl hstop)
        · exact ⟨h.tick hticked fun job _ => hsize, .tick hticked nofun nofun nofun⟩
      | acquire | mkdir | payload | write | verify | think => cases hmoved
    | spawned | finished => cases hres
    | read | layout | manifestStat => exact hturn.elim
  · cases hstep

theorem WriteState.draw {draws : List Nat} {file : Nat} (h : WriteState cfg config t₀ root base s)
    (hstep : s.step cfg lib fresh config root (.draw i draws file) = some (s', out)) :
    WriteState cfg config t₀ root base s' ∧
      WriteEffect config root base s (.draw i draws file) out s' := by
  simp only [WriteRun.step] at hstep
  split at hstep
  · next n htask =>
    split at hstep
    · next hdraws =>
      obtain ⟨job, hjob⟩ := h.job htask
      have hsize : samples config.size n = true := h.turns i _ job htask hjob
      have hlt := (List.getElem?_eq_some_iff.mp hjob).1
      have hset : (s.jobs.set i (WriteRun.drawn root draws file))[i]? =
          some (WriteRun.drawn root draws file) := List.getElem?_set_self hlt
      -- only the job of the task is another one
      have hs : WriteState cfg config t₀ root base
          (s.setJob i (WriteRun.drawn root draws file)) := by
        refine h.advance (i := i) (fun j _ => rfl)
          (fun j hj => List.getElem?_set_ne hj.symm) ⟨rfl, List.length_set⟩ h.tree
          (fun _ _ => id) (Nat.le_refl _) id h.errors fun task' job' htask' _ => ?_
        rw [WriteRun.setJob, htask, Option.some.injEq] at htask'
        subst htask'
        exact hsize
      obtain ⟨task, res, htask', hres, hticked⟩ := WriteRun.ticked hstep
      rw [WriteRun.setJob, htask, Option.some.injEq] at htask'
      subst htask'
      cases hres
      have hplaced : Placed root (WriteRun.drawn root draws file) (draws.map hexSegment) file :=
        placed_drawn hdraws
      have heffect : WriteEffect config root base (s.setJob i (WriteRun.drawn root draws file))
        (.draw i draws file) out s' := .tick hticked nofun nofun nofun
      refine ⟨hs.tick hticked fun job' hjob' => ?_, heffect.record, heffect.errors, heffect.abort,
        heffect.keeps, nofun⟩
      rw [WriteRun.setJob, hset, Option.some.injEq] at hjob'
      subst hjob'
      refine ⟨hsize, rfl, _, _, hplaced, ?_⟩
      have hgoes := MakeDirs.goes_start s.tree (pathComps root) base (draws.map hexSegment)
      rw [← pathComps_joinNames h.tree.opens.nonempty, ← hplaced.dirPath] at hgoes
      exact hgoes
    · cases hstep
  · cases hstep

theorem WriteState.mkdir (h : WriteState cfg config t₀ root base s)
    (hstep : s.step cfg lib fresh config root (.mkdir i) = some (s', out)) :
    WriteState cfg config t₀ root base s' ∧ WriteEffect config root base s (.mkdir i) out s' := by
  simp only [WriteRun.step] at hstep
  split at hstep
  · next n began job htask hjob =>
    obtain ⟨hsize, hopened, names, v, hplaced, hgoes⟩ := h.turns i _ job htask hjob
    have hlt := (List.getElem?_eq_some_iff.mp hjob).1
    split at hstep
    · cases hstep
    · obtain ⟨rfl, rfl⟩ := Prod.mk.inj (Option.some.inj hstep)
      obtain ⟨hmade, hgoes'⟩ := hgoes.step h.tree.opens.found h.tree.opens.node
        (h.tree.clear hplaced.segmented)
      obtain ⟨htree, hkeeps⟩ := h.tree.made hplaced.segmented hmade
      refine ⟨h.advance (i := i) (fun j _ => rfl) (fun j hj => List.getElem?_set_ne hj.symm)
        ⟨rfl, List.length_set⟩ htree hkeeps (Nat.le_refl _) id h.errors
        fun task' job' htask' hjob' => ?_, nofun, fun _ => .inl, .inl, hkeeps, nofun⟩
      simp only [WriteRun.setJob, htask, Option.some.injEq] at htask'
      simp only [WriteRun.setJob, List.getElem?_set_self hlt, Option.some.injEq] at hjob'
      subst htask' hjob'
      exact ⟨hsize, hopened, names, v, ⟨hplaced.segmented, hplaced.nonempty, hplaced.dirPath,
        hplaced.filePath⟩, hgoes'⟩
  · cases hstep

theorem WriteState.mkdirEnd (h : WriteState cfg config t₀ root base s)
    (hstep : s.step cfg lib fresh config root (.mkdirEnd i) = some (s', out)) :
    WriteState cfg config t₀ root base s' ∧
      WriteEffect config root base s (.mkdirEnd i) out s' := by
  simp only [WriteRun.step] at hstep
  split at hstep
  · next n began job htask hjob =>
    obtain ⟨hsize, hopened, names, v, hplaced, hgoes⟩ := h.turns i _ job htask hjob
    split at hstep
    · next hdone =>
      rw [hdone] at hgoes
      obtain ⟨task, res, htask', hres, hticked⟩ := WriteRun.ticked hstep
      rw [htask, Option.some.injEq] at htask'
      subst htask'
      cases hres
      refine ⟨h.tick hticked fun job' hjob' => ?_, .tick hticked nofun nofun nofun⟩
      rw [hjob, Option.some.injEq] at hjob'
      subst hjob'
      cases hgoes with
      | done hdir => exact ⟨hsize, hopened, names, v, hplaced, hdir⟩
    · next e hdone =>
      rw [hdone] at hgoes
      cases hgoes
    · cases hstep
  · cases hstep

theorem WriteState.opens (h : WriteState cfg config t₀ root base s)
    (hstep : s.step cfg lib fresh config root (.open i) = some (s', out)) :
    WriteState cfg config t₀ root base s' ∧ WriteEffect config root base s (.open i) out s' := by
  simp only [WriteRun.step] at hstep
  split at hstep
  · next n inMeasure began job htask hjob =>
    obtain ⟨hsize, names, v, hplaced, hdir, -⟩ := h.turns i _ job htask hjob
    have hlt := (List.getElem?_eq_some_iff.mp hjob).1
    obtain ⟨t', hcall, htree, hkeeps, hfile⟩ :=
      h.tree.createFile hplaced.segmented hplaced.nonempty hdir v
    rw [← hplaced.filePath] at hcall
    split at hstep
    · cases hstep
    · rw [hcall] at hstep
      obtain ⟨rfl, rfl⟩ := Prod.mk.inj (Option.some.inj hstep)
      refine ⟨h.advance (i := i) (fun j _ => rfl) (fun j hj => List.getElem?_set_ne hj.symm)
        ⟨rfl, List.length_set⟩ htree hkeeps (Nat.le_refl _) id h.errors
        fun task' job' htask' hjob' => ?_, nofun, fun _ => .inl, .inl, hkeeps, nofun⟩
      simp only [WriteRun.setJob, htask, Option.some.injEq] at htask'
      simp only [WriteRun.setJob, List.getElem?_set_self hlt, Option.some.injEq] at hjob'
      subst htask' hjob'
      exact ⟨hsize, names, v, ⟨hplaced.segmented, hplaced.nonempty, hplaced.dirPath,
        hplaced.filePath⟩, hkeeps _ _ hdir, fun _ => hfile⟩
  · cases hstep

theorem Placed.lies {job : WriteJob} {names : List EntryName} {v : Nat} {t : FileTree EntryName}
    (h : Placed root job names v)
    (hfile : t.get? (base ++ names ++ [randomFileName v]) = some .file) :
    LiesBelow t root base .file job.filePath :=
  ⟨names ++ [randomFileName v], h.filePath, by rw [← List.append_assoc, hfile]⟩

theorem WriteState.written {elapsed : Nat} (h : WriteState cfg config t₀ root base s)
    (hstep : s.step cfg lib fresh config root (.written i elapsed) = some (s', out)) :
    WriteState cfg config t₀ root base s' ∧
      WriteEffect config root base s (.written i elapsed) out s' := by
  simp only [WriteRun.step] at hstep
  split at hstep
  · next job hjob =>
    split at hstep
    · next hopened =>
      obtain ⟨task, res, htask, hres, hticked⟩ := WriteRun.ticked hstep
      have hturn := h.turns i task job htask hjob
      cases task with
      | write pc =>
        obtain ⟨moved, hmoved, rfl⟩ := Option.map_eq_some_iff.mp hres
        cases pc with
        | write n inMeasure began =>
          cases hmoved
          obtain ⟨hsize, names, v, hplaced, -, hfile⟩ := hturn
          refine ⟨h.tick hticked fun job' hjob' => ?_,
            .tick hticked nofun (fun r hr => recordIf_eq hr ▸ .written i elapsed hsize)
              fun i' elapsed' heq => ?_⟩
          · rw [hjob, Option.some.injEq] at hjob'
            subst hjob'
            cases cfg.verifyAfterWrite with
            | true => exact ⟨hsize, names, v, hplaced, hfile hopened⟩
            | false => trivial
          · cases heq
            exact ⟨job, hjob, hplaced.lies (hfile hopened)⟩
        | top | acquire | mkdir | payload | verify | think => cases hmoved
      | spawned | finished => cases hres
      | read | layout | manifestStat => exact hturn.elim
    · cases hstep
  · cases hstep

theorem WriteState.verify {same : Bool} (h : WriteState cfg config t₀ root base s)
    (hstep : s.step cfg lib fresh config root (.verify i same) = some (s', out)) :
    WriteState cfg config t₀ root base s' ∧
      WriteEffect config root base s (.verify i same) out s' := by
  simp only [WriteRun.step] at hstep
  split at hstep
  · next n inMeasure began job htask hjob =>
    obtain ⟨hsize, names, v, hplaced, hfile⟩ := h.turns i _ job htask hjob
    have hopen : s.tree.openFile (pathComps job.filePath) = .ok () := by
      rw [FileTree.openFile, h.tree.opens.stat (hplaced.lies hfile) (by simp)]
      rfl
    rw [hopen] at hstep
    cases same with
    | true =>
      obtain ⟨task, res, htask', hres, hticked⟩ := WriteRun.ticked hstep
      rw [htask, Option.some.injEq] at htask'
      subst htask'
      cases hres
      exact ⟨h.tick hticked fun job' _ => trivial,
        .tick hticked (fun _ hfail => by cases hfail)
          (fun r hr => recordIf_eq hr ▸ .verified i hsize) fun _ _ hact => by cases hact⟩
    | false =>
      -- the error is the only one that a task can return
      have hs : WriteState cfg config t₀ root base
          (s.setError i (.verifyMismatch job.filePath)) := by
        refine ⟨h.tree, fun e he err heq => ?_, h.size, h.turns⟩
        rcases List.mem_or_eq_of_mem_set he with hold | rfl
        · exact h.errors e hold err heq
        · exact ⟨job.filePath, (Option.some.inj heq).symm⟩
      obtain ⟨task, res, htask', hres, hticked⟩ := WriteRun.ticked hstep
      rw [WriteRun.setError, htask, Option.some.injEq] at htask'
      subst htask'
      cases hres
      refine ⟨hs.tick hticked fun job' _ => ?_, fun r hr => ?_, fun _ _ => .inr ⟨i, rfl⟩,
        fun _ => .inr (.inr ⟨i, rfl⟩), ?_, fun _ _ hact => by cases hact⟩
      · exact MeasureCfg.quits_iff.mpr (.inr (hticked.stopped (.inr ⟨_, rfl⟩)))
      · rw [hticked.out] at hr
        cases hr
        exact .mismatch i
      · rw [hticked.tree]
        exact fun _ _ => id
  · cases hstep

theorem WriteState.step (h : WriteState cfg config t₀ root base s)
    (hstep : s.step cfg lib fresh config root a = some (s', out)) :
    WriteState cfg config t₀ root base s' ∧ WriteEffect config root base s a out s' := by
  cases a with
  | elapse d =>
    cases hstep
    exact ⟨h.world rfl (Nat.le_add_right _ _) id, .world .inl nofun⟩
  | abort =>
    cases hstep
    exact ⟨h.world rfl (Nat.le_refl _) fun _ => rfl, .world (fun _ => .inr rfl) nofun⟩
  | cancel =>
    cases hstep
    exact ⟨h.world rfl (Nat.le_refl _) fun _ => Bool.or_true _, .world .inl nofun⟩
  | run i => exact h.run hstep
  | size i n => exact h.sized hstep
  | draw i draws file => exact h.draw hstep
  | mkdir i => exact h.mkdir hstep
  | mkdirEnd i => exact h.mkdirEnd hstep
  | «open» i => exact h.opens hstep
  | written i elapsed => exact h.written hstep
  | verify i same => exact h.verify hstep

def WriteAct.owner : WriteAct → Option Nat
  | .run i | .size i _ | .draw i _ _ | .mkdir i | .mkdirEnd i | .open i | .written i _
  | .verify i _ => some i
  | .elapse _ | .abort | .cancel => none

theorem exists_samples (size : WriteSize) : ∃ n, samples size n = true := by
  cases size with
  | fixed bytes => exact ⟨bytes, by simp [samples]⟩
  | range min max distribution =>
    refine ⟨min, ?_⟩
    rw [samples]
    split
    · exact beq_self_eq_true min
    · next hlt => simp only [Nat.le_refl, decide_true, Bool.true_and, decide_eq_true_eq]; omega

variable (cfg lib fresh) in
theorem WriteRun.exists_tick (s : WriteRun H) (act : TimedAct)
    (htask : s.timed.tasks[i]? = some task)
    (h : (task.step cfg s.timed.now s.stopped act).isSome = true) :
    ∃ res, s.tick cfg lib fresh i act = some res := by
  obtain ⟨res, hres⟩ := Measured.exists_task_step cfg lib fresh act htask h
  exact ⟨({ s with timed := res.1 }, res.2), by rw [WriteRun.tick, hres, Option.map_some]⟩

theorem WriteState.continues (h : WriteState cfg config t₀ root base s)
    (htask : s.timed.tasks[i]? = some task) (hleft : task ≠ .finished) :
    ∃ a res, WriteAct.owner a = some i ∧ s.step cfg lib fresh config root a = some res := by
  obtain ⟨job, hjob⟩ := h.job htask
  have hturn := h.turns i task job htask hjob
  have hrun : (∀ n, task ≠ .write (.acquire n)) →
      (task.step cfg s.timed.now s.stopped .run).isSome = true →
      ∃ a res, WriteAct.owner a = some i ∧ s.step cfg lib fresh config root a = some res := by
    intro hno hsome
    obtain ⟨res, hres⟩ := WriteRun.exists_tick cfg lib fresh s .run htask hsome
    refine ⟨.run i, res, rfl, ?_⟩
    simp only [WriteRun.step, htask]
    split
    · next n heq => exact absurd (Option.some.inj heq) (hno n)
    · exact hres
  cases task with
  | spawned w => exact hrun (fun _ hpc => by cases hpc) rfl
  | write pc =>
    cases pc with
    | top =>
      obtain ⟨n, hn⟩ := exists_samples config.size
      obtain ⟨res, hres⟩ := WriteRun.exists_tick cfg lib fresh s (.size n) htask rfl
      exact ⟨.size i n, res, rfl, by rw [WriteRun.step, if_pos hn, hres]⟩
    | acquire n =>
      obtain ⟨res, hres⟩ := WriteRun.exists_tick cfg lib fresh
        (s.setJob i (WriteRun.drawn root [0] 0)) .run htask rfl
      refine ⟨.draw i [0] 0, res, rfl, ?_⟩
      simp only [WriteRun.step, htask, if_pos (by decide : drawable [0] 0 = true), hres]
    | mkdir n began =>
      by_cases hdone : job.dirs = .done (.ok ())
      · obtain ⟨res, hres⟩ := WriteRun.exists_tick cfg lib fresh s (.mkdir (.ok ())) htask rfl
        refine ⟨.mkdirEnd i, res, rfl, ?_⟩
        simp only [WriteRun.step, htask, hjob, hdone, hres]
      · obtain ⟨-, -, names, v, -, hgoes⟩ := hturn
        have hsome : (s.step cfg lib fresh config root (.mkdir i)).isSome = true := by
          simp only [WriteRun.step, htask, hjob]
          cases hdirs : job.dirs with
          | done res =>
            rw [hdirs] at hgoes hdone
            cases hgoes
            exact absurd rfl hdone
          | climb | climbed | descend | descended => rfl
        obtain ⟨res, hres⟩ := Option.isSome_iff_exists.mp hsome
        exact ⟨.mkdir i, res, rfl, hres⟩
    | payload n => exact hrun (fun _ hpc => by cases hpc) rfl
    | write n inMeasure began =>
      obtain ⟨-, names, v, hplaced, hdir, -⟩ := hturn
      cases hopened : job.opened with
      | true =>
        obtain ⟨res, hres⟩ := WriteRun.exists_tick cfg lib fresh s (.written (.ok 0)) htask rfl
        refine ⟨.written i 0, res, rfl, ?_⟩
        simp only [WriteRun.step, hjob, hopened, if_true, hres]
      | false =>
        obtain ⟨t', hcall, -⟩ := h.tree.createFile hplaced.segmented hplaced.nonempty hdir v
        rw [← hplaced.filePath] at hcall
        refine
          ⟨.open i, ({ s.setJob i { job with opened := true } with tree := t' }, none), rfl, ?_⟩
        simp only [WriteRun.step, htask, hjob, hopened, Bool.false_eq_true, if_false, hcall]
    | verify n inMeasure began =>
      obtain ⟨-, names, v, hplaced, hfile⟩ := hturn
      have hopen : s.tree.openFile (pathComps job.filePath) = .ok () := by
        rw [FileTree.openFile, h.tree.opens.stat (hplaced.lies hfile) (by simp)]
        rfl
      obtain ⟨res, hres⟩ := WriteRun.exists_tick cfg lib fresh s (.verified (.ok true)) htask rfl
      refine ⟨.verify i true, res, rfl, ?_⟩
      simp only [WriteRun.step, htask, hjob, hopen, if_true, hres]
    | think => exact hrun (fun _ hpc => by cases hpc) rfl
  | read | layout | manifestStat => exact hturn.elim
  | finished => exact absurd rfl hleft

abbrev WriteTrace (H : Type) := List (Event (WriteRun H) WriteAct (Option OpRecord))

/-- What a run of the workload is like: nothing fails but the comparison of a hash, and
without one that fails the result is no error; a task ends at the deadline or on a flag, and
can go on until then; the tree has nothing but what the tasks have made, and every file that
has been written is still there. -/
structure WriteRuns (cfg : MeasureCfg) (lib : HdrRecorder H) (fresh : PerOpMetrics H)
    (config : WriteConfig) (t₀ : FileTree EntryName) (root : List Char) (base : List EntryName)
    (tr : WriteTrace H) (s : WriteRun H) : Prop where
  records : ∀ e ∈ tr, ∀ r, e.out = some r → WriteRecorded config e.act r
  result : ∀ err, writeResult s = some (.error err) →
    (∃ path, err = .verifyMismatch path) ∧ ∃ e ∈ tr, ∃ i, e.act = .verify i false
  abort : s.timed.abort = true → ∃ e ∈ tr, e.act = .abort ∨ ∃ i, e.act = .verify i false
  ends : .finished ∈ s.timed.tasks → cfg.deadline ≤ s.timed.now ∨ s.stopped = true
  continues : ∀ i task, s.timed.tasks[i]? = some task → task ≠ .finished → ∃ a res,
    WriteAct.owner a = some i ∧ s.step cfg lib fresh config root a = some res
  tree : WriteTree t₀ root base s.tree
  written : ∀ e ∈ tr, ∀ i elapsed, e.act = .written i elapsed → ∃ job,
    e.pre.jobs[i]? = some job ∧ LiesBelow s.tree root base .file job.filePath

theorem writeState_start (hopens : Opens t₀ root base) (hempty : t₀.children base = ∅)
    (start : Nat) : WriteState cfg config t₀ root base
      (writeRunning cfg lib fresh config root start t₀).init where
  tree := writeTree_start hopens hempty
  errors := by
    intro e he err heq
    obtain rfl := List.eq_of_mem_replicate he
    cases heq
  size := ⟨by rw [writeRunning, measuring, List.length_map, List.length_replicate],
    List.length_replicate⟩
  turns := by
    intro i task job htask _
    obtain ⟨w, hw, rfl⟩ := List.mem_map.mp (List.mem_of_getElem? htask)
    exact List.eq_of_mem_replicate hw

theorem write_run (hopens : Opens t₀ root base) (hempty : t₀.children base = ∅) {start : Nat}
    {tr : WriteTrace H} (h : (writeRunning cfg lib fresh config root start t₀).Run
      (writeRunning cfg lib fresh config root start t₀).init tr s) :
    WriteRuns cfg lib fresh config t₀ root base tr s := by
  let P : WriteTrace H → WriteRun H → Prop := fun tr s =>
    WriteState cfg config t₀ root base s ∧
      (∀ e ∈ tr, ∀ r, e.out = some r → WriteRecorded config e.act r) ∧
      (∀ err, some err ∈ s.errors → ∃ e ∈ tr, ∃ i, e.act = .verify i false) ∧
      (s.timed.abort = true → ∃ e ∈ tr, e.act = .abort ∨ ∃ i, e.act = .verify i false) ∧
      ∀ e ∈ tr, ∀ i elapsed, e.act = .written i elapsed → ∃ job,
        e.pre.jobs[i]? = some job ∧ LiesBelow s.tree root base .file job.filePath
  have hP : P tr s := by
    refine h.history ⟨writeState_start hopens hempty start, nofun, fun err hmem => ?_, nofun,
      nofun⟩ ?_
    · cases List.eq_of_mem_replicate hmem
    · rintro tr s a s' out - ⟨hstate, hrecords, herrors, habort, hwritten⟩ hstep
      obtain ⟨hstate', heffect⟩ := hstate.step hstep
      have hlast : ∀ {p : Event (WriteRun H) WriteAct (Option OpRecord) → Prop},
          p ⟨s, a, out, s'⟩ → ∃ e ∈ tr ++ [⟨s, a, out, s'⟩], p e :=
        fun hp => ⟨_, List.mem_append_right _ (List.mem_singleton_self _), hp⟩
      have hbefore : ∀ {p : Event (WriteRun H) WriteAct (Option OpRecord) → Prop},
          (∃ e ∈ tr, p e) → ∃ e ∈ tr ++ [⟨s, a, out, s'⟩], p e :=
        fun ⟨e, he, hp⟩ => ⟨e, List.mem_append_left _ he, hp⟩
      refine ⟨hstate', fun e he => ?_, fun err hmem => ?_, fun hset => ?_, fun e he => ?_⟩
      · rcases List.mem_append.mp he with he | he
        · exact hrecords e he
        · rw [List.mem_singleton.mp he]
          exact heffect.record
      · rcases heffect.errors err hmem with hmem | hverify
        · exact hbefore (herrors err hmem)
        · exact hlast hverify
      · rcases heffect.abort hset with hset | hact
        · exact hbefore (habort hset)
        · exact hlast hact
      · intro i elapsed hact
        rcases List.mem_append.mp he with he | he
        · obtain ⟨job, hjob, names, hpath, hfile⟩ := hwritten e he i elapsed hact
          exact ⟨job, hjob, names, hpath, heffect.keeps _ _ hfile⟩
        · rw [List.mem_singleton.mp he] at hact ⊢
          obtain ⟨job, hjob, names, hpath, hfile⟩ := heffect.written i elapsed hact
          exact ⟨job, hjob, names, hpath, heffect.keeps _ _ hfile⟩
  obtain ⟨hstate, hrecords, herrors, habort, hwritten⟩ := hP
  refine ⟨hrecords, fun err hres => ?_, habort, fun hmem => ?_,
    fun i task htask hleft => hstate.continues htask hleft, hstate.tree, hwritten⟩
  · unfold writeResult at hres
    split at hres
    · cases hfirst : s.errors.findSome? id with
      | none =>
        rw [hfirst] at hres
        cases hres
      | some e =>
        rw [hfirst] at hres
        cases hres
        obtain ⟨e', he', heq⟩ := List.exists_of_findSome?_eq_some hfirst
        obtain rfl : e' = some err := heq
        exact ⟨hstate.errors _ he' err rfl, herrors err he'⟩
    · cases hres
  · obtain ⟨i, hi⟩ := List.mem_iff_getElem?.mp hmem
    obtain ⟨job, hjob⟩ := hstate.job hi
    exact MeasureCfg.quits_iff.mp (hstate.turns i _ job hi hjob)

end

end CvdBench.Worker
