import CvdBench.Properties.WriteRuns

/-!
A write job from its root to its cleanup, on one file tree.
-/

set_option autoImplicit false

namespace CvdBench.Worker

open Foundation Spec Metrics

theorem createDirAll_of_makeRoot {t tree : FileTree EntryName} {root : List Char}
    (h : makeRoot t root = .ok tree) : t.createDirAll (pathComps root) = .ok tree := by
  unfold makeRoot at h
  split at h
  · cases h
  · next hcall => rwa [Except.ok.inj h] at hcall

/-- On a root of its own the workload never fails but for a hash that is not the expected one:
whatever paths its tasks draw, and however their calls take turns. -/
theorem write_workload {t : FileTree EntryName} {root : List Char} (hfresh : Fresh t root)
    {H : Type} (cfg : MeasureCfg) (lib : HdrRecorder H) (fresh : PerOpMetrics H)
    (config : WriteConfig) (start : Nat) :
    ∃ tree base, t.createDirAll (pathComps root) = .ok tree ∧ ∀ tr s,
      (writeRunning cfg lib fresh config root start tree).Run
        (writeRunning cfg lib fresh config root start tree).init tr s →
      WriteRuns cfg lib fresh config tree root base tr s := by
  obtain ⟨tree, base, hmade, hopens, hempty⟩ := makeRoot_fresh hfresh
  exact ⟨tree, base, createDirAll_of_makeRoot hmade, fun tr s hrun => write_run hopens hempty hrun⟩

namespace Small

def writeConfig : WriteConfig :=
  { concurrency := 2, dir := "d", size := .range 1 4096 .uniform, fsync := false, cleanup := true
    thinkTime := none, rateLimit := none, verifyAfterWrite := true }

def writeSpec : BenchSpec :=
  { builtSpec with
    metadata := none
    write := some writeConfig }

def writeTree : FileTree EntryName :=
  match mounted.createDirAll (pathComps jobRoot) with
  | .ok tree => tree
  | .error _ => mounted

def verified : MeasureCfg := ⟨0, 60000000, "/m", true, false, false⟩

abbrev filling : Machine (WriteRun Unit) WriteAct (Option OpRecord) :=
  writeRunning verified recorder fresh writeConfig jobRoot 0 writeTree

def sameFile : List WriteAct :=
  [.run 0, .run 1, .size 0 7, .size 1 9, .draw 0 [1, 2] 3, .draw 1 [1, 2] 3] ++
    (List.replicate 4 [WriteAct.mkdir 0, .mkdir 1]).flatten ++
    [.mkdir 1, .mkdir 1, .mkdirEnd 0, .mkdirEnd 1, .run 1, .run 0, .open 1, .open 0, .written 0 5,
      .verify 0 true, .written 1 8, .verify 1 false]

end Small

theorem write_workload_small :
    (Small.filling.trace Small.filling.init Small.sameFile).length = 26 ∧
      ∃ base, WriteRuns Small.verified Small.recorder Small.fresh Small.writeConfig Small.writeTree
        Small.jobRoot base (Small.filling.trace Small.filling.init Small.sameFile)
        (Small.filling.play Small.filling.init Small.sameFile) := by
  obtain ⟨tree, base, hmade, hall⟩ := write_workload Small.mounted_missing.fresh Small.verified
    Small.recorder Small.fresh Small.writeConfig 0
  have htree : Small.writeTree = tree := by rw [Small.writeTree, hmade]
  subst htree
  exact ⟨by decide +kernel, base, hall _ _ (Small.filling.run_play _ _)⟩

/-- The whole life of a write job leaves the tree as it was, but for the directories above its
root: the root is made, the tasks run as they please, and either cleanup takes out all that
lies there. -/
theorem write_job_cleanup {spec : BenchSpec} {ctx : ValidationContext} {config : WriteConfig}
    (hvalid : validate spec ctx = .ok ()) (hwrite : spec.write = some config)
    {mountPoint workerId jobId : String} (hmount : mountPoint ≠ "")
    (hworker : validateWorkerId workerId = .ok ()) (hjob : IsUuid jobId)
    {t : FileTree EntryName} {above : List (Comp EntryName)} {base : List EntryName}
    {first : EntryName} {names : List EntryName}
    (hmissing : MissingFrom t (workRoot mountPoint config.dir workerId jobId) above base first
      names)
    {H : Type} (cfg : MeasureCfg) (lib : HdrRecorder H) (fresh : PerOpMetrics H)
    (order : List Char → HashOrder EntryName) (begin : Nat) :
    let root := workRoot mountPoint config.dir workerId jobId
    ∃ tree, t.createDirAll (pathComps root) = .ok tree ∧ ∀ s,
      (writeRunning cfg lib fresh config root begin tree).Reachable s →
      ∃ t', (∀ start, start = cleanupRoot ∨ start = bestEffortCleanup →
          Leaves (fun fuel => cleanupIn order start fuel s.tree mountPoint.toList root) t') ∧
        ∀ l, t'.get? l = if base ++ first :: names <+: l then none
          else if base ++ [first] <+: l ∧ l <+: base ++ first :: names then some .dir
          else t.get? l := by
  intro root
  obtain ⟨hj, hjslash, hjdot, hjdots⟩ := hjob.name
  obtain ⟨hw, hwslash⟩ := validateWorkerId_ok hworker
  let job : EntryName := ⟨jobId.toList, hj, hjslash, hjdot, hjdots⟩
  have hstarts : pathStartsWith root mountPoint.toList = true :=
    workRoot_startsWith hmount (validateRelative_ok (validate_writeDir hvalid hwrite)).2.1
      (noSlash_head hwslash) (noSlash_head hjslash)
  have hparent : joinPath (joinPath mountPoint.toList config.dir.toList) workerId.toList ≠ [] :=
    joinPath_ne_nil _ (joinPath_ne_nil _ (by simpa using hmount))
  obtain ⟨tree, hmade, hopens, hempty, hget⟩ := hmissing.make
  refine ⟨tree, createDirAll_of_makeRoot hmade, fun s ⟨tr, hrun⟩ => ?_⟩
  have hruns := write_run hopens hempty hrun
  refine MissingFrom.cleanup job hmissing hparent hruns.tree.opens.node (fun l hl => ?_)
    hstarts order
  rw [hruns.tree.outside l hl, hget]

theorem write_job_cleanup_small : ∃ t',
    Leaves (fun fuel => cleanupRootIn Small.byName fuel
      (Small.filling.play Small.filling.init Small.sameFile).tree "/m".toList Small.jobRoot) t' ∧
    t'.get? [Small.m, Small.d, Small.node, Small.jobName] = none ∧
    t'.get? [Small.m, Small.d, Small.node] = some .dir := by
  obtain ⟨tree, hmade, hall⟩ :=
    write_job_cleanup (by decide : validate Small.writeSpec {} = .ok ()) rfl
      (by decide : "/m" ≠ "") (by decide : validateWorkerId "node12-3941-7af2c910" = .ok ())
      (by decide : IsUuid Small.otherUuid) Small.mounted_missing Small.verified Small.recorder
      Small.fresh Small.byName 0
  have htree : Small.writeTree = tree := by
    have hroot : Small.mounted.createDirAll (pathComps Small.jobRoot) = .ok tree := hmade
    rw [Small.writeTree, hroot]
  subst htree
  obtain ⟨t', hleaves, hget⟩ := hall _ (Small.filling.reachable_play Small.sameFile)
  refine ⟨t', hleaves _ (.inl rfl), ?_, ?_⟩
  · rw [hget]
    decide
  · rw [hget]
    decide

end CvdBench.Worker
