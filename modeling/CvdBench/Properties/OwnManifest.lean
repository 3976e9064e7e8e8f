import CvdBench.Manifest.FileJob
import CvdBench.Properties.AcceptedSpecs
import CvdBench.Properties.ManifestRounds
import CvdBench.Properties.ScanExact
import CvdBench.Worker.RunnerBooks

/-!
Which files a workload gets. A job has one queue; a spec with one consumer fills it from
the manifest of that consumer. With two consumers both fetchers drain the same queue, and
the `dir_manifest` of the metadata workload is never read.
-/

set_option autoImplicit false

namespace CvdBench.Manifest

open Foundation Proto Master Worker

variable {σ α ε ρ : Consumer → Type} {W : (w : Consumer) → ItemTask (σ w) (α w) (ε w) (ρ w)}
  {concurrency : Consumer → Nat} {files : ManifestFiles} {capacity workers : Nat}
  {stored : BenchSpec} {spec : Spec.BenchSpec} {tr : FileJobTrace σ α ε} {s s' : FileJob σ ε}
  {act : FileJobAct α} {o : FileJobOut}

theorem runner_received {σ α ε ρ : Type} {W : ItemTask σ α ε ρ} {c : Nat} {s s' : Runner σ ε}
    {act : RunnerAct α} {o : RunnerOut ρ} (h : s.Move W c act s' o)
    (hact : act.isResponse = false) : o.received = [] := by
  cases h with
  | respond => cases hact
  | item i entry st act res => cases res <;> rfl
  | _ => rfl

namespace FileJob

def Answered (s : FileJob σ ε) (batch : List FileEntry) : Prop :=
  ∃ (d : Delivery) (i : Nat) (hasMore : Bool), s.delivery = some d ∧
    d.fetches[i]? = some (.answered batch hasMore)

inductive Move (W : (w : Consumer) → ItemTask (σ w) (α w) (ε w) (ρ w))
    (concurrency : Consumer → Nat) (files : ManifestFiles) (stored : BenchSpec) (s : FileJob σ ε) :
    FileJobAct α → FileJob σ ε → FileJobOut → Prop where
  | master (act : DeliveryAct) (start : ManifestStart) (d d' : Delivery) (o : DeliveryOut) :
      manifestStart stored = some start → s.delivery = some d →
      d.step (files.source start.path start.isDirManifest) start.loopFiles act = some (d', o) →
      (∀ n, act ≠ .fetch n) →
      s.Move W concurrency files stored (.master act) { s with delivery := some d' }
        (some ⟨d, act, o, d'⟩)
  | request (w : Consumer) (k : Nat) (seat : Seat (σ w) (ε w)) (start : ManifestStart)
      (d d' : Delivery) (o : DeliveryOut) : (s.seats w)[k]? = some seat →
      manifestStart stored = some start → s.delivery = some d →
      d.step (files.source start.path start.isDirManifest) start.loopFiles
        (.fetch fetchBatchSize) = some (d', o) →
      s.Move W concurrency files stored (.request w k)
        { ({ s with delivery := some d' } : FileJob σ ε).setSeat w k
            { seat with call := some s.callers.length } with
          callers := s.callers ++ [w] }
        (some ⟨d, .fetch fetchBatchSize, o, d'⟩)
  | seat (act : FileJobAct α) (w : Consumer) (k : Nat) (seat : Seat (σ w) (ε w))
      (call : Option Nat) (ract : RunnerAct (α w)) (r : Runner (σ w) (ε w)) (o : RunnerOut (ρ w)) :
      (s.seats w)[k]? = some seat → seat.runner.step (W w) (concurrency w) ract = some (r, o) →
      o.received = [] ∨ s.Answered o.received →
      s.Move W concurrency files stored act (s.setSeat w k ⟨r, call⟩) none

theorem masterStep_eq {act : DeliveryAct} (h : s.masterStep files stored act = some (s', o)) :
    ∃ start d d' out, manifestStart stored = some start ∧ s.delivery = some d ∧
      d.step (files.source start.path start.isDirManifest) start.loopFiles act = some (d', out) ∧
      s' = { s with delivery := some d' } ∧ o = some ⟨d, act, out, d'⟩ := by
  simp only [masterStep, Option.bind_eq_bind, Option.bind_eq_some_iff] at h
  obtain ⟨start, hstart, d, hd, ⟨d', out⟩, hstep, heq⟩ := h
  cases heq
  exact ⟨start, d, d', out, hstart, hd, hstep, rfl, rfl⟩

theorem seatStep_move {act : FileJobAct α} {w : Consumer} {k : Nat} {seat : Seat (σ w) (ε w)}
    {call : Option Nat} {ract : RunnerAct (α w)} (hk : (s.seats w)[k]? = some seat)
    (hreceived : ∀ r out, seat.runner.step (W w) (concurrency w) ract = some (r, out) →
      out.received = [] ∨ s.Answered out.received)
    (h : s.seatStep W concurrency w k seat call ract = some (s', o)) :
    s.Move W concurrency files stored act s' o := by
  simp only [seatStep, Option.map_eq_some_iff] at h
  obtain ⟨⟨r, out⟩, hstep, heq⟩ := h
  cases heq
  exact .seat act w k seat call ract r out hk hstep (hreceived r out hstep)

theorem step_move (h : s.step W concurrency files stored act = some (s', o)) :
    s.Move W concurrency files stored act s' o := by
  cases act with
  | master act =>
    cases act with
    | fetch n => cases h
    | _ =>
      obtain ⟨start, d, d', out, hstart, hd, hstep, rfl, rfl⟩ := masterStep_eq h
      exact .master _ start d d' out hstart hd hstep (by simp)
  | request w k =>
    simp only [step, Option.bind_eq_bind, Option.bind_eq_some_iff] at h
    obtain ⟨seat, hk, h⟩ := h
    unfold request at h
    split at h
    · simp only [Option.map_eq_some_iff] at h
      obtain ⟨⟨s₁, o₁⟩, hmaster, heq⟩ := h
      obtain ⟨start, d, d', out, hstart, hd, hstep, rfl, rfl⟩ := masterStep_eq hmaster
      cases heq
      exact .request w k seat start d d' out hk hstart hd hstep
    · cases h
  | answer w k =>
    simp only [step, Option.bind_eq_bind, Option.bind_eq_some_iff] at h
    obtain ⟨seat, hk, h⟩ := h
    simp only [answer, Option.bind_eq_bind, Option.bind_eq_some_iff] at h
    obtain ⟨i, _, d, hd, h⟩ := h
    split at h
    · next batch hasMore hi =>
      refine seatStep_move hk ?_ h
      intro r out hstep
      right
      cases Runner.step_move hstep with
      | respond res hf => exact ⟨d, i, hasMore, hd, hi⟩
    · cases h
  | turnAway w k cancelled =>
    simp only [step, Option.bind_eq_bind, Option.bind_eq_some_iff] at h
    obtain ⟨seat, hk, h⟩ := h
    unfold turnAway at h
    split at h
    · cases h
    · refine seatStep_move hk ?_ h
      intro r out hstep
      left
      cases Runner.step_move hstep with
      | respond res hf => cases cancelled <;> rfl
  | lose w k status =>
    simp only [step, Option.bind_eq_bind, Option.bind_eq_some_iff] at h
    obtain ⟨seat, hk, h⟩ := h
    refine seatStep_move hk ?_ h
    intro r out hstep
    left
    cases Runner.step_move hstep with
    | retry err hf => rfl
  | runner w k act =>
    simp only [step, Option.bind_eq_bind, Option.bind_eq_some_iff] at h
    obtain ⟨seat, hk, h⟩ := h
    split at h
    · cases h
    · next hact =>
      refine seatStep_move hk ?_ h
      intro r out hstep
      exact .inl (runner_received (Runner.step_move hstep) (by simpa using hact))

end FileJob

/-- Only consumers of the spec have seats and make calls. -/
structure Peopled (spec : Spec.BenchSpec) (tr : FileJobTrace σ α ε) (s : FileJob σ ε) : Prop where
  seats : ∀ w, w.runs spec = false → s.seats w = []
  callers : ∀ w ∈ s.callers, w.runs spec = true
  taken : ∀ w, w.runs spec = false → takenBy w tr = []

theorem FileJob.setSeat_nil {w v : Consumer} {k : Nat} {seat : Seat (σ w) (ε w)}
    (h : s.seats v = []) : (s.setSeat w k seat).seats v = [] := by
  by_cases hv : v = w
  · subst hv
    simp [FileJob.setSeat, h]
  · simpa [FileJob.setSeat, hv] using h

theorem Event.takenBy_mem {w : Consumer} {e : Event (FileJob σ ε) (FileJobAct α) FileJobOut}
    {file : FileEntry} (h : file ∈ Event.takenBy w e) :
    w ∈ e.pre.callers ∧ ∃ d, e.out = some d ∧ file ∈ d.out.taken := by
  unfold Event.takenBy at h
  split at h
  · next d i out d' hout =>
    split at h
    · next hi => exact ⟨List.mem_of_getElem? hi, _, hout, h⟩
    · cases h
  · cases h

theorem Peopled.init : Peopled spec ([] : FileJobTrace σ α ε)
    (.init files capacity workers stored spec) where
  seats w hw := by simp [FileJob.init, hw]
  callers w hw := by cases hw
  taken w _ := rfl

theorem Peopled.move (h : Peopled spec tr s) (hmove : s.Move W concurrency files stored act s' o) :
    Peopled spec (tr ++ [⟨s, act, o, s'⟩]) s' := by
  have htaken : ∀ w, w.runs spec = false → takenBy w (tr ++ [⟨s, act, o, s'⟩]) = [] := by
    intro w hw
    rw [takenBy_concat, h.taken w hw, List.nil_append, List.eq_nil_iff_forall_not_mem]
    intro file hfile
    rw [h.callers w (Event.takenBy_mem hfile).1] at hw
    cases hw
  cases hmove with
  | master => exact ⟨h.seats, h.callers, htaken⟩
  | request w k seat start d d' out hk =>
    refine ⟨fun v hv => FileJob.setSeat_nil (h.seats v hv), ?_, htaken⟩
    intro v hv
    rcases List.mem_append.mp hv with hold | hnew
    · exact h.callers v hold
    · rw [List.mem_singleton.mp hnew]
      cases hruns : w.runs spec with
      | true => rfl
      | false =>
        rw [h.seats w hruns] at hk
        cases hk
  | seat act w k seat call ract r out hk =>
    exact ⟨fun v hv => FileJob.setSeat_nil (h.seats v hv), h.callers, htaken⟩

def startedSource (files : ManifestFiles) (start : ManifestStart) : Source :=
  files.source start.path start.isDirManifest

/-- The reader, the queue and the calls run as in `delivery`, and everything that reaches a
runner comes from the manifest that is read. -/
structure Supplied (files : ManifestFiles) (capacity : Nat) (start : ManifestStart)
    (tr : FileJobTrace σ α ε) (s : FileJob σ ε) (d : Delivery) : Prop where
  current : s.delivery = some d
  run : (delivery (startedSource files start) start.loopFiles capacity).Run
    (.init (startedSource files start) capacity) (deliveryTrace tr) d
  numbered : s.callers.length = d.fetches.length
  seats : ∀ w, ∀ seat ∈ s.seats w,
    seat.runner.Within (· ∈ (startedSource files start).denoted)
  taken : ∀ w, ∀ file ∈ takenBy w tr, file ∈ (startedSource files start).denoted

theorem Supplied.init {start : ManifestStart} (hstart : manifestStart stored = some start) :
    Supplied files capacity start ([] : FileJobTrace σ α ε)
      (.init files capacity workers stored spec) (.init (startedSource files start) capacity) where
  current := by simp [FileJob.init, hstart, startedSource]
  run := .nil _
  numbered := rfl
  seats w seat hseat := by
    simp only [FileJob.init] at hseat
    split at hseat
    · rw [List.eq_of_mem_replicate hseat]
      exact .init
    · cases hseat
  taken w file hfile := by cases hfile

theorem Delivery.Move.calls {src : Source} {loopFiles : Bool} {d d' : Delivery} {dact : DeliveryAct}
    {out : DeliveryOut} (h : d.Move src loopFiles dact d' out) :
    d'.fetches.length = d.fetches.length + (if dact matches .fetch _ then 1 else 0) := by
  cases h <;> simp

theorem Supplied.deliver {start : ManifestStart} {d d' : Delivery} {dact : DeliveryAct}
    {out : DeliveryOut} (h : Supplied files capacity start tr s d)
    (hstep : d.step (startedSource files start) start.loopFiles dact = some (d', out))
    (act : FileJobAct α) (s' : FileJob σ ε) :
    (delivery (startedSource files start) start.loopFiles capacity).Run
        (.init (startedSource files start) capacity)
        (deliveryTrace (tr ++ [⟨s, act, some ⟨d, dact, out, d'⟩, s'⟩])) d' ∧
      ∀ w, ∀ file ∈ takenBy w (tr ++ [⟨s, act, some ⟨d, dact, out, d'⟩, s'⟩]),
        file ∈ (startedSource files start).denoted := by
  constructor
  · rw [deliveryTrace_concat]
    exact h.run.snoc hstep
  · intro w file hfile
    rw [takenBy_concat] at hfile
    rcases List.mem_append.mp hfile with hold | hnew
    · exact h.taken w file hold
    · obtain ⟨_, e, he, hfile⟩ := Event.takenBy_mem hnew
      obtain rfl := Option.some.inj he
      exact ((Delivery.step_move hstep).within (Run.within h.run)).2 file hfile

theorem FileJob.forall_setSeat {w : Consumer} {k : Nat} {seat : Seat (σ w) (ε w)}
    {P : (v : Consumer) → Seat (σ v) (ε v) → Prop} (h : ∀ v, ∀ t ∈ s.seats v, P v t)
    (hseat : P w seat) : ∀ v, ∀ t ∈ (s.setSeat w k seat).seats v, P v t := by
  intro v
  by_cases hv : v = w
  · subst hv
    simp only [FileJob.setSeat, Function.update_self]
    exact Pool.forall_set (h v) hseat
  · simpa [FileJob.setSeat, hv] using h v

theorem Supplied.move {start : ManifestStart} {d : Delivery}
    (hstart : manifestStart stored = some start) (h : Supplied files capacity start tr s d)
    (hmove : s.Move W concurrency files stored act s' o) :
    ∃ d', Supplied files capacity start (tr ++ [⟨s, act, o, s'⟩]) s' d' := by
  cases hmove with
  | master dact start' d₀ d' out hstart' hd hstep hnot =>
    obtain rfl := Option.some.inj (hstart.symm.trans hstart')
    obtain rfl := Option.some.inj (h.current.symm.trans hd)
    obtain ⟨hrun, htaken⟩ := h.deliver hstep (.master dact) { s with delivery := some d' }
    refine ⟨d', rfl, hrun, ?_, h.seats, htaken⟩
    have hcalls := (Delivery.step_move hstep).calls
    cases dact with
    | fetch n => exact absurd rfl (hnot n)
    | _ => exact h.numbered.trans hcalls.symm
  | request w k seat start' d₀ d' out hk hstart' hd hstep =>
    obtain rfl := Option.some.inj (hstart.symm.trans hstart')
    obtain rfl := Option.some.inj (h.current.symm.trans hd)
    obtain ⟨hrun, htaken⟩ := h.deliver hstep (.request w k) _
    refine ⟨d', rfl, hrun, ?_, ?_, htaken⟩
    · have hcalls := (Delivery.step_move hstep).calls
      simp only [List.length_append, List.length_singleton, h.numbered, hcalls]
      rfl
    · exact FileJob.forall_setSeat h.seats (h.seats w seat (List.mem_of_getElem? hk))
  | seat act w k seat call ract r out hk hstep hreceived =>
    refine ⟨d, h.current, ?_, h.numbered, ?_, ?_⟩
    · rw [deliveryTrace_concat]
      simpa using h.run
    · refine FileJob.forall_setSeat h.seats ?_
      refine (Runner.step_move hstep).within ?_ (h.seats w seat (List.mem_of_getElem? hk))
      intro entry hentry
      rcases hreceived with hnil | ⟨d₀, i, hasMore, hd, hi⟩
      · rw [hnil] at hentry
        cases hentry
      · obtain rfl := Option.some.inj (h.current.symm.trans hd)
        exact (Run.within h.run).fetches _ (List.mem_of_getElem? hi) _ rfl entry hentry
    · intro v file hfile
      rw [takenBy_concat] at hfile
      rcases List.mem_append.mp hfile with hold | hnew
      · exact h.taken v file hold
      · obtain ⟨_, e, he, _⟩ := Event.takenBy_mem hnew
        cases he

section

variable (hrun : (fileJob W concurrency files capacity workers stored spec).Run
  (.init files capacity workers stored spec) tr s)

include hrun

theorem peopled_run : Peopled spec tr s := by
  refine hrun.history .init ?_
  intro tr s act s' o _ hs hstep
  exact hs.move (FileJob.step_move hstep)

theorem supplied_run {start : ManifestStart} (hstart : manifestStart stored = some start) :
    ∃ d, Supplied files capacity start tr s d := by
  refine hrun.history (P := fun tr s => ∃ d, Supplied files capacity start tr s d)
    ⟨_, .init hstart⟩ ?_
  intro tr s act s' o _ hs hstep
  obtain ⟨d, hs⟩ := hs
  exact hs.move hstart (FileJob.step_move hstep)

theorem takenBy_alone {w : Consumer} (halone : ∀ v : Consumer, v.runs spec = true → v = w)
    {start : ManifestStart} (hstart : manifestStart stored = some start) :
    takenBy w tr = drainedEntries (deliveryTrace tr) := by
  refine hrun.history (P := fun tr _ => takenBy w tr = drainedEntries (deliveryTrace tr)) rfl ?_
  intro tr s act s' o hpre hs hstep
  have hmove := FileJob.step_move hstep
  obtain ⟨d, hsupplied⟩ := supplied_run hpre hstart
  have hcallers := (peopled_run hpre).callers
  rw [takenBy_concat, deliveryTrace_concat, hs]
  have hevent : Event.takenBy w ⟨s, act, o, s'⟩ = drainedEntries o.toList := by
    cases hmove with
    | master dact start' d₀ d' out hstart' hd hdstep _ =>
      obtain rfl := Option.some.inj (hsupplied.current.symm.trans hd)
      cases dact with
      | resume i =>
        have hlt : i < s.callers.length := by
          rw [hsupplied.numbered]
          cases Delivery.step_move hdstep with
          | drain _ _ _ hi | addPermits _ _ hi | loadDone _ hi | isEmpty _ hi =>
            exact (List.getElem?_eq_some_iff.mp hi).1
        have hcaller : s.callers[i]? = some w := by
          rw [List.getElem?_eq_getElem hlt,
            halone _ (hcallers _ (List.getElem_mem hlt))]
        simp [Event.takenBy, drainedEntries, hcaller]
      | _ =>
        cases Delivery.step_move hdstep with
        | _ => simp [Event.takenBy, drainedEntries, DeliveryOut.taken]
    | request _ _ _ _ _ _ _ _ _ _ hdstep =>
      cases Delivery.step_move hdstep
      simp [Event.takenBy, drainedEntries, DeliveryOut.taken]
    | seat => rfl
  rw [hevent, drainedEntries, drainedEntries, drainedEntries, List.flatMap_append]

end

/-- At most one workload of the spec gets its files with FetchFileBatch. -/
def OneConsumer (spec : Spec.BenchSpec) : Prop :=
  spec.read = none ∨ spec.metadata.bind (·.dirManifest) = none

theorem OneConsumer.alone {w v : Consumer} (h : OneConsumer spec) (hw : w.runs spec = true)
    (hv : v.runs spec = true) : v = w := by
  cases w with
  | read =>
    cases v with
    | read => rfl
    | stat => rcases h with hnone | hnone <;> simp [Consumer.runs, hnone] at hw hv
  | stat =>
    cases v with
    | read => rcases h with hnone | hnone <;> simp [Consumer.runs, hnone] at hw hv
    | stat => rfl

theorem manifestStart_read (h : Spec.BenchSpec.tryFromProto stored = .ok spec)
    (hw : Consumer.read.runs spec = true) :
    ∃ start, manifestStart stored = some start ∧
      Consumer.read.source? files spec = some (startedSource files start) := by
  obtain ⟨read, hread⟩ := Option.isSome_iff_exists.mp hw
  have hparsed := Spec.BenchSpec.tryFromProto_read h
  rw [hread] at hparsed
  obtain ⟨proto, hproto, hconfig⟩ := Spec.traverseOption_some.mp hparsed
  simp only [Spec.readFromProto, Spec.exceptBind_ok] at hconfig
  obtain ⟨source, hsource, _, _, _, _, _, _, hconfig⟩ := hconfig
  obtain rfl := Except.ok.inj hconfig
  unfold Spec.readSourceFromProto at hsource
  simp only [manifestStart, hproto, Consumer.source?, hread]
  split at hsource
  · cases hsource
  · cases hsource
  · next hfile hdir =>
    cases hsource
    exact ⟨⟨proto.fileManifest, false, proto.loopFiles⟩, by simp [hfile], rfl⟩
  · next hfile hdir =>
    cases hsource
    exact ⟨⟨proto.dirManifest, true, proto.loopFiles⟩, by simp [hfile, hdir], rfl⟩

theorem manifestStart_stat (h : Spec.BenchSpec.tryFromProto stored = .ok spec)
    (hnone : spec.read = none) (hw : Consumer.stat.runs spec = true) :
    ∃ start, manifestStart stored = some start ∧
      Consumer.stat.source? files spec = some (startedSource files start) := by
  have hread := Spec.BenchSpec.tryFromProto_read h
  rw [hnone] at hread
  have hstored := Spec.traverseOption_none.mp hread
  obtain ⟨path, hpath⟩ := Option.isSome_iff_exists.mp hw
  obtain ⟨md, hmd, hdir⟩ := Option.bind_eq_some_iff.mp hpath
  have hparsed := Spec.BenchSpec.tryFromProto_metadata h
  rw [hmd] at hparsed
  obtain ⟨proto, hproto, hconfig⟩ := Spec.traverseOption_some.mp hparsed
  simp only [Spec.metadataFromProto, Spec.exceptBind_ok] at hconfig
  obtain ⟨_, _, _, _, _, _, _, _, _, _, _, _, _, _, _, _, _, _, hconfig⟩ := hconfig
  obtain rfl := Except.ok.inj hconfig
  simp only [manifestStart, hstored, hproto, Consumer.source?, hpath]
  split at hdir
  · cases hdir
  · next hset =>
    cases hdir
    exact ⟨⟨proto.dirManifest, true, false⟩, by simp [hset], rfl⟩

theorem manifestStart_consumer (h : Spec.BenchSpec.tryFromProto stored = .ok spec)
    (hone : OneConsumer spec) {w : Consumer} (hw : w.runs spec = true) :
    ∃ start, manifestStart stored = some start ∧
      w.source? files spec = some (startedSource files start) := by
  cases w with
  | read => exact manifestStart_read h hw
  | stat =>
    refine manifestStart_stat h ?_ hw
    rcases hone with hnone | hnone
    · exact hnone
    · simp [Consumer.runs, hnone] at hw

/-- What each workload of the spec has to do with its manifest, after the run `tr` into the
state `s`. -/
structure OwnManifests (files : ManifestFiles) (spec : Spec.BenchSpec) (tr : FileJobTrace σ α ε)
    (s : FileJob σ ε) : Prop where
  consumed : ∀ (w : Consumer) (k i : Nat) seat entry st, (s.seats w)[k]? = some seat →
    seat.runner.tasks[i]? = some (.item entry st) → entry ∈ w.denoted files spec
  fetched : ∀ w : Consumer, ∀ entry ∈ takenBy w tr, entry ∈ w.denoted files spec
  available : ∀ w src, w.source? files spec = some src → ∃ d, s.delivery = some d ∧
    takenBy w tr ++ d.cell.queue.inner = pushedEntries (deliveryTrace tr) ∧
      ((∀ e ∈ deliveryTrace tr, e.pre.Uncut src e.act) → d.reader.isPassed = true →
        ∃ k : Nat, (pushedEntries (deliveryTrace tr) : Multiset FileEntry) =
          (k + 1) • src.denoted)

theorem Consumer.source?_isSome (w : Consumer) :
    (w.source? files spec).isSome = w.runs spec := by
  cases w with
  | read => exact Option.isSome_map
  | stat => exact Option.isSome_map

theorem Consumer.source?_redact (w : Consumer) :
    w.source? files spec.redact = w.source? files spec := by
  cases w with
  | read => simp [Consumer.source?, Spec.BenchSpec.redact, Spec.ReadConfig.redact, Option.map_map,
      Function.comp_def]
  | stat => rfl

theorem OwnManifests.redact (h : OwnManifests files spec.redact tr s) :
    OwnManifests files spec tr s := by
  obtain ⟨hconsumed, hfetched, havailable⟩ := h
  simp only [Consumer.denoted, Consumer.source?_redact] at hconsumed hfetched havailable
  exact ⟨hconsumed, hfetched, havailable⟩

section

variable (hrun : (fileJob W concurrency files capacity workers stored spec).Run
  (.init files capacity workers stored spec) tr s)

include hrun

theorem OwnManifests.of_alone {start : ManifestStart} (hstart : manifestStart stored = some start)
    {w : Consumer}
    (hsource : w.source? files spec = some (startedSource files start))
    (halone : ∀ v : Consumer, v.runs spec = true → v = w) : OwnManifests files spec tr s := by
  obtain ⟨d, hsupplied⟩ := supplied_run hrun hstart
  have hpeopled := peopled_run hrun
  have hdenoted : w.denoted files spec = (startedSource files start).denoted := by
    rw [Consumer.denoted, hsource]
    rfl
  constructor
  · intro v k i seat entry st hk hi
    have hseat := List.mem_of_getElem? hk
    cases hv : v.runs spec with
    | false =>
      rw [hpeopled.seats v hv] at hseat
      cases hseat
    | true =>
      obtain rfl := halone v hv
      rw [hdenoted]
      refine (hsupplied.seats v seat hseat).tasks _ (List.mem_of_getElem? hi) entry ?_
      exact Multiset.mem_singleton_self entry
  · intro v entry hentry
    cases hv : v.runs spec with
    | false =>
      rw [hpeopled.taken v hv] at hentry
      cases hentry
    | true =>
      obtain rfl := halone v hv
      rw [hdenoted]
      exact hsupplied.taken v entry hentry
  · intro v src hsrc
    have hv : v.runs spec = true := by
      exact (v.source?_isSome).symm.trans (Option.isSome_iff_exists.mpr ⟨src, hsrc⟩)
    obtain rfl := halone v hv
    obtain rfl := Option.some.inj (hsource.symm.trans hsrc)
    refine ⟨d, hsupplied.current, ?_, ?_⟩
    · rw [takenBy_alone hrun halone hstart]
      exact Run.content hsupplied.run
    · intro huncut hpassed
      obtain ⟨k, out, hpushed, hbooks⟩ := Run.rounds hsupplied.run huncut
      refine ⟨k, ?_⟩
      rw [hpushed, hbooks.passed hpassed, succ_nsmul]

theorem OwnManifests.nobody (hnobody : ∀ v : Consumer, v.runs spec = false) :
    OwnManifests files spec tr s := by
  have hpeopled := peopled_run hrun
  constructor
  · intro v k i seat entry st hk
    rw [hpeopled.seats v (hnobody v)] at hk
    cases hk
  · intro v entry hentry
    rw [hpeopled.taken v (hnobody v)] at hentry
    cases hentry
  · intro v src hsrc
    have hv : v.runs spec = true :=
      (v.source?_isSome).symm.trans (Option.isSome_iff_exists.mpr ⟨src, hsrc⟩)
    rw [hnobody v] at hv
    cases hv

end

/-- In every run of a job that CreateJob accepted, and whose spec has at most one workload
that gets its files from a manifest, every workload sees its own manifest only and all of it. -/
theorem own_manifest_only {protoSpec : BenchSpec}
    (hparse : Spec.BenchSpec.tryFromProto protoSpec = .ok spec)
    (hvalid : Spec.validate spec {} = .ok ()) (hone : OneConsumer spec)
    (hrun : (fileJob W concurrency files capacity workers (storedSpec protoSpec) spec.redact).Run
      (.init files capacity workers (storedSpec protoSpec) spec.redact) tr s) :
    OwnManifests files spec tr s := by
  have hstored := (Worker.parseAndValidate_ok.mp (storedSpec_readBack hparse hvalid)).1
  have hone' : OneConsumer spec.redact := by
    rcases hone with hread | hmd
    · exact .inl (by simp [Spec.BenchSpec.redact, hread])
    · exact .inr hmd
  refine OwnManifests.redact ?_
  by_cases hsome : ∃ w : Consumer, w.runs spec.redact = true
  · obtain ⟨w, hw⟩ := hsome
    obtain ⟨start, hstart, hsource⟩ := manifestStart_consumer hstored hone' hw
    exact OwnManifests.of_alone hrun hstart hsource fun v hv => hone'.alone hw hv
  · exact OwnManifests.nobody hrun fun v => by simpa using fun hv => hsome ⟨v, hv⟩

theorem reader_serves_read {protoSpec : BenchSpec}
    (hparse : Spec.BenchSpec.tryFromProto protoSpec = .ok spec)
    (hvalid : Spec.validate spec {} = .ok ()) (hread : spec.read ≠ none)
    (hrun : (fileJob W concurrency files capacity workers (storedSpec protoSpec) spec.redact).Run
      (.init files capacity workers (storedSpec protoSpec) spec.redact) tr s) :
    ∀ w : Consumer, ∀ entry ∈ takenBy w tr, entry ∈ Consumer.read.denoted files spec := by
  have hstored := (Worker.parseAndValidate_ok.mp (storedSpec_readBack hparse hvalid)).1
  have hruns : Consumer.read.runs spec.redact = true := by
    rw [Consumer.runs, Spec.BenchSpec.redact, Option.isSome_map]
    exact Option.isSome_iff_ne_none.mpr hread
  obtain ⟨start, hstart, hsource⟩ : ∃ start, manifestStart (storedSpec protoSpec) = some start ∧
      Consumer.read.source? files spec.redact = some (startedSource files start) :=
    manifestStart_read hstored hruns
  obtain ⟨d, hsupplied⟩ := supplied_run hrun hstart
  intro w entry hentry
  rw [Consumer.denoted, ← Consumer.source?_redact, hsource]
  exact hsupplied.taken w entry hentry

namespace Small

def csvSpec : BenchSpec :=
  { Master.Small.spec 1 with
    read := some
      { concurrency := 1, fileManifest := "/data/files.csv", dirManifest := "", thinkTime := ""
        rateLimit := "", loopFiles := false, s3ConsistencyCheck := none }
    write := none }

def mixedSpec : BenchSpec :=
  { csvSpec with
    metadata := some
      { concurrency := 1, dir := "", dirManifest := "/data/dirs.txt", ops := ["stat"]
        readOnly := false, readOnlyScanLimit := 0, depth := 0, width := 0, filesPerDir := 0
        layoutConcurrency := 0, thinkTime := "", rateLimit := "" } }

def manifestFiles : ManifestFiles where
  csv _ := csvEnv
  dir _ := treeEnv
  scanConcurrency := 1

def holdTask (_ : Consumer) : ItemTask Unit Unit Unit Unit := ⟨fun _ => (), fun _ _ _ _ => none⟩

def fetchedFor (w : Consumer) : List (FileJobAct fun _ => Unit) :=
  (reads 9).map .master ++ [.runner w 0 .main] ++
    List.replicate 2 (.runner w 0 (.fetcher .run)) ++
    [.request w 0, .master (.resume 0), .master (.resume 0), .answer w 0] ++
    List.replicate 2 (.runner w 0 (.fetcher .run)) ++
    List.replicate 3 (.runner w 0 (.task 0 .run))

def csvSpecRead : Spec.BenchSpec where
  fsName := "fs"
  ioMode := .seq
  ioAligned := true
  directIo := false
  blockSize := 4096
  duration := 60000000000
  warmup := 0
  targetWorkers := 1
  read := some
    { concurrency := 1, source := .fileManifest "/data/files.csv", thinkTime := none
      rateLimit := none, s3ConsistencyCheck := none, loopFiles := false }
  write := none
  metadata := none

def mixedSpecRead : Spec.BenchSpec :=
  { csvSpecRead with
    metadata := some
      { concurrency := 1, dir := "", dirManifest := some "/data/dirs.txt", ops := [.stat]
        readOnly := false, readOnlyScanLimit := 0, depth := 0, width := 0, filesPerDir := 0
        layoutConcurrency := 1, thinkTime := none, rateLimit := none } }

def job (protoSpec : BenchSpec) (spec : Spec.BenchSpec) :
    Machine (FileJob (fun _ => Unit) fun _ => Unit) (FileJobAct fun _ => Unit) FileJobOut :=
  fileJob holdTask (fun _ => 1) manifestFiles 4 1 (storedSpec protoSpec) spec.redact

end Small

theorem own_manifest_only_small :
    OwnManifests Small.manifestFiles Small.csvSpecRead
      ((Small.job Small.csvSpec Small.csvSpecRead).trace
        (Small.job Small.csvSpec Small.csvSpecRead).init (Small.fetchedFor .read))
      ((Small.job Small.csvSpec Small.csvSpecRead).play
        (Small.job Small.csvSpec Small.csvSpecRead).init (Small.fetchedFor .read)) := by
  have hparse : Spec.BenchSpec.tryFromProto Small.csvSpec = .ok Small.csvSpecRead := rfl
  exact own_manifest_only (W := Small.holdTask) hparse rfl (.inr rfl)
    ((Small.job Small.csvSpec Small.csvSpecRead).run_play _ (Small.fetchedFor .read))

/-- The spec is accepted, and its metadata workload works on an entry of the CSV. -/
theorem stat_takes_read_entry :
    Spec.BenchSpec.tryFromProto Small.mixedSpec = .ok Small.mixedSpecRead ∧
      Spec.validate Small.mixedSpecRead {} = .ok () ∧
      ¬ OwnManifests Small.manifestFiles Small.mixedSpecRead
        ((Small.job Small.mixedSpec Small.mixedSpecRead).trace
          (Small.job Small.mixedSpec Small.mixedSpecRead).init (Small.fetchedFor .stat))
        ((Small.job Small.mixedSpec Small.mixedSpecRead).play
          (Small.job Small.mixedSpec Small.mixedSpecRead).init (Small.fetchedFor .stat)) := by
  refine ⟨rfl, rfl, fun hown => ?_⟩
  have hentry := hown.consumed .stat 0 0 _ ⟨"a", "k1"⟩ () rfl rfl
  revert hentry
  decide

end CvdBench.Manifest
