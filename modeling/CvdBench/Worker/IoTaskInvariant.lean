import CvdBench.Worker.IoTask
import CvdBench.Worker.RunnerBooks

/-!
The work on one entry never blocks for good, unless a direct read is given up with more than
three items to come. If no flag is set it ends with all of the file.
-/

set_option autoImplicit false

namespace CvdBench.Worker

open Foundation Proto

/-- Dropping the receiver of a direct read leaves at most three items to come. -/
def ReadState.roomy : ReadState → ReadAct → Bool
  | .close r _, .run => !r.stream.direct || r.stream.unsent.length ≤ 3
  | _, _ => true

def ReadState.Ok : ReadState → Prop
  | .receive r | .inspect r _ | .close r _ => r.stream.Flowing r.file r.seen
  | .join r _ => r.stream.Draining
  | _ => True

section

variable {ctx : ReadContext} {stop : Bool} {entry : FileEntry} {st st' : ReadState}
  {act : ReadAct}

theorem ReadState.Ok.setStream {stream stream' : ReadStream} (h : st.Ok)
    (hstream : st.stream? = some stream) (hmove : stream.Move stream') :
    (st.setStream stream').Ok := by
  cases st with
  | receive r =>
    cases hstream
    exact ReadStream.Flowing.move h hmove
  | inspect r item =>
    cases hstream
    exact ReadStream.Flowing.move h hmove
  | close r ioErr =>
    cases hstream
    exact ReadStream.Flowing.move h hmove
  | join r ioErr =>
    cases hstream
    exact ReadStream.Draining.move h hmove
  | _ => cases hstream

theorem ReadState.step_stream {res : ReadItemStep} (hact : act = .producer ∨ act = .blocker)
    (h : st.step ctx stop entry act = some res) :
    ∃ stream stream', st.stream? = some stream ∧ stream.Move stream' ∧
      res = .more (st.setStream stream') := by
  rcases hact with rfl | rfl
  · simp only [ReadState.step, Option.bind_eq_bind, Option.bind_eq_some_iff] at h
    obtain ⟨stream, hstream, stream', hstep, heq⟩ := h
    cases heq
    exact ⟨stream, stream', hstream, ReadStream.stepProducer_move hstep, rfl⟩
  · simp only [ReadState.step, Option.bind_eq_bind, Option.bind_eq_some_iff] at h
    obtain ⟨stream, hstream, stream', hstep, heq⟩ := h
    cases heq
    exact ⟨stream, stream', hstream, ReadStream.stepBlocker_move hstep, rfl⟩

inductive ReadState.Move (ctx : ReadContext) (stop : Bool) (entry : FileEntry) :
    ReadState → ReadAct → ReadItemStep → Prop where
  | escapes (file : FileRead) (path : String) : absPath ctx.mountPoint entry = .error path →
      Move ctx stop entry .resolve (.openFile file) (.fail (.pathEscape ctx.mountPoint path))
  | openFile (file : FileRead) (path : String) : absPath ctx.mountPoint entry = .ok path →
      Move ctx stop entry .resolve (.openFile file) (.more (.receive (.start ctx path file)))
  | receive (r : Reading) (item : ReadStreamItem) (chan : List ReadStreamItem) :
      r.stream.chan = item :: chan → Move ctx stop entry (.receive r) .run (.more (.inspect
        { r with stream := { r.stream with chan }, seen := r.seen ++ [item] } item))
  | received (r : Reading) : r.stream.chan = [] → r.stream.producer = .done →
      Move ctx stop entry (.receive r) .run (.more (.close r none))
  | stopped (r : Reading) (item : ReadStreamItem) : stop = true →
      Move ctx stop entry (.inspect r item) .run (.more (.close r none))
  | failed (r : Reading) (err : ReadStreamError) : stop = false →
      Move ctx stop entry (.inspect r (.error err)) .run (.more (.close r (some err)))
  | handle (r : Reading) (event : ReadStreamEvent) : stop = false →
      Move ctx stop entry (.inspect r (.ok event)) .run (.more (.receive (r.handle (.ok event))))
  | close (r : Reading) (ioErr : Option ReadStreamError) :
      Move ctx stop entry (.close r ioErr) .run
        (.more (.join { r with stream := r.stream.close } ioErr))
  | joinErr (r : Reading) (err : ReadStreamError) : r.stream.producer = .done →
      Move ctx stop entry (.join r (some err)) .run (.fail (.io err.phase.op r.path err.source))
  | join (r : Reading) : r.stream.producer = .done →
      Move ctx stop entry (.join r none) .run (.more (.checkFlags r))
  | leave (r : Reading) : stop = true → Move ctx stop entry (.checkFlags r) .run .leave
  | done (r : Reading) : stop = false → r.hasher = none →
      Move ctx stop entry (.checkFlags r) .run (.done ⟨r.file, r.seen, none⟩)
  | check (r : Reading) (hash : StreamingHash) : stop = false → r.hasher = some hash →
      Move ctx stop entry (.checkFlags r) .run (.more (.check r hash))
  | checked (r : Reading) (hash : StreamingHash) (s3Size : Nat) :
      Move ctx stop entry (.check r hash) (.checked (.ok s3Size))
        (.done ⟨r.file, r.seen, some hash⟩)
  | mismatch (r : Reading) (hash : StreamingHash) (err : ConsistencyError) :
      Move ctx stop entry (.check r hash) (.checked (.error err))
        (.fail (.consistency r.path err.message))
  | stream (st : ReadState) (act : ReadAct) (stream stream' : ReadStream) :
      act = .producer ∨ act = .blocker → st.stream? = some stream → stream.Move stream' →
      Move ctx stop entry st act (.more (st.setStream stream'))

theorem ReadState.stepTask_move {res : ReadItemStep}
    (h : st.stepTask ctx stop entry act = some res) : st.Move ctx stop entry act res := by
  unfold ReadState.stepTask at h
  split at h
  · split at h
    · next path hpath =>
      cases h
      exact .escapes _ path hpath
    · next path hpath =>
      cases h
      exact .openFile _ path hpath
  · next r =>
    split at h
    · next item chan hchan =>
      cases h
      exact .receive r item chan hchan
    · next hchan =>
      split at h
      · next hdone =>
        cases h
        exact .received r hchan hdone
      · cases h
  · next r item =>
    split at h
    · next hstop =>
      cases h
      exact .stopped r item hstop
    · next hstop =>
      have hfalse : stop = false := by simpa using hstop
      split at h
      · next err =>
        cases h
        exact .failed r err hfalse
      · next event =>
        cases h
        exact .handle r event hfalse
  · next r ioErr =>
    cases h
    exact .close r ioErr
  · next r ioErr =>
    split at h
    · next hdone =>
      split at h
      · next err =>
        cases h
        exact .joinErr r err hdone
      · cases h
        exact .join r hdone
    · cases h
  · next r =>
    split at h
    · next hstop =>
      cases h
      exact .leave r hstop
    · next hstop =>
      have hfalse : stop = false := by simpa using hstop
      split at h
      · next hnone =>
        cases h
        exact .done r hfalse hnone
      · next hash hhash =>
        cases h
        exact .check r hash hfalse hhash
  · next r hash s3Size =>
    cases h
    exact .checked r hash s3Size
  · next r hash err =>
    cases h
    exact .mismatch r hash err
  · cases h

theorem ReadState.step_move {res : ReadItemStep} (h : st.step ctx stop entry act = some res) :
    st.Move ctx stop entry act res := by
  by_cases hact : act = .producer ∨ act = .blocker
  · obtain ⟨stream, stream', hstream, hmove, rfl⟩ := ReadState.step_stream hact h
    exact .stream st act stream stream' hact hstream hmove
  · refine ReadState.stepTask_move ?_
    cases act with
    | producer => simp at hact
    | blocker => simp at hact
    | _ => exact h

theorem ReadState.Ok.move (h : st.Ok) (hroomy : st.roomy act = true)
    (hmove : st.Move ctx stop entry act (.more st')) : st'.Ok := by
  cases hmove with
  | openFile file path hpath => exact .spawn ctx.directIo file
  | receive r item chan hchan => exact ReadStream.Flowing.receive h hchan
  | received r hchan hdone => exact h
  | stopped r item hstop => exact h
  | failed r err hstop => exact h
  | handle r event hstop => exact h
  | close r ioErr =>
    refine ReadStream.Flowing.close h fun hdirect => ?_
    simpa [ReadState.roomy, hdirect] using hroomy
  | join r hdone => trivial
  | check r hash hstop hhash => trivial
  | stream st act stream stream' hact hstream hmove => exact h.setStream hstream hmove

theorem ReadState.Ok.progress (ctx : ReadContext) (stop : Bool) (entry : FileEntry) (h : st.Ok) :
    ∃ act, (st.step ctx stop entry act).isSome = true := by
  -- what the tasks behind the stream can do, the work on the entry can
  have hstream : ∀ stream : ReadStream, st.stream? = some stream →
      (stream.stepProducer.isSome ∨ stream.stepBlocker.isSome) →
      ∃ act, (st.step ctx stop entry act).isSome = true := by
    intro stream hstream hstep
    rcases hstep with hstep | hstep
    · refine ⟨.producer, ?_⟩
      obtain ⟨stream', hstream'⟩ := Option.isSome_iff_exists.mp hstep
      simp [ReadState.step, hstream, hstream']
    · refine ⟨.blocker, ?_⟩
      obtain ⟨stream', hstream'⟩ := Option.isSome_iff_exists.mp hstep
      simp [ReadState.step, hstream, hstream']
  cases st with
  | resolve =>
    refine ⟨.openFile (.closes []), ?_⟩
    simp only [ReadState.step, ReadState.stepTask]
    split <;> rfl
  | receive r =>
    cases hchan : r.stream.chan with
    | cons item chan => exact ⟨.run, by simp [ReadState.step, ReadState.stepTask, hchan]⟩
    | nil =>
      by_cases hdone : r.stream.producer = .done
      · exact ⟨.run, by simp [ReadState.step, ReadState.stepTask, hchan, hdone]⟩
      · exact hstream r.stream rfl (ReadStream.Flowing.progress h hchan hdone)
  | inspect r item =>
    refine ⟨.run, ?_⟩
    cases stop <;> cases item <;> simp [ReadState.step, ReadState.stepTask]
  | close r ioErr => exact ⟨.run, rfl⟩
  | join r ioErr =>
    by_cases hdone : r.stream.producer = .done
    · refine ⟨.run, ?_⟩
      cases ioErr <;> simp [ReadState.step, ReadState.stepTask, hdone]
    · exact hstream r.stream rfl (ReadStream.Draining.progress h hdone)
  | checkFlags r =>
    refine ⟨.run, ?_⟩
    cases stop <;> cases hhash : r.hasher <;> simp [ReadState.step, ReadState.stepTask, hhash]
  | check r hash => exact ⟨.checked (.ok 0), rfl⟩

theorem readTask_live (ctx : ReadContext) : (readTask ctx).Live ReadState.roomy ReadState.Ok where
  start _ := trivial
  step hok hroomy hstep := hok.move hroomy (ReadState.step_move hstep)
  progress stop entry _ hok := hok.progress ctx stop entry

def NoErrors (seen : List ReadStreamItem) : Prop := ∀ item ∈ seen, ∀ err, item ≠ .error err

def hashFor (ctx : ReadContext) (seen : List ReadStreamItem) : Option StreamingHash :=
  if ctx.consistency then some (seen.foldl StreamingHash.feed .new) else none

def ReadState.Whole (ctx : ReadContext) : ReadState → Prop
  | .receive r => NoErrors r.seen ∧ r.hasher = hashFor ctx r.seen
  | .inspect r item =>
      ∃ seen, r.seen = seen ++ [item] ∧ NoErrors seen ∧ r.hasher = hashFor ctx seen
  | .close r none | .join r none | .checkFlags r =>
      r.seen = r.file.items ∧ NoErrors r.seen ∧ r.hasher = hashFor ctx r.seen
  | .check r hash =>
      r.seen = r.file.items ∧ NoErrors r.seen ∧ some hash = hashFor ctx r.seen
  | _ => True

/-- The file was read to its end and closed, and checked once if that is configured. -/
structure ReadReport.Complete (ctx : ReadContext) (report : ReadReport) : Prop where
  closed : ∃ chunks, report.file = .closes chunks
  seen : report.seen = report.file.items
  checked : report.checked = hashFor ctx report.seen

theorem ReadState.Whole.setStream {stream : ReadStream} (h : st.Whole ctx) :
    (st.setStream stream).Whole ctx := by
  cases st with
  | close r ioErr => cases ioErr <;> exact h
  | join r ioErr => cases ioErr <;> exact h
  | _ => exact h

theorem hashFor_concat (ctx : ReadContext) (seen : List ReadStreamItem) (item : ReadStreamItem) :
    hashFor ctx (seen ++ [item]) = (hashFor ctx seen).map (·.feed item) := by
  unfold hashFor
  cases ctx.consistency <;> simp

theorem ReadState.Whole.move (h : st.Whole ctx) (hok : st.Ok)
    (hmove : st.Move ctx false entry act (.more st')) : st'.Whole ctx := by
  cases hmove with
  | openFile file path hpath =>
    refine ⟨?_, ?_⟩
    · intro item hitem
      cases hitem
    · simp [Reading.start, hashFor]
  | receive r item chan hchan => exact ⟨r.seen, rfl, h.1, h.2⟩
  | received r hchan hdone =>
    have hitems := ReadStream.Flowing.items hok
    rw [hchan, ReadStream.Flowing.ended hok (.inr hdone)] at hitems
    exact ⟨by simpa using hitems, h.1, h.2⟩
  | stopped r item hstop => cases hstop
  | failed r err hstop => trivial
  | handle r event hstop =>
    obtain ⟨seen, hseen, herrors, hhasher⟩ := h
    refine ⟨?_, ?_⟩
    · intro item hitem
      simp only [Reading.handle, hseen, List.mem_append, List.mem_singleton] at hitem
      rcases hitem with hitem | rfl
      · exact herrors item hitem
      · simp
    · simp only [Reading.handle, hseen, hashFor_concat, hhasher]
  | close r ioErr =>
    cases ioErr with
    | none => exact h
    | some err => trivial
  | join r hdone => exact h
  | check r hash hstop hhash => exact ⟨h.1, h.2.1, by rw [← hhash]; exact h.2.2⟩
  | stream st act stream stream' hact hstream hmove => exact h.setStream

theorem ReadState.Whole.done {report : ReadReport} (h : st.Whole ctx)
    (hmove : st.Move ctx false entry act (.done report)) : report.Complete ctx := by
  cases hmove with
  | done r hstop hnone =>
    obtain ⟨hitems, herrors, hhasher⟩ := h
    refine ⟨FileRead.closes_of_ok ?_, hitems, by rw [← hhasher, hnone]⟩
    rw [← hitems]
    exact herrors
  | checked r hash s3Size =>
    obtain ⟨hitems, herrors, hhasher⟩ := h
    refine ⟨FileRead.closes_of_ok ?_, hitems, hhasher⟩
    rw [← hitems]
    exact herrors

theorem readTask_thorough (ctx : ReadContext) :
    (readTask ctx).Thorough ReadState.Ok (ReadState.Whole ctx) (ReadReport.Complete ctx) where
  start _ := trivial
  step hok hwhole hstep := hwhole.move hok (ReadState.step_move hstep)
  done hwhole hstep := hwhole.done (ReadState.step_move hstep)
  stays := by
    intro entry st act hstep
    cases ReadState.step_move hstep with
    | leave r hstop => cases hstop

end

theorem statTask_live (mountPoint : String) :
    (statTask mountPoint).Live (fun _ _ => true) fun _ => True where
  start _ := trivial
  step _ _ _ := trivial
  progress stop entry st _ := by
    refine ⟨.stat (.ok ()), ?_⟩
    simp only [statTask]
    split <;> simp_all

theorem statTask_thorough (mountPoint : String) :
    (statTask mountPoint).Thorough (fun _ => True) (fun _ => True) fun _ => True where
  start _ := trivial
  step _ _ _ := trivial
  done _ _ := trivial
  stays := by
    intro entry st act hstep
    simp only [statTask] at hstep
    split at hstep <;> cases hstep

end CvdBench.Worker
