import CvdBench.Events.Watch

/-!
A stream over a whole run: what it carries from the step that opened it, and how far
its job has come.
-/

set_option autoImplicit false

namespace CvdBench.Events

open Foundation Proto Master

/-- How far the job of stream `i` has come, by the events since the subscription. -/
inductive Stage (s : Watched) (i : Nat) (j : JobId) (events : List JobEvent) : Prop where
  | live (r : JobRecord) : s.sys.job j = some r → r.isTerminal = false →
      (∀ event ∈ events, terminalStatus event.status = false) →
      Tracks True s.watchers i j events → Stage s i j events
  | ended (before : List JobEvent) (last : JobEvent) : Dead s.sys.issued s.sys.master.jobs j →
      events = before ++ [last] → (∀ event ∈ before, terminalStatus event.status = false) →
      terminalStatus last.status = true → Tracks False s.watchers i j events →
      Stage s i j events

namespace Stage

variable {s s' : Watched} {i : Nat} {j : JobId} {events : List JobEvent}

theorem tracks (h : Stage s i j events) : Tracks False s.watchers i j events := by
  cases h with
  | live r _ _ _ htracks => exact htracks.ofLive False.elim
  | ended before last _ _ _ _ htracks => exact htracks

theorem ofSame (h : Stage s i j events) (hjobs : s'.sys.master.jobs = s.sys.master.jobs)
    (hissued : s.sys.issued ⊆ s'.sys.issued)
    (htracks : ∀ live, Tracks live s.watchers i j events →
      Tracks live s'.watchers i j events) : Stage s' i j events := by
  cases h with
  | live r hr hlive hall h =>
    exact .live r ((congrArg (HashMap.get? · j) hjobs).trans hr) hlive hall (htracks _ h)
  | ended before last hdead heq hall hlast h =>
    exact .ended before last ⟨hissued hdead.1, by rw [hjobs]; exact hdead.2⟩ heq hall hlast
      (htracks _ h)

theorem nonterminal (h : Stage s i j events) :
    events.Pairwise (fun a _ => terminalStatus a.status = false) := by
  cases h with
  | live r _ _ hall _ => exact List.pairwise_of_forall_mem_list fun a ha _ _ => hall a ha
  | ended before last _ heq hall _ _ =>
    subst heq
    refine List.pairwise_append.mpr ⟨List.pairwise_of_forall_mem_list fun a ha _ _ => hall a ha,
      List.pairwise_singleton .., fun a ha _ _ => hall a ha⟩

end Stage

section

variable {H : Type} {env : MasterEnv H} {s s' : Watched} {i : Nat} {j : JobId}
  {events : List JobEvent}

theorem newCalls_eq {s s' : Sys} {calls : List RegistryCall}
    (h : s'.master.subscribers = s.master.subscribers ++ calls) : newCalls s s' = calls := by
  rw [newCalls, h, List.drop_left]

theorem Stage.spoken (hok : s.sys.Ok) (hw : s.watchers.Ok) (slips : Nat → Bool)
    (hlater : s.sys.Later s'.sys) {calls : List RegistryCall}
    (h : Spoken s.sys.issued s.sys.master s'.sys.master calls)
    (hsilent : Dead s.sys.issued s.sys.master.jobs j → eventsOf j calls = [])
    (hwatchers : s'.watchers = calls.foldl (Watchers.apply slips) s.watchers)
    (hstage : Stage s i j events) : Stage s' i j (events ++ eventsOf j calls) := by
  cases hstage with
  | ended before last hdead heq hall hlast htracks =>
    rw [hsilent hdead, List.append_nil]
    refine .ended before last (hlater.dead hdead) heq hall hlast ?_
    rw [hwatchers]
    exact htracks.callsDead hw (hsilent hdead)
  | live r hr hlive hall htracks =>
    have hopen : .terminate j ∉ calls := by
      intro hmem
      rw [(h.ended j hmem).2 r hr] at hlive
      cases hlive
    have htracks' : Tracks True s'.watchers i j (events ++ eventsOf j calls) := by
      rw [hwatchers]
      exact htracks.callsLive hw hopen
    cases h.told j with
    | nothing hnone hsteady =>
      obtain ⟨r', hr', hs⟩ := hsteady r hr hlive
      rw [hnone, List.append_nil] at htracks' ⊢
      refine .live r' hr' ?_ hall htracks'
      rw [JobRecord.isTerminal_eq, hs]
      exact hlive
    | event event r' hone hr' hs =>
      rw [hone] at htracks' ⊢
      cases hterm : terminalStatus event.status with
      | false =>
        refine .live r' hr' ?_ (fun event' hmem => ?_) htracks'
        · rw [JobRecord.isTerminal_eq, ← hs, hterm]
        · rcases List.mem_append.mp hmem with hmem | hmem
          · exact hall event' hmem
          · rw [List.mem_singleton.mp hmem, hterm]
      | true =>
        refine .ended events event ⟨hlater.issued (hok.issued j r hr), fun r'' hr'' => ?_⟩ rfl
          hall hterm (htracks'.ofLive False.elim)
        obtain rfl := Option.some.inj (hr'.symm.trans hr'')
        rw [JobRecord.isTerminal_eq, ← hs, hterm]

/-- What holds of the stream that the step `e` opened, after a run that built `n` events. -/
structure Followed (e : WatchStep) (t : Watched) (j : JobId) (snapshot : JobEvent) (n : Nat) :
    Prop where
  log : e.post.sys.master.subscribers <+: t.sys.master.subscribers
  stage : Stage t e.pre.watchers.streams.length j (snapshot :: broadcastSince j e.post t)
  upwards : (n : Int) ≤ i64Max →
    (snapshot :: broadcastSince j e.post t).Pairwise (fun a b => a.seq < b.seq) ∧
      ∀ event ∈ snapshot :: broadcastSince j e.post t, event.seq ≤ n
  single : ∀ r, e.pre.sys.job j = some r → r.isTerminal = true →
    Dead t.sys.issued t.sys.master.jobs j ∧ broadcastSince j e.post t = [] ∧
      t.watchers.Sealed e.pre.watchers.streams.length

/-- The history of a run: the counter counts the events built, and every stream that was
opened is followed. -/
structure History (tr : List WatchStep) (t : Watched) : Prop where
  registry : t.watchers.Ok
  counter : t.sys.master.eventSeq = wrapI64 (1 + eventsBuilt tr)
  follows : ∀ e ∈ tr, ∀ j snapshot, openedBy e.out = some (j, snapshot) →
    Followed e t j snapshot (eventsBuilt tr)

theorem eventsBuilt_snoc (tr : List WatchStep) (e : WatchStep) :
    eventsBuilt (tr ++ [e]) = eventsBuilt tr + built e := by
  simp [eventsBuilt]

theorem broadcastSince_append {s t u : Watched} (h : s.sys.master.subscribers <+:
    t.sys.master.subscribers) {calls : List RegistryCall}
    (hlog : u.sys.master.subscribers = t.sys.master.subscribers ++ calls) :
    broadcastSince j s u = broadcastSince j s t ++ eventsOf j calls := by
  obtain ⟨calls', heq⟩ := h
  have hboth : u.sys.master.subscribers = s.sys.master.subscribers ++ (calls' ++ calls) := by
    rw [hlog, ← heq, List.append_assoc]
  rw [broadcastSince, broadcastSince, newCalls_eq heq.symm, newCalls_eq hboth, eventsOf_append]

/-- What a step does for the streams that are open: it makes these calls, which number
their events above the `n` events before. -/
structure Extends (s s' : Watched) (n n' : Nat) (calls : List RegistryCall) : Prop where
  log : s'.sys.master.subscribers = s.sys.master.subscribers ++ calls
  le : n ≤ n'
  upwards : ∀ j, (n' : Int) ≤ i64Max →
    (eventsOf j calls).Pairwise (fun a b => a.seq < b.seq) ∧
      ∀ event ∈ eventsOf j calls, (n : Int) < event.seq ∧ event.seq ≤ n'
  later : s.sys.Later s'.sys
  silent : ∀ j, Dead s.sys.issued s.sys.master.jobs j → eventsOf j calls = []
  stage : ∀ i j events, Stage s i j events → Stage s' i j (events ++ eventsOf j calls)
  isSealed : ∀ i, s.watchers.Sealed i → s'.watchers.Sealed i

theorem Followed.next {e : WatchStep} {snapshot : JobEvent} {n n' : Nat}
    {calls : List RegistryCall} (h : Followed e s j snapshot n) (hext : Extends s s' n n' calls) :
    Followed e s' j snapshot n' := by
  have hsince := broadcastSince_append (j := j) h.log hext.log
  refine ⟨h.log.trans ⟨calls, hext.log.symm⟩, ?_, fun hbound => ?_, fun r hr hterm => ?_⟩
  · rw [hsince]
    exact hext.stage _ _ _ h.stage
  · have hle := hext.le
    obtain ⟨hpair, hall⟩ := h.upwards (by omega)
    obtain ⟨hpair', hall'⟩ := hext.upwards j hbound
    rw [hsince, ← List.cons_append]
    refine ⟨List.pairwise_append.mpr ⟨hpair, hpair', fun a ha b hb => ?_⟩, fun event hmem => ?_⟩
    · have := hall a ha
      have := (hall' b hb).1
      omega
    · rcases List.mem_append.mp hmem with hmem | hmem
      · have := hall event hmem
        omega
      · exact (hall' event hmem).2
  · obtain ⟨hdead, hnone, hseal⟩ := h.single r hr hterm
    exact ⟨hext.later.dead hdead, by rw [hsince, hnone, hext.silent j hdead, List.append_nil],
      hext.isSealed _ hseal⟩

theorem History.next {tr : List WatchStep} {act : WatchAction} {rep : Option Reply} {n' : Nat}
    {calls : List RegistryCall} (h : History tr s)
    (hbuilt : built ⟨s, act, rep, s'⟩ = n') (hext : Extends s s' (eventsBuilt tr)
      (eventsBuilt tr + n') calls) (hw : s'.watchers.Ok)
    (hcounter : s'.sys.master.eventSeq = wrapI64 (1 + ((eventsBuilt tr + n' : Nat) : Int)))
    (hopen : ∀ j snapshot, openedBy rep = some (j, snapshot) →
      Followed ⟨s, act, rep, s'⟩ s' j snapshot (eventsBuilt tr + n')) :
    History (tr ++ [⟨s, act, rep, s'⟩]) s' := by
  have hcount : eventsBuilt (tr ++ [⟨s, act, rep, s'⟩]) = eventsBuilt tr + n' := by
    rw [eventsBuilt_snoc, hbuilt]
  refine ⟨hw, by rw [hcount]; exact hcounter, fun e he j snapshot hopened => ?_⟩
  rw [hcount]
  rcases List.mem_append.mp he with he | he
  · exact (h.follows e he j snapshot hopened).next hext
  · obtain rfl := List.mem_singleton.mp he
    exact hopen j snapshot hopened

theorem Extends.quiet {n n' : Nat} {calls : List RegistryCall}
    (hlog : s'.sys.master.subscribers = s.sys.master.subscribers ++ calls) (hle : n ≤ n')
    (hnone : ∀ j, eventsOf j calls = []) (hjobs : s'.sys.master.jobs = s.sys.master.jobs)
    (hlater : s.sys.Later s'.sys)
    (htracks : ∀ live i j events, Tracks live s.watchers i j events →
      Tracks live s'.watchers i j events)
    (hsealed : ∀ i, s.watchers.Sealed i → s'.watchers.Sealed i) : Extends s s' n n' calls where
  log := hlog
  le := hle
  upwards j _ := by simp [hnone j]
  later := hlater
  silent j _ := hnone j
  stage i j events h := by
    rw [hnone j, List.append_nil]
    exact h.ofSame hjobs hlater.issued fun live => htracks live i j events
  isSealed := hsealed

theorem counter_next {seq : Int} {n : Nat} (h : seq = wrapI64 (1 + n)) :
    wrapI64 (seq + 1) = wrapI64 (1 + ((n + 1 : Nat) : Int)) := by
  rw [h, wrapI64_add]
  congr 1

theorem Followed.opened {tr : List WatchStep} {act : WatchAction} {rep : Option Reply}
    {snapshot : JobEvent} (hcounter : s.sys.master.eventSeq = wrapI64 (1 + eventsBuilt tr))
    (hseq : snapshot.seq = s.sys.master.eventSeq)
    (hstage : Stage s' s.watchers.streams.length j [snapshot])
    (hsingle : ∀ r, s.sys.job j = some r → r.isTerminal = true →
      Dead s'.sys.issued s'.sys.master.jobs j ∧ s'.watchers.Sealed s.watchers.streams.length) :
    Followed ⟨s, act, rep, s'⟩ s' j snapshot (eventsBuilt tr + 1) := by
  have hsince : broadcastSince j s' s' = [] := by
    rw [broadcastSince, newCalls, List.drop_length, eventsOf_nil]
  refine ⟨List.prefix_refl _, ?_, fun hbound => ?_, fun r hr hterm => ?_⟩
  · rw [hsince]
    exact hstage
  · rw [hsince]
    refine ⟨List.pairwise_singleton .., fun event hmem => ?_⟩
    have hfits : wrapI64 (1 + (eventsBuilt tr : Int)) = 1 + (eventsBuilt tr : Int) :=
      wrapI64_of_fits (by unfold i64Min; omega) (by omega)
    rw [List.mem_singleton.mp hmem, hseq, hcounter, hfits]
    omega
  · obtain ⟨hdead, hseal⟩ := hsingle r hr hterm
    exact ⟨hdead, hsince, hseal⟩

theorem History.init : History [] (watching env).init where
  registry := .new
  counter := rfl
  follows e he := by cases he

theorem History.stepStream {tr : List WatchStep} (act : WatchAction) {k : Nat} {c c' : Stream}
    (h : History tr s) (hk : s.watchers.streams[k]? = some c)
    (hact : c.recv = some c' ∨ c.dropReceiver = some c')
    (hs' : s' = { s with
      watchers := { s.watchers with streams := s.watchers.streams.set k c' } }) :
    History (tr ++ [⟨s, act, none, s'⟩]) s' := by
  have hsame : c'.hasSender = c.hasSender ∧ c'.overflowed = c.overflowed := by
    rcases hact with hrecv | hdrop
    · obtain ⟨_, _, hs, ho, _⟩ := Channel.recv_spec hrecv
      exact ⟨hs, ho⟩
    · rw [Channel.dropReceiver_spec hdrop]
      exact ⟨rfl, rfl⟩
  have hcar : ∀ {live : Prop} {events : List JobEvent}, Carries live c events →
      Carries live c' events := by
    intro live events hcar
    rcases hact with hrecv | hdrop
    · exact hcar.recv hrecv
    · exact hcar.dropReceiver hdrop
  subst hs'
  have hbuilt : built ⟨s, act, none, { s with
      watchers := { s.watchers with streams := s.watchers.streams.set k c' } }⟩ = 0 := by
    simp [built, newCalls, openedBy]
  have hlog : s.sys.master.subscribers = s.sys.master.subscribers ++ [] :=
    (List.append_nil _).symm
  exact h.next hbuilt (.quiet hlog (Nat.le_refl _) (fun _ => rfl) rfl (.refl _)
    (fun live i j events htracks => htracks.set k hk hcar hsame.1)
    (fun i hseal => hseal.set k hk hsame.1 hsame.2)) (h.registry.set k c') h.counter
    (fun j snapshot hopen => by cases hopen)

section

variable {tr : List WatchStep} {c : Choice} {slips : Nat → Bool} {rep : Option Reply}

theorem History.tells {calls : List RegistryCall} (h : History tr s) (hok : s.sys.Ok)
    (hlater : s.sys.Later s'.sys)
    (hspoken : Spoken s.sys.issued s.sys.master s'.sys.master calls) (hnone : openedBy rep = none)
    (hsilent : ∀ j, Dead s.sys.issued s.sys.master.jobs j → eventsOf j calls = [])
    (hwatchers : s'.watchers = ((newCalls s.sys s'.sys).foldl (Watchers.apply slips)
      s.watchers).answer (newCalls s.sys s'.sys) rep) :
    History (tr ++ [⟨s, .master c slips, rep, s'⟩]) s' := by
  have hcounter := h.counter
  have hcalls : newCalls s.sys s'.sys = calls := newCalls_eq hspoken.log
  have hw : s'.watchers = calls.foldl (Watchers.apply slips) s.watchers := by
    rw [hwatchers, hcalls, Watchers.answer_none _ _ hnone]
  have hbuilt : built ⟨s, .master c slips, rep, s'⟩ =
      calls.countP RegistryCall.isBroadcast := by
    simp [built, hcalls, hnone]
  refine h.next hbuilt ⟨hspoken.log, Nat.le_add_right _ _, fun j hbound => ?_, hlater, hsilent,
    fun i j events hstage => ?_, fun i hseal => ?_⟩ ?_ ?_ ?_
  · exact hspoken.numbered.seqs hcounter hbound j
  · exact hstage.spoken hok h.registry slips hlater hspoken (hsilent j) hw
  · rw [hw]
    exact Watchers.Sealed.calls h.registry slips hseal calls
  · rw [hw]
    exact foldl_ok h.registry slips calls
  · rw [hspoken.numbered.next hcounter]
    congr 1
    omega
  · intro j snapshot hopen
    rw [hnone] at hopen
    cases hopen

theorem History.watches {id : JobId} {r : JobRecord} {snapshot : JobEvent} (h : History tr s)
    (hlater : s.sys.Later s'.sys) (hopen : openedBy rep = some (id, snapshot))
    (hr : s.sys.master.jobs.get? id = some r) (hlive : r.isTerminal = false)
    (hstatus : snapshot.status = r.status) (hseq : snapshot.seq = s.sys.master.eventSeq)
    (hstate : s'.sys.master = { s.sys.master.nextEventSeq with
      subscribers := s.sys.master.subscribers ++ [.subscribeWithSnapshot id snapshot] })
    (hwatchers : s'.watchers = ((newCalls s.sys s'.sys).foldl (Watchers.apply slips)
      s.watchers).answer (newCalls s.sys s'.sys) rep) :
    History (tr ++ [⟨s, .master c slips, rep, s'⟩]) s' := by
  have hcounter := h.counter
  have hlog : s'.sys.master.subscribers =
      s.sys.master.subscribers ++ [.subscribeWithSnapshot id snapshot] := by rw [hstate]
  have hjobs : s'.sys.master.jobs = s.sys.master.jobs := by
    rw [hstate]
    rfl
  have hcalls := newCalls_eq hlog
  have hw : s'.watchers = s.watchers.apply slips (.subscribeWithSnapshot id snapshot) := by
    rw [hwatchers, hcalls, Watchers.answer_cons]
    rfl
  have hbuilt : built ⟨s, .master c slips, rep, s'⟩ = 1 := by
    simp [built, hcalls, hopen, RegistryCall.isBroadcast]
  refine h.next hbuilt (.quiet hlog (Nat.le_add_right _ _) (fun _ => rfl) hjobs hlater
    (fun live i j events htracks => ?_) fun i hseal => ?_) ?_ ?_ fun j snapshot' hopen' => ?_
  · rw [hw]
    exact htracks.applyOther h.registry rfl (by simp)
  · rw [hw]
    exact Watchers.Sealed.calls h.registry slips hseal [.subscribeWithSnapshot id snapshot]
  · rw [hw]
    exact h.registry.apply slips _
  · rw [hstate]
    exact counter_next hcounter
  · obtain ⟨rfl, rfl⟩ := Prod.mk.inj (Option.some.inj (hopen.symm.trans hopen'))
    refine .opened hcounter hseq ?_ fun r' hr' hterm => ?_
    · refine .live r (by rw [Sys.job, hjobs, hr]) hlive (by simp [hstatus, ← hlive]; rfl) ?_
      rw [hw]
      exact .subscribed h.registry id snapshot
    · obtain rfl := Option.some.inj (hr.symm.trans hr')
      rw [hlive] at hterm
      cases hterm

theorem History.glances {id : JobId} {snapshot : JobEvent} (h : History tr s)
    (hlater : s.sys.Later s'.sys) (hopen : openedBy rep = some (id, snapshot))
    (hdead : Dead s.sys.issued s.sys.master.jobs id) (hterm : terminalStatus snapshot.status = true)
    (hseq : snapshot.seq = s.sys.master.eventSeq)
    (hstate : s'.sys.master = s.sys.master.nextEventSeq)
    (hwatchers : s'.watchers = ((newCalls s.sys s'.sys).foldl (Watchers.apply slips)
      s.watchers).answer (newCalls s.sys s'.sys) rep) :
    History (tr ++ [⟨s, .master c slips, rep, s'⟩]) s' := by
  have hcounter := h.counter
  have hlog : s'.sys.master.subscribers = s.sys.master.subscribers ++ [] := by
    rw [hstate, List.append_nil]
    rfl
  have hjobs : s'.sys.master.jobs = s.sys.master.jobs := by
    rw [hstate]
    rfl
  have hcalls := newCalls_eq hlog
  have hw : s'.watchers = s.watchers.single snapshot := by
    rw [hwatchers, hcalls, Watchers.answer_glance _ hopen]
    rfl
  have hbuilt : built ⟨s, .master c slips, rep, s'⟩ = 1 := by
    simp [built, hcalls, hopen]
  refine h.next hbuilt (.quiet hlog (Nat.le_add_right _ _) (fun _ => rfl) hjobs hlater
    (fun live i j events htracks => ?_) fun i hseal => ?_) ?_ ?_ fun j snapshot' hopen' => ?_
  · rw [hw]
    exact htracks.single snapshot
  · rw [hw]
    exact hseal.single snapshot
  · rw [hw]
    exact h.registry.single snapshot
  · rw [hstate]
    exact counter_next hcounter
  · obtain ⟨rfl, rfl⟩ := Prod.mk.inj (Option.some.inj (hopen.symm.trans hopen'))
    have hdead := hlater.dead hdead
    obtain ⟨htracks, hseal⟩ := Tracks.glanced h.registry id snapshot
    rw [← hw] at htracks hseal
    refine .opened hcounter hseq ?_ fun _ _ _ => ⟨hdead, hseal⟩
    exact .ended [] snapshot hdead rfl (by simp) hterm htracks

theorem History.stepMaster (h : History tr s) (hs : (machine env).Reachable s.sys)
    (hstep : s.sys.step env c = some (s'.sys, rep))
    (hwatchers : s'.watchers = ((newCalls s.sys s'.sys).foldl (Watchers.apply slips)
      s.watchers).answer (newCalls s.sys s'.sys) rep) :
    History (tr ++ [⟨s, .master c slips, rep, s'⟩]) s' := by
  have hok := Reachable.ok hs
  obtain ⟨cur, rest, spawn, hmove⟩ := step_move hok hstep
  have hlater := hmove.later hok
  cases step_utters hok hstep with
  | tells calls hspoken hnone =>
    refine h.tells hok hlater hspoken hnone (fun j hdead => ?_) hwatchers
    obtain ⟨calls', hlog', hall⟩ := hmove.silent hdead
    obtain rfl := (newCalls_eq hspoken.log).symm.trans (newCalls_eq hlog')
    refine List.filterMap_eq_nil_iff.mpr fun call hmem => ?_
    cases call with
    | broadcast id event =>
      have hne : id ≠ j := hall id event hmem
      simp [RegistryCall.eventOf, hne]
    | subscribeWithSnapshot | terminate => rfl
  | watches hopen hr hlive hstatus hseq hstate =>
    exact h.watches hlater hopen hr hlive hstatus hseq hstate hwatchers
  | glances hopen hr hterm hstatus hseq hstate =>
    exact h.glances hlater hopen (Reachable.dead hs hr hterm) (by rw [hstatus]; exact hterm) hseq
      hstate hwatchers

end

theorem Run.watched {tr : List WatchStep} {t : Watched}
    (h : (watching env).Run (watching env).init tr t) : History tr t := by
  refine h.history .init fun tr s act s' rep hrun hhist hstep => ?_
  have hs : (machine env).Reachable s.sys := Watched.reachable (hrun.reachable .init)
  rcases step_cases hstep with ⟨c, slips, rfl, hsys, hwatchers⟩ | ⟨k, c, c', hk, hact, heq, rfl⟩
  · exact hhist.stepMaster hs hsys hwatchers
  · exact hhist.stepStream act hk hact heq

end

end CvdBench.Events
