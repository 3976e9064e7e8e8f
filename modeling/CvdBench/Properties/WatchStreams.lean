import CvdBench.Events.Follow

/-!
Watch streams over whole runs of the master and its watchers: no gap, no event twice, in
order, and the terminal event last.
-/

set_option autoImplicit false

namespace CvdBench.Events

open Foundation Proto Master

section

variable {H : Type} {env : MasterEnv H}

theorem opened_snapshot {tr : List WatchStep} {t : Watched}
    (h : (watching env).Run (watching env).init tr t) {e : WatchStep} (he : e ∈ tr)
    {j : JobId} {snapshot : JobEvent} (hopen : openedBy e.out = some (j, snapshot)) :
    ∃ r, e.pre.sys.job j = some r ∧ snapshot.status = r.status := by
  obtain ⟨hstep, hpre⟩ := h.event he
  have hok := Reachable.ok (Watched.reachable (hpre .init))
  rcases step_cases hstep with ⟨c, _, _, hsys, _⟩ | ⟨_, _, _, _, _, _, hnone⟩
  · cases step_utters hok hsys with
    | tells _ _ hnone =>
      rw [hnone] at hopen
      cases hopen
    | watches hopen' hr _ hstatus =>
      obtain ⟨rfl, rfl⟩ := Prod.mk.inj (Option.some.inj (hopen'.symm.trans hopen))
      exact ⟨_, hr, hstatus⟩
    | glances hopen' hr _ hstatus =>
      obtain ⟨rfl, rfl⟩ := Prod.mk.inj (Option.some.inj (hopen'.symm.trans hopen))
      exact ⟨_, hr, hstatus⟩
  · rw [hnone] at hopen
    cases hopen

/-- The stream that the step `e` of a run opened on job `j`, at the end of the run. -/
theorem watch_streams {tr : List WatchStep} {t : Watched}
    (h : (watching env).Run (watching env).init tr t) (hbound : eventsBuilt tr < 2^63)
    {e : WatchStep} (he : e ∈ tr) {j : JobId} {snapshot : JobEvent}
    (hopen : openedBy e.out = some (j, snapshot)) :
    ∃ c r, t.watchers.streams[e.pre.watchers.streams.length]? = some c ∧
      e.pre.sys.job j = some r ∧ snapshot.status = r.status ∧
      okEvents c.received <+: snapshot :: broadcastSince j e.post t ∧
      (okEvents c.received).Pairwise (fun a b => a.seq < b.seq) ∧
      (okEvents c.received).Pairwise (fun a _ => terminalStatus a.status = false) ∧
      (r.isTerminal = true → c.hasSender = false ∧
        (c.receiver ≠ .dropped → c.received ++ c.buffer = [.ok snapshot]) ∧
        (c.receiver = .ended → c.received = [.ok snapshot])) ∧
      (c.receiver = .ended → c.overflowed = false →
        ∃ event, c.received.getLast? = some (.ok event) ∧ terminalStatus event.status = true) := by
  obtain ⟨r, hr, hstatus⟩ := opened_snapshot h he hopen
  have hfollow := (Run.watched h).follows e he j snapshot hopen
  obtain ⟨_, c, hc, hcar, _⟩ := hfollow.stage.tracks
  have hpart : okEvents c.received <+: snapshot :: broadcastSince j e.post t :=
    ( okEvents_prefix (List.prefix_append ..)).trans hcar.part
  have hall : ∀ {R : JobEvent → JobEvent → Prop},
      (snapshot :: broadcastSince j e.post t).Pairwise R → (okEvents c.received).Pairwise R :=
    fun hpair => hpair.sublist hpart.sublist
  refine ⟨c, r, hc, hr, hstatus, hpart, hall (hfollow.upwards ?_).1,
    hall hfollow.stage.nonterminal, fun hterm => ?_, fun hended hover => ?_⟩
  · unfold i64Max
    omega
  · obtain ⟨_, hnone, _, c', hc', hsender, hover⟩ := hfollow.single r hr hterm
    obtain rfl := Option.some.inj (hc.symm.trans hc')
    have hitems : c.receiver ≠ .dropped → c.received ++ c.buffer = [.ok snapshot] := by
      intro hdrop
      have hwhole := hcar.whole hover hdrop
      rw [hnone] at hwhole
      exact hwhole
    refine ⟨hsender, hitems, fun hended => ?_⟩
    have hone := hitems (by rw [hended]; exact Receiver.noConfusion)
    rw [(hcar.ended hended).1, List.append_nil] at hone
    exact hone
  · obtain ⟨hempty, hsender⟩ := hcar.ended hended
    have hdrop : c.receiver ≠ .dropped := by
      rw [hended]
      exact Receiver.noConfusion
    cases hfollow.stage with
    | live r' _ _ _ htracks =>
      -- a live job takes the sender of nobody who keeps up
      obtain ⟨_, c', hc', hcar', _⟩ := htracks
      obtain rfl := Option.some.inj (hc.symm.trans hc')
      rcases hcar'.served trivial with hs | ho | hd
      · rw [hsender] at hs
        cases hs
      · rw [hover] at ho
        cases ho
      · exact absurd hd hdrop
    | ended before last _ hevents _ hlast _ =>
      have hwhole := hcar.whole hover hdrop
      rw [Channel.items, hempty, List.append_nil, hevents, List.map_append] at hwhole
      exact ⟨last, by rw [hwhole]; simp, hlast⟩

end

namespace Small

open Master.Small

def opening : List WatchAction :=
  (at0 (create 1 "j")).map fun c => .master c fun _ => false

def watch : WatchAction := .master ⟨.watchJob "j", amb 0⟩ fun _ => false

def closing : List WatchAction :=
  (at0 [.deleteJob "j", .resume 0]).map (fun c => .master c fun _ => false) ++
    [.recv 0, .recv 0, .recv 0]

def before : Watched := (watching env).play (watching env).init opening

def final : Watched := (watching env).play (watching env).init (opening ++ watch :: closing)

end Small

theorem watch_streams_small : ∃ c, Small.final.watchers.streams[0]? = some c ∧
    (okEvents c.received).Pairwise (fun a b => a.seq < b.seq) ∧
    ∃ event, c.received.getLast? = some (.ok event) ∧ terminalStatus event.status = true := by
  have hstep : ∃ snapshot post, (watching Master.Small.env).step Small.before Small.watch =
      some (post, some (.watchJob "j" (.ok snapshot))) := ⟨_, _, rfl⟩
  obtain ⟨snapshot, post, hstep⟩ := hstep
  have hmem := (watching Master.Small.env).mem_trace (watching Master.Small.env).init
    Small.opening Small.closing hstep
  have hrun := (watching Master.Small.env).run_play (watching Master.Small.env).init
    (Small.opening ++ Small.watch :: Small.closing)
  obtain ⟨c, _, hc, _, _, _, hseq, _, _, hend⟩ := watch_streams hrun (by decide) hmem rfl
  have hc' : Small.final.watchers.streams[0]? = some c := hc
  have hread : Small.final.watchers.streams[0]?.map (fun c => (c.receiver, c.overflowed)) =
      some (.ended, false) := by decide
  rw [hc', Option.map_some, Option.some.injEq, Prod.mk.injEq] at hread
  exact ⟨c, hc', hseq, hend hread.1 hread.2⟩

end CvdBench.Events
