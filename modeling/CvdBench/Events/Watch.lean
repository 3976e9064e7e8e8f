import CvdBench.Events.Streams
import Mathlib.Algebra.GroupWithZero.Nat

/-!
The master together with its watchers. A step is a step of the master, whose calls on the
registry take effect at once, or a watcher takes an item or leaves. A section that makes
several calls makes them for different jobs, so what a watcher does in between it could
as well do before.
-/

set_option autoImplicit false

namespace CvdBench.Events

open Foundation Proto Master

structure Watched where
  sys : Sys
  watchers : Watchers

inductive WatchAction where
  /-- `slips` are the streams whose watcher takes an event during an overflow -/
  | master (c : Choice) (slips : Nat → Bool)
  | recv (i : Nat)
  | drop (i : Nat)

def newCalls (s s' : Sys) : List RegistryCall :=
  s'.master.subscribers.drop s.master.subscribers.length

/-- The stream of the answer. A subscription has made it, and a glance makes it now. -/
def Watchers.answer (w : Watchers) (calls : List RegistryCall) (rep : Option Reply) : Watchers :=
  match openedBy rep, calls with
  | some (_, snapshot), [] => w.single snapshot
  | _, _ => w

theorem Watchers.answer_none (w : Watchers) (calls : List RegistryCall) {rep : Option Reply}
    (h : openedBy rep = none) : w.answer calls rep = w := by
  simp [answer, h]

theorem Watchers.answer_cons (w : Watchers) (call : RegistryCall) (calls : List RegistryCall)
    (rep : Option Reply) : w.answer (call :: calls) rep = w := by
  simp [answer]

theorem Watchers.answer_glance (w : Watchers) {rep : Option Reply} {id : JobId}
    {snapshot : JobEvent} (h : openedBy rep = some (id, snapshot)) :
    w.answer [] rep = w.single snapshot := by
  simp [answer, h]

section

variable {H : Type} (env : MasterEnv H)

def Watched.stepMaster (s : Watched) (c : Choice) (slips : Nat → Bool) :
    Option (Watched × Option Reply) := do
  let (sys, rep) ← s.sys.step env c
  let calls := newCalls s.sys sys
  let watchers := calls.foldl (Watchers.apply slips) s.watchers
  return ({ sys, watchers := watchers.answer calls rep }, rep)

def Watched.stepStream (s : Watched) (i : Nat) (act : Stream → Option Stream) :
    Option (Watched × Option Reply) := do
  let c ← s.watchers.streams[i]?
  let c ← act c
  return ({ s with
    watchers := { s.watchers with streams := s.watchers.streams.set i c } }, none)

def Watched.step (s : Watched) : WatchAction → Option (Watched × Option Reply)
  | .master c slips => s.stepMaster env c slips
  | .recv i => s.stepStream i Channel.recv
  | .drop i => s.stepStream i Channel.dropReceiver

def watching : Machine Watched WatchAction (Option Reply) :=
  ⟨⟨.init, .new⟩, Watched.step env⟩

end

abbrev WatchStep := Event Watched WatchAction (Option Reply)

def built (e : WatchStep) : Nat :=
  (newCalls e.pre.sys e.post.sys).countP RegistryCall.isBroadcast +
    if (openedBy e.out).isSome then 1 else 0

def eventsBuilt (tr : List WatchStep) : Nat := (tr.map built).sum

def broadcastSince (j : JobId) (s t : Watched) : List JobEvent :=
  eventsOf j (newCalls s.sys t.sys)

section

variable {H : Type} {env : MasterEnv H} {s s' : Watched}

theorem step_cases {act : WatchAction} {rep : Option Reply}
    (h : (watching env).step s act = some (s', rep)) :
    (∃ c slips, act = .master c slips ∧ s.sys.step env c = some (s'.sys, rep) ∧
      s'.watchers = ((newCalls s.sys s'.sys).foldl (Watchers.apply slips) s.watchers).answer
        (newCalls s.sys s'.sys) rep) ∨
    ∃ i c c', s.watchers.streams[i]? = some c ∧ (c.recv = some c' ∨ c.dropReceiver = some c') ∧
      s' = { s with watchers := { s.watchers with streams := s.watchers.streams.set i c' } } ∧
      rep = none := by
  cases act with
  | master c slips =>
    simp only [watching, Watched.step, Watched.stepMaster, Option.bind_eq_bind,
      Option.bind_eq_some_iff, Option.pure_def, Option.some.injEq] at h
    obtain ⟨⟨sys, rep'⟩, hstep, heq⟩ := h
    cases heq
    exact .inl ⟨c, slips, rfl, hstep, rfl⟩
  | recv i =>
    simp only [watching, Watched.step, Watched.stepStream, Option.bind_eq_bind,
      Option.bind_eq_some_iff, Option.pure_def, Option.some.injEq] at h
    obtain ⟨c, hc, c', hc', heq⟩ := h
    cases heq
    exact .inr ⟨i, c, c', hc, .inl hc', rfl, rfl⟩
  | drop i =>
    simp only [watching, Watched.step, Watched.stepStream, Option.bind_eq_bind,
      Option.bind_eq_some_iff, Option.pure_def, Option.some.injEq] at h
    obtain ⟨c, hc, c', hc', heq⟩ := h
    cases heq
    exact .inr ⟨i, c, c', hc, .inr hc', rfl, rfl⟩

theorem Watched.reachable (h : (watching env).Reachable s) : (machine env).Reachable s.sys := by
  refine h.invariant (P := fun s => (machine env).Reachable s.sys) .init ?_
  intro s act s' rep _ hs hstep
  rcases step_cases hstep with ⟨c, _, _, hsys, _⟩ | ⟨_, _, _, _, _, rfl, _⟩
  · exact hs.step hsys
  · exact hs

end

end CvdBench.Events
