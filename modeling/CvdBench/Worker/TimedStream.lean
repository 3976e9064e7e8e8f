import CvdBench.Worker.ReadStream

/-!
The stream of one read with the instants at which each call began and ended. An item keeps
them on its way through the channels, so that it may be received long after its call.
-/

set_option autoImplicit false

namespace CvdBench.Worker

/-- What the calls of one item gave, and when they were made. -/
structure TimedItem where
  item : ReadStreamItem
  began : Nat
  ended : Nat
  deriving DecidableEq, Repr

inductive StreamCall where
  | idle
  | since (began : Nat)
  /-- in `sync_tx.send(item)` -/
  | got (item : TimedItem)
  deriving DecidableEq, Repr

def StreamCall.held : StreamCall → List ReadStreamItem
  | .got t => [t.item]
  | _ => []

inductive TimedProducer where
  | recv
  | send (item : TimedItem)
  | await
  | done
  deriving DecidableEq, Repr

def TimedProducer.erase : TimedProducer → Producer
  | .recv => .recv
  | .send t => .send t.item
  | .await => .await
  | .done => .done

/-- A direct read makes its calls on the thread, the other reads in the producer. -/
structure TimedStream where
  direct : Bool
  pending : List ReadStreamItem
  call : StreamCall
  sync : List TimedItem
  producer : TimedProducer
  chan : List TimedItem
  rxOpen : Bool
  deriving DecidableEq, Repr

namespace TimedStream

def spawn (direct : Bool) (file : FileRead) : TimedStream :=
  ⟨direct, file.items, .idle, [], .recv, [], true⟩

def unread (s : TimedStream) : List ReadStreamItem := s.call.held ++ s.pending

/-- `stream_read_file_blocking` -/
def stepBlocker (now : Nat) (s : TimedStream) : Option TimedStream :=
  if s.direct then
    match s.call, s.pending with
    | .idle, _ :: _ => some { s with call := .since now }
    | .since began, item :: pending =>
        some { s with pending, call := .got ⟨item, began, now⟩ }
    | .got t, _ =>
        if s.sync.length < 2 then some { s with call := .idle, sync := s.sync ++ [t] } else none
    | _, _ => none
  else none

def leave (s : TimedStream) : TimedStream :=
  { s with producer := if s.direct then .await else .done }

def stepProducer (now : Nat) (s : TimedStream) : Option TimedStream :=
  match s.producer with
  | .recv => match s.direct with
    | true => match s.sync with
      | t :: sync => some { s with sync, producer := .send t }
      | [] => if s.unread = [] then some s.leave else none
    | false => match s.call, s.pending with
      | .idle, _ :: _ => some { s with call := .since now }
      | .since began, item :: pending =>
          some { s with pending, call := .idle, producer := .send ⟨item, began, now⟩ }
      | .idle, [] => some s.leave
      | _, _ => none
  | .send t =>
      if s.rxOpen = false then some s.leave
      else if s.chan.length < 4 then
        some { s with chan := s.chan ++ [t], producer := .recv }
      else none
  | .await => if s.unread = [] then some { s with producer := .done } else none
  | .done => none

/-- `drop(rx)` -/
def close (s : TimedStream) : TimedStream := { s with chan := [], rxOpen := false }

def erase (s : TimedStream) : ReadStream :=
  ⟨s.direct, s.unread, s.sync.map (·.item), s.producer.erase, s.chan.map (·.item),
    s.rxOpen⟩

@[simp] theorem erase_spawn (direct : Bool) (file : FileRead) :
    (spawn direct file).erase = .spawn direct file := rfl

theorem erase_leave (s : TimedStream) : s.leave.erase = s.erase.leave := by
  unfold leave erase ReadStream.leave
  cases s.direct <;> rfl

/-- A call is two steps here, of which one is a step there. -/
theorem stepBlocker_erase {now : Nat} {s s' : TimedStream} (h : s.stepBlocker now = some s') :
    s'.erase = s.erase ∨ s.erase.stepBlocker = some s'.erase := by
  unfold stepBlocker at h
  split at h
  · next hdirect =>
    split at h
    · next hcall hpending =>
      cases h
      left
      simp [erase, unread, StreamCall.held, hcall]
    · next hcall hpending =>
      cases h
      left
      simp [erase, unread, StreamCall.held, hcall, hpending]
    · next t pending hcall =>
      split at h
      · next hroom =>
        cases h
        right
        simp [erase, unread, StreamCall.held, hcall, ReadStream.stepBlocker, hdirect, hroom]
      · cases h
    · cases h
  · cases h

theorem stepProducer_erase {now : Nat} {s s' : TimedStream} (h : s.stepProducer now = some s') :
    s'.erase = s.erase ∨ s.erase.stepProducer = some s'.erase := by
  unfold stepProducer at h
  split at h
  · next hproducer =>
    split at h
    · next hdirect =>
      split at h
      · next t sync hsync =>
        cases h
        right
        simp [erase, ReadStream.stepProducer, hproducer, hdirect, hsync, TimedProducer.erase,
          unread]
      · next hsync =>
        split at h
        · next hunread =>
          cases h
          right
          rw [erase_leave]
          simp [erase, ReadStream.stepProducer, hproducer, hdirect, hsync, TimedProducer.erase,
            hunread]
        · cases h
    · next hdirect =>
      split at h
      · next hidle hpending =>
        cases h
        left
        simp [erase, unread, StreamCall.held, hidle]
      · next began item pending hsince hpending =>
        cases h
        right
        simp [erase, unread, StreamCall.held, hsince, hpending, ReadStream.stepProducer, hproducer,
          hdirect, TimedProducer.erase]
      · next hidle hpending =>
        cases h
        right
        rw [erase_leave]
        simp [erase, unread, StreamCall.held, hidle, hpending, ReadStream.stepProducer, hproducer,
          hdirect, TimedProducer.erase]
      · cases h
  · next t hproducer =>
    split at h
    · next hclosed =>
      cases h
      right
      rw [erase_leave]
      simp [erase, ReadStream.stepProducer, hproducer, hclosed, TimedProducer.erase]
    · next hopen =>
      split at h
      · next hroom =>
        cases h
        right
        simp [erase, ReadStream.stepProducer, hproducer, hopen, hroom, TimedProducer.erase, unread]
      · cases h
  · next hproducer =>
    split at h
    · next hunread =>
      cases h
      right
      simp [erase, ReadStream.stepProducer, hproducer, hunread, TimedProducer.erase]
      exact hunread
    · cases h
  · cases h

end TimedStream

end CvdBench.Worker
