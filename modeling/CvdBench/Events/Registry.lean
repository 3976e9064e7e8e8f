import CvdBench.Foundation.Channel
import CvdBench.Master.Announce

/-!
The registry of the watchers (`events/subscriber.rs`): for each job the channels that its
events go to. A sender is known by the position of its channel.
-/

set_option autoImplicit false

namespace CvdBench.Events

open Foundation Proto Master

def overflowMessage : String := "watcher buffer overflowed; reconnect to resume"

/-- What a stream carries: events, or the status that ends it. -/
abbrev StreamItem := Except String JobEvent

abbrev Stream := Channel StreamItem

def subscriberCapacity : Nat := 64

/-- The registry, and every watch stream that was ever opened. -/
structure Watchers where
  inner : HashMap JobId (List Nat)
  streams : List Stream

namespace Watchers

def new : Watchers := ⟨∅, []⟩

def senders (w : Watchers) (id : JobId) : List Nat := (w.inner.get? id).getD []

end Watchers

/-- One round of `retain` in `broadcast`, and whether the sender stays. With `slip` the
watcher takes an event between the two sends to a full channel. -/
def offer (slip : Bool) (event : JobEvent) (c : Stream) : Bool × Stream :=
  match c.trySend (.ok event) with
  | (.sent, c) => (true, c)
  | (.closed, c) => (false, c.dropSender)
  | (.full, c) =>
      let c := if slip then c.recv.getD c else c
      (false, (c.trySend (.error overflowMessage)).2.dropSender)

/-- `retain` over the senders of a job. -/
def retainSenders (slips : Nat → Bool) (event : JobEvent) :
    List Nat → List Stream → List Nat × List Stream
  | [], streams => ([], streams)
  | i :: list, streams => match streams[i]? with
    | none => retainSenders slips event list streams
    | some c =>
        let (stays, c) := offer (slips i) event c
        let (kept, streams) := retainSenders slips event list (streams.set i c)
        (if stays then i :: kept else kept, streams)

def dropSenders : List Nat → List Stream → List Stream
  | [], streams => streams
  | i :: list, streams => dropSenders list (streams.modify i Channel.dropSender)

namespace Watchers

def subscribeWithSnapshot (w : Watchers) (id : JobId) (snapshot : JobEvent) : Watchers :=
  let c : Stream := .new subscriberCapacity
  let i := w.streams.length
  { inner := w.inner.put id (w.senders id ++ [i])
    streams := w.streams ++ [(c.trySend (.ok snapshot)).2] }

def broadcast (w : Watchers) (slips : Nat → Bool) (id : JobId) (event : JobEvent) : Watchers :=
  match w.inner.get? id with
  | none => w
  | some list =>
      let (kept, streams) := retainSenders slips event list w.streams
      { inner := if kept.isEmpty then w.inner.remove id else w.inner.put id kept, streams }

def terminate (w : Watchers) (id : JobId) : Watchers :=
  { inner := w.inner.remove id, streams := dropSenders (w.senders id) w.streams }

def apply (slips : Nat → Bool) (w : Watchers) : RegistryCall → Watchers
  | .subscribeWithSnapshot id snapshot => w.subscribeWithSnapshot id snapshot
  | .broadcast id event => w.broadcast slips id event
  | .terminate id => w.terminate id

/-- The stream of a job that is terminal already: one event, and no sender. -/
def single (w : Watchers) (snapshot : JobEvent) : Watchers :=
  let c : Stream := .new 1
  { w with streams := w.streams ++ [(c.trySend (.ok snapshot)).2.dropSender] }

end Watchers

end CvdBench.Events
