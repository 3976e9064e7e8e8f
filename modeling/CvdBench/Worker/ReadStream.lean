import CvdBench.Worker.FsIo

/-!
The tasks behind the stream of one read: the producer that fills the channel of its
consumer, and for direct I/O a blocking thread before it. The producer of a direct read
holds the receiver of the thread's channel until the thread has ended.
-/

set_option autoImplicit false

namespace CvdBench.Worker

/-- The task that runs `stream_read_file`. -/
inductive Producer where
  /-- for the next item: `sync_rx.recv()`, or the next read -/
  | recv
  /-- in `tx.send(item)` -/
  | send (item : ReadStreamItem)
  /-- in `blocker.await` -/
  | await
  | done
  deriving DecidableEq, Repr

structure ReadStream where
  direct : Bool
  pending : List ReadStreamItem
  /-- `sync_channel(2)` -/
  sync : List ReadStreamItem
  producer : Producer
  /-- `mpsc::channel(4)` -/
  chan : List ReadStreamItem
  rxOpen : Bool
  deriving DecidableEq, Repr

namespace ReadStream

def spawn (direct : Bool) (file : FileRead) : ReadStream :=
  ⟨direct, file.items, [], .recv, [], true⟩

/-- `stream_read_file_blocking`, on a thread of its own. -/
def stepBlocker (s : ReadStream) : Option ReadStream :=
  match s.direct, s.pending with
  | true, item :: pending =>
      if s.sync.length < 2 then some { s with pending, sync := s.sync ++ [item] } else none
  | _, _ => none

/-- After its loop a producer of direct reads waits for the thread. -/
def leave (s : ReadStream) : ReadStream :=
  { s with producer := if s.direct then .await else .done }

def stepProducer (s : ReadStream) : Option ReadStream :=
  match s.producer with
  | .recv => match s.direct with
    | true => match s.sync with
      | item :: sync => some { s with sync, producer := .send item }
      | [] => if s.pending = [] then some s.leave else none
    | false => match s.pending with
      | item :: pending => some { s with pending, producer := .send item }
      | [] => some s.leave
  | .send item =>
      if s.rxOpen = false then some s.leave
      else if s.chan.length < 4 then
        some { s with chan := s.chan ++ [item], producer := .recv }
      else none
  | .await => if s.pending = [] then some { s with producer := .done } else none
  | .done => none

/-- `drop(rx)` -/
def close (s : ReadStream) : ReadStream := { s with chan := [], rxOpen := false }

def held (s : ReadStream) : List ReadStreamItem :=
  match s.producer with
  | .send item => [item]
  | _ => []

/-- What has not reached the channel of the consumer. -/
def unsent (s : ReadStream) : List ReadStreamItem := s.held ++ s.sync ++ s.pending

inductive Move (s : ReadStream) : ReadStream → Prop where
  | read (item : ReadStreamItem) (pending : List ReadStreamItem) :
      s.direct = true → s.pending = item :: pending → s.sync.length < 2 →
      Move s { s with pending, sync := s.sync ++ [item] }
  | take (item : ReadStreamItem) (sync : List ReadStreamItem) :
      s.direct = true → s.producer = .recv → s.sync = item :: sync →
      Move s { s with sync, producer := .send item }
  | drained : s.direct = true → s.producer = .recv → s.sync = [] → s.pending = [] →
      Move s { s with producer := .await }
  | produce (item : ReadStreamItem) (pending : List ReadStreamItem) :
      s.direct = false → s.producer = .recv → s.pending = item :: pending →
      Move s { s with pending, producer := .send item }
  | finished : s.direct = false → s.producer = .recv → s.pending = [] →
      Move s { s with producer := .done }
  | send (item : ReadStreamItem) : s.producer = .send item → s.rxOpen = true →
      s.chan.length < 4 → Move s { s with chan := s.chan ++ [item], producer := .recv }
  | refused (item : ReadStreamItem) : s.producer = .send item → s.rxOpen = false →
      Move s s.leave
  | joined : s.producer = .await → s.pending = [] → Move s { s with producer := .done }

variable {file : FileRead} {seen : List ReadStreamItem} {s s' : ReadStream}

theorem stepBlocker_move (h : s.stepBlocker = some s') : s.Move s' := by
  unfold stepBlocker at h
  split at h
  · next item pending hdirect hpending =>
    split at h
    · next hroom =>
      cases h
      exact .read item pending hdirect hpending hroom
    · cases h
  · cases h

theorem stepProducer_move (h : s.stepProducer = some s') : s.Move s' := by
  unfold stepProducer at h
  split at h
  · next hproducer =>
    split at h
    · next hdirect =>
      split at h
      · next item sync hsync =>
        cases h
        exact .take item sync hdirect hproducer hsync
      · next hsync =>
        split at h
        · next hpending =>
          have hmove := Move.drained hdirect hproducer hsync hpending
          simp only [leave, hdirect, if_true] at h
          cases h
          simpa [hdirect] using hmove
        · cases h
    · next hdirect =>
      split at h
      · next item pending hpending =>
        cases h
        exact .produce item pending hdirect hproducer hpending
      · next hpending =>
        have hmove := Move.finished hdirect hproducer hpending
        simp only [leave, hdirect] at h
        cases h
        simpa [hdirect] using hmove
  · next item hproducer =>
    split at h
    · next hclosed =>
      cases h
      exact .refused item hproducer hclosed
    · next hopen =>
      split at h
      · next hroom =>
        cases h
        exact .send item hproducer (by simpa using hopen) hroom
      · cases h
  · next hproducer =>
    split at h
    · next hpending =>
      cases h
      exact .joined hproducer hpending
    · cases h
  · cases h

/-- `seen` is what the consumer has received. -/
structure Flowing (file : FileRead) (seen : List ReadStreamItem) (s : ReadStream) : Prop where
  items : seen ++ s.chan ++ s.unsent = file.items
  opened : s.rxOpen = true
  sync : s.direct = false → s.sync = []
  full : s.sync.length ≤ 2
  awaits : s.producer = .await → s.direct = true
  ended : s.producer = .await ∨ s.producer = .done → s.unsent = []

theorem Flowing.spawn (direct : Bool) (file : FileRead) :
    Flowing file [] (.spawn direct file) where
  items := rfl
  opened := rfl
  sync := fun _ => rfl
  full := Nat.zero_le 2
  awaits := by simp [ReadStream.spawn]
  ended := by simp [ReadStream.spawn]

theorem Flowing.move (h : Flowing file seen s) (hmove : s.Move s') : Flowing file seen s' := by
  have hitems := h.items
  unfold unsent held at hitems
  cases hmove with
  | read item pending hdirect hpending hroom =>
    refine ⟨?_, h.opened, by simp [hdirect], by simp; omega, h.awaits, fun hended => ?_⟩
    · simpa [unsent, held, hpending] using hitems
    · have hnone := h.ended hended
      simp [unsent, hpending] at hnone
  | take item sync hdirect hproducer hsync =>
    have hfull := h.full
    rw [hsync, List.length_cons] at hfull
    refine ⟨?_, h.opened, by simp [hdirect], by simp only; omega, by simp, by simp⟩
    simpa [unsent, held, hproducer, hsync] using hitems
  | drained hdirect hproducer hsync hpending =>
    refine ⟨?_, h.opened, h.sync, h.full, fun _ => hdirect, by simp [unsent, held, hsync, hpending]⟩
    simpa [unsent, held, hproducer] using hitems
  | produce item pending hdirect hproducer hpending =>
    refine ⟨?_, h.opened, h.sync, h.full, by simp, by simp⟩
    simpa [unsent, held, hproducer, hpending, h.sync hdirect] using hitems
  | finished hdirect hproducer hpending =>
    refine ⟨?_, h.opened, h.sync, h.full, by simp, by simp [unsent, held, hpending, h.sync hdirect]⟩
    simpa [unsent, held, hproducer] using hitems
  | send item hproducer hopen hroom =>
    refine ⟨?_, h.opened, h.sync, h.full, by simp, by simp⟩
    simpa [unsent, held, hproducer] using hitems
  | refused item hproducer hclosed =>
    rw [h.opened] at hclosed
    cases hclosed
  | joined hproducer hpending =>
    have hnone := h.ended (.inl hproducer)
    unfold unsent held at hnone
    rw [hproducer] at hnone
    refine ⟨?_, h.opened, h.sync, h.full, by simp, fun _ => hnone⟩
    simpa [unsent, held, hproducer] using hitems

theorem Flowing.receive {item : ReadStreamItem} {chan : List ReadStreamItem}
    (h : Flowing file seen s) (hchan : s.chan = item :: chan) :
    Flowing file (seen ++ [item]) { s with chan } where
  items := by
    have hitems := h.items
    rw [hchan] at hitems
    simpa [unsent, held] using hitems
  opened := h.opened
  sync := h.sync
  full := h.full
  awaits := h.awaits
  ended := h.ended

/-- A producer that looks for the next item finds it, finds the end, or leaves its thread
room for one. -/
theorem recv_progress (hproducer : s.producer = .recv) :
    s.stepProducer.isSome ∨ s.stepBlocker.isSome := by
  cases hdirect : s.direct with
  | true =>
    cases hsync : s.sync with
    | cons item sync => simp [stepProducer, hproducer, hdirect, hsync]
    | nil =>
      cases hpending : s.pending with
      | nil => simp [stepProducer, hproducer, hdirect, hsync, hpending]
      | cons item pending => simp [stepBlocker, hdirect, hpending, hsync]
  | false => cases hpending : s.pending <;> simp [stepProducer, hproducer, hdirect, hpending]

theorem Flowing.progress (h : Flowing file seen s) (hchan : s.chan = [])
    (hdone : s.producer ≠ .done) : s.stepProducer.isSome ∨ s.stepBlocker.isSome := by
  cases hproducer : s.producer with
  | recv => exact recv_progress hproducer
  | send item => simp [stepProducer, hproducer, h.opened, hchan]
  | await =>
    have hnone := h.ended (.inl hproducer)
    have hpending : s.pending = [] := by
      simp only [unsent, List.append_eq_nil_iff] at hnone
      exact hnone.2
    simp [stepProducer, hproducer, hpending]
  | done => exact absurd hproducer hdone

/-- The producer of a direct read drops one item more. What is left then fits into the
channel of the thread, so that the thread ends. -/
structure Draining (s : ReadStream) : Prop where
  closed : s.rxOpen = false
  awaits : s.producer = .await → s.direct = true
  room : s.direct = true → s.unsent.length ≤ (if s.producer = .await then 2 else 3)

/-- The thread has more to send than anybody will receive. -/
structure Hung (s : ReadStream) : Prop where
  direct : s.direct = true
  closed : s.rxOpen = false
  running : s.producer ≠ .done
  full : s.sync.length ≤ 2
  more : (if s.producer = .await then 2 else 3) < s.unsent.length

theorem Flowing.close (h : Flowing file seen s)
    (hroom : s.direct = true → s.unsent.length ≤ 3) : s.close.Draining where
  closed := rfl
  awaits := h.awaits
  room hdirect := by
    have hsame : s.close.unsent = s.unsent := rfl
    rw [hsame]
    by_cases hawait : s.producer = .await
    · rw [h.ended (.inl hawait)]
      exact Nat.zero_le _
    · rw [if_neg (show s.close.producer ≠ .await from hawait)]
      exact hroom hdirect

theorem Flowing.close_hung (h : Flowing file seen s) (hdirect : s.direct = true)
    (hmore : 3 < s.unsent.length) : s.close.Hung where
  direct := hdirect
  closed := rfl
  running hdone := by
    have hdone' : s.producer = .done := hdone
    rw [h.ended (.inr hdone')] at hmore
    cases hmore
  full := h.full
  more := by
    have hsame : s.close.unsent = s.unsent := rfl
    rw [hsame]
    split <;> omega

theorem Draining.move (h : s.Draining) (hmove : s.Move s') : s'.Draining := by
  have hroom := h.room
  unfold unsent held at hroom
  cases hmove with
  | read item pending hdirect hpending =>
    refine ⟨h.closed, h.awaits, fun _ => ?_⟩
    have hle := hroom hdirect
    simp only [hpending, List.length_append, List.length_cons] at hle
    simp only [unsent, held, List.length_append, List.length_cons, List.length_nil]
    omega
  | take item sync hdirect hproducer hsync =>
    refine ⟨h.closed, by simp, fun _ => ?_⟩
    have hle := hroom hdirect
    simp only [hproducer, hsync, List.length_append, List.length_cons, List.length_nil] at hle
    simp [unsent, held]
    simp at hle
    omega
  | drained hdirect hproducer hsync hpending =>
    exact ⟨h.closed, fun _ => hdirect, by simp [unsent, held, hsync, hpending]⟩
  | produce item pending hdirect => exact ⟨h.closed, by simp, by simp [hdirect]⟩
  | finished hdirect => exact ⟨h.closed, by simp, by simp [hdirect]⟩
  | send item hproducer hopen =>
    rw [h.closed] at hopen
    cases hopen
  | refused item hproducer hclosed =>
    refine ⟨h.closed, ?_, fun hdirect => ?_⟩
    · cases hdirect : s.direct <;> simp [leave, hdirect]
    · have hdirect' : s.direct = true := hdirect
      have hle := hroom hdirect'
      rw [hproducer] at hle
      simp [leave, hdirect', unsent, held] at hle ⊢
      omega
  | joined hproducer hpending =>
    refine ⟨h.closed, by simp, fun hdirect => ?_⟩
    have hle := hroom hdirect
    rw [hproducer] at hle
    simp [unsent, held] at hle ⊢
    omega

theorem Draining.progress (h : s.Draining) (hdone : s.producer ≠ .done) :
    s.stepProducer.isSome ∨ s.stepBlocker.isSome := by
  cases hproducer : s.producer with
  | recv => exact recv_progress hproducer
  | send item => simp [stepProducer, hproducer, h.closed]
  | await =>
    have hdirect := h.awaits hproducer
    cases hpending : s.pending with
    | nil => simp [stepProducer, hproducer, hpending]
    | cons item pending =>
      have hle := h.room hdirect
      rw [if_pos hproducer] at hle
      simp only [unsent, hpending, List.length_append, List.length_cons] at hle
      have hroom : s.sync.length < 2 := by omega
      simp [stepBlocker, hdirect, hpending, hroom]
  | done => exact absurd hproducer hdone

theorem Hung.move (h : s.Hung) (hmove : s.Move s') : s'.Hung := by
  have hmore := h.more
  have hdirect := h.direct
  unfold unsent held at hmore
  cases hmove with
  | read item pending _ hpending hroom =>
    refine ⟨hdirect, h.closed, h.running, ?_, ?_⟩
    · simp
      omega
    · simp only [hpending, List.length_append, List.length_cons] at hmore
      simp only [unsent, held, List.length_append, List.length_cons, List.length_nil]
      omega
  | take item sync _ hproducer hsync =>
    have hfull := h.full
    rw [hsync] at hfull
    rw [hproducer, hsync] at hmore
    refine ⟨hdirect, h.closed, by simp, ?_, ?_⟩
    · simp at hfull ⊢
      omega
    · simp [unsent, held] at hmore ⊢
      omega
  | drained _ hproducer hsync hpending => simp [hproducer, hsync, hpending] at hmore
  | produce item pending hbuffered => simp [hdirect] at hbuffered
  | finished hbuffered => simp [hdirect] at hbuffered
  | send item hproducer hopen => simp [h.closed] at hopen
  | refused item hproducer hclosed =>
    rw [hproducer] at hmore
    refine ⟨hdirect, h.closed, by simp [leave, hdirect], h.full, ?_⟩
    simp [leave, hdirect, unsent, held] at hmore ⊢
    omega
  | joined hproducer hpending =>
    have hfull := h.full
    rw [hproducer, hpending] at hmore
    simp at hmore
    omega

end ReadStream

end CvdBench.Worker
