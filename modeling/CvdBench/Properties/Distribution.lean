import CvdBench.Manifest.Exchange

/-!
Who gets what from a bounded queue. The permits that are free, held by a push, stored
with an item, or owed by a drain always add up to the capacity; so the queue never
outgrows it, although the semaphore and the deque have locks of their own.
-/

set_option autoImplicit false

namespace CvdBench.Manifest

open Foundation Proto Master

variable {α : Type} {x y : Exchange α}

inductive Exchange.Move (x : Exchange α) : Exchange α → ExchangeOut α → Prop where
  | push (item : α) : x.Move { x with pushes := x.pushes ++ [.waiting item] } .silent
  | acquire (i : Nat) (item : α) : x.pushes[i]? = some (.waiting item) →
      0 < x.queue.freeSlots →
      x.Move
        { x with
          queue := { x.queue with
            freeSlots := x.queue.freeSlots - 1, held := x.queue.held + 1 }
          pushes := x.pushes.set i (.holding item) } .silent
  | pushBack (i : Nat) (item : α) : x.pushes[i]? = some (.holding item) →
      0 < x.queue.held →
      x.Move
        { x with
          queue := { x.queue with
            inner := x.queue.inner ++ [item], held := x.queue.held - 1 }
          pushes := x.pushes.set i (.returned item (.ok ())) } (.pushed i item)
  | refuse (i : Nat) (item : α) : x.pushes[i]? = some (.waiting item) →
      x.Move { x with pushes := x.pushes.set i (.returned item (.error .queueClosed)) } .silent
  | fetch (batchSize : Int) :
      x.Move { x with fetches := x.fetches ++ [.drain (clampBatch batchSize)] } .silent
  | drain (i n : Nat) (t : FetchTask α) : x.fetches[i]? = some (.drain n) →
      t.taken? = some (x.queue.inner.take n) → t.owed = (x.queue.inner.take n).length →
      x.Move
        { x with
          queue := { x.queue with inner := x.queue.inner.drop n }
          fetches := x.fetches.set i t } (.drained i (x.queue.inner.take n))
  | addPermits (i : Nat) (files : List α) : x.fetches[i]? = some (.addPermits files) →
      x.Move
        { x with
          queue := { x.queue with freeSlots := x.queue.freeSlots + files.length }
          fetches := x.fetches.set i (.answered files true) } .silent
  | ask (i : Nat) (t t' : FetchTask α) : x.fetches[i]? = some t → t.owed = 0 →
      t'.owed = 0 → t.taken? = some [] → t'.taken? = some [] →
      x.Move { x with fetches := x.fetches.set i t' } .silent
  | close : x.Move { x with queue := { x.queue with semaphoreClosed := true } } .silent

theorem Exchange.acquire_move {i : Nat} {o : ExchangeOut α} (h : x.acquire i = some (y, o)) :
    x.Move y o := by
  unfold Exchange.acquire at h
  split at h
  · next item hi =>
    unfold BoundedQueue.acquire at h
    split at h
    · next hfree =>
      cases h
      exact .acquire i item hi hfree.2
    · simp at h
  · cases h

theorem Exchange.pushBack_move {i : Nat} {o : ExchangeOut α} (h : x.pushBack i = some (y, o)) :
    x.Move y o := by
  unfold Exchange.pushBack at h
  split at h
  · next item hi =>
    unfold BoundedQueue.pushBack at h
    split at h
    · next hheld =>
      cases h
      exact .pushBack i item hi hheld
    · simp at h
  · cases h

theorem Exchange.refuse_move {i : Nat} {o : ExchangeOut α} (h : x.refuse i = some (y, o)) :
    x.Move y o := by
  unfold Exchange.refuse at h
  split at h
  · next item hi =>
    split at h
    · cases h
      exact .refuse i item hi
    · cases h
  · cases h

theorem Exchange.resume_move {i : Nat} {done : Bool} {o : ExchangeOut α}
    (h : x.resume i done = some (y, o)) : x.Move y o := by
  unfold Exchange.resume at h
  cases hi : x.fetches[i]? with
  | none => simp [hi] at h
  | some t =>
    cases t with
    | drain n =>
      cases hfiles : x.queue.inner.take n with
      | nil =>
        simp [hi, FetchTask.step, BoundedQueue.drainUpTo, hfiles] at h
        obtain ⟨rfl, rfl⟩ := h
        have hmove := Exchange.Move.drain (x := x) i n .loadDone hi
          (by simp [hfiles, FetchTask.taken?])
          (by simp [hfiles, FetchTask.owed])
        rw [hfiles] at hmove
        exact hmove
      | cons f fs =>
        simp [hi, FetchTask.step, BoundedQueue.drainUpTo, hfiles] at h
        obtain ⟨rfl, rfl⟩ := h
        have hmove := Exchange.Move.drain (x := x) i n (.addPermits (f :: fs)) hi
          (by simp [hfiles, FetchTask.taken?]) (by simp [hfiles, FetchTask.owed])
        rw [hfiles] at hmove
        exact hmove
    | addPermits files =>
      simp [hi, FetchTask.step, BoundedQueue.addPermits] at h
      obtain ⟨rfl, rfl⟩ := h
      exact .addPermits i files hi
    | loadDone =>
      simp [hi, FetchTask.step] at h
      obtain ⟨rfl, rfl⟩ := h
      cases done <;> exact .ask i .loadDone _ hi rfl rfl rfl rfl
    | isEmpty =>
      simp [hi, FetchTask.step] at h
      obtain ⟨rfl, rfl⟩ := h
      exact .ask i .isEmpty _ hi rfl rfl rfl rfl
    | answered files hasMore => simp [hi, FetchTask.step] at h

theorem Exchange.step_move {a : ExchangeAct α} {o : ExchangeOut α} (h : x.step a = some (y, o)) :
    x.Move y o := by
  cases a with
  | push item =>
    cases h
    exact .push item
  | acquire i => exact Exchange.acquire_move h
  | pushBack i => exact Exchange.pushBack_move h
  | refuse i => exact Exchange.refuse_move h
  | fetch batchSize =>
    cases h
    exact .fetch batchSize
  | resume i done => exact Exchange.resume_move h
  | close =>
    cases h
    exact .close

/-- The books of the queue: the pushes `puts` and the drains `takes` in their order, each
with the number of its call, and every permit. -/
structure Accounted (capacity : Nat) (puts : List (Nat × α)) (takes : List (Nat × List α))
    (x : Exchange α) : Prop where
  content : takes.flatMap Prod.snd ++ x.queue.inner = puts.map Prod.snd
  pushed : ∀ i item, (i, item) ∈ puts ↔ x.pushes[i]? = some (.returned item (.ok ()))
  pushedOnce : (puts.map Prod.fst).Nodup
  drained : ∀ i files, (i, files) ∈ takes ↔
    ∃ t, x.fetches[i]? = some t ∧ t.taken? = some files
  drainedOnce : (takes.map Prod.fst).Nodup
  permits : x.queue.freeSlots + x.queue.held + x.queue.inner.length +
    Pool.total FetchTask.owed x.fetches = max capacity 1

theorem Accounted.init (capacity : Nat) :
    Accounted capacity [] [] (Exchange.init capacity : Exchange α) := by
  constructor <;> simp [Exchange.init, BoundedQueue.new]

theorem nodup_keys_concat {β : Type} {l : List (Nat × β)} {i : Nat} {b : β}
    (h : (l.map Prod.fst).Nodup) (hi : i ∉ l.map Prod.fst) :
    ((l ++ [(i, b)]).map Prod.fst).Nodup := by
  rw [List.map_append, List.nodup_append]
  refine ⟨h, by simp, fun j hj k hk heq => ?_⟩
  simp only [List.map_cons, List.map_nil, List.mem_singleton] at hk
  rw [heq, hk] at hj
  exact hi hj

section

variable {capacity : Nat} {puts : List (Nat × α)} {takes : List (Nat × List α)}

theorem pushed_set {pushes : List (Push α)} {i : Nat} {p : Push α} (p' : Push α)
    (h : ∀ j item, (j, item) ∈ puts ↔ pushes[j]? = some (.returned item (.ok ())))
    (hi : pushes[i]? = some p) (hp : ∀ item, p ≠ .returned item (.ok ()))
    (hp' : ∀ item, p' ≠ .returned item (.ok ())) :
    ∀ j item, (j, item) ∈ puts ↔ (pushes.set i p')[j]? = some (.returned item (.ok ())) := by
  intro j item
  rw [h, Pool.getElem?_set p' hi]
  by_cases hj : j = i
  · subst hj
    simp [hi, hp, hp']
  · rw [if_neg hj]

theorem drained_set {fetches : List (FetchTask α)} {i : Nat} {t : FetchTask α} (t' : FetchTask α)
    (h : ∀ j files, (j, files) ∈ takes ↔ ∃ t, fetches[j]? = some t ∧ t.taken? = some files)
    (hi : fetches[i]? = some t) (ht : t'.taken? = t.taken?) :
    ∀ j files, (j, files) ∈ takes ↔
      ∃ t, (fetches.set i t')[j]? = some t ∧ t.taken? = some files := by
  intro j files
  rw [h, Pool.getElem?_set t' hi]
  by_cases hj : j = i
  · subst hj
    simp [hi, ht]
  · rw [if_neg hj]

theorem Accounted.pushBack (h : Accounted capacity puts takes x) {i : Nat} {item : α}
    (hi : x.pushes[i]? = some (.holding item)) (hheld : 0 < x.queue.held) :
    Accounted capacity (puts ++ [(i, item)]) takes
      { x with
        queue := { x.queue with
          inner := x.queue.inner ++ [item], held := x.queue.held - 1 }
        pushes := x.pushes.set i (.returned item (.ok ())) } where
  content := by
    rw [← List.append_assoc, h.content]
    simp
  pushed := by
    intro j item'
    rw [List.mem_append, h.pushed, Pool.getElem?_set _ hi]
    by_cases hj : j = i
    · subst hj
      simp [hi, eq_comm]
    · simp [hj]
  pushedOnce := by
    have hfresh : i ∉ puts.map Prod.fst := by
      intro hmem
      obtain ⟨⟨j, item'⟩, hput, rfl⟩ := List.mem_map.mp hmem
      have hreturned := (h.pushed j item').mp hput
      rw [hi] at hreturned
      cases hreturned
    exact nodup_keys_concat h.pushedOnce hfresh
  drained := h.drained
  drainedOnce := h.drainedOnce
  permits := by
    have hpermits := h.permits
    simp only [List.length_append, List.length_singleton]
    omega

theorem Accounted.drain (h : Accounted capacity puts takes x) {i n : Nat} {t : FetchTask α}
    (hi : x.fetches[i]? = some (.drain n)) (htaken : t.taken? = some (x.queue.inner.take n))
    (howed : t.owed = (x.queue.inner.take n).length) :
    Accounted capacity puts (takes ++ [(i, x.queue.inner.take n)])
      { x with
        queue := { x.queue with inner := x.queue.inner.drop n }
        fetches := x.fetches.set i t } where
  content := by
    rw [List.flatMap_append, List.append_assoc]
    simp only [List.flatMap_cons, List.flatMap_nil, List.append_nil, List.take_append_drop]
    exact h.content
  pushed := h.pushed
  pushedOnce := h.pushedOnce
  drained := by
    intro j files
    rw [List.mem_append, h.drained, Pool.getElem?_set _ hi]
    by_cases hj : j = i
    · subst hj
      have hbefore : (FetchTask.drain n : FetchTask α).taken? = none := rfl
      simp [hi, htaken, hbefore, eq_comm]
    · simp [hj]
  drainedOnce := by
    have hfresh : i ∉ takes.map Prod.fst := by
      intro hmem
      obtain ⟨⟨j, files⟩, htake, rfl⟩ := List.mem_map.mp hmem
      obtain ⟨t', ht', htaken'⟩ := (h.drained j files).mp htake
      rw [hi] at ht'
      cases ht'
      simp [FetchTask.taken?] at htaken'
    exact nodup_keys_concat h.drainedOnce hfresh
  permits := by
    have hpermits := h.permits
    have htotal := Pool.total_set FetchTask.owed t hi
    have hsplit : (x.queue.inner.take n).length + (x.queue.inner.drop n).length =
        x.queue.inner.length := by
      rw [← List.length_append, List.take_append_drop]
    have hbefore : (FetchTask.drain n : FetchTask α).owed = 0 := rfl
    rw [hbefore, howed] at htotal
    simp only
    omega

theorem Accounted.move {o : ExchangeOut α} (h : Accounted capacity puts takes x)
    (hm : x.Move y o) :
    Accounted capacity (puts ++ o.pushed?.toList) (takes ++ o.drained?.toList) y := by
  have hpermits := h.permits
  cases hm with
  | push item =>
    have hpushed : ∀ j item', (j, item') ∈ puts ↔
        (x.pushes ++ [.waiting item])[j]? = some (.returned item' (.ok ())) := by
      intro j item'
      rw [h.pushed, Pool.getElem?_concat_iff (by simp)]
    simpa [ExchangeOut.pushed?, ExchangeOut.drained?] using { h with pushed := hpushed }
  | acquire i item hi hfree =>
    have hpushed := pushed_set (.holding item) h.pushed hi (by simp) (by simp)
    simp only [ExchangeOut.pushed?, ExchangeOut.drained?, Option.toList_none, List.append_nil]
    refine { h with pushed := hpushed, permits := ?_ }
    simp only
    omega
  | pushBack i item hi hheld =>
    simpa [ExchangeOut.pushed?, ExchangeOut.drained?] using h.pushBack hi hheld
  | refuse i item hi =>
    have hpushed := pushed_set (.returned item (.error .queueClosed)) h.pushed hi
      (by simp) (by simp)
    simpa [ExchangeOut.pushed?, ExchangeOut.drained?] using { h with pushed := hpushed }
  | fetch batchSize =>
    have hdrained : ∀ j files, (j, files) ∈ takes ↔ ∃ t,
        (x.fetches ++ [.drain (clampBatch batchSize)])[j]? = some t ∧ t.taken? = some files := by
      intro j files
      rw [h.drained]
      constructor <;> intro ⟨t, ht, htaken⟩ <;> refine ⟨t, ?_, htaken⟩
      · rw [Pool.getElem?_concat_iff]
        · exact ht
        · intro heq
          subst heq
          simp [FetchTask.taken?] at htaken
      · rw [Pool.getElem?_concat_iff] at ht
        · exact ht
        · intro heq
          subst heq
          simp [FetchTask.taken?] at htaken
    simp only [ExchangeOut.pushed?, ExchangeOut.drained?, Option.toList_none, List.append_nil]
    refine { h with drained := hdrained, permits := ?_ }
    simpa [FetchTask.owed] using hpermits
  | drain i n t hi htaken howed =>
    simpa [ExchangeOut.pushed?, ExchangeOut.drained?] using h.drain hi htaken howed
  | addPermits i files hi =>
    have htotal := Pool.total_set FetchTask.owed (.answered files true) hi
    have hdrained := drained_set (.answered files true) h.drained hi rfl
    simp only [FetchTask.owed] at htotal
    simp only [ExchangeOut.pushed?, ExchangeOut.drained?, Option.toList_none, List.append_nil]
    refine { h with drained := hdrained, permits := ?_ }
    simp only
    omega
  | ask i t t' hi howed howed' htaken htaken' =>
    have htotal := Pool.total_set_eq FetchTask.owed hi (howed'.trans howed.symm)
    have hdrained := drained_set t' h.drained hi (htaken'.trans htaken.symm)
    simp only [ExchangeOut.pushed?, ExchangeOut.drained?, Option.toList_none, List.append_nil]
    refine { h with drained := hdrained, permits := ?_ }
    simp only [htotal]
    exact hpermits
  | close => simpa [ExchangeOut.pushed?, ExchangeOut.drained?] using { h with }

end

def Booked (capacity : Nat) (tr : ExchangeTrace α) (x : Exchange α) : Prop :=
  Accounted capacity (pushOrder tr) (drainOrder tr) x

theorem Run.booked {capacity : Nat} {tr : ExchangeTrace α}
    (h : (exchange α capacity).Run (.init capacity) tr x) : Booked capacity tr x := by
  refine h.history (.init capacity) ?_
  intro tr x a y o _ hbooked hstep
  have hmoved := hbooked.move (Exchange.step_move hstep)
  unfold Booked
  rw [pushOrder_concat, drainOrder_concat]
  exact hmoved

/-- Over every run of a queue of any capacity, with any pushes, any FetchFileBatch calls
and closes at any time: the batches in drain order, followed by what is still queued, are
the items whose push did its `push_back`, in that order, and exactly those pushes
returned `Ok`; a push is queued once and a call drains once, and answers with what it
drained; a push that returned `QueueClosed` is not among those queued; and the queue
never holds more than its capacity. -/
theorem distribution_exactlyOnce {capacity : Nat} {tr : ExchangeTrace α}
    (h : (exchange α capacity).Run (.init capacity) tr x) :
    (drainOrder tr).flatMap Prod.snd ++ x.queue.inner = (pushOrder tr).map Prod.snd ∧
    (∀ i item, (i, item) ∈ pushOrder tr ↔ x.pushes[i]? = some (.returned item (.ok ()))) ∧
    ((pushOrder tr).map Prod.fst).Nodup ∧
    ((drainOrder tr).map Prod.fst).Nodup ∧
    (∀ i files hasMore, x.fetches[i]? = some (.answered files hasMore) →
      (i, files) ∈ drainOrder tr) ∧
    (∀ i files, (i, files) ∈ drainOrder tr →
      ∃ t, x.fetches[i]? = some t ∧ t.taken? = some files) ∧
    (∀ i item, x.pushes[i]? = some (.returned item (.error .queueClosed)) →
      i ∉ (pushOrder tr).map Prod.fst) ∧
    x.queue.inner.length ≤ max capacity 1 := by
  have hbooked : Accounted capacity (pushOrder tr) (drainOrder tr) x := Run.booked h
  refine ⟨hbooked.content, hbooked.pushed, hbooked.pushedOnce, hbooked.drainedOnce, ?_, ?_, ?_, ?_⟩
  · intro i files hasMore hi
    exact (hbooked.drained i files).mpr ⟨_, hi, rfl⟩
  · intro i files hmem
    exact (hbooked.drained i files).mp hmem
  · intro i item hi hmem
    obtain ⟨⟨j, item'⟩, hput, rfl⟩ := List.mem_map.mp hmem
    have hok := (hbooked.pushed j item').mp hput
    rw [hi] at hok
    cases hok
  · have hpermits := hbooked.permits
    omega

/-- Three pushes into a queue of capacity 2: one call drains the first two, and the third
push finds the queue closed. -/
def Small.closedEarly : List (ExchangeAct Nat) :=
  [.push 7, .push 8, .push 9, .acquire 0, .acquire 1, .pushBack 1, .pushBack 0, .close,
    .fetch 0, .resume 0 false, .refuse 2, .resume 0 false]

theorem distribution_exactlyOnce_small :
    (2 : Nat) ∉ (pushOrder ((exchange Nat 2).trace (.init 2) Small.closedEarly)).map Prod.fst ∧
    (0, [8, 7]) ∈ drainOrder ((exchange Nat 2).trace (.init 2) Small.closedEarly) := by
  obtain ⟨_, _, _, _, hanswered, _, hrefused, _⟩ :=
    distribution_exactlyOnce ((exchange Nat 2).run_play (.init 2) Small.closedEarly)
  exact ⟨hrefused 2 9 rfl, hanswered 0 [8, 7] true rfl⟩

end CvdBench.Manifest
