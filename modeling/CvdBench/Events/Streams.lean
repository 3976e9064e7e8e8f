import CvdBench.Events.Registry

/-!
What one watch stream carries while the registry is called: the events of its job from
its snapshot on, all of them as long as nobody fell behind or left.
-/

set_option autoImplicit false

namespace CvdBench.Events

open Foundation Proto Master

def okEvents (items : List StreamItem) : List JobEvent := items.filterMap (·.toOption)

@[simp] theorem okEvents_append (items items' : List StreamItem) :
    okEvents (items ++ items') = okEvents items ++ okEvents items' := by simp [okEvents]

@[simp] theorem okEvents_ok (events : List JobEvent) :
    okEvents (events.map .ok) = events := by
  simp [okEvents, Except.toOption]

@[simp] theorem okEvents_error (message : String) : okEvents [.error message] = [] := rfl

theorem okEvents_prefix {items items' : List StreamItem} (h : items <+: items') :
    okEvents items <+: okEvents items' := by
  obtain ⟨rest, rfl⟩ := h
  exact ⟨okEvents rest, (okEvents_append ..).symm⟩

/-- The channel of a stream on a job that has had these events since the subscription.
While the job is `live`, only a watcher that fell behind or left has no sender. -/
structure Carries (live : Prop) (c : Stream) (events : List JobEvent) : Prop where
  part : okEvents c.items <+: events
  whole : c.overflowed = false → c.receiver ≠ .dropped → c.items = events.map .ok
  sender : c.hasSender = true → c.overflowed = false
  ended : c.receiver = .ended → c.buffer = [] ∧ c.hasSender = false
  served : live → c.hasSender = true ∨ c.overflowed = true ∨ c.receiver = .dropped

namespace Carries

variable {live : Prop} {c c' : Stream} {events : List JobEvent}

theorem ofLive {live' : Prop} (h : Carries live c events) (himp : live' → live) :
    Carries live' c events :=
  ⟨h.part, h.whole, h.sender, h.ended, fun hlive => h.served (himp hlive)⟩

theorem dropSender (h : Carries live c events) : Carries False c.dropSender events :=
  ⟨h.part, h.whole, fun hs => Bool.noConfusion hs, fun he => ⟨(h.ended he).1, rfl⟩,
    False.elim⟩

theorem missed (h : Carries live c events) (hlive : live) (hs : c.hasSender = false)
    (event : JobEvent) : Carries live c (events ++ [event]) := by
  refine ⟨h.part.trans (List.prefix_append ..), fun hover hdrop => ?_, h.sender, h.ended,
    h.served⟩
  rcases h.served hlive with hsender | hover' | hdrop'
  · rw [hs] at hsender
    cases hsender
  · rw [hover] at hover'
    cases hover'
  · exact absurd hdrop' hdrop

theorem offered (h : Carries live c events) (hs : c.hasSender = true) (slip : Bool)
    (event : JobEvent) : Carries live (offer slip event c).2 (events ++ [event]) ∧
      (offer slip event c).1 = (offer slip event c).2.hasSender := by
  have hover := h.sender hs
  have hpart : okEvents c.items <+: events ++ [event] := h.part.trans (List.prefix_append ..)
  have hended : c.receiver ≠ .ended := by
    intro he
    rw [(h.ended he).2] at hs
    cases hs
  unfold offer
  rcases c.trySend_spec (.ok event) with ⟨hdrop, heq⟩ | ⟨hdrop, heq⟩ | ⟨hdrop, heq⟩
  · rw [heq]
    exact ⟨⟨hpart, fun _ hd => absurd hdrop hd, fun _ => hover, fun he => absurd he hended,
      fun _ => .inr (.inr hdrop)⟩, rfl⟩
  · rw [heq]
    have hitems : ({ c with buffer := c.buffer ++ [.ok event] } : Stream).items =
        (events ++ [event]).map .ok := by
      rw [List.map_append, ← h.whole hover hdrop]
      exact (List.append_assoc ..).symm
    refine ⟨⟨?_, fun _ _ => hitems, fun _ => hover, fun he => absurd he hended,
      fun _ => .inl hs⟩, hs.symm⟩
    rw [hitems, okEvents_ok]
  · rw [heq]
    -- the channel overflowed, so all that is left to show is that its events are a part
    have hlast : ∀ c' : Stream, c'.items = c.items → c'.overflowed = true →
        c'.receiver ≠ .ended →
        Carries live (c'.trySend (.error overflowMessage)).2.dropSender (events ++ [event]) := by
      intro c' hitems hover' hended'
      rcases c'.trySend_spec (.error overflowMessage) with ⟨_, heq'⟩ | ⟨_, heq'⟩ | ⟨_, heq'⟩
      all_goals rw [heq']
      · refine ⟨by rw [Channel.items_dropSender, hitems]; exact hpart, fun hno => ?_,
          fun hno => Bool.noConfusion hno, fun he => absurd he hended',
          fun _ => .inr (.inl hover')⟩
        exact absurd hno (by simp [Channel.dropSender, hover'])
      · refine ⟨?_, fun hno => ?_, fun hno => Bool.noConfusion hno,
          fun he => absurd he hended', fun _ => .inr (.inl hover')⟩
        · have happend : ({ c' with buffer := c'.buffer ++ [.error overflowMessage] } :
              Stream).items = c.items ++ [.error overflowMessage] := by
            rw [← hitems]
            exact (List.append_assoc ..).symm
          rw [Channel.items_dropSender, happend, okEvents_append, okEvents_error,
            List.append_nil]
          exact hpart
        · exact absurd hno (by simp [Channel.dropSender, hover'])
      · refine ⟨?_, fun hno => Bool.noConfusion hno, fun hno => Bool.noConfusion hno,
          fun he => absurd he hended', fun _ => .inr (.inl rfl)⟩
        exact hitems ▸ hpart
    refine ⟨?_, rfl⟩
    cases slip with
    | false => exact hlast _ rfl rfl hended
    | true =>
      simp only [if_true]
      cases hrecv : Channel.recv { c with overflowed := true } with
      | none => exact hlast _ rfl rfl hended
      | some c' =>
        obtain ⟨_, hitems, hsender, hover', hrec⟩ := Channel.recv_spec hrecv
        refine hlast c' hitems hover' fun he => ?_
        rcases hrec with hrec | ⟨_, _, hnone⟩
        · rw [hrec] at he
          cases he
        · rw [hsender, show Channel.hasSender { c with overflowed := true } = true from hs]
            at hnone
          cases hnone

theorem recv (h : Carries live c events) (hrecv : c.recv = some c') :
    Carries live c' events := by
  obtain ⟨hlisten, hitems, hsender, hover, hrec⟩ := Channel.recv_spec hrecv
  have hdropped : c.receiver ≠ .dropped := by rw [hlisten]; exact Receiver.noConfusion
  refine ⟨hitems ▸ h.part, fun ho _ => ?_, fun hs => ?_, fun he => ?_, fun hlive => ?_⟩
  · rw [hitems]
    exact h.whole (hover ▸ ho) hdropped
  · rw [hover]
    exact h.sender (hsender ▸ hs)
  · rcases hrec with hrec | ⟨_, hempty, hnone⟩
    · rw [hrec] at he
      cases he
    · exact ⟨hempty, hnone⟩
  · rw [hsender, hover]
    rcases h.served hlive with hs | ho | hd
    · exact .inl hs
    · exact .inr (.inl ho)
    · exact absurd hd hdropped

theorem dropReceiver (h : Carries live c events) (hdrop : c.dropReceiver = some c') :
    Carries live c' events := by
  have hpart := ( okEvents_prefix (Channel.items_dropReceiver hdrop)).trans h.part
  obtain rfl := Channel.dropReceiver_spec hdrop
  exact ⟨hpart, fun _ hd => absurd rfl hd, h.sender, fun he => Receiver.noConfusion he,
    fun _ => .inr (.inr rfl)⟩

end Carries

section

variable {slips : Nat → Bool} {event : JobEvent} {k i : Nat} {list : List Nat}
  {streams : List Stream} {c : Stream}

theorem retainSenders_none (hk : streams[k]? = none) :
    retainSenders slips event (k :: list) streams = retainSenders slips event list streams := by
  simp [retainSenders, hk]

theorem retainSenders_some (hk : streams[k]? = some c) :
    retainSenders slips event (k :: list) streams =
      (if (offer (slips k) event c).1 then
          k :: (retainSenders slips event list (streams.set k (offer (slips k) event c).2)).1
        else (retainSenders slips event list (streams.set k (offer (slips k) event c).2)).1,
        (retainSenders slips event list (streams.set k (offer (slips k) event c).2)).2) := by
  simp [retainSenders, hk]

theorem length_retainSenders (slips : Nat → Bool) (event : JobEvent) (list : List Nat)
    (streams : List Stream) :
    (retainSenders slips event list streams).2.length = streams.length := by
  induction list generalizing streams with
  | nil => rfl
  | cons k list ih =>
    cases hk : streams[k]? with
    | none =>
      rw [retainSenders_none hk]
      exact ih streams
    | some c =>
      rw [retainSenders_some hk]
      exact (ih _).trans List.length_set

theorem retainSenders_sublist (slips : Nat → Bool) (event : JobEvent) (list : List Nat)
    (streams : List Stream) : (retainSenders slips event list streams).1.Sublist list := by
  induction list generalizing streams with
  | nil => exact .slnil
  | cons k list ih =>
    cases hk : streams[k]? with
    | none =>
      rw [retainSenders_none hk]
      exact (ih streams).cons k
    | some c =>
      rw [retainSenders_some hk]
      dsimp only
      split
      · exact (ih _).cons_cons k
      · exact (ih _).cons k

theorem retainSenders_other (hi : i ∉ list) :
    (retainSenders slips event list streams).2[i]? = streams[i]? := by
  induction list generalizing streams with
  | nil => rfl
  | cons k list ih =>
    rw [List.mem_cons, not_or] at hi
    cases hk : streams[k]? with
    | none =>
      rw [retainSenders_none hk]
      exact ih hi.2
    | some c =>
      rw [retainSenders_some hk]
      exact (ih hi.2).trans (List.getElem?_set_ne (Ne.symm hi.1))

theorem retainSenders_stream (hnodup : list.Nodup) (hi : i ∈ list) :
    (retainSenders slips event list streams).2[i]? =
      streams[i]?.map fun c => (offer (slips i) event c).2 := by
  induction list generalizing streams with
  | nil => cases hi
  | cons k list ih =>
    obtain ⟨hnew, hrest⟩ := List.nodup_cons.mp hnodup
    cases hk : streams[k]? with
    | none =>
      rw [retainSenders_none hk]
      rcases List.mem_cons.mp hi with rfl | hi
      · rw [retainSenders_other hnew, hk]
        rfl
      · exact ih hrest hi
    | some c =>
      rw [retainSenders_some hk]
      rcases List.mem_cons.mp hi with rfl | hi
      · have hlt := (List.getElem?_eq_some_iff.mp hk).1
        rw [retainSenders_other hnew, List.getElem?_set_self hlt, hk]
        rfl
      · have hne : k ≠ i := by
          rintro rfl
          exact hnew hi
        rw [ih hrest hi, List.getElem?_set_ne hne]

theorem mem_retainSenders (hnodup : list.Nodup) :
    i ∈ (retainSenders slips event list streams).1 ↔
      i ∈ list ∧ ∃ c, streams[i]? = some c ∧ (offer (slips i) event c).1 = true := by
  induction list generalizing streams with
  | nil => simp [retainSenders]
  | cons k list ih =>
    obtain ⟨hnew, hrest⟩ := List.nodup_cons.mp hnodup
    have hnotin : ∀ streams, k ∉ (retainSenders slips event list streams).1 :=
      fun streams hmem => hnew ((retainSenders_sublist slips event list streams).mem hmem)
    by_cases hik : i = k
    · subst hik
      cases hi : streams[i]? with
      | none =>
        rw [retainSenders_none hi]
        simp [hnotin]
      | some c =>
        rw [retainSenders_some hi]
        cases hstays : (offer (slips i) event c).1 <;> simp [hnotin, hstays]
    · cases hk : streams[k]? with
      | none =>
        rw [retainSenders_none hk, ih hrest, List.mem_cons, or_iff_right hik]
      | some c =>
        rw [retainSenders_some hk, List.mem_cons, or_iff_right hik]
        have hother : (streams.set k (offer (slips k) event c).2)[i]? = streams[i]? :=
          List.getElem?_set_ne (Ne.symm hik)
        have hlist := @ih (streams.set k (offer (slips k) event c).2) hrest
        rw [hother] at hlist
        rw [← hlist]
        cases hstays : (offer (slips k) event c).1 <;> simp [hik]

end

theorem retainSenders_spec (slips : Nat → Bool) (event : JobEvent) (list : List Nat)
    (streams : List Stream) (hnodup : list.Nodup) :
    (retainSenders slips event list streams).1.Nodup ∧
    (retainSenders slips event list streams).2.length = streams.length ∧
    (∀ i, (retainSenders slips event list streams).2[i]? =
      if i ∈ list then streams[i]?.map fun c => (offer (slips i) event c).2 else streams[i]?) ∧
    ∀ i, i ∈ (retainSenders slips event list streams).1 ↔
      i ∈ list ∧ ∃ c, streams[i]? = some c ∧ (offer (slips i) event c).1 = true := by
  refine ⟨hnodup.sublist (retainSenders_sublist slips event list streams),
    length_retainSenders slips event list streams, fun i => ?_,
    fun i => mem_retainSenders hnodup⟩
  split
  · next hi => exact retainSenders_stream hnodup hi
  · next hi => exact retainSenders_other hi

theorem dropSenders_spec (list : List Nat) (streams : List Stream) :
    (dropSenders list streams).length = streams.length ∧
    ∀ i, (dropSenders list streams)[i]? =
      if i ∈ list then streams[i]?.map Channel.dropSender else streams[i]? := by
  induction list generalizing streams with
  | nil => simp [dropSenders]
  | cons k list ih =>
    obtain ⟨hlen, hstream⟩ := ih (streams.modify k Channel.dropSender)
    refine ⟨hlen.trans (List.length_modify ..), fun i => ?_⟩
    rw [dropSenders, hstream i, List.getElem?_modify]
    by_cases hik : k = i
    · subst hik
      cases streams[k]? with
      | none => simp
      | some c => simp [Channel.dropSender]
    · have hki : ¬ i = k := fun h => hik h.symm
      cases streams[i]? with
      | none => simp [hik]
      | some c => simp [hik, hki]

namespace Watchers

variable {w : Watchers} {slips : Nat → Bool} {id j : JobId} {event : JobEvent}

theorem senders_subscribe (snapshot : JobEvent) :
    (w.subscribeWithSnapshot id snapshot).senders j =
      if j = id then w.senders id ++ [w.streams.length] else w.senders j := by
  show ((w.inner.put id _).get? j).getD [] = _
  rw [HashMap.get?_put]
  split
  · rfl
  · rfl

theorem senders_broadcast : (w.broadcast slips id event).senders j =
    if j = id then (retainSenders slips event (w.senders id) w.streams).1
    else w.senders j := by
  cases hget : w.inner.get? id with
  | none =>
    have hnone : w.senders id = [] := by rw [senders, hget]; rfl
    rw [hnone]
    simp only [broadcast, hget, retainSenders]
    split
    · next hj => rw [hj, hnone]
    · rfl
  | some list =>
    have hsome : w.senders id = list := by rw [senders, hget]; rfl
    rw [hsome]
    simp only [broadcast, hget, senders]
    generalize (retainSenders slips event list w.streams).1 = kept
    cases kept with
    | nil =>
      simp only [List.isEmpty_nil, if_true, HashMap.get?_remove]
      split
      · rfl
      · rfl
    | cons i kept =>
      simp only [List.isEmpty_cons, Bool.false_eq_true, if_false, HashMap.get?_put]
      split
      · rfl
      · rfl

theorem streams_broadcast : (w.broadcast slips id event).streams =
    (retainSenders slips event (w.senders id) w.streams).2 := by
  cases hget : w.inner.get? id with
  | none => simp [broadcast, hget, senders, retainSenders]
  | some list => simp [broadcast, hget, senders]

theorem senders_terminate : (w.terminate id).senders j = if j = id then [] else w.senders j := by
  show ((w.inner.remove id).get? j).getD [] = _
  rw [HashMap.get?_remove]
  split
  · rfl
  · rfl

structure Ok (w : Watchers) : Prop where
  nodup : ∀ id, (w.senders id).Nodup
  opened : ∀ id, ∀ i ∈ w.senders id, i < w.streams.length

theorem Ok.new : Watchers.new.Ok := by
  constructor <;> simp [Watchers.new, senders]

theorem Ok.apply (h : w.Ok) (slips : Nat → Bool) (call : RegistryCall) :
    (w.apply slips call).Ok := by
  cases call with
  | subscribeWithSnapshot id snapshot =>
    have hlen : (w.subscribeWithSnapshot id snapshot).streams.length =
      w.streams.length + 1 := List.length_append
    refine ⟨fun j => ?_, fun j i hi => ?_⟩
    · rw [Watchers.apply, senders_subscribe]
      split
      · refine List.nodup_append.mpr ⟨h.nodup id, List.nodup_singleton _, ?_⟩
        intro i hi i' hi' heq
        have hlt := h.opened id i hi
        rw [heq, List.mem_singleton.mp hi'] at hlt
        exact Nat.lt_irrefl _ hlt
      · exact h.nodup j
    · rw [Watchers.apply, senders_subscribe] at hi
      rw [Watchers.apply, hlen]
      split at hi
      · rcases List.mem_append.mp hi with hi | hi
        · have := h.opened id i hi
          omega
        · rw [List.mem_singleton.mp hi]
          omega
      · have := h.opened j i hi
        omega
  | broadcast id event =>
    obtain ⟨hnodup, hlen, _, hkept⟩ := retainSenders_spec slips event (w.senders id) w.streams
      (h.nodup id)
    refine ⟨fun j => ?_, fun j i hi => ?_⟩
    · rw [Watchers.apply, senders_broadcast]
      split
      · exact hnodup
      · exact h.nodup j
    · rw [Watchers.apply, senders_broadcast] at hi
      rw [Watchers.apply, streams_broadcast, hlen]
      split at hi
      · exact h.opened id i ((hkept i).mp hi).1
      · exact h.opened j i hi
  | terminate id =>
    refine ⟨fun j => ?_, fun j i hi => ?_⟩
    · rw [Watchers.apply, senders_terminate]
      split
      · exact List.nodup_nil
      · exact h.nodup j
    · rw [Watchers.apply, senders_terminate] at hi
      rw [Watchers.apply, terminate, (dropSenders_spec ..).1]
      split at hi
      · cases hi
      · exact h.opened j i hi

theorem Ok.single (h : w.Ok) (snapshot : JobEvent) : (w.single snapshot).Ok := by
  refine ⟨h.nodup, fun j i hi => ?_⟩
  have hlt := h.opened j i hi
  show i < (w.streams ++ _).length
  rw [List.length_append]
  exact Nat.lt_add_right _ hlt

theorem Ok.set (h : w.Ok) (i : Nat) (c : Stream) :
    ({ w with streams := w.streams.set i c } : Watchers).Ok := by
  refine ⟨h.nodup, fun j k hk => ?_⟩
  rw [List.length_set]
  exact h.opened j k hk

def reached (w : Watchers) : RegistryCall → List Nat
  | .subscribeWithSnapshot .. => []
  | .broadcast id _ | .terminate id => w.senders id

variable (slips) in
theorem untouched (hw : w.Ok) {i : Nat} (hlt : i < w.streams.length) {call : RegistryCall}
    (hi : i ∉ w.reached call) : (w.apply slips call).streams[i]? = w.streams[i]? ∧
      ∀ j, i ∈ (w.apply slips call).senders j ↔ i ∈ w.senders j := by
  cases call with
  | subscribeWithSnapshot id snapshot =>
    refine ⟨List.getElem?_append_left hlt, fun j => ?_⟩
    rw [Watchers.apply, senders_subscribe]
    split
    · next hj =>
      subst hj
      simp only [List.mem_append, List.mem_singleton]
      exact ⟨fun hi => hi.resolve_right (by omega), .inl⟩
    · rfl
  | broadcast id event =>
    have hi : i ∉ w.senders id := hi
    obtain ⟨_, _, hstream, hkept⟩ := retainSenders_spec slips event (w.senders id) w.streams
      (hw.nodup id)
    refine ⟨by rw [Watchers.apply, streams_broadcast, hstream, if_neg hi], fun j => ?_⟩
    rw [Watchers.apply, senders_broadcast]
    split
    · next hj =>
      subst hj
      rw [hkept i]
      exact ⟨fun h => absurd h.1 hi, fun h => absurd h hi⟩
    · rfl
  | terminate id =>
    have hi : i ∉ w.senders id := hi
    refine ⟨by rw [Watchers.apply, terminate, (dropSenders_spec ..).2, if_neg hi], fun j => ?_⟩
    rw [Watchers.apply, senders_terminate]
    split
    · next hj =>
      subst hj
      exact ⟨fun h => absurd h List.not_mem_nil, fun h => absurd h hi⟩
    · rfl

/-- A stream that never had its sender in the registry, or lost it without an overflow. -/
def Sealed (w : Watchers) (i : Nat) : Prop :=
  (∀ id, i ∉ w.senders id) ∧
    ∃ c, w.streams[i]? = some c ∧ c.hasSender = false ∧ c.overflowed = false

theorem Sealed.calls (hw : w.Ok) (slips : Nat → Bool) {i : Nat} (h : w.Sealed i)
    (calls : List RegistryCall) :
    (calls.foldl (Watchers.apply slips) w).Sealed i := by
  induction calls generalizing w with
  | nil => exact h
  | cons call calls ih =>
    refine ih (hw.apply slips call) ?_
    obtain ⟨hout, c, hc, hs, ho⟩ := h
    have hi : i ∉ w.reached call := by
      cases call with
      | subscribeWithSnapshot => exact List.not_mem_nil
      | broadcast id event => exact hout id
      | terminate id => exact hout id
    obtain ⟨hstream, hsenders⟩ := untouched slips hw
      (List.getElem?_eq_some_iff.mp hc).1 hi
    exact ⟨fun id hmem => hout id ((hsenders id).mp hmem), c, hstream.trans hc, hs, ho⟩

end Watchers

def Tracks (live : Prop) (w : Watchers) (i : Nat) (j : JobId) (events : List JobEvent) : Prop :=
  (∀ id, i ∈ w.senders id → id = j) ∧
    ∃ c, w.streams[i]? = some c ∧ Carries live c events ∧
      (i ∈ w.senders j ↔ c.hasSender = true)

namespace Tracks

variable {live : Prop} {w : Watchers} {i : Nat} {j : JobId} {events : List JobEvent}
  {slips : Nat → Bool}

theorem ofLive {live' : Prop} (h : Tracks live w i j events) (himp : live' → live) :
    Tracks live' w i j events := by
  obtain ⟨hmine, c, hc, hcar, hreg⟩ := h
  exact ⟨hmine, c, hc, hcar.ofLive himp, hreg⟩

theorem applyOther (hw : w.Ok) (h : Tracks live w i j events) {call : RegistryCall}
    (hquiet : call.eventOf j = none) (hopen : call ≠ .terminate j) :
    Tracks live (w.apply slips call) i j events := by
  obtain ⟨hmine, c, hc, hcar, hreg⟩ := h
  have hi : i ∉ w.reached call := by
    cases call with
    | subscribeWithSnapshot => exact List.not_mem_nil
    | broadcast id event =>
      intro hi
      rw [hmine id hi] at hquiet
      simp [RegistryCall.eventOf] at hquiet
    | terminate id =>
      intro hi
      rw [hmine id hi] at hopen
      exact hopen rfl
  obtain ⟨hstream, hsenders⟩ := Watchers.untouched slips hw
    (List.getElem?_eq_some_iff.mp hc).1 hi
  exact ⟨fun id hmem => hmine id ((hsenders id).mp hmem), c, hstream.trans hc, hcar,
    (hsenders j).trans hreg⟩

theorem applyEvent (hw : w.Ok) (h : Tracks True w i j events) (event : JobEvent) :
    Tracks True (w.apply slips (.broadcast j event)) i j (events ++ [event]) := by
  obtain ⟨hmine, c, hc, hcar, hreg⟩ := h
  obtain ⟨_, _, hstream, hkept⟩ := retainSenders_spec slips event (w.senders j) w.streams
    (hw.nodup j)
  have hmine' : ∀ id, i ∈ (w.apply slips (.broadcast j event)).senders id → id = j := by
    intro id hi
    rw [Watchers.apply, Watchers.senders_broadcast] at hi
    split at hi
    · next hid => exact hid
    · exact hmine id hi
  refine ⟨hmine', ?_⟩
  rw [Watchers.apply, Watchers.senders_broadcast, Watchers.streams_broadcast, hstream, if_pos rfl,
    hkept, hc]
  by_cases hi : i ∈ w.senders j
  · obtain ⟨hcar', hstays⟩ := hcar.offered (hreg.mp hi) (slips i) event
    refine ⟨_, by rw [if_pos hi]; rfl, hcar', ?_⟩
    rw [← hstays]
    simp [hi]
  · have hs : c.hasSender = false := Bool.eq_false_iff.mpr fun hs => hi (hreg.mpr hs)
    refine ⟨c, if_neg hi, hcar.missed trivial hs event, ?_⟩
    simp [hi, hs]

theorem applyEnd (h : Tracks live w i j events) :
    Tracks False (w.apply slips (.terminate j)) i j events := by
  obtain ⟨hmine, c, hc, hcar, hreg⟩ := h
  refine ⟨fun id hi => ?_, ?_⟩
  · rw [Watchers.apply, Watchers.senders_terminate] at hi
    split at hi
    · cases hi
    · exact hmine id hi
  · rw [Watchers.apply, Watchers.senders_terminate, if_pos rfl, Watchers.terminate,
      (dropSenders_spec ..).2, hc]
    by_cases hi : i ∈ w.senders j
    · exact ⟨c.dropSender, if_pos hi, hcar.dropSender, by simp [Channel.dropSender]⟩
    · have hs : c.hasSender = false := Bool.eq_false_iff.mpr fun hs => hi (hreg.mpr hs)
      exact ⟨c, if_neg hi, hcar.ofLive False.elim, by simp [hs]⟩

theorem callsLive {calls : List RegistryCall} (hw : w.Ok) (h : Tracks True w i j events)
    (hopen : .terminate j ∉ calls) :
    Tracks True (calls.foldl (Watchers.apply slips) w) i j (events ++ eventsOf j calls) := by
  induction calls generalizing w events with
  | nil => simpa using h
  | cons call calls ih =>
    obtain ⟨hne, hrest⟩ := not_or.mp (List.mem_cons.not.mp hopen)
    have hhead : Tracks True (w.apply slips call) i j (events ++ eventsOf j [call]) := by
      cases hevent : call.eventOf j with
      | none => simpa [eventsOf, hevent] using h.applyOther hw hevent (Ne.symm hne)
      | some event =>
        cases call with
        | broadcast id event' =>
          simp only [RegistryCall.eventOf, Option.ite_none_right_eq_some,
            Option.some.injEq] at hevent
          obtain ⟨rfl, rfl⟩ := hevent
          simpa [eventsOf, RegistryCall.eventOf] using h.applyEvent hw event'
        | subscribeWithSnapshot | terminate => cases hevent
    have htail := ih (hw.apply slips call) hhead hrest
    rw [List.append_assoc, ← eventsOf_append] at htail
    exact htail

theorem callsDead {calls : List RegistryCall} (hw : w.Ok) (h : Tracks False w i j events)
    (hquiet : eventsOf j calls = []) :
    Tracks False (calls.foldl (Watchers.apply slips) w) i j events := by
  induction calls generalizing w with
  | nil => exact h
  | cons call calls ih =>
    rw [← List.singleton_append, eventsOf_append, List.append_eq_nil_iff] at hquiet
    have hcall : call.eventOf j = none := by
      cases hevent : call.eventOf j with
      | none => rfl
      | some event => simp [eventsOf, hevent] at hquiet
    refine ih (hw.apply slips call) ?_ hquiet.2
    by_cases hend : call = .terminate j
    · rw [hend]
      exact h.applyEnd
    · exact h.applyOther hw hcall hend

theorem set (h : Tracks live w i j events) (k : Nat) {c c' : Stream}
    (hk : w.streams[k]? = some c) (hcar : Carries live c events → Carries live c' events)
    (hs : c'.hasSender = c.hasSender) :
    Tracks live { w with streams := w.streams.set k c' } i j events := by
  obtain ⟨hmine, c₀, hc₀, hcar₀, hreg⟩ := h
  refine ⟨hmine, ?_⟩
  by_cases hik : i = k
  · subst hik
    rw [hk, Option.some.injEq] at hc₀
    subst hc₀
    refine ⟨c', ?_, hcar hcar₀, hreg.trans (by rw [hs])⟩
    exact List.getElem?_set_self (List.getElem?_eq_some_iff.mp hk).1
  · refine ⟨c₀, ?_, hcar₀, hreg⟩
    exact (List.getElem?_set_ne (Ne.symm hik)).trans hc₀

theorem single (h : Tracks live w i j events) (snapshot : JobEvent) :
    Tracks live (w.single snapshot) i j events := by
  obtain ⟨hmine, c, hc, hcar, hreg⟩ := h
  refine ⟨hmine, c, ?_, hcar, hreg⟩
  exact (List.getElem?_append_left (List.getElem?_eq_some_iff.mp hc).1).trans hc

theorem subscribed (hw : w.Ok) (id : JobId) (snapshot : JobEvent) :
    Tracks True (w.subscribeWithSnapshot id snapshot) w.streams.length id [snapshot] := by
  have hfresh : ∀ id', w.streams.length ∉ w.senders id' :=
    fun id' hmem => Nat.lt_irrefl _ (hw.opened id' _ hmem)
  refine ⟨fun id' hmem => ?_, _, List.getElem?_concat_length, ?_, ?_⟩
  · rw [Watchers.senders_subscribe] at hmem
    split at hmem
    · next hid => exact hid
    · exact absurd hmem (hfresh id')
  · exact ⟨List.prefix_refl _, fun _ _ => rfl, fun _ => rfl, fun he => Receiver.noConfusion he,
      fun _ => .inl rfl⟩
  · rw [Watchers.senders_subscribe, if_pos rfl]
    simp [Channel.trySend, Channel.new, subscriberCapacity]

theorem glanced (hw : w.Ok) (j : JobId) (snapshot : JobEvent) :
    Tracks False (w.single snapshot) w.streams.length j [snapshot] ∧
      (w.single snapshot).Sealed w.streams.length := by
  have hfresh : ∀ id, w.streams.length ∉ (w.single snapshot).senders id :=
    fun id hmem => Nat.lt_irrefl _ (hw.opened id _ hmem)
  refine ⟨⟨fun id hmem => absurd hmem (hfresh id), _, List.getElem?_concat_length, ?_, ?_⟩,
    hfresh, _, List.getElem?_concat_length, rfl, rfl⟩
  · exact ⟨List.prefix_refl _, fun _ _ => rfl, fun hs => Bool.noConfusion hs,
      fun he => Receiver.noConfusion he, False.elim⟩
  · exact ⟨fun hmem => absurd hmem (hfresh j), fun hs => Bool.noConfusion hs⟩

end Tracks

namespace Watchers

variable {w : Watchers} {i : Nat}

theorem Sealed.set (h : w.Sealed i) (k : Nat) {c c' : Stream} (hk : w.streams[k]? = some c)
    (hs : c'.hasSender = c.hasSender) (ho : c'.overflowed = c.overflowed) :
    ({ w with streams := w.streams.set k c' } : Watchers).Sealed i := by
  obtain ⟨hout, c₀, hc₀, hs₀, ho₀⟩ := h
  refine ⟨hout, ?_⟩
  by_cases hik : i = k
  · subst hik
    rw [hk, Option.some.injEq] at hc₀
    subst hc₀
    exact ⟨c', List.getElem?_set_self (List.getElem?_eq_some_iff.mp hk).1, hs.trans hs₀,
      ho.trans ho₀⟩
  · exact ⟨c₀, (List.getElem?_set_ne (Ne.symm hik)).trans hc₀, hs₀, ho₀⟩

theorem Sealed.single (h : w.Sealed i) (snapshot : JobEvent) : (w.single snapshot).Sealed i := by
  obtain ⟨hout, c, hc, hs, ho⟩ := h
  exact ⟨hout, c, (List.getElem?_append_left (List.getElem?_eq_some_iff.mp hc).1).trans hc, hs,
    ho⟩

end Watchers

theorem foldl_ok {w : Watchers} (hw : w.Ok) (slips : Nat → Bool) (calls : List RegistryCall) :
    (calls.foldl (Watchers.apply slips) w).Ok := by
  induction calls generalizing w with
  | nil => exact hw
  | cons call calls ih => exact ih (hw.apply slips call)

end CvdBench.Events
