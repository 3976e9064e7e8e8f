import CvdBench.Foundation.Machine
import Mathlib.Logic.Function.Basic

/-!
Clients that call one server, each with at most one call at a time: the request of a call
arrives at most once, its answer comes with the section of the server that it starts or with a
later one, and a client may stop waiting at any time. A request may still arrive then.
-/

set_option autoImplicit false

namespace CvdBench.Foundation

inductive Heard (τ : Type) where
  | nothing
  | failed
  | answer (res : τ)

/-- Requests are of type `ρ` and answers of type `τ`; `δ` is what the server reads besides a
request. A client steps with a choice of its own, in `γ`, and may put a request out. -/
structure Service (ι σ α ο κ γ ρ τ δ : Type) where
  server : Machine σ α ο
  call : ρ → δ → α
  own : α → Bool
  answer : ο → Option τ
  /-- an answer that comes later is one to this call -/
  answers : ρ → δ → τ → Bool
  client : ι → Machine κ (γ × Heard τ) (Option ρ)

inductive Call (ρ τ δ : Type) where
  | idle
  | sent (req : ρ)
  | served (req : ρ) (d : δ)
  | answered (req : ρ) (d : δ) (res : τ)

def Call.req? {ρ τ δ : Type} : Call ρ τ δ → Option ρ
  | .idle => none
  | .sent req | .served req _ | .answered req _ _ => some req

def Call.start {ρ τ δ : Type} : Option ρ → Call ρ τ δ
  | none => .idle
  | some req => .sent req

def Call.arrived {ρ τ δ : Type} (req : ρ) (d : δ) : Option τ → Call ρ τ δ
  | none => .served req d
  | some res => .answered req d res

@[simp] theorem Call.req?_start {ρ τ δ : Type} (req : Option ρ) :
    (Call.start req : Call ρ τ δ).req? = req := by
  cases req <;> rfl

@[simp] theorem Call.req?_arrived {ρ τ δ : Type} (req : ρ) (d : δ) (res : Option τ) :
    (Call.arrived req d res).req? = some req := by
  cases res <;> rfl

structure Calling (ι σ κ ρ τ δ : Type) where
  server : σ
  clients : ι → κ
  calls : ι → Call ρ τ δ
  late : List ρ

inductive CallAct (ι α γ δ : Type) where
  | deliver (i : ι) (d : δ)
  | deliverLate (k : Nat) (d : δ)
  | own (a : α) (waiting : Option ι)
  | client (i : ι) (g : γ)
  | hear (i : ι) (g : γ)
  | giveUp (i : ι) (g : γ)

inductive CallOut (ι σ α ο κ γ ρ τ : Type) where
  | server (e : Event σ α ο)
  | client (i : ι) (e : Event κ (γ × Heard τ) (Option ρ))

namespace Service

variable {ι σ α ο κ γ ρ τ δ : Type} [DecidableEq ι] (P : Service ι σ α ο κ γ ρ τ δ)

def serve (s : Calling ι σ κ ρ τ δ) (a : α)
    (after : Option τ → Option (Calling ι σ κ ρ τ δ)) :
    Option (Calling ι σ κ ρ τ δ × CallOut ι σ α ο κ γ ρ τ) :=
  (P.server.step s.server a).bind fun (t, o) =>
    (after (P.answer o)).map fun s' =>
      ({ s' with server := t }, .server ⟨s.server, a, o, t⟩)

def act (s : Calling ι σ κ ρ τ δ) (i : ι) (g : γ) (heard : Heard τ) :
    Option (Calling ι σ κ ρ τ δ × CallOut ι σ α ο κ γ ρ τ) :=
  ((P.client i).step (s.clients i) (g, heard)).map fun (c, out) =>
    ({ s with
      clients := Function.update s.clients i c
      calls := Function.update s.calls i (.start out) },
      .client i ⟨s.clients i, (g, heard), out, c⟩)

def step (s : Calling ι σ κ ρ τ δ) :
    CallAct ι α γ δ → Option (Calling ι σ κ ρ τ δ × CallOut ι σ α ο κ γ ρ τ)
  | .deliver i d => match s.calls i with
      | .sent req => P.serve s (P.call req d) fun res =>
          some { s with calls := Function.update s.calls i (.arrived req d res) }
      | _ => none
  | .deliverLate k d => s.late[k]?.bind fun req => P.serve s (P.call req d) fun _ =>
      some { s with late := s.late.eraseIdx k }
  | .own a none => if P.own a then P.serve s a fun _ => some s else none
  | .own a (some i) => if P.own a then P.serve s a fun res => match s.calls i, res with
      | .served req d, some res =>
          if P.answers req d res then
            some { s with calls := Function.update s.calls i (.answered req d res) }
          else none
      | _, _ => none
    else none
  | .client i g => match s.calls i with
      | .idle => P.act s i g .nothing
      | _ => none
  | .hear i g => match s.calls i with
      | .answered _ _ res => P.act s i g (.answer res)
      | _ => none
  | .giveUp i g => match s.calls i with
      | .idle => none
      | .sent req => P.act { s with late := s.late ++ [req] } i g .failed
      | _ => P.act s i g .failed

def calling : Machine (Calling ι σ κ ρ τ δ) (CallAct ι α γ δ) (CallOut ι σ α ο κ γ ρ τ) where
  init := ⟨P.server.init, fun i => (P.client i).init, fun _ => .idle, []⟩
  step := P.step

def Hears (call : Call ρ τ δ) : Heard τ → Prop
  | .nothing => call = .idle
  | .failed => call ≠ .idle
  | .answer res => ∃ req d, call = .answered req d res

inductive Moves (s : Calling ι σ κ ρ τ δ) :
    Calling ι σ κ ρ τ δ → CallOut ι σ α ο κ γ ρ τ → Prop where
  | delivers {i : ι} {req : ρ} {d : δ} {t : σ} {o : ο} : s.calls i = .sent req →
      P.server.step s.server (P.call req d) = some (t, o) →
      Moves s { s with
        server := t
        calls := Function.update s.calls i (.arrived req d (P.answer o)) }
        (.server ⟨s.server, P.call req d, o, t⟩)
  | deliversLate {req : ρ} {d : δ} {t : σ} {o : ο} {late : List ρ} : req ∈ s.late →
      P.server.step s.server (P.call req d) = some (t, o) →
      Moves s { s with
        server := t
        late } (.server ⟨s.server, P.call req d, o, t⟩)
  | acts {a : α} {t : σ} {o : ο} : P.own a = true → P.server.step s.server a = some (t, o) →
      Moves s { s with server := t } (.server ⟨s.server, a, o, t⟩)
  | answers {a : α} {t : σ} {o : ο} {i : ι} {req : ρ} {d : δ} {res : τ} : P.own a = true →
      P.server.step s.server a = some (t, o) → s.calls i = .served req d →
      P.answer o = some res → P.answers req d res = true →
      Moves s { s with
        server := t
        calls := Function.update s.calls i (.answered req d res) }
        (.server ⟨s.server, a, o, t⟩)
  | client {i : ι} {g : γ} {heard : Heard τ} {c : κ} {out : Option ρ} {late : List ρ} :
      Hears (s.calls i) heard → (P.client i).step (s.clients i) (g, heard) = some (c, out) →
      Moves s { s with
        clients := Function.update s.clients i c
        calls := Function.update s.calls i (.start out)
        late } (.client i ⟨s.clients i, (g, heard), out, c⟩)

variable {P} {s s' : Calling ι σ κ ρ τ δ} {out : CallOut ι σ α ο κ γ ρ τ}

omit [DecidableEq ι] in
theorem serve_eq_some {a : α} {after : Option τ → Option (Calling ι σ κ ρ τ δ)}
    (h : P.serve s a after = some (s', out)) : ∃ t o s₁,
      P.server.step s.server a = some (t, o) ∧ after (P.answer o) = some s₁ ∧
        s' = { s₁ with server := t } ∧ out = .server ⟨s.server, a, o, t⟩ := by
  obtain ⟨⟨t, o⟩, hstep, h⟩ := Option.bind_eq_some_iff.mp h
  obtain ⟨s₁, hafter, heq⟩ := Option.map_eq_some_iff.mp h
  cases heq
  exact ⟨t, o, s₁, hstep, hafter, rfl, rfl⟩

theorem act_moves {i : ι} {g : γ} {heard : Heard τ} {late : List ρ}
    (h : P.act { s with late } i g heard = some (s', out))
    (hheard : Hears (s.calls i) heard) : P.Moves s s' out := by
  obtain ⟨⟨c, req⟩, hstep, heq⟩ := Option.map_eq_some_iff.mp h
  cases heq
  exact .client hheard hstep

theorem step_moves {a : CallAct ι α γ δ} (h : P.step s a = some (s', out)) :
    P.Moves s s' out := by
  cases a with
  | deliver i d =>
    simp only [step] at h
    split at h
    · next req hcall =>
      obtain ⟨t, o, s₁, hstep, hafter, rfl, rfl⟩ := serve_eq_some h
      cases hafter
      exact .delivers hcall hstep
    · cases h
  | deliverLate k d =>
    obtain ⟨req, hreq, h⟩ := Option.bind_eq_some_iff.mp h
    obtain ⟨t, o, s₁, hstep, hafter, rfl, rfl⟩ := serve_eq_some h
    cases hafter
    exact .deliversLate (List.mem_of_getElem? hreq) hstep
  | own a waiting =>
    cases waiting with
    | none =>
      simp only [step] at h
      split at h
      · next hown =>
        obtain ⟨t, o, s₁, hstep, hafter, rfl, rfl⟩ := serve_eq_some h
        cases hafter
        exact .acts hown hstep
      · cases h
    | some i =>
      simp only [step] at h
      split at h
      · next hown =>
        obtain ⟨t, o, s₁, hstep, hafter, rfl, rfl⟩ := serve_eq_some h
        split at hafter
        · next req d res hcall hres =>
          split at hafter
          · next hanswers =>
            cases hafter
            exact .answers hown hstep hcall hres hanswers
          · cases hafter
        · cases hafter
      · cases h
  | client i g =>
    simp only [step] at h
    split at h
    · next hcall => exact act_moves h hcall
    · cases h
  | hear i g =>
    simp only [step] at h
    split at h
    · next req d res hcall => exact act_moves h ⟨req, d, hcall⟩
    · cases h
  | giveUp i g =>
    simp only [step] at h
    split at h
    · cases h
    · next req hcall => exact act_moves h (by rw [Hears, hcall]; nofun)
    · next hidle _ => exact act_moves h hidle

end Service

section

variable {ι σ α ο κ γ ρ τ δ : Type} [DecidableEq ι]

def CallOut.server? : CallOut ι σ α ο κ γ ρ τ → Option (Event σ α ο)
  | .server e => some e
  | .client .. => none

def CallOut.client? (i : ι) :
    CallOut ι σ α ο κ γ ρ τ → Option (Event κ (γ × Heard τ) (Option ρ))
  | .server _ => none
  | .client j e => if j = i then some e else none

abbrev CallTrace (ι σ α ο κ γ ρ τ δ : Type) :=
  List (Event (Calling ι σ κ ρ τ δ) (CallAct ι α γ δ) (CallOut ι σ α ο κ γ ρ τ))

namespace CallTrace

def server (tr : CallTrace ι σ α ο κ γ ρ τ δ) : List (Event σ α ο) :=
  tr.filterMap fun e => e.out.server?

def client (i : ι) (tr : CallTrace ι σ α ο κ γ ρ τ δ) :
    List (Event κ (γ × Heard τ) (Option ρ)) :=
  tr.filterMap fun e => e.out.client? i

omit [DecidableEq ι] in
theorem server_snoc (tr : CallTrace ι σ α ο κ γ ρ τ δ)
    (e : Event (Calling ι σ κ ρ τ δ) (CallAct ι α γ δ) (CallOut ι σ α ο κ γ ρ τ)) :
    server (tr ++ [e]) = server tr ++ e.out.server?.toList := by
  unfold server
  rw [List.filterMap_append]
  cases he : e.out.server? with
  | none => simp [he]
  | some e' => simp [he]

theorem client_snoc (i : ι) (tr : CallTrace ι σ α ο κ γ ρ τ δ)
    (e : Event (Calling ι σ κ ρ τ δ) (CallAct ι α γ δ) (CallOut ι σ α ο κ γ ρ τ)) :
    client i (tr ++ [e]) = client i tr ++ (e.out.client? i).toList := by
  unfold client
  rw [List.filterMap_append]
  cases he : e.out.client? i with
  | none => simp [he]
  | some e' => simp [he]

end CallTrace

variable {P : Service ι σ α ο κ γ ρ τ δ}

theorem Service.Moves.parts {s s' : Calling ι σ κ ρ τ δ} {out : CallOut ι σ α ο κ γ ρ τ}
    (h : P.Moves s s' out) :
    (∃ a o, out = .server ⟨s.server, a, o, s'.server⟩ ∧ s'.clients = s.clients ∧
      P.server.step s.server a = some (s'.server, o)) ∨
    ∃ i g heard c req, out = .client i ⟨s.clients i, (g, heard), req, c⟩ ∧
      s'.server = s.server ∧ s'.clients = Function.update s.clients i c ∧
      Hears (s.calls i) heard ∧ (P.client i).step (s.clients i) (g, heard) = some (c, req) := by
  cases h with
  | delivers _ hstep | deliversLate _ hstep | acts _ hstep | answers _ hstep =>
    exact .inl ⟨_, _, rfl, rfl, hstep⟩
  | client hheard hstep => exact .inr ⟨_, _, _, _, _, rfl, rfl, rfl, hheard, hstep⟩

theorem Service.projects {tr : CallTrace ι σ α ο κ γ ρ τ δ} {s : Calling ι σ κ ρ τ δ}
    (h : P.calling.Run P.calling.init tr s) :
    P.server.Run P.server.init tr.server s.server ∧
      ∀ i, (P.client i).Run (P.client i).init (tr.client i) (s.clients i) := by
  refine h.history (P := fun tr s => P.server.Run P.server.init (CallTrace.server tr) s.server ∧
    ∀ i, (P.client i).Run (P.client i).init (CallTrace.client i tr) (s.clients i))
    ⟨.nil _, fun _ => .nil _⟩ ?_
  rintro tr s a t out - ⟨hserver, hclient⟩ hstep
  rcases (Service.step_moves hstep).parts with
    ⟨a', o, rfl, hclients, hs⟩ | ⟨i, g, heard, c, req, rfl, hserver', hclients, -, hs⟩
  · refine ⟨?_, fun i => ?_⟩
    · rw [CallTrace.server_snoc]
      exact hserver.snoc hs
    · rw [CallTrace.client_snoc, hclients]
      simpa [CallOut.client?] using hclient i
  · refine ⟨?_, fun j => ?_⟩
    · rw [CallTrace.server_snoc, hserver']
      simpa [CallOut.server?] using hserver
    · rw [CallTrace.client_snoc, hclients]
      by_cases hj : i = j
      · subst hj
        simp only [CallOut.client?, if_true, Option.toList_some, Function.update_self]
        exact (hclient i).snoc hs
      · simp only [CallOut.client?, if_neg hj, Option.toList_none, List.append_nil,
          Function.update_of_ne (Ne.symm hj)]
        exact hclient j

structure Service.Waits (P : Service ι σ α ο κ γ ρ τ δ) (awaits : ι → κ → Option ρ) : Prop where
  init : ∀ i, awaits i (P.client i).init = none
  step : ∀ {i c act c' out}, (P.client i).step c act = some (c', out) → awaits i c' = out

theorem Service.Waits.calls {awaits : ι → κ → Option ρ} (hwaits : P.Waits awaits)
    {s : Calling ι σ κ ρ τ δ} (h : P.calling.Reachable s) (i : ι) :
    (s.calls i).req? = awaits i (s.clients i) := by
  refine h.invariant (P := fun s => ∀ i, (s.calls i).req? = awaits i (s.clients i)) ?_ ?_ i
  · exact fun i => (hwaits.init i).symm
  · intro s a t out _ hcalls hstep j
    cases Service.step_moves hstep with
    | @delivers i req d t o hcall =>
      by_cases hj : j = i
      · subst hj
        simp only [Function.update_self, Call.req?_arrived, ← hcalls j, hcall]
        rfl
      · simp only [Function.update_of_ne hj]
        exact hcalls j
    | deliversLate | acts => exact hcalls j
    | @answers a t o i req d res _ _ hcall =>
      by_cases hj : j = i
      · subst hj
        simp only [Function.update_self, ← hcalls j, hcall]
        rfl
      · simp only [Function.update_of_ne hj]
        exact hcalls j
    | @client i g heard c out late _ hclient =>
      by_cases hj : j = i
      · subst hj
        simp only [Function.update_self, Call.req?_start]
        exact (hwaits.step hclient).symm
      · simp only [Function.update_of_ne hj]
        exact hcalls j

abbrev History (κ γ ρ τ : Type) := List (Event κ (γ × Heard τ) (Option ρ))

def Call.Kept (begun : ρ → δ → σ → Prop) (holds : ρ → δ → τ → σ → Prop) (s : σ) :
    Call ρ τ δ → Prop
  | .idle | .sent _ => True
  | .served req d => begun req d s
  | .answered req d res => holds req d res s

/-- `knows` is what a client with such a history knows of the server, `begun` what holds from the
section on that its call starts, and `holds` what holds of the answer as long as the client has
not heard it: the server keeps all of them. -/
structure Service.Learns (P : Service ι σ α ο κ γ ρ τ δ) (awaits : ι → κ → Option ρ)
    (knows : ι → History κ γ ρ τ → κ → σ → Prop)
    (begun : ι → History κ γ ρ τ → ρ → δ → σ → Prop)
    (holds : ι → History κ γ ρ τ → ρ → δ → τ → σ → Prop) : Prop where
  init : ∀ i, knows i [] (P.client i).init P.server.init
  stable : ∀ {s a t o}, P.server.Reachable s → P.server.step s a = some (t, o) → ∀ i tr,
    (∀ c, knows i tr c s → knows i tr c t) ∧ ∀ req d, (begun i tr req d s → begun i tr req d t) ∧
      ∀ res, holds i tr req d res s → holds i tr req d res t
  begins : ∀ {s i tr c req d t o}, P.server.Reachable s → knows i tr c s →
    awaits i c = some req → P.server.step s (P.call req d) = some (t, o) → P.answer o = none →
    begun i tr req d t
  delivers : ∀ {s i tr c req d t o res}, P.server.Reachable s → knows i tr c s →
    awaits i c = some req → P.server.step s (P.call req d) = some (t, o) →
    P.answer o = some res → holds i tr req d res t
  answers : ∀ {s a i tr req d t o res}, P.server.Reachable s → P.own a = true →
    P.server.step s a = some (t, o) → begun i tr req d s → P.answer o = some res →
    P.answers req d res = true → holds i tr req d res t
  hears : ∀ {s i tr c g heard c' out}, P.server.Reachable s → knows i tr c s →
    (P.client i).step c (g, heard) = some (c', out) →
    (∀ res, heard = .answer res → ∃ req d, awaits i c = some req ∧ holds i tr req d res s) →
    knows i (tr ++ [⟨c, (g, heard), out, c'⟩]) c' s

variable {awaits : ι → κ → Option ρ} {knows : ι → History κ γ ρ τ → κ → σ → Prop}
  {begun : ι → History κ γ ρ τ → ρ → δ → σ → Prop}
  {holds : ι → History κ γ ρ τ → ρ → δ → τ → σ → Prop}

omit [DecidableEq ι] in
theorem Call.Kept.step (hlearns : P.Learns awaits knows begun holds) {s t : σ} {a : α} {o : ο}
    (hs : P.server.Reachable s) (hstep : P.server.step s a = some (t, o)) {i : ι}
    {tr : History κ γ ρ τ} {call : Call ρ τ δ} (h : call.Kept (begun i tr) (holds i tr) s) :
    call.Kept (begun i tr) (holds i tr) t := by
  cases call with
  | idle | sent => trivial
  | served req d => exact ((hlearns.stable hs hstep i tr).2 req d).1 h
  | answered req d res => exact ((hlearns.stable hs hstep i tr).2 req d).2 res h

structure Service.Informed (knows : ι → History κ γ ρ τ → κ → σ → Prop)
    (begun : ι → History κ γ ρ τ → ρ → δ → σ → Prop)
    (holds : ι → History κ γ ρ τ → ρ → δ → τ → σ → Prop) (i : ι) (tr : History κ γ ρ τ)
    (s : Calling ι σ κ ρ τ δ) : Prop where
  knows : knows i tr (s.clients i) s.server
  call : (s.calls i).Kept (begun i tr) (holds i tr) s.server

omit [DecidableEq ι] in
theorem Service.Informed.serve (hlearns : P.Learns awaits knows begun holds)
    {s s' : Calling ι σ κ ρ τ δ} {i : ι} {tr : History κ γ ρ τ}
    (h : Service.Informed knows begun holds i tr s) (hs : P.server.Reachable s.server) {a : α}
    {o : ο} (hstep : P.server.step s.server a = some (s'.server, o))
    (hclients : s'.clients i = s.clients i) (hcalls : s'.calls i = s.calls i) :
    Service.Informed knows begun holds i tr s' := by
  refine ⟨?_, ?_⟩
  · rw [hclients]
    exact (hlearns.stable hs hstep i tr).1 _ h.knows
  · rw [hcalls]
    exact h.call.step hlearns hs hstep

/-- The rule for what the clients know. -/
theorem Service.Learns.run (hlearns : P.Learns awaits knows begun holds)
    (hwaits : P.Waits awaits) {tr : CallTrace ι σ α ο κ γ ρ τ δ} {s : Calling ι σ κ ρ τ δ}
    (h : P.calling.Run P.calling.init tr s) (i : ι) :
    Service.Informed knows begun holds i (tr.client i) s := by
  have key : P.server.Reachable s.server ∧
      ∀ i, Service.Informed knows begun holds i (CallTrace.client i tr) s := by
    refine h.history (P := fun tr s => P.server.Reachable s.server ∧
      ∀ i, Service.Informed knows begun holds i (CallTrace.client i tr) s) ?_ ?_
    · exact ⟨.init, fun i => ⟨hlearns.init i, trivial⟩⟩
    · rintro tr s a t out hrun ⟨hreach, hinf⟩ hstep
      have hs : P.calling.Reachable s := ⟨tr, hrun⟩
      have hquiet : ∀ e, out = .server e → ∀ j,
          CallTrace.client j (tr ++ [⟨s, a, out, t⟩]) = CallTrace.client j tr := by
        rintro e rfl j
        rw [CallTrace.client_snoc]
        exact List.append_nil _
      cases Service.step_moves hstep with
      | @delivers i req d t o hcall hserver =>
        refine ⟨hreach.step hserver, fun j => ?_⟩
        rw [hquiet _ rfl]
        by_cases hj : j = i
        · subst hj
          refine ⟨(hlearns.stable hreach hserver j _).1 _ (hinf j).knows, ?_⟩
          have hawaits : awaits j (s.clients j) = some req := by
            rw [← hwaits.calls hs j, hcall]
            rfl
          simp only [Function.update_self]
          cases hres : P.answer o with
          | none => exact hlearns.begins hreach (hinf j).knows hawaits hserver hres
          | some res => exact hlearns.delivers hreach (hinf j).knows hawaits hserver hres
        · exact (hinf j).serve hlearns hreach hserver rfl (Function.update_of_ne hj ..)
      | deliversLate _ hserver | acts _ hserver =>
        refine ⟨hreach.step hserver, fun j => ?_⟩
        rw [hquiet _ rfl]
        exact (hinf j).serve hlearns hreach hserver rfl rfl
      | @answers a t o i req d res hown hserver hcall hres hanswers =>
        refine ⟨hreach.step hserver, fun j => ?_⟩
        rw [hquiet _ rfl]
        by_cases hj : j = i
        · subst hj
          refine ⟨(hlearns.stable hreach hserver j _).1 _ (hinf j).knows, ?_⟩
          have hbegun := (hinf j).call
          rw [hcall] at hbegun
          simp only [Function.update_self]
          exact hlearns.answers hreach hown hserver hbegun hres hanswers
        · exact (hinf j).serve hlearns hreach hserver rfl (Function.update_of_ne hj ..)
      | @client i g heard c out late hheard hclient =>
        refine ⟨hreach, fun j => ?_⟩
        rw [CallTrace.client_snoc]
        by_cases hj : i = j
        · subst hj
          simp only [CallOut.client?, if_true, Option.toList_some]
          refine ⟨?_, ?_⟩
          · simp only [Function.update_self]
            refine hlearns.hears hreach (hinf i).knows hclient ?_
            rintro res rfl
            obtain ⟨req', d, hcall⟩ := hheard
            have hkept := (hinf i).call
            rw [hcall] at hkept
            refine ⟨req', d, ?_, hkept⟩
            rw [← hwaits.calls hs i, hcall]
            rfl
          · simp only [Function.update_self]
            cases out <;> trivial
        · simp only [CallOut.client?, if_neg hj, Option.toList_none, List.append_nil]
          refine ⟨?_, ?_⟩
          · simp only [Function.update_of_ne (Ne.symm hj)]
            exact (hinf j).knows
          · simp only [Function.update_of_ne (Ne.symm hj)]
            exact (hinf j).call
  exact key.2 i

end

end CvdBench.Foundation
