import CvdBench.Foundation.Machine

/-!
Clients of one server, over a network that may lose, delay, repeat and reorder what they
send to each other: whatever was sent once may arrive at any time from then on.
-/

set_option autoImplicit false

namespace CvdBench.Foundation

/-- Requests are of type `ρ` and responses of type `τ`. A client steps with a choice of its
own, in `γ`, and with the response it hears, and puts requests out. -/
structure Protocol (ι σ α ο κ γ ρ τ δ : Type) where
  server : Machine σ α ο
  /-- the server is called with a request; `δ` is what else it reads -/
  call : ρ → δ → α
  own : α → Bool
  response : ο → Option τ
  client : ι → Machine κ (γ × Option τ) (List ρ)

structure Net (ι σ κ ρ τ : Type) where
  server : σ
  clients : ι → κ
  sent : List ρ
  replies : List τ

inductive NetAct (ι α γ δ : Type) where
  | deliver (k : Nat) (d : δ)
  | own (a : α)
  | client (i : ι) (g : γ) (k : Option Nat)

inductive NetOut (ι σ α ο κ γ ρ τ : Type) where
  | server (e : Event σ α ο)
  | client (i : ι) (e : Event κ (γ × Option τ) (List ρ))

namespace Protocol

variable {ι σ α ο κ γ ρ τ δ : Type} [DecidableEq ι] (P : Protocol ι σ α ο κ γ ρ τ δ)

def serve (s : Net ι σ κ ρ τ) (a : α) :
    Option (Net ι σ κ ρ τ × NetOut ι σ α ο κ γ ρ τ) :=
  (P.server.step s.server a).map fun (t, o) =>
    ({ s with
      server := t
      replies := s.replies ++ (P.response o).toList }, .server ⟨s.server, a, o, t⟩)

def act (s : Net ι σ κ ρ τ) (i : ι) (g : γ) (heard : Option τ) :
    Option (Net ι σ κ ρ τ × NetOut ι σ α ο κ γ ρ τ) :=
  ((P.client i).step (s.clients i) (g, heard)).map fun (c, out) =>
    ({ s with
      clients := Function.update s.clients i c
      sent := s.sent ++ out }, .client i ⟨s.clients i, (g, heard), out, c⟩)

def step (s : Net ι σ κ ρ τ) :
    NetAct ι α γ δ → Option (Net ι σ κ ρ τ × NetOut ι σ α ο κ γ ρ τ)
  | .deliver k d => s.sent[k]?.bind fun req => P.serve s (P.call req d)
  | .own a => if P.own a then P.serve s a else none
  | .client i g none => P.act s i g none
  | .client i g (some k) => s.replies[k]?.bind fun res => P.act s i g (some res)

def net : Machine (Net ι σ κ ρ τ) (NetAct ι α γ δ) (NetOut ι σ α ο κ γ ρ τ) where
  init := ⟨P.server.init, fun i => (P.client i).init, [], []⟩
  step := P.step

inductive Moves (s : Net ι σ κ ρ τ) :
    Net ι σ κ ρ τ → NetOut ι σ α ο κ γ ρ τ → Prop where
  | server {a : α} {t : σ} {o : ο} : P.server.step s.server a = some (t, o) →
      (P.own a = true ∨ ∃ req ∈ s.sent, ∃ d, a = P.call req d) →
      Moves s { s with
        server := t
        replies := s.replies ++ (P.response o).toList } (.server ⟨s.server, a, o, t⟩)
  | client {i : ι} {g : γ} {heard : Option τ} {c : κ} {out : List ρ} :
      (P.client i).step (s.clients i) (g, heard) = some (c, out) →
      (∀ res, heard = some res → res ∈ s.replies) →
      Moves s { s with
        clients := Function.update s.clients i c
        sent := s.sent ++ out } (.client i ⟨s.clients i, (g, heard), out, c⟩)

variable {P}

theorem serve_moves {s s' : Net ι σ κ ρ τ} {a : α} {out : NetOut ι σ α ο κ γ ρ τ}
    (h : P.serve s a = some (s', out))
    (ha : P.own a = true ∨ ∃ req ∈ s.sent, ∃ d, a = P.call req d) : P.Moves s s' out := by
  obtain ⟨⟨t, o⟩, hstep, heq⟩ := Option.map_eq_some_iff.mp h
  cases heq
  exact .server hstep ha

theorem act_moves {s s' : Net ι σ κ ρ τ} {i : ι} {g : γ} {heard : Option τ}
    {out : NetOut ι σ α ο κ γ ρ τ} (h : P.act s i g heard = some (s', out))
    (hheard : ∀ res, heard = some res → res ∈ s.replies) : P.Moves s s' out := by
  obtain ⟨⟨c, o⟩, hstep, heq⟩ := Option.map_eq_some_iff.mp h
  cases heq
  exact .client hstep hheard

theorem step_moves {s s' : Net ι σ κ ρ τ} {a : NetAct ι α γ δ}
    {out : NetOut ι σ α ο κ γ ρ τ} (h : P.step s a = some (s', out)) : P.Moves s s' out := by
  cases a with
  | deliver k d =>
    obtain ⟨req, hreq, h⟩ := Option.bind_eq_some_iff.mp h
    exact serve_moves h (.inr ⟨req, List.mem_of_getElem? hreq, d, rfl⟩)
  | own a =>
    simp only [step] at h
    split at h
    · next hown => exact serve_moves h (.inl hown)
    · cases h
  | client i g k =>
    cases k with
    | none => exact act_moves h (by simp)
    | some k =>
      obtain ⟨res, hres, h⟩ := Option.bind_eq_some_iff.mp h
      refine act_moves h fun res' heq => ?_
      cases heq
      exact List.mem_of_getElem? hres

end Protocol

section

variable {ι σ α ο κ γ ρ τ δ : Type} [DecidableEq ι]

def NetOut.server? : NetOut ι σ α ο κ γ ρ τ → Option (Event σ α ο)
  | .server e => some e
  | .client .. => none

def NetOut.client? (i : ι) :
    NetOut ι σ α ο κ γ ρ τ → Option (Event κ (γ × Option τ) (List ρ))
  | .server _ => none
  | .client j e => if j = i then some e else none

abbrev NetTrace (ι σ α ο κ γ ρ τ δ : Type) :=
  List (Event (Net ι σ κ ρ τ) (NetAct ι α γ δ) (NetOut ι σ α ο κ γ ρ τ))

def serverTrace (tr : NetTrace ι σ α ο κ γ ρ τ δ) : List (Event σ α ο) :=
  tr.filterMap fun e => e.out.server?

def clientTrace (i : ι) (tr : NetTrace ι σ α ο κ γ ρ τ δ) :
    List (Event κ (γ × Option τ) (List ρ)) :=
  tr.filterMap fun e => e.out.client? i

omit [DecidableEq ι] in
theorem serverTrace_snoc (tr : NetTrace ι σ α ο κ γ ρ τ δ)
    (e : Event (Net ι σ κ ρ τ) (NetAct ι α γ δ) (NetOut ι σ α ο κ γ ρ τ)) :
    serverTrace (tr ++ [e]) = serverTrace tr ++ e.out.server?.toList := by
  unfold serverTrace
  rw [List.filterMap_append]
  cases he : e.out.server? with
  | none => simp [he]
  | some e' => simp [he]

theorem clientTrace_snoc (i : ι) (tr : NetTrace ι σ α ο κ γ ρ τ δ)
    (e : Event (Net ι σ κ ρ τ) (NetAct ι α γ δ) (NetOut ι σ α ο κ γ ρ τ)) :
    clientTrace i (tr ++ [e]) = clientTrace i tr ++ (e.out.client? i).toList := by
  unfold clientTrace
  rw [List.filterMap_append]
  cases he : e.out.client? i with
  | none => simp [he]
  | some e' => simp [he]

omit [DecidableEq ι] in
theorem mem_serverTrace_append {tr : NetTrace ι σ α ο κ γ ρ τ δ} {e : Event σ α ο}
    (h : e ∈ serverTrace tr) (tr' : NetTrace ι σ α ο κ γ ρ τ δ) :
    e ∈ serverTrace (tr ++ tr') := by
  unfold serverTrace
  rw [List.filterMap_append]
  exact List.mem_append_left _ h

/-- The parts of a run: the server has run, and every client has; what the server was called
with and what the clients have heard was sent before. -/
structure Projects (P : Protocol ι σ α ο κ γ ρ τ δ) (tr : NetTrace ι σ α ο κ γ ρ τ δ)
    (s : Net ι σ κ ρ τ) : Prop where
  server : P.server.Run P.server.init (serverTrace tr) s.server
  client : ∀ i, (P.client i).Run (P.client i).init (clientTrace i tr) (s.clients i)
  sent : ∀ req, req ∈ s.sent ↔ ∃ i, ∃ e ∈ clientTrace i tr, req ∈ e.out
  replies : ∀ res, res ∈ s.replies ↔ ∃ e ∈ serverTrace tr, P.response e.out = some res
  called : ∀ e ∈ serverTrace tr,
    P.own e.act = true ∨ ∃ req ∈ s.sent, ∃ d, e.act = P.call req d
  heard : ∀ i, ∀ e ∈ clientTrace i tr, ∀ res, e.act.2 = some res → res ∈ s.replies

theorem Projects.snocServer {P : Protocol ι σ α ο κ γ ρ τ δ}
    {tr : NetTrace ι σ α ο κ γ ρ τ δ} {s : Net ι σ κ ρ τ} (h : Projects P tr s) {a : α} {t : σ}
    {o : ο} (hstep : P.server.step s.server a = some (t, o))
    (hcall : P.own a = true ∨ ∃ req ∈ s.sent, ∃ d, a = P.call req d)
    {e : Event (Net ι σ κ ρ τ) (NetAct ι α γ δ) (NetOut ι σ α ο κ γ ρ τ)}
    (he : e.out = .server ⟨s.server, a, o, t⟩) :
    Projects P (tr ++ [e]) { s with
      server := t
      replies := s.replies ++ (P.response o).toList } := by
  have hclients : ∀ i, clientTrace i (tr ++ [e]) = clientTrace i tr := by
    intro i
    rw [clientTrace_snoc, he]
    exact List.append_nil _
  have hserver : serverTrace (tr ++ [e]) = serverTrace tr ++ [⟨s.server, a, o, t⟩] := by
    rw [serverTrace_snoc, he]
    rfl
  refine ⟨?_, fun i => ?_, fun req => ?_, fun res => ?_, fun e' he' => ?_,
    fun i e' he' res hres => ?_⟩
  · rw [hserver]
    exact h.server.snoc hstep
  · rw [hclients]
    exact h.client i
  · simp only [hclients]
    exact h.sent req
  · rw [hserver, List.mem_append, h.replies, Option.mem_toList]
    constructor
    · rintro (⟨e', he', hres⟩ | hres)
      · exact ⟨e', List.mem_append_left _ he', hres⟩
      · exact ⟨_, List.mem_append_right _ (List.mem_singleton_self _), hres⟩
    · rintro ⟨e', he', hres⟩
      rcases List.mem_append.mp he' with he' | he'
      · exact .inl ⟨e', he', hres⟩
      · rw [List.mem_singleton.mp he'] at hres
        exact .inr hres
  · rw [hserver] at he'
    rcases List.mem_append.mp he' with he' | he'
    · exact h.called e' he'
    · rw [List.mem_singleton.mp he']
      exact hcall
  · rw [hclients] at he'
    exact List.mem_append_left _ (h.heard i e' he' res hres)

theorem Projects.snocClient {P : Protocol ι σ α ο κ γ ρ τ δ}
    {tr : NetTrace ι σ α ο κ γ ρ τ δ} {s : Net ι σ κ ρ τ} (h : Projects P tr s) {i : ι} {g : γ}
    {heard : Option τ} {c : κ} {out : List ρ}
    (hstep : (P.client i).step (s.clients i) (g, heard) = some (c, out))
    (hheard : ∀ res, heard = some res → res ∈ s.replies)
    {e : Event (Net ι σ κ ρ τ) (NetAct ι α γ δ) (NetOut ι σ α ο κ γ ρ τ)}
    (he : e.out = .client i ⟨s.clients i, (g, heard), out, c⟩) :
    Projects P (tr ++ [e]) { s with
      clients := Function.update s.clients i c
      sent := s.sent ++ out } := by
  have hself : clientTrace i (tr ++ [e]) =
      clientTrace i tr ++ [⟨s.clients i, (g, heard), out, c⟩] := by
    rw [clientTrace_snoc, he, NetOut.client?, if_pos rfl]
    rfl
  have hother : ∀ j, j ≠ i → clientTrace j (tr ++ [e]) = clientTrace j tr := by
    intro j hj
    rw [clientTrace_snoc, he, NetOut.client?, if_neg (Ne.symm hj)]
    exact List.append_nil _
  have hserver : serverTrace (tr ++ [e]) = serverTrace tr := by
    rw [serverTrace_snoc, he]
    exact List.append_nil _
  refine ⟨?_, fun j => ?_, fun req => ?_, fun res => ?_, fun e' he' => ?_,
    fun j e' he' res hres => ?_⟩
  · rw [hserver]
    exact h.server
  · by_cases hj : j = i
    · subst hj
      simp only [hself, Function.update_self]
      exact (h.client j).snoc hstep
    · simp only [hother j hj, Function.update_of_ne hj]
      exact h.client j
  · rw [List.mem_append, h.sent]
    constructor
    · rintro (⟨j, e', he', hreq⟩ | hreq)
      · refine ⟨j, e', ?_, hreq⟩
        by_cases hj : j = i
        · subst hj
          rw [hself]
          exact List.mem_append_left _ he'
        · rwa [hother j hj]
      · exact ⟨i, _, hself ▸ List.mem_append_right _ (List.mem_singleton_self _), hreq⟩
    · rintro ⟨j, e', he', hreq⟩
      by_cases hj : j = i
      · subst hj
        rw [hself] at he'
        rcases List.mem_append.mp he' with he' | he'
        · exact .inl ⟨j, e', he', hreq⟩
        · rw [List.mem_singleton.mp he'] at hreq
          exact .inr hreq
      · rw [hother j hj] at he'
        exact .inl ⟨j, e', he', hreq⟩
  · rw [hserver]
    exact h.replies res
  · rw [hserver] at he'
    refine (h.called e' he').imp_right ?_
    rintro ⟨req, hreq, hd⟩
    exact ⟨req, List.mem_append_left _ hreq, hd⟩
  · by_cases hj : j = i
    · subst hj
      rw [hself] at he'
      rcases List.mem_append.mp he' with he' | he'
      · exact h.heard j e' he' res hres
      · rw [List.mem_singleton.mp he'] at hres
        exact hheard res hres
    · rw [hother j hj] at he'
      exact h.heard j e' he' res hres

theorem Protocol.projects {P : Protocol ι σ α ο κ γ ρ τ δ} {tr : NetTrace ι σ α ο κ γ ρ τ δ}
    {s : Net ι σ κ ρ τ} (h : P.net.Run P.net.init tr s) : Projects P tr s := by
  refine h.history ?_ ?_
  · exact ⟨.nil _, fun _ => .nil _, by simp [net, clientTrace], by simp [net, serverTrace],
      by simp [serverTrace], by simp [clientTrace]⟩
  · intro tr s a t out _ hprojects hstep
    cases Protocol.step_moves hstep with
    | server hserver hcall => exact hprojects.snocServer hserver hcall rfl
    | client hclient hheard => exact hprojects.snocClient hclient hheard rfl

theorem Protocol.clientStep {P : Protocol ι σ α ο κ γ ρ τ δ}
    {tr₁ tr₂ : NetTrace ι σ α ο κ γ ρ τ δ} {s : Net ι σ κ ρ τ}
    {e : Event (Net ι σ κ ρ τ) (NetAct ι α γ δ) (NetOut ι σ α ο κ γ ρ τ)}
    (h : P.net.Run P.net.init (tr₁ ++ e :: tr₂) s) {i : ι}
    {e' : Event κ (γ × Option τ) (List ρ)} (hout : e.out = .client i e') :
    Projects P tr₁ e.pre ∧ e'.pre = e.pre.clients i ∧
      (P.client i).step e'.pre e'.act = some (e'.post, e'.out) := by
  obtain ⟨hrun, hstep, -⟩ := h.split rfl
  have hmoves := Protocol.step_moves hstep
  generalize e.post = post at hmoves
  generalize hout' : e.out = out at hmoves
  cases hmoves with
  | server =>
    rw [hout] at hout'
    cases hout'
  | client hclient =>
    rw [hout] at hout'
    cases hout'
    exact ⟨Protocol.projects hrun, rfl, hclient⟩

end

end CvdBench.Foundation
