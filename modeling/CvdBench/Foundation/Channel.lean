import Mathlib.Data.List.Basic

/-!
A bounded channel with one receiver, and what the receiver has taken from it so far.
-/

set_option autoImplicit false

namespace CvdBench.Foundation

inductive Receiver where
  | listening
  | ended
  | dropped
  deriving DecidableEq, Repr

inductive SendResult where
  | sent | full | closed
  deriving DecidableEq, Repr

/-- `overflowed` records that some send found no room. -/
structure Channel (α : Type) where
  capacity : Nat
  buffer : List α
  received : List α
  hasSender : Bool
  overflowed : Bool
  receiver : Receiver

namespace Channel

variable {α : Type}

def new (capacity : Nat) : Channel α :=
  { capacity, buffer := [], received := [], hasSender := true, overflowed := false
    receiver := .listening }

def trySend (c : Channel α) (a : α) : SendResult × Channel α :=
  if c.receiver = .dropped then (.closed, c)
  else if c.buffer.length < c.capacity then (.sent, { c with buffer := c.buffer ++ [a] })
  else (.full, { c with overflowed := true })

/-- Waits while the channel is empty and has a sender. -/
def recv (c : Channel α) : Option (Channel α) :=
  match c.receiver with
  | .listening => match c.buffer with
    | a :: rest => some { c with buffer := rest, received := c.received ++ [a] }
    | [] => if c.hasSender then none else some { c with receiver := .ended }
  | _ => none

def dropSender (c : Channel α) : Channel α := { c with hasSender := false }

def dropReceiver (c : Channel α) : Option (Channel α) :=
  match c.receiver with
  | .listening => some { c with receiver := .dropped, buffer := [] }
  | _ => none

def items (c : Channel α) : List α := c.received ++ c.buffer

@[simp] theorem items_dropSender (c : Channel α) : c.dropSender.items = c.items := rfl

theorem trySend_spec (c : Channel α) (a : α) :
    (c.receiver = .dropped ∧ c.trySend a = (.closed, c)) ∨
    (c.receiver ≠ .dropped ∧ c.trySend a = (.sent, { c with buffer := c.buffer ++ [a] })) ∨
    (c.receiver ≠ .dropped ∧ c.trySend a = (.full, { c with overflowed := true })) := by
  unfold trySend
  by_cases hdropped : c.receiver = .dropped
  · exact .inl ⟨hdropped, if_pos hdropped⟩
  · rw [if_neg hdropped]
    by_cases hroom : c.buffer.length < c.capacity
    · exact .inr (.inl ⟨hdropped, if_pos hroom⟩)
    · exact .inr (.inr ⟨hdropped, if_neg hroom⟩)

theorem recv_spec {c c' : Channel α} (h : c.recv = some c') :
    c.receiver = .listening ∧ c'.items = c.items ∧ c'.hasSender = c.hasSender ∧
      c'.overflowed = c.overflowed ∧
      (c'.receiver = .listening ∨
        c'.receiver = .ended ∧ c'.buffer = [] ∧ c'.hasSender = false) := by
  unfold recv at h
  split at h
  · next hlisten =>
    split at h
    · next a rest hbuffer =>
      cases h
      refine ⟨hlisten, ?_, rfl, rfl, .inl hlisten⟩
      simp [items, hbuffer]
    · next hempty =>
      split at h
      · cases h
      · next hsender =>
        cases h
        exact ⟨hlisten, rfl, rfl, rfl, .inr ⟨rfl, hempty, Bool.eq_false_iff.mpr hsender⟩⟩
  · cases h

theorem dropReceiver_spec {c c' : Channel α} (h : c.dropReceiver = some c') :
    c' = { c with receiver := .dropped, buffer := [] } := by
  unfold dropReceiver at h
  split at h
  · cases h
    rfl
  · cases h

theorem items_dropReceiver {c c' : Channel α} (h : c.dropReceiver = some c') :
    c'.items <+: c.items := by
  rw [dropReceiver_spec h]
  exact ⟨c.buffer, by simp [items]⟩

end Channel

end CvdBench.Foundation
