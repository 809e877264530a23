import Mathlib

/-!
# Channels with several senders

An unbounded channel into which several sources send. What is sent is accounted for under the
name of its source (`Accounts`): the receiver gets an interleaving of what the sources send, with
each source in its own order, and nothing is lost or doubled as long as the receiver is there.
-/

namespace Async

variable {κ α : Type}

/-- An unbounded channel. Besides what waits in it, it keeps what its receiver has taken so far,
so that a run can be compared with what was sent. -/
structure Mpsc (α : Type) : Type where
  /-- what waits for the receiver, oldest first -/
  queue : List α := []
  /-- what the receiver has got, oldest first -/
  received : List α := []
  /-- the receiver is gone -/
  closed : Bool := false

namespace Mpsc

variable (c : Mpsc α)

/-- Send, unless the receiver is gone. A message to a receiver that is gone is dropped. -/
def send (a : α) : Mpsc α := if c.closed then c else { c with queue := c.queue ++ [a] }

/-- Receive the oldest. -/
def recv : Option (Mpsc α) :=
  match c.closed, c.queue with
  | false, a :: queue => some { c with queue := queue, received := c.received ++ [a] }
  | _, _ => none

/-- The receiver goes, and what waits for it is lost. -/
def close : Mpsc α := { c with queue := [], closed := true }

variable {c}

@[simp] theorem send_received (a : α) : (c.send a).received = c.received := by
  rw [send]
  split <;> rfl

@[simp] theorem send_closed (a : α) : (c.send a).closed = c.closed := by
  rw [send]
  split <;> rfl

/-- Inversion for `recv`. -/
theorem recv_eq_some {c' : Mpsc α} (h : c.recv = some c') :
    ∃ a, c.closed = false ∧ c.queue = a :: c'.queue ∧ c'.received = c.received ++ [a] ∧
      c'.closed = false := by
  rw [recv] at h
  split at h
  · rename_i a queue hclosed hqueue
    obtain rfl := Option.some.inj h
    exact ⟨a, hclosed, hqueue, rfl, hclosed⟩
  · cases h

/-- What waits can be received. -/
theorem recv_of_queue {a : α} {queue : List α} (hclosed : c.closed = false)
    (hqueue : c.queue = a :: queue) :
    c.recv = some { c with queue := queue, received := c.received ++ [a] } := by
  rw [recv, hclosed, hqueue]

end Mpsc

/-! ## Accounts -/

/-- What one source has sent. The order of what it sent is kept. -/
def fromSource [DecidableEq κ] (source : κ) (sent : List (κ × α)) : List α :=
  (sent.filter fun m => m.1 = source).map Prod.snd

section Sources

variable [DecidableEq κ] {source source' : κ} {sent : List (κ × α)} {a : α}

@[simp] theorem fromSource_nil : fromSource source ([] : List (κ × α)) = [] := rfl

@[simp] theorem fromSource_send_self :
    fromSource source (sent ++ [(source, a)]) = fromSource source sent ++ [a] := by
  simp [fromSource]

theorem fromSource_send_ne (h : source' ≠ source) :
    fromSource source (sent ++ [(source', a)]) = fromSource source sent := by
  simp [fromSource, h]

/-- A source that has sent nothing. -/
theorem fromSource_of_forall_ne (h : ∀ m ∈ sent, m.1 ≠ source) : fromSource source sent = [] := by
  rw [fromSource, List.map_eq_nil_iff, List.filter_eq_nil_iff]
  intro m hm
  simpa using h m hm

end Sources

/-- The channel has taken this from its sources: the receiver has got a part of it from the
start, and as long as it is there the rest waits. -/
structure Mpsc.Accounts (c : Mpsc α) (sent : List (κ × α)) : Prop where
  received : c.received <+: sent.map Prod.snd
  open_eq : c.closed = false → sent.map Prod.snd = c.received ++ c.queue

namespace Mpsc.Accounts

variable {c c' : Mpsc α} {sent : List (κ × α)}

theorem empty : (({} : Mpsc α).Accounts ([] : List (κ × α))) := ⟨List.prefix_rfl, fun _ => rfl⟩

theorem send (h : c.Accounts sent) (source : κ) (a : α) :
    (c.send a).Accounts (sent ++ [(source, a)]) := by
  refine ⟨?_, fun hopen => ?_⟩
  · rw [send_received, List.map_append]
    exact h.received.trans (List.prefix_append _ _)
  · rw [send_closed] at hopen
    rw [List.map_append, h.open_eq hopen, Mpsc.send, hopen]
    exact List.append_assoc _ _ _

theorem recv (h : c.Accounts sent) (hrecv : c.recv = some c') : c'.Accounts sent := by
  obtain ⟨a, hclosed, hqueue, hreceived, -⟩ := recv_eq_some hrecv
  have heq : sent.map Prod.snd = c'.received ++ c'.queue := by
    rw [h.open_eq hclosed, hqueue, hreceived, List.append_assoc]
    rfl
  exact ⟨⟨_, heq.symm⟩, fun _ => heq⟩

theorem close (h : c.Accounts sent) : c.close.Accounts sent :=
  ⟨h.received, fun hopen => Bool.noConfusion hopen⟩

/-- A channel that is open and empty has handed over everything. -/
theorem received_eq (h : c.Accounts sent) (hopen : c.closed = false) (hqueue : c.queue = []) :
    c.received = sent.map Prod.snd := by
  rw [h.open_eq hopen, hqueue, List.append_nil]

end Mpsc.Accounts

end Async
