import Mathlib.Tactic

/-!
# Queues with their history

A queue together with all that was ever sent through it.  The structure carries the law of a
lossless first-in-first-out channel as a field: what was sent is what was received followed by what
is still queued.  Sending and receiving are operations on the structure, so the law needs no further
proof.
-/

namespace IanOS

structure Fifo (α : Type*) where
  sent : List α
  received : List α
  queue : List α
  inOrder : sent = received ++ queue

namespace Fifo

variable {α : Type*}

def empty : Fifo α := ⟨[], [], [], rfl⟩

/-- New elements go behind those queued. -/
def send (q : Fifo α) (as : List α) : Fifo α where
  sent := q.sent ++ as
  received := q.received
  queue := q.queue ++ as
  inOrder := by rw [q.inOrder, List.append_assoc]

/-- The elements at the front are received. -/
def receive (q : Fifo α) (as rest : List α) (h : q.queue = as ++ rest) : Fifo α where
  sent := q.sent
  received := q.received ++ as
  queue := rest
  inOrder := by rw [q.inOrder, h, List.append_assoc]

end Fifo
end IanOS
