import Mathlib.Logic.Basic
/-!
# Receivers behind a FIFO channel

A receiver applies the messages of its channel one at a time. What it will be
once the channel is empty, its settled state, only depends on what was sent:
a delivery leaves it alone, and a new message is applied to it at once.
-/

namespace Showtime.Library

variable {Replica Message : Type*}

/-- What the receiver becomes when everything in its channel is delivered. -/
def settled (apply : Replica → Message → Replica) (replica : Replica) (channel : List Message) :
    Replica :=
  channel.foldl apply replica

variable {apply : Replica → Message → Replica}

@[simp] theorem settled_empty (replica : Replica) : settled apply replica [] = replica := rfl

/-- Delivery of the oldest message. -/
theorem settled_deliver (replica : Replica) (message : Message) (channel : List Message) :
    settled apply (apply replica message) channel = settled apply replica (message :: channel) :=
  rfl

/-- Sending puts the new messages behind all others. -/
theorem settled_send (replica : Replica) (channel messages : List Message) :
    settled apply replica (channel ++ messages) =
      settled apply (settled apply replica channel) messages := by
  simp [settled]

/-- Messages that change nothing can be sent at any time. -/
theorem settled_of_ignored {messages : List Message}
    (hignored : ∀ message ∈ messages, ∀ replica, apply replica message = replica)
    (replica : Replica) : settled apply replica messages = replica := by
  induction messages generalizing replica with
  | nil => rfl
  | cons message messages ih =>
    change settled apply (apply replica message) messages = replica
    rw [hignored message (by simp) replica]
    exact ih (fun m hm => hignored m (by simp [hm])) replica

/-- Once an idempotent message is applied, it can be repeated as well. -/
theorem settled_of_absorbed {messages : List Message} {one : Message}
    (hidempotent : ∀ replica, apply (apply replica one) one = apply replica one)
    (hothers : ∀ message ∈ messages, message = one ∨ ∀ replica, apply replica message = replica)
    (replica : Replica) : settled apply (apply replica one) messages = apply replica one := by
  induction messages with
  | nil => rfl
  | cons message messages ih =>
    have hstays : apply (apply replica one) message = apply replica one := by
      rcases hothers message (by simp) with rfl | hignored
      · exact hidempotent replica
      · exact hignored _
    rw [← settled_deliver, hstays]
    exact ih fun m hm => hothers m (by simp [hm])

/-- A batch in which every message but an idempotent one is ignored acts as that one. -/
theorem settled_of_one {messages : List Message} {one : Message} (hone : one ∈ messages)
    (hidempotent : ∀ replica, apply (apply replica one) one = apply replica one)
    (hothers : ∀ message ∈ messages, message = one ∨ ∀ replica, apply replica message = replica)
    (replica : Replica) : settled apply replica messages = apply replica one := by
  induction messages with
  | nil => simp at hone
  | cons message messages ih =>
    have hrest : ∀ m ∈ messages, m = one ∨ ∀ replica, apply replica m = replica :=
      fun m hm => hothers m (by simp [hm])
    rw [← settled_deliver]
    rcases hothers message (by simp) with rfl | hignored
    · exact settled_of_absorbed hidempotent hrest replica
    · rcases List.mem_cons.mp hone with rfl | hmem
      · exact settled_of_absorbed hidempotent hrest replica
      · rw [hignored replica]
        exact ih hmem hrest

end Showtime.Library
