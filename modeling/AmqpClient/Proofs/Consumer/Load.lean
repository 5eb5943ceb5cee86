import AmqpClient.Client
import AmqpClient.Proofs.Consumer.Serving
/-! How much there is left to do. Every step of the consumer or of a publish call leaves less. -/
namespace AmqpClient

open Broker (Memory Store)
open Consumer

namespace Desk

variable (x : Desk)

def load (n : Nat) : Nat := 20 * x.budget n

def most : Nat := 20 * x.policy.maxRetries.toNat

def backlog (unread : List Delivery) : Nat := total (fun d => x.load d.attempts + 12) unread

end Desk

namespace Consumer

variable (x : Desk)

def Loop.load (l : Loop) : Nat :=
  match l.phase with
  | .checking => 5
  | .marking => 4
  | .opening => 3
  | .prefetching _ => 2
  | .subscribing _ => 1
  | _ => 0

def Worker.load (y : Worker) : Nat :=
  match y.phase with
  | .starting => x.load y.delivery.attempts + 10
  | .handling .. => x.load y.delivery.attempts + 1
  | .scheduling _ => x.load y.delivery.attempts
  | .settling .. => 2
  | .finishing _ => 1
  | .done _ => 0

def RetryTask.load (r : RetryTask) : Nat :=
  match r.phase with
  | .waiting _ => x.load r.envelope.attempts + 17
  | .pausing _ => x.load r.envelope.attempts + 17
  | .sampling => x.load r.envelope.attempts + 16
  | .opening _ => x.load r.envelope.attempts + 15
  | .sending .. => x.load r.envelope.attempts + 14
  | .confirming .. => 1
  | .done _ => 0

def load (unread : List Delivery) (k : Consumer) : Nat :=
  x.backlog unread + total (fun d => x.load d.attempts + 11) k.hand +
    total (Worker.load x) k.workers + total (RetryTask.load x) k.retries + total Loop.load k.loops

end Consumer

def Publication.load (x : Desk) (p : Publication) : Nat :=
  match p.phase with
  | .queued _ => x.most + 16
  | .opening => x.most + 15
  | .sending _ => x.most + 14
  | .confirming _ => 1
  | _ => 0

def Call.load (x : Desk) : Call → Nat
  | .publish p => p.load x
  | _ => 0

def Client.load (x : Desk) (c : Client) : Nat := total (Call.load x) c.calls

namespace Desk

variable {x : Desk}

theorem loadMost (n : Nat) : x.load n ≤ x.most := Nat.mul_le_mul_left 20 (Nat.sub_le _ n)

theorem loadNext {n : Nat} (more : n < x.policy.maxRetries.toNat) :
    x.load (n + 1) + 20 = x.load n := by
  unfold load budget
  omega

end Desk

end AmqpClient
