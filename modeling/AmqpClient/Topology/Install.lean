import AmqpClient.Topology
/-! Installing a topology: the dead-letter half before the main half, an exchange before the queue
bound to it, and the first failure ends it. The plan lists the same declarations without making
them. -/
namespace AmqpClient

inductive Declaration where
  | exchange (e : Exchange)
  | queue (q : Queue)
  | bind (b : Binding)
  deriving DecidableEq, Repr

abbrev Attempt (σ : Type u) := σ → σ × Outcome

namespace Attempt

def skip : Attempt σ := fun s => (s, .ok ())

def andThen (f g : Attempt σ) : Attempt σ := fun s =>
  match f s with
  | (s, .ok ()) => g s
  | (s, .error e) => (s, .error e)

end Attempt

namespace Topology

variable {σ : Type u}

def installQueue (call : Declaration → Attempt σ) (q : Queue × Binding) : Attempt σ :=
  (call (.queue q.1)).andThen (call (.bind q.2))

def install (call : Declaration → Attempt σ) (t : Topology) : Attempt σ :=
  ((((t.deadLetterExchange.elim Attempt.skip fun e => call (.exchange e)).andThen
    (t.deadLetterQueue.elim Attempt.skip (installQueue call))).andThen
    (call (.exchange t.mainExchange))).andThen
    (t.mainQueue.elim Attempt.skip (installQueue call)))

def queuePlan : Option (Queue × Binding) → List Declaration
  | none => []
  | some (q, b) => [.queue q, .bind b]

def plan (t : Topology) : List Declaration :=
  (t.deadLetterExchange.map Declaration.exchange).toList ++ queuePlan t.deadLetterQueue ++
    [.exchange t.mainExchange] ++ queuePlan t.mainQueue

def carryOut (call : Declaration → Attempt σ) : List Declaration → Attempt σ
  | [] => Attempt.skip
  | d :: rest => (call d).andThen (carryOut call rest)

end Topology

end AmqpClient
