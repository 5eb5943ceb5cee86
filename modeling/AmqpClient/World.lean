import AmqpClient.Client
/-! All clients on one broker. Whoever can make a step may be the next to make it. -/
namespace AmqpClient

inductive OpeningPhase where
  | checking
  | establishing (x : Establish)
  | failed (x : Error)
  | opened (client : Nat)
  deriving DecidableEq, Repr

structure Opening where
  client : String
  plan : Plan
  phase : OpeningPhase := .checking

structure World (β : Type) where
  env : Env β
  openings : List Opening := []
  clients : List Client := []

inductive Actor where
  | opening (i : Nat)
  | client (i : Nat) (a : Activity)
  deriving DecidableEq, Repr

namespace World

variable {β : Type}

def setOpening (i : Nat) (o : Opening) (p : OpeningPhase) (w : World β) : World β :=
  { w with openings := w.openings.set i { o with phase := p } }

def client (o : Opening) (l : Link) (connectionSignal channelSignal : SignalId) : Client :=
  { supervisor := Supervisor.start o.client o.plan.topology o.plan.reconnectDelay l
      connectionSignal channelSignal
    role := o.plan.role }

variable [Broker β]

def openingStep (i : Nat) (w : World β) : Option (World β) :=
  match w.openings[i]? with
  | none => none
  | some o =>
    match o.phase with
    | .checking =>
      match o.plan.check with
      | .ok () => some (w.setOpening i o (.establishing .start))
      | .error x => some (w.setOpening i o (.failed x))
    | .establishing (.failed x) => some (w.setOpening i o (.failed x))
    | .establishing (.ready l c h) =>
      some { w.setOpening i o (.opened w.clients.length) with
        clients := w.clients ++ [client o l c h] }
    | .establishing x =>
      (x.step o.client o.plan.topology w.env).map fun (e, x) =>
        { w.setOpening i o (.establishing x) with env := e }
    | .failed _ => none
    | .opened _ => none

def recordEnd (i : Nat) (a : Activity) (c : Client) (e : Env β) : Env β :=
  match a with
  | .call j =>
    match (c.calls[j]?).bind Call.result? with
    | some (.returned o) => e.record (.ended i j o)
    | _ => e
  | _ => e

def clientStep (i : Nat) (a : Activity) (preferStop : Bool) (w : World β) : Option (World β) :=
  match w.clients[i]? with
  | none => none
  | some c =>
    (c.step a preferStop w.env).map fun (e, c) =>
      { w with env := recordEnd i a c e, clients := w.clients.set i c }

def step (a : Actor) (preferStop : Bool) (w : World β) : Option (World β) :=
  match a with
  | .opening i => w.openingStep i
  | .client i a => w.clientStep i a preferStop

def actors (w : World β) : List Actor :=
  (List.range w.openings.length).map .opening ++
    (w.clients.zipIdx.flatMap fun (c, i) => c.activities.map (.client i))

def timers (w : World β) : List Instant :=
  (w.openings.filterMap fun o =>
    match o.phase with
    | .establishing x => x.timer?
    | _ => none) ++ w.clients.flatMap Client.timers

def make (client : String) (p : Plan) (w : World β) : World β :=
  { w with openings := w.openings ++ [{ client, plan := p }] }

def call (i : Nat) (x : Call) (w : World β) : World β :=
  { w with clients := w.clients.modify i fun c => { c with calls := c.calls ++ [x] } }

def letGo (i : Nat) (w : World β) : World β :=
  { w with clients := w.clients.modify i fun c => { c with held := false } }

def advance (t : Instant) (w : World β) : World β := { w with env := { w.env with now := t } }

end World

end AmqpClient
