import AmqpClient.Consumer
/-! Starting and closing a consumer. Each step of a call is atomic: taking and giving back the lock
on the flag that tells whether the consumer is consuming, raising the stop flag, and spawning a
loop. Closing waits a moment for the loop, then for the retry tasks there are, then closes the
supervisor. -/
namespace AmqpClient.Consumer

variable {β : Type} [Broker β]

def startStep (call : Nat) (s : Supervisor) (c : Consumer) :
    Starting → Option (Consumer × Starting)
  | .locking =>
    if c.lock.isNone then some ({ c with lock := some (.call call) }, .checkingStop) else none
  | .checkingStop =>
    if c.stopped then some (c, .unlocking (.error .closed)) else some (c, .checkingRunning)
  | .checkingRunning =>
    if c.consuming then some (c, .unlocking (.ok ()))
    else some ({ c with consuming := true }, .spawning)
  | .spawning =>
    let l : Loop := { seen := s.announced, generation := s.session.generation }
    some ({ c with loops := c.loops ++ [l] }, .unlocking (.ok ()))
  | .unlocking o => some ({ c with lock := none }, .done o)
  | .done _ => none

def closeStep (call : Nat) (e : Env β) (s : Supervisor) (c : Consumer) :
    ConsumerClosing → Option (Env β × Supervisor × Consumer × ConsumerClosing)
  | .locking =>
    if c.lock.isNone then some (e, s, { c with lock := some (.call call) }, .clearing) else none
  | .clearing => some (e, s, { c with consuming := false }, .unlocking)
  | .unlocking => some (e, s, { c with lock := none }, .raising)
  | .raising =>
    match Shutdown.raise c.stopped with
    | (stopped, true) => some (e, s, { c with stopped }, .grace (e.now + closeGrace))
    | (_, false) => some (e, s, c, .collecting)
  | .grace ends => if ends ≤ e.now then some (e, s, c, .collecting) else none
  | .collecting => some (e, s, { c with unreaped := [] }, .joining c.unreaped)
  | .joining tasks =>
    if tasks.all c.retryFinished then some (e, s, c, .closing .raising) else none
  | .closing x => (s.closeStep e x).map fun (e, s, x) => (e, s, c, .closing x)

def ConsumerClosing.timer? : ConsumerClosing → Option Instant
  | .grace ends => some ends
  | _ => none

end AmqpClient.Consumer
