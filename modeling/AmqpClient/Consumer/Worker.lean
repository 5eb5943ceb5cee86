import AmqpClient.Consumer
/-! Processing one delivery. Beyond the retry budget it is rejected without being handled; handled
with success it is acknowledged; handled with a failure its copy is scheduled first and then it is
acknowledged. A settlement that fails is noted in the span and changes nothing else. -/
namespace AmqpClient.Consumer

variable {β : Type} [Broker β]

def setWorker (i : Nat) (w : Worker) (c : Consumer) : Consumer :=
  { c with workers := c.workers.set i w }

def Worker.goto (p : WorkerPhase) (w : Worker) : Worker := { w with phase := p }

def Worker.note (n : Trace.Note) (w : Worker) : Worker := { w with span := w.span.note n }

def copyHeaders (d : Delivery) (failure : String) (unix : Int) : Header.Table :=
  Assoc.insertAll d.headers
    (Retry.headers (Retry.next (Retry.count d.headers)) failure (Int64.ofInt unix))

def schedule (now : Instant) (origin : Nat) (copy : Envelope) (delay : Duration) (c : Consumer) :
    Consumer :=
  { c with
    unreaped := (c.unreaped.filter fun j => !c.retryFinished j) ++ [c.retries.length]
    retries := c.retries ++
      [{ origin, envelope := copy, phase := .waiting (Instant.wake now delay) }] }

def settlementNotes (d : Disposition) : Outcome → List Trace.Note
  | .ok () => if d = .acked then [.ok] else []
  | .error x => [.exception x.message]

def workerStep (i : Nat) (e : Env β) (c : Consumer) : Option (Env β × Consumer) :=
  match c.workers[i]? with
  | none => none
  | some w =>
    let d := w.delivery
    let n := Retry.count d.headers
    match w.phase with
    | .starting =>
      if c.retry.maxRetries ≤ n then
        let w := w.note (.failed "retry budget exhausted")
        some (e, c.setWorker i (w.goto (.settling (.reject false) .deadLettered)))
      else
        let run := c.handler c.handled d
        some (e.record (.handling d),
          { c.setWorker i (w.goto (.handling (Instant.afterSleep e.now run.takes) run.result)) with
            handled := d :: c.handled })
    | .handling ends result =>
      if e.now < ends then none
      else match result with
        | .ok () =>
          some (e.record (.handled d.tag true), c.setWorker i (w.goto (.settling .ack .acked)))
        | .error failure =>
          let w := (w.note (.exception failure)).note (.failed failure)
          some (e.record (.handled d.tag false), c.setWorker i (w.goto (.scheduling failure)))
    | .scheduling failure =>
      let delay := Retry.delay n c.retry
      let (e, id) := e.freshId
      let copy := Envelope.json id d.body (some (copyHeaders d failure e.unix))
      some (e, (c.schedule e.now i copy delay).setWorker i
        (w.goto (.settling .ack (.retried (Retry.next n) delay))))
    | .settling s disposition =>
      let (e, o) := e.settle w.channel d.tag s
      let w := (settlementNotes disposition o).foldl (fun w n => w.note n) w
      some (e, c.setWorker i (w.goto (.finishing disposition)))
    | .finishing disposition =>
      some (e.record (.spanEnded w.span),
        { c.setWorker i (w.goto (.done disposition)) with permits := c.permits + 1 })
    | .done _ => none

def Worker.timer? (w : Worker) : Option Instant :=
  match w.phase with
  | .handling ends _ => some ends
  | _ => none

end AmqpClient.Consumer
