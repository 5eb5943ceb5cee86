import AmqpClient.World
/-! A schedule: each actor goes on until it has to wait, actors take turns until none can make a
step, and only then the clock moves, to the next timer. The bounds on the number of steps are there
for clients that never come to rest within one instant. -/
namespace AmqpClient.World

variable {β : Type} [Broker β]

def stepBound : Nat := 1000
def turnBound : Nat := 100000
def timerBound : Nat := 1000000

def drive (a : Actor) : Nat → Bool → World β → Bool × World β
  | 0, moved, w => (moved, w)
  | fuel + 1, moved, w =>
    match w.step a false with
    | some w => drive a fuel true w
    | none => (moved, w)

def takeTurns (w : World β) : Bool × World β :=
  w.actors.foldl (fun (moved, w) a => drive a stepBound moved w) (false, w)

def settleWithin : Nat → World β → World β
  | 0, w => w
  | fuel + 1, w =>
    match takeTurns w with
    | (true, w) => settleWithin fuel w
    | (false, w) => w

def settle (w : World β) : World β := settleWithin turnBound w

def nextTimer? (w : World β) : Option Instant :=
  ((w.timers.filter fun t => w.env.now < t)).min?

def approachWithin (target : Instant) : Nat → World β → World β
  | 0, w => w.advance target
  | fuel + 1, w =>
    let w := w.settle
    match w.nextTimer? with
    | some t =>
      if t < target then approachWithin target fuel (w.advance t) else w.advance target
    | none => w.advance target

/-- Moves the clock to `target`, stopping at every timer on the way; what is due at `target` itself
is not yet run. -/
def approach (target : Instant) (w : World β) : World β := approachWithin target timerBound w

def advanceTo (target : Instant) (w : World β) : World β := (w.approach target).settle

def awaitWithin (done : World β → Bool) : Nat → World β → World β
  | 0, w => w
  | fuel + 1, w =>
    let w := w.settle
    if done w then w
    else match w.nextTimer? with
      | some t => awaitWithin done fuel (w.advance t)
      | none => w

def await (done : World β → Bool) (w : World β) : World β := awaitWithin done timerBound w

def pollWithin (done : World β → Bool) (pace : Nat) : Nat → World β → Bool × World β
  | 0, w => (done w, w)
  | fuel + 1, w =>
    if done w then (true, w) else pollWithin done pace fuel (w.approach (w.env.now + pace))

def waitUntil (done : World β → Bool) (w : World β) : Bool × World β := pollWithin done 10 6000 w

end AmqpClient.World
