/-! Stop flags. Handles share a flag; raising it is answered by true once. -/
namespace AmqpClient.Shutdown

structure Board where
  flags : List Bool
  handles : List Nat
  deriving DecidableEq, Repr

def Board.start : Board := ⟨[false], [0]⟩

inductive Request where
  | trigger
  | isTriggered
  | clone
  | create
  | wait
  deriving DecidableEq, Repr

inductive Answer where
  | flag (b : Bool)
  | handle (n : Nat)
  deriving DecidableEq, Repr

def raise (flag : Bool) : Bool × Bool := (true, !flag)

theorem raiseAnswer {flag up fresh : Bool} (raised : raise flag = (up, fresh)) :
    up = true ∧ fresh = !flag := by
  cases raised
  exact ⟨rfl, rfl⟩

/-- Handles are numbered from zero, and a number past the last starts over. -/
def Board.act (b : Board) (r : Request) (on : Nat) : Board × Answer :=
  let flag := (b.handles[on % b.handles.length]?).getD 0
  let up := (b.flags[flag]?).getD false
  match r with
  | .trigger =>
    let (now, fresh) := raise up
    ({ b with flags := b.flags.set flag now }, .flag fresh)
  | .isTriggered => (b, .flag up)
  | .wait => (b, .flag up)
  | .clone => ({ b with handles := b.handles ++ [flag] }, .handle b.handles.length)
  | .create =>
    (⟨b.flags ++ [false], b.handles ++ [b.flags.length]⟩, .handle b.handles.length)

def Board.run (b : Board) : List (Request × Nat) → List Answer
  | [] => []
  | (r, on) :: rest =>
    let (b, a) := b.act r on
    a :: b.run rest

end AmqpClient.Shutdown
