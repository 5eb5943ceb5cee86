import AmqpClient.Consumer
/-! Handlers given by a script: for each body a list of runs, taken in turn, of which the last is
repeated. An empty list succeeds at once. -/
namespace AmqpClient.Scenario

inductive RunResult where
  | succeed
  | fail (text : String)
  | failWith (x : Error)
  | needField (name : String)

structure Run where
  sleep : Nat := 0
  result : RunResult := .succeed

structure Script where
  byBody : Assoc (List Run) := []
  otherwise : List Run := []

namespace Script

def runs (s : Script) (body : Bytes) : List Run :=
  ((Bytes.text? body).bind fun t => Assoc.find? t s.byBody).getD s.otherwise

def pick (n : Nat) (runs : List Run) : Run := (runs[n]? <|> runs.getLast?).getD {}

def fieldResult (name : String) (body : Bytes) : Except String Unit :=
  match Json.read? body with
  | none => .error "not json"
  | some j => if (j.field? name).isSome then .ok () else .error "field missing"

def result (r : RunResult) (body : Bytes) : Except String Unit :=
  match r with
  | .succeed => .ok ()
  | .fail t => .error t
  | .failWith x => .error x.message
  | .needField n => fieldResult n body

def handler (s : Script) : Handler := fun earlier d =>
  let run := pick (earlier.countP fun x => x.body == d.body) (s.runs d.body)
  ⟨run.sleep, result run.result d.body⟩

end Script

end AmqpClient.Scenario
