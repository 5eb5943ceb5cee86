import AmqpClient.Message.Service
import AmqpClient.Publication
/-! Publishing on behalf of a service. Events go under the topology's key, tasks under a key made of
their type, and a plain service names a key or uses the topology's. -/
namespace AmqpClient

inductive Flavour where
  | plain
  | events
  | tasks
  deriving DecidableEq, Repr

namespace Service

def check (service : String) : Outcome :=
  if service = "" then .error (.invalidConfig "service name is required") else .ok ()

def taskKey (taskType : String) : String := "tasks." ++ taskType

def defaultTopology : Flavour → Topology
  | .tasks => Topology.tasks
  | _ => Topology.events

def routingKey (kind : String) (named : Option String) : Flavour → Option String
  | .plain => named
  | .events => none
  | .tasks => some (named.getD (taskKey kind))

def message (f : Flavour) (service : String) (unix : Int) (kind : String) (payload : Assoc Json)
    (named : Option String) : Message :=
  { body := (ServiceMessage.new unix service kind payload).encode
    routingKey := routingKey kind named f }

end Service

end AmqpClient
