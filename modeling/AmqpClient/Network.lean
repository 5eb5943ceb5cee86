import AmqpClient.Client
import AmqpClient.Config.Connection
/-! Making a client over the network, as far as it goes before anything is sent: the client's own
checks come first, and then an address of a scheme that no broker speaks is refused. -/
namespace AmqpClient.Network

def schemes : List String := ["amqp", "amqps"]

def checkScheme (c : ConnectionSettings) : Outcome :=
  let scheme := c.scheme.toLower
  if schemes.contains scheme then .ok ()
  else .error (.connect ("IO error: Invalid AMQP scheme: " ++ scheme))

def connect (c : ConnectionSettings) (p : Plan) : Outcome :=
  match p.check with
  | .ok () => checkScheme c
  | .error x => .error x

end AmqpClient.Network
