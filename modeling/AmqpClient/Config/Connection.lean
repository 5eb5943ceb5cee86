import AmqpClient.Config.Record
import AmqpClient.Text.Percent
/-! How to reach a broker, and the address that says it. -/
namespace AmqpClient

structure ConnectionSettings where
  scheme : String := "amqp"
  host : String := "localhost"
  port : UInt16 := 5672
  username : String := "guest"
  password : String := "guest"
  vhost : String := "/"
  connectionName : String := "rabbitmq-resilient"
  deriving DecidableEq, Repr

namespace ConnectionSettings

/-- Leading slashes are dropped; a virtual host of slashes alone travels encoded. -/
def vhostPath (vhost : List Char) : List Char :=
  let rest := vhost.dropWhile (· == '/')
  if rest.isEmpty ∧ !vhost.isEmpty then ['%', '2', 'f'] else rest

def credentials (c : ConnectionSettings) : List Char :=
  Percent.encode c.username ++ ':' :: Percent.encode c.password

def authority (c : ConnectionSettings) : List Char :=
  c.host.toList ++ ':' :: Nat.toDigits 10 c.port.toNat

def addressChars (c : ConnectionSettings) : List Char :=
  c.scheme.toList ++ "://".toList ++ c.credentials ++ '@' :: c.authority ++
    '/' :: vhostPath c.vhost.toList

def address (c : ConnectionSettings) : String := String.ofList c.addressChars

open Config in
def ofNode? (x : Json.Node) : Option ConnectionSettings := do
  let r ← Record.ofNode?
    ["scheme", "host", "port", "username", "password", "vhost", "connection_name"] x
  let d : ConnectionSettings := {}
  let scheme ← r.field "scheme" text? d.scheme
  let host ← r.field "host" text? d.host
  let port ← r.field "port" uint16? d.port
  let username ← r.field "username" text? d.username
  let password ← r.field "password" text? d.password
  let vhost ← r.field "vhost" text? d.vhost
  let connectionName ← r.field "connection_name" text? d.connectionName
  some ⟨scheme, host, port, username, password, vhost, connectionName⟩

end ConnectionSettings

end AmqpClient
