import AmqpClient.Text.Quoted
/-! What can fail, named by the broker operation or the check that failed. -/
namespace AmqpClient

inductive Error where
  | connect (reason : String)
  | channel (reason : String)
  | declareExchange (name : String)
  | declareQueue (name : String)
  | bind (exchange queue : String)
  | qos (reason : String)
  | subscribe (queue : String)
  | notConnected
  | closed
  | publish (reason : String)
  | publishTimeout
  | ack (reason : String)
  | reject (reason : String)
  | close (reason : String)
  | stream (reason : String)
  | payload (reason : String)
  | invalidConfig (reason : String)
  deriving DecidableEq, Repr

namespace Error

def message : Error → String
  | connect r => "failure to connect: " ++ r
  | channel r => "failure to create a channel: " ++ r
  | declareExchange n => "failure to declare an exchange `" ++ n ++ "`"
  | declareQueue n => "failure to declare a queue `" ++ n ++ "`"
  | bind e q => "failure to bind exchange `" ++ e ++ "` to queue `" ++ q ++ "`"
  | qos r => "failure to configure qos `" ++ r ++ "`"
  | subscribe q => "failure to declare consumer `" ++ q ++ "`"
  | notConnected => "rabbitmq connection is not available"
  | closed => "client is closed"
  | publish r => "failure to publish: " ++ r
  | publishTimeout => "publish timed out"
  | ack r => "failure to ack message: " ++ r
  | reject r => "failure to reject message: " ++ r
  | close r => "failure to close: " ++ r
  | stream r => "failure to consume message `" ++ r ++ "`"
  | payload r => "failure to parse payload: " ++ r
  | invalidConfig r => "invalid configuration: " ++ r

def name : Error → String
  | connect _ => "ConnectionError"
  | channel _ => "ChannelError"
  | declareExchange _ => "DeclareExchangeError"
  | declareQueue _ => "DeclareQueueError"
  | bind _ _ => "BindingExchangeToQueueError"
  | qos _ => "QoSDeclarationError"
  | subscribe _ => "BindingConsumerError"
  | notConnected => "NotConnected"
  | closed => "Closed"
  | publish _ => "PublishingError"
  | publishTimeout => "PublishTimeout"
  | ack _ => "AckMessageError"
  | reject _ => "RejectMessageError"
  | close _ => "CloseError"
  | stream _ => "ConsumerError"
  | payload _ => "ParsePayloadError"
  | invalidConfig _ => "InvalidConfig"

def arguments : Error → List String
  | notConnected | closed | publishTimeout => []
  | bind e q => [e, q]
  | connect r | channel r | declareExchange r | declareQueue r | qos r | subscribe r | publish r
  | ack r | reject r | close r | stream r | payload r | invalidConfig r => [r]

def debug (e : Error) : String :=
  match e.arguments with
  | [] => e.name
  | args => e.name ++ "(" ++ String.intercalate ", " (args.map Text.quoted) ++ ")"

def ofName? (name : String) (args : List String) : Option Error :=
  let first := args.headD ""
  let second := args.getD 1 ""
  [connect first, channel first, declareExchange first, declareQueue first, bind first second,
    qos first, subscribe first, notConnected, closed, publish first, publishTimeout, ack first,
    reject first, close first, stream first, payload first, invalidConfig first].find?
      fun e => e.name = name

end Error

abbrev Outcome := Except Error Unit

end AmqpClient
