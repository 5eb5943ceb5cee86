import AmqpClient.Assoc
import AmqpClient.Text.Bytes
/-! Header tables: typed values under names. -/
namespace AmqpClient.Header

inductive Value where
  | boolean (b : Bool)
  | shortShortInt (n : Int8)
  | shortShortUInt (n : UInt8)
  | shortInt (n : Int16)
  | shortUInt (n : UInt16)
  | longInt (n : Int32)
  | longUInt (n : UInt32)
  | longLongInt (n : Int64)
  | timestamp (n : UInt64)
  | shortString (s : String)
  | longString (b : Bytes)
  | byteArray (b : Bytes)
  | fieldArray (items : List Value)
  | fieldTable (entries : List (String × Value))
  | void
  deriving BEq, Repr, Inhabited

abbrev Table := Assoc Value

def Value.text (s : String) : Value := .longString (Bytes.ofText s)

end AmqpClient.Header
