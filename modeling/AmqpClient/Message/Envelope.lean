import AmqpClient.Header
/-! Messages as they are published: a body, its headers, and an identity of their own. -/
namespace AmqpClient

namespace MessageId

def grouped (ds : List Char) : List Char :=
  ds.take 8 ++ '-' :: (ds.drop 8).take 4 ++ '-' :: (ds.drop 12).take 4 ++
    '-' :: (ds.drop 16).take 4 ++ '-' :: ds.drop 20

/-- The identity with a serial number: a universally unique identifier of version 4 whose last
twelve digits count. -/
def ofSerial (n : Nat) : String :=
  let ds := Nat.toDigits 16 n
  String.ofList (grouped ("00000000000040008000".toList ++ List.replicate (12 - ds.length) '0' ++ ds))

def isLowerHex (c : Char) : Bool := ('0' ≤ c && c ≤ '9') || ('a' ≤ c && c ≤ 'f')

def isVersion4 (id : String) : Bool :=
  let cs := id.toList
  let ds := cs.filter (· != '-')
  ds.length == 32 && ds.all isLowerHex && cs == grouped ds && ds[12]? == some '4' &&
    ((ds[16]?.map fun c => "89ab".toList.contains c).getD false)

end MessageId

structure Envelope where
  body : Bytes
  contentType : String
  headers : Header.Table
  deliveryMode : UInt8
  messageId : String
  deriving BEq, Repr

namespace Envelope

def json (messageId : String) (body : Bytes) (headers : Option Header.Table) : Envelope :=
  ⟨body, "application/json", headers.getD [], 2, messageId⟩

def header? (name : String) (e : Envelope) : Option Header.Value := Assoc.find? name e.headers

end Envelope

end AmqpClient
