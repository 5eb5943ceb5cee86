import AmqpClient.Header
import AmqpClient.Text.LowerCase
/-! Trace context in header tables, and the span around the processing of one delivery. -/
namespace AmqpClient.Trace

def set (headers : Header.Table) (key value : String) : Header.Table :=
  Assoc.insert (Text.lower key) (.text value) headers

def inject (entries : List (String × String)) (headers : Header.Table) : Header.Table :=
  entries.foldl (fun h e => set h e.1 e.2) headers

/-- Finds exactly the name asked for, and only text. -/
def extract? (headers : Header.Table) (key : String) : Option String :=
  match Assoc.find? key headers with
  | some (.longString b) => Bytes.text? b
  | _ => none

def parentHeader : String := "traceparent"

inductive Note where
  | ok
  | failed (description : String)
  | exception (text : String)
  deriving DecidableEq, Repr

structure Span where
  tracer : String
  name : String
  parent : Option String
  notes : List Note
  deriving DecidableEq, Repr

namespace Span

def start (tracer name : String) (headers : Header.Table) : Span :=
  ⟨tracer, name, extract? headers parentHeader, []⟩

def note (n : Note) (s : Span) : Span := { s with notes := s.notes ++ [n] }

end Span

end AmqpClient.Trace
