import AmqpClient.Proofs.Text.LowerCase
import AmqpClient.Trace
/-! Trace entries in a header table. They stand under the lower case of their keys, each as the last
of its name gave it, and no other header changes. Whoever asks for a name gets what stands under
exactly that name. -/
namespace AmqpClient.Trace

def lastSet (name : String) (entries : List (String × String)) : Option Header.Value :=
  entries.foldl (fun last e => if name = Text.lower e.1 then some (.text e.2) else last) none

theorem entriesFrom (name : String) (entries : List (String × String)) (old : Option Header.Value) :
    entries.foldl (fun last e => if name = Text.lower e.1 then some (.text e.2) else last) old =
      (lastSet name entries).or old := by
  induction entries generalizing old with
  | nil => rfl
  | cons e rest ih =>
    have first : lastSet name (e :: rest) =
        (lastSet name rest).or (if name = Text.lower e.1 then some (.text e.2) else none) := ih _
    rw [List.foldl_cons, ih, first, Option.or_assoc]
    split <;> rfl

theorem injectFind (name : String) (entries : List (String × String)) (headers : Header.Table) :
    Assoc.find? name (inject entries headers) =
      (lastSet name entries).or (Assoc.find? name headers) := by
  rw [← entriesFrom]
  induction entries generalizing headers with
  | nil => rfl
  | cons e rest ih =>
    unfold inject at ih ⊢
    rw [List.foldl_cons, List.foldl_cons, ih]
    unfold set
    rw [Assoc.findInsert]

def Apart (entries : List (String × String)) : Prop :=
  (entries.map fun e => Text.lower e.1).Nodup

variable {name : String} {entries : List (String × String)} {e : String × String}

theorem lastSetOther (other : ∀ e ∈ entries, name ≠ Text.lower e.1) :
    lastSet name entries = none := by
  unfold lastSet
  induction entries with
  | nil => rfl
  | cons e rest ih =>
    rw [List.foldl_cons, if_neg (other e List.mem_cons_self)]
    exact ih fun x mem => other x (List.mem_cons_of_mem _ mem)

theorem lastSetMember (apart : Apart entries) (mem : e ∈ entries) :
    lastSet (Text.lower e.1) entries = some (.text e.2) := by
  induction entries with
  | nil => cases mem
  | cons first rest ih =>
    obtain ⟨new, apart⟩ := List.nodup_cons.mp apart
    have split : lastSet (Text.lower e.1) (first :: rest) = (lastSet (Text.lower e.1) rest).or
        (if Text.lower e.1 = Text.lower first.1 then some (.text first.2) else none) :=
      entriesFrom _ rest _
    rcases List.mem_cons.mp mem with rfl | later
    · have none : lastSet (Text.lower e.1) rest = none :=
        lastSetOther fun x mem same => new (List.mem_map.mpr ⟨x, mem, same.symm⟩)
      rw [split, none, if_pos rfl, Option.none_or]
    · rw [split, ih apart later, Option.some_or]

theorem extractText {headers : Header.Table} {value : String}
    (found : Assoc.find? name headers = some (.text value)) :
    extract? headers name = some value := by
  unfold extract?
  rw [found]
  exact Bytes.textOfText value

theorem extractSame {headers others : Header.Table}
    (same : Assoc.find? name headers = Assoc.find? name others) :
    extract? headers name = extract? others name := by
  unfold extract?
  rw [same]

theorem capitalOutside (capital : Text.lower name ≠ name) :
    ∀ e ∈ entries, name ≠ Text.lower e.1 := by
  rintro e - rfl
  exact capital (Text.lowerTwice e.1)

/-- Entries that are told apart are found under the lower case of their keys, whatever the table had
there before, and so is the one that a span takes for its parent. Under its key as it was given an
entry is found if that is in lower case, and else there is what was there before; every header that
no entry has stays. -/
theorem entriesExtracted (headers : Header.Table) (entries : List (String × String))
    (apart : Apart entries) :
    (∀ e ∈ entries, extract? (inject entries headers) (Text.lower e.1) = some e.2) ∧
    (∀ e ∈ entries, extract? (inject entries headers) e.1 =
      if Text.lower e.1 = e.1 then some e.2 else extract? headers e.1) ∧
    (∀ e ∈ entries, Text.lower e.1 = parentHeader → ∀ tracer name,
      (Span.start tracer name (inject entries headers)).parent = some e.2) ∧
    ∀ name, (∀ e ∈ entries, name ≠ Text.lower e.1) →
      Assoc.find? name (inject entries headers) = Assoc.find? name headers := by
  have own (e) (mem : e ∈ entries) :
      extract? (inject entries headers) (Text.lower e.1) = some e.2 := by
    refine extractText ?_
    rw [injectFind, lastSetMember apart mem, Option.some_or]
  have kept (name) (other : ∀ e ∈ entries, name ≠ Text.lower e.1) :
      Assoc.find? name (inject entries headers) = Assoc.find? name headers := by
    rw [injectFind, lastSetOther other, Option.none_or]
  refine ⟨own, fun e mem => ?_, fun e mem parent tracer name => ?_, kept⟩
  · split
    · rename_i small
      exact small ▸ own e mem
    · rename_i capital
      exact extractSame (kept e.1 (capitalOutside capital))
  · have named := own e mem
    rw [parent] at named
    exact named

def crowded : Header.Table :=
  [("TraceParent", .text "kept"), ("traceparent", .longInt 1), ("x-retry-count", .longInt 2)]

def posted : List (String × String) := [("TraceParent", "00-abc-def-01"), ("baggage", "tier=gold")]

theorem postedApart : Apart posted := by
  have names : posted.map (fun e => Text.lower e.1) = ["traceparent", "baggage"] := by
    decide +kernel
  rw [Apart, names]
  decide

theorem postedExtracted :
    Apart posted ∧
    extract? (inject posted crowded) "traceparent" = some "00-abc-def-01" ∧
    extract? (inject posted crowded) "TraceParent" = some "kept" ∧
    extract? (inject posted crowded) "baggage" = some "tier=gold" ∧
    (Span.start "amqp" "receive" (inject posted crowded)).parent = some "00-abc-def-01" := by
  obtain ⟨small, given, parent, -⟩ := entriesExtracted crowded posted postedApart
  have first : ("TraceParent", "00-abc-def-01") ∈ posted := List.mem_cons_self
  have second : ("baggage", "tier=gold") ∈ posted := List.mem_cons_of_mem _ List.mem_cons_self
  have capital : Text.lower "TraceParent" = "traceparent" := by decide +kernel
  have plain : Text.lower "baggage" = "baggage" := by decide +kernel
  have lowered := small _ first
  have asGiven := given _ first
  have settled := small _ second
  simp only [capital] at lowered asGiven
  simp only [plain] at settled
  rw [if_neg (by decide)] at asGiven
  exact ⟨postedApart, lowered, asGiven, settled, parent _ first capital "amqp" "receive"⟩

theorem capitalKeyLost :
    ¬ ∀ (headers : Header.Table) (entries : List (String × String)), Apart entries →
      (∀ e ∈ entries, extract? (inject entries headers) e.1 = some e.2) ∧
      ∀ name, (∀ e ∈ entries, name ≠ Text.lower e.1) →
        Assoc.find? name (inject entries headers) = Assoc.find? name headers := by
  intro all
  have found := (all [] posted postedApart).1 ("TraceParent", "00-abc-def-01") List.mem_cons_self
  have missing : extract? (inject posted []) "TraceParent" = none := by decide +kernel
  rw [missing] at found
  cases found

end AmqpClient.Trace
