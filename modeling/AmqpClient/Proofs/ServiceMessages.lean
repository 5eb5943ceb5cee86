import AmqpClient.Message.Service
import AmqpClient.Proofs.Json.Reading
/-! What a service sends is what its reader gets: the writer has no limit, the reader refuses what
is nested too deep, and between the two nothing of a message changes. -/
namespace AmqpClient

namespace Assoc

theorem containsKey {k : String} {m : Assoc α} : contains k m = true ↔ k ∈ m.keys := by
  induction m with
  | nil => simp [contains, keys]
  | cons e m ih =>
    by_cases here : k = e.1
    · simp [contains, keys, find?, here]
    · simpa [contains, keys, find?, here] using ih

theorem insertNew {k : String} {m : Assoc α} (v : α) (sorted : Sorted m) (new : k ∉ m.keys) :
    ∃ before after, m = before ++ after ∧ insert k v m = before ++ (k, v) :: after ∧
      Sorted (insert k v m) := by
  induction m with
  | nil => exact ⟨[], [], rfl, rfl, List.pairwise_singleton _ _⟩
  | cons e m ih =>
    obtain ⟨first, rest⟩ := List.pairwise_cons.mp sorted
    have other : k ≠ e.1 := fun same => new (by simp [keys, same])
    by_cases less : k < e.1
    · have placed : insert k v (e :: m) = (k, v) :: e :: m := by rw [insert, if_pos less]
      refine ⟨[], e :: m, rfl, placed, ?_⟩
      rw [placed]
      refine List.pairwise_cons.mpr ⟨fun x mem => ?_, sorted⟩
      rcases List.mem_cons.mp mem with rfl | mem
      · exact less
      · exact String.lt_trans less (first x mem)
    · obtain ⟨before, after, split, placed, kept⟩ :=
        ih rest fun mem => new (by simp only [keys, List.map_cons]; exact List.mem_cons_of_mem _ mem)
      have step : insert k v (e :: m) = e :: insert k v m := by
        rw [insert, if_neg less, if_neg other]
      refine ⟨e :: before, after, by rw [split]; rfl, by rw [step, placed]; rfl, ?_⟩
      rw [step]
      refine List.pairwise_cons.mpr ⟨fun x mem => ?_, kept⟩
      rw [placed] at mem
      have greater : e.1 < k := Std.lt_of_le_of_ne (String.not_lt.mp less) other.symm
      rw [split] at first
      simp only [List.mem_append, List.mem_cons] at mem first
      rcases mem with mem | rfl | mem
      · exact first x (.inl mem)
      · exact greater
      · exact first x (.inr mem)

end Assoc

namespace ServiceMessage

open Json

theorem stampedOld {payload : Assoc Json} (unix : Int) (old : timestampKey ∈ payload.keys) :
    stamp unix payload = payload := by
  rw [stamp, if_pos (Assoc.containsKey.mpr old)]

theorem stampedNew {payload : Assoc Json} (unix : Int) (new : timestampKey ∉ payload.keys) :
    stamp unix payload = Assoc.insert timestampKey (.string (Calendar.timestamp unix)) payload := by
  rw [stamp, if_neg (mt Assoc.containsKey.mp new)]

theorem stampHolds (unix : Int) (payload : Assoc Json) :
    timestampKey ∈ (stamp unix payload).keys := by
  by_cases old : timestampKey ∈ payload.keys
  · rwa [stampedOld unix old]
  · rw [stampedNew unix old, ← Assoc.containsKey, Assoc.contains, Assoc.findInsert, if_pos rfl]
    rfl

theorem stampExact (unix : Int) {payload : Assoc Json} (exact : Exact (.object payload)) :
    Exact (.object (stamp unix payload)) := by
  by_cases old : timestampKey ∈ payload.keys
  · rwa [stampedOld unix old]
  · cases exact with
    | object sorted each =>
      obtain ⟨before, after, split, placed, kept⟩ :=
        Assoc.insertNew (.string (Calendar.timestamp unix)) sorted old
      rw [stampedNew unix old]
      refine .object kept fun e mem => ?_
      rw [placed] at mem
      rw [split] at each
      simp only [List.mem_append, List.mem_cons] at mem each
      rcases mem with mem | rfl | mem
      · exact each e (.inl mem)
      · exact .string _
      · exact each e (.inr mem)

theorem treeOfMessage {m : ServiceMessage} (exact : Exact (.object m.payload)) :
    Node.read? m.encode = some (node m.toJson) := by
  refine treeOfReads (readsObject ?_)
  simpa using ⟨readsString m.service, readsString m.kind, readsExact exact⟩

theorem messageOfTree {m : ServiceMessage} (exact : Exact (.object m.payload)) :
    ofNode? (node m.toJson) = if m.toJson.depth ≤ maxDepth then some m else none := by
  have payload : payload? (node (.object m.payload)) =
      if m.toJson.depth ≤ maxDepth then some m.payload else none := by
    have levels : m.toJson.depth ≤ maxDepth ↔ (Json.object m.payload).depth ≤ maxDepth - 1 := by
      have whole : m.toJson.depth = (Json.object m.payload).depth + 1 := by
        simp [toJson, depth, memberDepths]
      rw [whole, maxDepth]
      omega
    simp only [levels]
    rw [payload?, valueOfNode exact]
    by_cases fits : (Json.object m.payload).depth ≤ maxDepth - 1 <;>
      simp only [fits, if_true, if_false]
  have record : Config.Record.ofNode? ["service", "type", "payload"] (node m.toJson) =
      some [("service", .string (pieces m.service)), ("type", .string (pieces m.kind)),
        ("payload", node (.object m.payload))] := by
    simp [toJson, node, memberNodes, Config.Record.ofNode?, Config.keyed, textOfPieces]
  have service : Config.text? (.string (pieces m.service)) = some m.service := textOfPieces _
  have kind : Config.text? (.string (pieces m.kind)) = some m.kind := textOfPieces _
  rw [ofNode?, record]
  by_cases fits : m.toJson.depth ≤ maxDepth <;>
    simp [Config.Record.required, Assoc.find?, service, kind, payload, fits]

theorem messageDecoded {m : ServiceMessage} (exact : Exact (.object m.payload)) {d : Delivery}
    (body : d.body = m.encode) : ofDelivery d =
      if m.toJson.depth ≤ maxDepth then .ok m else .error Delivery.unreadable := by
  rw [ofDelivery, Delivery.decode, body, treeOfMessage exact, Option.bind_some, messageOfTree exact]
  by_cases fits : m.toJson.depth ≤ maxDepth <;> simp only [fits, if_true, if_false]

def nested : Nat → Json
  | 0 => .array []
  | n + 1 => .array [nested n]

theorem nestedExact (n : Nat) : Exact (nested n) := by
  induction n with
  | zero => exact .array (by simp)
  | succ n ih => exact .array (by simpa using ih)

theorem nestedDepth (n : Nat) : (nested n).depth = n + 1 := by
  induction n with
  | zero => rfl
  | succ n ih => simp [nested, depth, depths, ih]

def awkward (n : Nat) : Assoc Json :=
  [("\x01\t\"\\é", .array [.number (.integer (-2 ^ 63)), .number (.integer (2 ^ 64 - 1))]),
    ("deep", nested n), ("timestamp", .null)]

theorem awkwardExact (n : Nat) : Exact (.object (awkward n)) := by
  have sorted : (awkward n).keys.Pairwise (· < ·) := by
    change List.Pairwise (· < ·) ["\x01\t\"\\é", "deep", "timestamp"]
    decide
  refine .object (List.pairwise_map.mp sorted) ?_
  simp only [awkward, List.mem_cons, List.not_mem_nil, or_false, forall_eq_or_imp, forall_eq]
  refine ⟨.array ?_, nestedExact n, .null⟩
  simp only [List.mem_cons, List.not_mem_nil, or_false, forall_eq_or_imp, forall_eq]
  exact ⟨.integer ⟨by decide, by decide⟩, .integer ⟨by decide, by decide⟩⟩

theorem awkwardTime (n : Nat) : timestampKey ∈ (awkward n).keys := by
  simp [awkward, Assoc.keys, timestampKey]

theorem awkwardDepth (n : Nat) :
    (new 0 "orders" "created" (awkward n)).toJson.depth = max 1 (n + 1) + 2 := by
  rw [new, stampedOld 0 (awkwardTime n)]
  simp [awkward, toJson, depth, depths, memberDepths, nestedDepth]

def delivered (m : ServiceMessage) : Delivery := .new 1 "" "" m.encode []

theorem deliveredBody (m : ServiceMessage) : (delivered m).body = m.encode := rfl

/-- A message is made with the time it was made at, unless its data name one; it is read back as it
was sent if it opens at most `maxDepth` levels, and refused otherwise; and what was read makes the
same octets again at any later time. -/
theorem serviceMessageSurvives (unix : Int) (service kind : String) {payload : Assoc Json}
    (exact : Exact (.object payload)) :
    let m := new unix service kind payload
    m.service = service ∧ m.kind = kind ∧
    (timestampKey ∈ payload.keys → m.payload = payload) ∧
    (timestampKey ∉ payload.keys → Assoc.Sorted m.payload ∧ ∃ before after,
      payload = before ++ after ∧
        m.payload = before ++ (timestampKey, .string (Calendar.timestamp unix)) :: after) ∧
    ∀ d : Delivery, d.body = m.encode →
      (m.toJson.depth ≤ 127 → ofDelivery d = .ok m) ∧
      (127 < m.toJson.depth → ofDelivery d = .error Delivery.unreadable) ∧
      ∀ later decoded, ofDelivery d = .ok decoded →
        (new later service kind decoded.payload).encode = d.body := by
  have stamped : Exact (.object (new unix service kind payload).payload) := stampExact unix exact
  have sorted : Assoc.Sorted payload := by
    cases exact with
    | object sorted each => exact sorted
  refine ⟨rfl, rfl, stampedOld unix, fun absent => ?_, fun d body => ⟨fun fits => ?_, fun deep => ?_,
    fun later decoded read => ?_⟩⟩
  · obtain ⟨before, after, split, placed, kept⟩ := Assoc.insertNew _ sorted absent
    simp only [new, stampedNew unix absent]
    exact ⟨kept, before, after, split, placed⟩
  · rw [messageDecoded stamped body]
    exact if_pos fits
  · rw [messageDecoded stamped body]
    exact if_neg (Nat.not_le.mpr deep)
  · rw [messageDecoded stamped body] at read
    split at read
    · cases read
      rw [body, new, new, stampedOld later (stampHolds unix payload)]
    · cases read

theorem awkwardSurvives :
    let m (n : Nat) := new 0 "orders" "created" (awkward n)
    ofDelivery (delivered (m 124)) = .ok ⟨"orders", "created", awkward 124⟩ ∧
    ofDelivery (delivered (m 125)) = .error Delivery.unreadable ∧
    (new 60 "orders" "created" (awkward 124)).encode = (m 124).encode := by
  obtain ⟨-, -, kept, -, all⟩ := serviceMessageSurvives 0 "orders" "created" (awkwardExact 124)
  obtain ⟨shallow, -, again⟩ := all _ (deliveredBody _)
  obtain ⟨-, -, -, -, all⟩ := serviceMessageSurvives 0 "orders" "created" (awkwardExact 125)
  obtain ⟨-, deep, -⟩ := all _ (deliveredBody _)
  have read := shallow (by rw [awkwardDepth]; decide)
  have same := again 60 _ read
  rw [kept (awkwardTime 124), deliveredBody] at same
  refine ⟨?_, deep (by rw [awkwardDepth]; decide), same⟩
  rw [read, new, stampedOld 0 (awkwardTime 124)]

end ServiceMessage

end AmqpClient
