import AmqpClient.Proofs.Json.Numerals
/-! A kept value that holds no fraction is read back from its own text, at any depth; whether it
may be kept again is a matter of its depth alone. -/
namespace AmqpClient

namespace Assoc

theorem insertLast {m : Assoc α} {k : String} (v : α) (last : ∀ e ∈ m, e.1 < k) :
    insert k v m = m ++ [(k, v)] := by
  induction m with
  | nil => rfl
  | cons e m ih =>
    have before : e.1 < k := last e (by simp)
    rw [insert, if_neg (String.lt_asymm before), if_neg (String.ne_of_lt before).symm,
      ih fun x mem => last x (by simp [mem])]
    rfl

theorem insertAllSorted {m : Assoc α} (entries : Assoc α) (sorted : Sorted (m ++ entries)) :
    insertAll m entries = m ++ entries := by
  induction entries generalizing m with
  | nil => simp [insertAll]
  | cons e entries ih =>
    have last : ∀ x ∈ m, x.1 < e.1 :=
      fun x mem => (List.pairwise_append.mp sorted).2.2 x mem e (by simp)
    have step : insertAll m (e :: entries) = insertAll (m ++ [e]) entries := by
      rw [insertAll, List.foldl_cons, insertLast e.2 last]
      rfl
    rw [step, ih (by simpa using sorted), List.append_assoc, List.singleton_append]

theorem ofListSorted {m : Assoc α} (sorted : Sorted m) : ofList m = m :=
  insertAllSorted m sorted

end Assoc

namespace Json

open Node

inductive Exact : Json → Prop where
  | null : Exact .null
  | bool (b : Bool) : Exact (.bool b)
  | integer {i : Int} (kept : Kept i) : Exact (.number (.integer i))
  | string (s : String) : Exact (.string s)
  | array {items : List Json} (each : ∀ x ∈ items, Exact x) : Exact (.array items)
  | object {members : List (String × Json)} (sorted : Assoc.Sorted members)
      (each : ∀ e ∈ members, Exact e.2) : Exact (.object members)

mutual

def node : Json → Node
  | .null => .null
  | .bool b => .bool b
  | .number (.integer i) => .number (numeral i)
  | .number (.float _) => .null
  | .string s => .string (pieces s)
  | .array items => .array (nodes items)
  | .object members => .object (memberNodes members)

def nodes : List Json → List Node
  | [] => []
  | x :: xs => node x :: nodes xs

def memberNodes : List (String × Json) → List (List Piece × Node)
  | [] => []
  | (k, x) :: xs => (pieces k, node x) :: memberNodes xs

end

def octets (cs : List Char) : Bytes := cs.flatMap Bytes.ofChar

@[simp] theorem octetsNil : octets [] = [] := rfl

@[simp] theorem octetsCons (c : Char) (cs : List Char) :
    octets (c :: cs) = Bytes.ofChar c ++ octets cs := List.flatMap_cons

@[simp] theorem octetsAppend (cs ds : List Char) : octets (cs ++ ds) = octets cs ++ octets ds :=
  List.flatMap_append

theorem bytesOctets (j : Json) : bytes j = octets (chars j) := Bytes.ofTextList (chars j)

theorem skipSolid {b : UInt8} (solid : isBlank b = false) (rest : Bytes) :
    skip (b :: rest) = b :: rest := by
  simp [skip, solid]

theorem readString (fuel : Nat) (rest : Bytes) :
    readValue (fuel + 1) (34 :: rest) = (readPieces rest).map fun x => (.string x.1, x.2) := rfl

theorem readArray {b : UInt8} (solid : isBlank b = false) (more : b ≠ 93) (fuel : Nat)
    (rest : Bytes) : readValue (fuel + 1) (91 :: b :: rest) =
      (readItems fuel (b :: rest)).map fun x => (.array x.1, x.2) := by
  rw [readValue.eq_2, skipSolid (by decide)]
  dsimp only
  rw [if_neg (by decide), if_pos (by decide), skipSolid solid]
  split
  · rename_i heading
    exact absurd (List.cons.inj heading).1 more
  · rfl

theorem readObject (fuel : Nat) (rest : Bytes) : readValue (fuel + 1) (123 :: 34 :: rest) =
    (readMembers fuel (34 :: rest)).map fun x => (.object x.1, x.2) := rfl

theorem readNumber {b : UInt8} (number : isDigit b ∨ b = 45) (fuel : Nat) (rest : Bytes) :
    readValue (fuel + 1) (b :: rest) =
      (readNumeral (b :: rest)).map fun x => (.number x.1, x.2) := by
  have bounds : 45 ≤ b.toNat ∧ b.toNat ≤ 57 := by
    rcases number with digit | rfl
    · simp only [isDigit, Bool.and_eq_true, decide_eq_true_eq, UInt8.le_iff_toNat_le] at digit
      exact ⟨Nat.le_trans (by decide) digit.1, digit.2⟩
    · decide
  have other (c : UInt8) (outside : c.toNat < 45 ∨ 57 < c.toNat) : (b == c) = false := by
    refine beq_eq_false_iff_ne.mpr ?_
    rintro rfl
    omega
  have solid : isBlank b = false := by
    simp [isBlank, other 32 (by decide), other 9 (by decide), other 10 (by decide),
      other 13 (by decide)]
  rw [readValue.eq_2, skipSolid solid]
  simp only [other (ascii '"') (by decide), other (ascii '[') (by decide),
    other (ascii '\x7b') (by decide), other (ascii 'n') (by decide), other (ascii 't') (by decide),
    other (ascii 'f') (by decide), Bool.false_eq_true, if_false]

theorem firstOctet {j : Json} (exact : Exact j) :
    ∃ b more, octets (chars j) = b :: more ∧ isBlank b = false ∧ b ≠ 93 := by
  cases exact with
  | null => exact ⟨_, _, rfl, by decide, by decide⟩
  | bool b => cases b <;> exact ⟨_, _, rfl, by decide, by decide⟩
  | string s => exact ⟨_, _, rfl, by decide, by decide⟩
  | array each => exact ⟨_, _, rfl, by decide, by decide⟩
  | object sorted each => exact ⟨_, _, rfl, by decide, by decide⟩
  | @integer i kept =>
    by_cases negative : i < 0
    · refine ⟨45, octets (Number.natText i.natAbs), ?_, by decide, by decide⟩
      rw [chars, Number.text, Number.intText, if_pos negative]
      rfl
    · obtain ⟨b, more, text, digit⟩ := firstDigit i.natAbs []
      refine ⟨b, more, ?_, ?_, ?_⟩
      · rw [chars, Number.text, Number.intText, if_neg negative, ← text, List.append_nil]
        rfl
      · simp [isDigit, isBlank, UInt8.le_iff_toNat_le, ← UInt8.toNat_inj] at digit ⊢
        omega
      · rintro rfl
        cases digit

def inside (s : String) : Bytes := octets (s.toList.flatMap escapeChar)

theorem quoteOctets (s : String) : octets (quote s) = 34 :: (inside s ++ [34]) := quoteBytes s

theorem readInside (s : String) (rest : Bytes) :
    readPieces (inside s ++ 34 :: rest) = some (pieces s, rest) := readQuoted s rest

theorem itemOctets (x y : Json) (ys : List Json) : octets (itemChars (x :: y :: ys)) =
    octets (chars x) ++ 44 :: octets (itemChars (y :: ys)) := by
  have step : itemChars (x :: y :: ys) = chars x ++ ',' :: itemChars (y :: ys) := rfl
  rw [step, octetsAppend, octetsCons]
  rfl

theorem memberOctet (k : String) (x : Json) : octets (memberChars [(k, x)]) =
    34 :: (inside k ++ 34 :: 58 :: octets (chars x)) := by
  have step : memberChars [(k, x)] = quote k ++ ':' :: chars x := rfl
  rw [step, octetsAppend, octetsCons, quoteOctets, List.cons_append, List.append_assoc]
  rfl

theorem memberOctets (k : String) (x : Json) (e : String × Json) (es : List (String × Json)) :
    octets (memberChars ((k, x) :: e :: es)) =
      34 :: (inside k ++ 34 :: 58 :: (octets (chars x) ++ 44 :: octets (memberChars (e :: es)))) := by
  have step : memberChars ((k, x) :: e :: es) =
      quote k ++ ':' :: (chars x ++ ',' :: memberChars (e :: es)) := by
    rw [memberChars.eq_3 _ _ _ (by simp), List.append_assoc]
    rfl
  rw [step, octetsAppend, octetsCons, octetsAppend, octetsCons, quoteOctets, List.cons_append,
    List.append_assoc]
  rfl

def Reads (j : Json) : Prop :=
  ∀ {fuel rest}, Ends rest → (octets (chars j)).length < fuel →
    readValue fuel (octets (chars j) ++ rest) = some (node j, rest)

theorem readItemsBack {items : List Json} (each : ∀ x ∈ items, Reads x) (nonempty : items ≠ [])
    {fuel : Nat} (enough : (octets (itemChars items)).length + 1 < fuel) (rest : Bytes) :
    readItems fuel (octets (itemChars items) ++ 93 :: rest) = some (nodes items, rest) := by
  induction items generalizing fuel with
  | nil => exact absurd rfl nonempty
  | cons x xs ih =>
    obtain ⟨fuel, rfl⟩ := Nat.exists_eq_succ_of_ne_zero (Nat.ne_zero_of_lt enough)
    have first : Reads x := each x (by simp)
    cases xs with
    | nil =>
      simp only [itemChars] at enough
      rw [itemChars, readItems, first (endsBracket rest) (by omega)]
      rfl
    | cons y ys =>
      rw [itemOctets, List.length_append, List.length_cons] at enough
      have less : (octets (itemChars (y :: ys))).length + 1 < fuel := by omega
      have others := ih (fun z mem => each z (by simp [mem])) (by simp) less
      rw [itemOctets, List.append_assoc, List.cons_append, readItems,
        first (endsComma _) (by omega)]
      simp only [Option.bind_eq_bind, Option.bind_some, skipSolid (b := 44) (by decide), others]
      rfl

theorem readMembersBack {members : List (String × Json)} (each : ∀ e ∈ members, Reads e.2)
    (nonempty : members ≠ []) {fuel : Nat}
    (enough : (octets (memberChars members)).length + 1 < fuel) (rest : Bytes) :
    readMembers fuel (octets (memberChars members) ++ 125 :: rest) =
      some (memberNodes members, rest) := by
  induction members generalizing fuel with
  | nil => exact absurd rfl nonempty
  | cons e es ih =>
    obtain ⟨fuel, rfl⟩ := Nat.exists_eq_succ_of_ne_zero (Nat.ne_zero_of_lt enough)
    obtain ⟨k, x⟩ := e
    have first : Reads x := each (k, x) (by simp)
    cases es with
    | nil =>
      rw [memberOctet, List.length_cons, List.length_append, List.length_cons,
        List.length_cons] at enough
      rw [memberOctet, List.cons_append, List.append_assoc, List.cons_append, List.cons_append,
        readMembers, skipSolid (by decide)]
      simp only [readInside, Option.bind_eq_bind, Option.bind_some, skipSolid (b := 58) (by decide)]
      rw [first (endsBrace rest) (by omega)]
      rfl
    | cons e es =>
      rw [memberOctets, List.length_cons, List.length_append, List.length_cons, List.length_cons,
        List.length_append, List.length_cons] at enough
      have less : (octets (memberChars (e :: es))).length + 1 < fuel := by omega
      have others := ih (fun z mem => each z (by simp [mem])) (by simp) less
      rw [memberOctets, List.cons_append, List.append_assoc, List.cons_append, List.cons_append,
        List.append_assoc, List.cons_append, readMembers, skipSolid (by decide)]
      simp only [readInside, Option.bind_eq_bind, Option.bind_some, skipSolid (b := 58) (by decide)]
      rw [first (endsComma _) (by omega)]
      simp only [Option.bind_some, skipSolid (b := 44) (by decide), others]
      rfl

theorem readsStep {j : Json} (step : ∀ fuel rest, Ends rest → (octets (chars j)).length ≤ fuel →
    readValue (fuel + 1) (octets (chars j) ++ rest) = some (node j, rest)) : Reads j := by
  intro fuel rest ends enough
  cases fuel with
  | zero => exact absurd enough (Nat.not_lt_zero _)
  | succ fuel => exact step fuel rest ends (Nat.le_of_lt_succ enough)

theorem readsInteger (i : Int) : Reads (.number (.integer i)) := by
  refine readsStep fun fuel rest ends _ => ?_
  have back := readInteger i ends
  rw [chars, Number.text, octets]
  by_cases negative : i < 0
  · have minus : (Number.intText i).flatMap Bytes.ofChar ++ rest =
        45 :: ((Number.natText i.natAbs).flatMap Bytes.ofChar ++ rest) := by
      rw [Number.intText, if_pos negative]
      rfl
    rw [minus] at back ⊢
    rw [readNumber (.inr rfl), back]
    rfl
  · obtain ⟨b, more, text, digit⟩ := firstDigit i.natAbs rest
    rw [Number.intText, if_neg negative, text] at back ⊢
    rw [readNumber (.inl digit), back]
    rfl

theorem readsString (s : String) : Reads (.string s) := by
  refine readsStep fun fuel rest _ _ => ?_
  rw [chars, quoteOctets, List.cons_append, List.append_assoc, List.singleton_append, readString,
    readInside]
  rfl

theorem readsArray {items : List Json} (exact : ∀ x ∈ items, Exact x)
    (each : ∀ x ∈ items, Reads x) : Reads (.array items) := by
  refine readsStep fun fuel rest _ enough => ?_
  have written : octets (chars (.array items)) = 91 :: (octets (itemChars items) ++ [93]) := by
    rw [chars, List.cons_append, octetsCons, octetsAppend]
    rfl
  rw [written, List.length_cons, List.length_append, List.length_singleton] at enough
  rw [written, List.cons_append, List.append_assoc, List.singleton_append]
  cases items with
  | nil => rfl
  | cons x xs =>
    have less : (octets (itemChars (x :: xs))).length + 1 < fuel := by omega
    have back := readItemsBack each (by simp) less rest
    obtain ⟨b, more, text, solid, notEnd⟩ := firstOctet (exact x (by simp))
    obtain ⟨more, front⟩ : ∃ more, octets (itemChars (x :: xs)) ++ 93 :: rest = b :: more := by
      cases xs with
      | nil => exact ⟨more ++ 93 :: rest, by rw [itemChars, text]; rfl⟩
      | cons y ys => rw [itemOctets, text]; exact ⟨_, rfl⟩
    rw [front] at back ⊢
    rw [readArray solid notEnd, back]
    rfl

theorem readsObject {members : List (String × Json)} (each : ∀ e ∈ members, Reads e.2) :
    Reads (.object members) := by
  refine readsStep fun fuel rest _ enough => ?_
  have written : octets (chars (.object members)) =
      123 :: (octets (memberChars members) ++ [125]) := by
    rw [chars, List.cons_append, octetsCons, octetsAppend]
    rfl
  rw [written, List.length_cons, List.length_append, List.length_singleton] at enough
  rw [written, List.cons_append, List.append_assoc, List.singleton_append]
  cases members with
  | nil => rfl
  | cons e es =>
    have less : (octets (memberChars (e :: es))).length + 1 < fuel := by omega
    have back := readMembersBack each (by simp) less rest
    obtain ⟨more, front⟩ : ∃ more, octets (memberChars (e :: es)) ++ 125 :: rest = 34 :: more := by
      cases es with
      | nil => rw [memberOctet]; exact ⟨_, rfl⟩
      | cons e' es => rw [memberOctets]; exact ⟨_, rfl⟩
    rw [front] at back ⊢
    rw [readObject, back]
    rfl

theorem readsExact {j : Json} (exact : Exact j) : Reads j := by
  induction exact with
  | null => exact readsStep fun _ _ _ _ => rfl
  | bool b => cases b <;> exact readsStep fun _ _ _ _ => rfl
  | integer kept => exact readsInteger _
  | string s => exact readsString s
  | array each ih => exact readsArray each ih
  | object sorted each ih => exact readsObject ih

theorem treeOfReads {j : Json} (reads : Reads j) : Node.read? (bytes j) = some (node j) := by
  have back := reads endsNil (Nat.lt_succ_self _)
  rw [List.append_nil] at back
  rw [bytesOctets, Node.read?, back]
  rfl

theorem valuesOfNodes {items : List Json} (room : Nat)
    (each : ∀ x ∈ items, ∀ room, ofNode? room (node x) = if depth x ≤ room then some x else none) :
    ofNodes? room (nodes items) = if depths items ≤ room then some items else none := by
  induction items with
  | nil => simp [ofNodes?, nodes, depths]
  | cons x xs ih =>
    have others := ih fun z mem => each z (by simp [mem])
    simp only [nodes, ofNodes?, depths, each x (by simp), others, Nat.max_le]
    by_cases first : depth x ≤ room <;> by_cases rest : depths xs ≤ room <;> simp [first, rest]

theorem valuesOfMembers {members : List (String × Json)} (room : Nat)
    (each : ∀ e ∈ members, ∀ room,
      ofNode? room (node e.2) = if depth e.2 ≤ room then some e.2 else none) :
    ofMembers? room (memberNodes members) =
      if memberDepths members ≤ room then some members else none := by
  induction members with
  | nil => simp [ofMembers?, memberNodes, memberDepths]
  | cons e es ih =>
    have others := ih fun z mem => each z (by simp [mem])
    simp only [memberNodes, ofMembers?, memberDepths, textOfPieces, each e (by simp), others,
      Nat.max_le, Option.bind_eq_bind, Option.bind_some]
    by_cases first : depth e.2 ≤ room <;> by_cases rest : memberDepths es ≤ room <;>
      simp [first, rest]

theorem valueOfNode {j : Json} (exact : Exact j) (room : Nat) :
    ofNode? room (node j) = if depth j ≤ room then some j else none := by
  induction exact generalizing room with
  | null => simp [node, ofNode?, depth]
  | bool b => simp [node, ofNode?, depth]
  | integer kept => simp [node, ofNode?, depth, valueOfNumeral kept]
  | string s => simp [node, ofNode?, depth, textOfPieces]
  | @array items each ih =>
    rw [node, ofNode?, depth, valuesOfNodes _ ih]
    cases room with
    | zero => simp
    | succ room => by_cases fits : depths items ≤ room <;> simp [fits]
  | @object members sorted each ih =>
    rw [node, ofNode?, depth, valuesOfMembers _ ih]
    cases room with
    | zero => simp
    | succ room =>
      by_cases fits : memberDepths members ≤ room <;> simp [fits, Assoc.ofListSorted sorted]

end Json

end AmqpClient
