import AmqpClient.Text.Percent
/-! Percent encoding can be undone, and what it writes has a narrow grammar: no character in it could
be taken for a mark between the parts of an address. -/
namespace AmqpClient.Percent

def Unreserved (c : Char) : Prop := c.isAlphanum ∨ c = '-' ∨ c = '.' ∨ c = '_' ∨ c = '~'

instance (c : Char) : Decidable (Unreserved c) := by
  unfold Unreserved
  infer_instance

inductive Escaped : List Char → Prop where
  | nil : Escaped []
  | plain {c rest} (own : Unreserved c) (tail : Escaped rest) : Escaped (c :: rest)
  | escape {a b rest} (high : (Hex.digit? a).isSome) (low : (Hex.digit? b).isSome)
      (tail : Escaped rest) : Escaped ('%' :: a :: b :: rest)

theorem unreservedSelf : ∀ n < 256, isUnreserved (UInt8.ofNat n) →
    Unreserved (Char.ofNat n) ∧ Char.ofNat n ≠ '%' ∧ (Char.ofNat n).toNat = n ∧ n < 128 := by
  decide +kernel

theorem capitalValue : ∀ n < 16, Hex.digit? (capitalDigit n) = some n := by decide +kernel

theorem unreservedByte {b : UInt8} (own : isUnreserved b) :
    Unreserved (Char.ofNat b.toNat) ∧ Char.ofNat b.toNat ≠ '%' ∧
      (Char.ofNat b.toNat).toNat = b.toNat ∧ b.toNat < 128 :=
  unreservedSelf b.toNat b.toNat_lt (by rwa [UInt8.ofNat_toNat])

theorem decodeByte (b : UInt8) (rest : List Char) :
    decode (encodeByte b ++ rest) = (decode rest).map (b :: ·) := by
  have below := b.toNat_lt
  unfold encodeByte
  split
  · rename_i own
    obtain ⟨-, other, code, small⟩ := unreservedByte own
    rw [List.singleton_append, decode.eq_3 _ _ fun _ _ _ same => absurd same other, code]
    simp [own, small]
  · have high := capitalValue (b.toNat / 16) (by omega)
    have low := capitalValue (b.toNat % 16) (by omega)
    have whole : (16 * (b.toNat / 16) + b.toNat % 16).toUInt8 = b := by
      rw [Nat.div_add_mod]
      exact UInt8.ofNat_toNat
    rw [List.cons_append, List.cons_append, List.singleton_append, decode, high, low]
    simp only [Option.bind_eq_bind, Option.bind_some, whole]
    cases decode rest <;> rfl

theorem decodeEncoded (s : String) : decode (encode s) = some (Bytes.ofText s) := by
  unfold encode
  induction Bytes.ofText s with
  | nil => rfl
  | cons b bytes ih => rw [List.flatMap_cons, decodeByte, ih, Option.map_some]

theorem escapedByte (b : UInt8) {rest : List Char} (tail : Escaped rest) :
    Escaped (encodeByte b ++ rest) := by
  have below := b.toNat_lt
  unfold encodeByte
  split
  · rename_i own
    exact .plain (unreservedByte own).1 tail
  · have high := capitalValue (b.toNat / 16) (by omega)
    have low := capitalValue (b.toNat % 16) (by omega)
    exact .escape (Option.isSome_of_eq_some high) (Option.isSome_of_eq_some low) tail

theorem escapedEncoded (s : String) : Escaped (encode s) := by
  unfold encode
  induction Bytes.ofText s with
  | nil => exact .nil
  | cons b bytes ih =>
    rw [List.flatMap_cons]
    exact escapedByte b ih

theorem escapedWithout {mark : Char} (reserved : ¬ Unreserved mark) (percent : mark ≠ '%')
    (digit : Hex.digit? mark = none) {text : List Char} (escaped : Escaped text) : mark ∉ text := by
  induction escaped with
  | nil => exact List.not_mem_nil
  | plain own tail ih =>
    rintro (_ | ⟨_, mem⟩)
    · exact reserved own
    · exact ih mem
  | @escape a b rest high low tail ih =>
    have other {c : Char} (some : (Hex.digit? c).isSome) : mark ≠ c := by
      rintro rfl
      rw [digit] at some
      cases some
    simp only [List.mem_cons, not_or]
    exact ⟨percent, other high, other low, ih⟩

end AmqpClient.Percent
