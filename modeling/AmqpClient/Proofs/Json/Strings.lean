import AmqpClient.Json.Printer
/-! A string comes back as it was written: whatever is escaped and whatever is not, the pieces read
are those of its characters, and they stand for the same octets. -/
namespace AmqpClient

namespace Bytes

theorem ofTextList (cs : List Char) : ofText (String.ofList cs) = cs.flatMap ofChar := by
  unfold ofText
  rw [String.toByteArray_ofList]
  simp [List.utf8Encode]
  rfl

theorem ofTextChars (s : String) : ofText s = s.toList.flatMap ofChar := by
  rw [← ofTextList, String.ofList_toList]

end Bytes

namespace Json

open Node

def shortEscaped (c : Char) : Bool :=
  c = '\x08' || c = '\x0c' || c = '\n' || c = '\r' || c = '\t'

def charPieces (c : Char) : List Piece :=
  if 32 ≤ c.toNat ∨ shortEscaped c then (Bytes.ofChar c).map .byte else [.unit c.toNat]

def pieces (s : String) : List Piece := s.toList.flatMap charPieces

def Plain (b : UInt8) : Prop := 32 ≤ b ∧ b ≠ 34 ∧ b ≠ 92

theorem readPlain {b : UInt8} (plain : Plain b) (rest : Bytes) :
    readPieces (b :: rest) = (readPieces rest).map fun x => (.byte b :: x.1, x.2) := by
  obtain ⟨large, quote, slash⟩ := plain
  rw [readPieces.eq_5 b rest quote (fun _ _ _ _ _ same => absurd same slash)
    (fun _ _ same => absurd same slash)]
  have small : ¬ b < 32 := UInt8.not_lt.mpr large
  simp only [small, slash, decide_false, beq_iff_eq, Bool.false_or, if_false]
  cases readPieces rest <;> simp

theorem readPlains {bs : Bytes} (plain : ∀ b ∈ bs, Plain b) (rest : Bytes) :
    readPieces (bs ++ rest) = (readPieces rest).map fun x => (bs.map .byte ++ x.1, x.2) := by
  induction bs with
  | nil => simp
  | cons b bs ih =>
    rw [List.cons_append, readPlain (plain b (by simp)), ih fun x mem => plain x (by simp [mem])]
    cases readPieces rest <;> simp

theorem plainOfNat {n : Nat} (large : 32 ≤ n) (small : n < 256) (quote : n ≠ 34) (slash : n ≠ 92) :
    Plain (UInt8.ofNat n) := by
  have same : (UInt8.ofNat n).toNat = n := UInt8.toNat_ofNat_of_lt' small
  refine ⟨?_, ?_, ?_⟩
  · rw [UInt8.le_iff_toNat_le, same]; exact large
  · intro h; rw [h] at same; exact quote same.symm
  · intro h; rw [h] at same; exact slash same.symm

theorem plainChar {c : Char} (large : 32 ≤ c.toNat) (quote : c ≠ '"') (slash : c ≠ '\\') :
    ∀ b ∈ Bytes.ofChar c, Plain b := by
  have quote : c.val.toNat ≠ 34 := fun same => quote (Char.ext (UInt32.toNat_inj.mp same))
  have slash : c.val.toNat ≠ 92 := fun same => slash (Char.ext (UInt32.toNat_inj.mp same))
  have large : 32 ≤ c.val.toNat := large
  intro b mem
  unfold Bytes.ofChar String.utf8EncodeChar at mem
  dsimp only at mem
  generalize c.val.toNat = n at *
  -- a continued octet is at least 128
  have high {m : Nat} (above : 128 ≤ m) (below : m < 256) : Plain (UInt8.ofNat m) :=
    plainOfNat (by omega) below (by omega) (by omega)
  repeat' split at mem
  all_goals simp only [List.mem_cons, List.not_mem_nil, or_false] at mem
  · subst mem
    exact plainOfNat large (by omega) quote slash
  · rcases mem with rfl | rfl <;> exact high (by omega) (by omega)
  · rcases mem with rfl | rfl | rfl <;> exact high (by omega) (by omega)
  · rcases mem with rfl | rfl | rfl | rfl <;> exact high (by omega) (by omega)

theorem readEscape {b x : UInt8} (escape : simpleEscape? b = some x) (rest : Bytes) :
    readPieces (92 :: b :: rest) = (readPieces rest).map fun y => (.byte x :: y.1, y.2) := by
  have other : b ≠ 117 := by
    rintro rfl
    cases escape
  rw [readPieces.eq_4 b rest fun _ _ _ _ _ same => absurd same other, escape]
  cases readPieces rest <;> simp

theorem readUnit {a b c d : UInt8} {n : Nat} (unit : hexUnit? a b c d = some n) (rest : Bytes) :
    readPieces (92 :: 117 :: a :: b :: c :: d :: rest) =
      (readPieces rest).map fun y => (.unit n :: y.1, y.2) := by
  rw [readPieces.eq_3, unit]
  cases readPieces rest <;> simp

theorem hexUnitOfDigits : ∀ n < 32, hexUnit? 48 48 (Bytes.ofAscii (Hex.digit (n / 16)))
    (Bytes.ofAscii (Hex.digit (n % 16))) = some n := by decide

theorem charHexDigit : ∀ n < 16, Bytes.ofChar (Hex.digit n) = [Bytes.ofAscii (Hex.digit n)] := by
  decide

theorem readChar (c : Char) (rest : Bytes) :
    readPieces ((escapeChar c).flatMap Bytes.ofChar ++ rest) =
      (readPieces rest).map fun x => (charPieces c ++ x.1, x.2) := by
  unfold escapeChar
  split
  case isTrue quote => subst quote; exact readEscape rfl rest
  rename_i quote
  split
  case isTrue slash => subst slash; exact readEscape rfl rest
  rename_i slash
  split
  case isTrue large =>
    rw [List.flatMap_singleton, readPlains (plainChar large quote slash), charPieces,
      if_pos (.inl large)]
  rename_i small
  split
  case isTrue here => subst here; exact readEscape rfl rest
  split
  case isTrue here => subst here; exact readEscape rfl rest
  split
  case isTrue here => subst here; exact readEscape rfl rest
  split
  case isTrue here => subst here; exact readEscape rfl rest
  split
  case isTrue here => subst here; exact readEscape rfl rest
  -- the other characters below the blank are written by their number
  have below : c.toNat < 32 := Nat.lt_of_not_le small
  have plain : ¬ (32 ≤ c.toNat ∨ shortEscaped c = true) := by simp_all [shortEscaped]
  have written : ['\\', 'u', '0', '0', Hex.digit (c.toNat / 16), Hex.digit (c.toNat % 16)].flatMap
      Bytes.ofChar = [92, 117, 48, 48, Bytes.ofAscii (Hex.digit (c.toNat / 16)),
        Bytes.ofAscii (Hex.digit (c.toNat % 16))] := by
    simp only [List.flatMap_cons, List.flatMap_nil, charHexDigit (c.toNat / 16) (by omega),
      charHexDigit (c.toNat % 16) (by omega)]
    rfl
  rw [written, charPieces, if_neg plain]
  exact readUnit (hexUnitOfDigits c.toNat below) rest

theorem readChars (cs : List Char) (rest : Bytes) :
    readPieces ((cs.flatMap escapeChar).flatMap Bytes.ofChar ++ rest) =
      (readPieces rest).map fun x => (cs.flatMap charPieces ++ x.1, x.2) := by
  induction cs with
  | nil => simp
  | cons c cs ih =>
    rw [List.flatMap_cons, List.flatMap_append, List.append_assoc, readChar, ih]
    cases readPieces rest <;> simp

theorem quoteBytes (s : String) : (quote s).flatMap Bytes.ofChar =
    34 :: ((s.toList.flatMap escapeChar).flatMap Bytes.ofChar ++ [34]) := by
  simp only [quote, List.cons_append, List.flatMap_cons, List.flatMap_append, List.flatMap_nil]
  rfl

theorem readQuoted (s : String) (rest : Bytes) :
    readPieces ((s.toList.flatMap escapeChar).flatMap Bytes.ofChar ++ 34 :: rest) =
      some (pieces s, rest) := by
  rw [readChars, readPieces.eq_2]
  simp [pieces]

theorem bytesOfPlain (bs : Bytes) (rest : List Piece) :
    Piece.bytes? (bs.map .byte ++ rest) = (Piece.bytes? rest).map (bs ++ ·) := by
  induction bs with
  | nil => simp
  | cons b bs ih =>
    rw [List.map_cons, List.cons_append, Piece.bytes?.eq_2, ih]
    cases Piece.bytes? rest <;> simp

theorem bytesOfUnit {n : Nat} (below : n < 32) (rest : List Piece) :
    Piece.bytes? (.unit n :: rest) =
      (Piece.bytes? rest).map (Bytes.ofChar (Char.ofNat n) ++ ·) := by
  have high : ¬ (55296 ≤ n ∧ n < 56320) := by omega
  have low : ¬ (56320 ≤ n ∧ n < 57344) := by omega
  have surrogate : ¬ (55296 ≤ n ∧ n < 57344) := by omega
  cases rest with
  | nil => simp [Piece.bytes?, surrogate]
  | cons x rest =>
    cases x with
    | byte b => simp [Piece.bytes?.eq_4, surrogate]
    | unit u => rw [Piece.bytes?.eq_3, if_neg high, if_neg low]

theorem bytesOfChar (c : Char) (rest : List Piece) :
    Piece.bytes? (charPieces c ++ rest) = (Piece.bytes? rest).map (Bytes.ofChar c ++ ·) := by
  unfold charPieces
  split
  · exact bytesOfPlain _ rest
  · rename_i small
    have below : c.toNat < 32 := Nat.lt_of_not_le fun large => small (.inl large)
    rw [List.singleton_append, bytesOfUnit below, Char.ofNat_toNat]

theorem bytesOfPieces (s : String) : Piece.bytes? (pieces s) = some (Bytes.ofText s) := by
  rw [Bytes.ofTextChars, pieces]
  induction s.toList with
  | nil => rfl
  | cons c cs ih => rw [List.flatMap_cons, bytesOfChar, ih, List.flatMap_cons, Option.map_some]

theorem textOfPieces (s : String) : Piece.text? (pieces s) = some s := by
  rw [Piece.text?, bytesOfPieces, Option.bind_some, Bytes.textOfText]

end Json

end AmqpClient
