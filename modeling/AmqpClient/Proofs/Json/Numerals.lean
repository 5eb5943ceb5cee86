import AmqpClient.Proofs.Json.Strings
import Mathlib.Algebra.Group.Int.Defs
/-! An integer comes back as it was written, whatever ends it that cannot go on with a number. -/
namespace AmqpClient.Json

open Node

def digitsOf (n : Nat) : List Nat := (Number.natText n).map fun c => c.toNat - 48

def numeral (i : Int) : Numeral := ⟨i < 0, digitsOf i.natAbs, [], none⟩

theorem digitValue : ∀ n < 10, n.digitChar.toNat - 48 = n := by decide

theorem digitsOfSmall {n : Nat} (small : n < 10) : digitsOf n = [n] := by
  rw [digitsOf, Number.natText, Nat.toDigits_of_lt_base small]
  simp [digitValue n small]

theorem digitsOfLarge {n : Nat} (large : 10 ≤ n) :
    digitsOf n = digitsOf (n / 10) ++ [n % 10] := by
  have last : n % 10 < 10 := Nat.mod_lt n (by decide)
  rw [digitsOf, Number.natText, Nat.toDigits_eq_if (by decide), if_neg (Nat.not_lt.mpr large)]
  simp [digitsOf, Number.natText, digitValue _ last]

theorem digitsOfNonempty (n : Nat) : digitsOf n ≠ [] := by
  have long : 0 < (digitsOf n).length := by
    rw [digitsOf, List.length_map]
    exact Nat.length_toDigits_pos
  exact List.ne_nil_of_length_pos long

theorem headOfDigits {n : Nat} (positive : 0 < n) : (digitsOf n).head? ≠ some 0 := by
  induction n using Nat.strongRecOn with
  | ind n ih =>
    by_cases small : n < 10
    · simpa [digitsOfSmall small] using Nat.pos_iff_ne_zero.mp positive
    · obtain ⟨d, ds, front⟩ := List.exists_cons_of_ne_nil (digitsOfNonempty (n / 10))
      rw [digitsOfLarge (by omega), front]
      simpa [front] using ih (n / 10) (by omega) (by omega)

theorem noLeadingZero (n : Nat) : ¬ ((digitsOf n).head? = some 0 ∧ 1 < (digitsOf n).length) := by
  rintro ⟨zero, long⟩
  rcases Nat.eq_zero_or_pos n with rfl | positive
  · exact absurd long (by simp [digitsOfSmall])
  · exact headOfDigits positive zero

theorem charIsDigit {c : Char} (digit : c.isDigit) :
    ∃ b, Bytes.ofChar c = [b] ∧ isDigit b ∧ b.toNat - 48 = c.toNat - 48 := by
  have bounds : 48 ≤ c.val.toNat ∧ c.val.toNat ≤ 57 := by
    simpa [Char.isDigit, UInt32.le_iff_toNat_le] using digit
  have same : (UInt8.ofNat c.val.toNat).toNat = c.val.toNat :=
    UInt8.toNat_ofNat_of_lt' (show c.val.toNat < 256 by omega)
  refine ⟨UInt8.ofNat c.val.toNat, ?_, ?_, congrArg (· - 48) same⟩
  · unfold Bytes.ofChar String.utf8EncodeChar
    simp only [show c.val.toNat ≤ 127 by omega, if_true]
  · rw [isDigit, Bool.and_eq_true, decide_eq_true_eq, decide_eq_true_eq, UInt8.le_iff_toNat_le,
      UInt8.le_iff_toNat_le, same]
    exact bounds

theorem digitBytes (cs : List Char) (all : ∀ c ∈ cs, c.isDigit) :
    (∀ b ∈ cs.flatMap Bytes.ofChar, isDigit b) ∧
      (cs.flatMap Bytes.ofChar).map (fun b => b.toNat - 48) = cs.map fun c => c.toNat - 48 := by
  induction cs with
  | nil => simp
  | cons c cs ih =>
    obtain ⟨digits, values⟩ := ih fun x mem => all x (by simp [mem])
    obtain ⟨b, one, digit, value⟩ := charIsDigit (all c (by simp))
    refine ⟨?_, by simp [one, value, values]⟩
    simpa [one, digit] using digits

def Ends (rest : Bytes) : Prop := ∀ b, rest.head? = some b → b = 44 ∨ b = 93 ∨ b = 125

theorem endsNil : Ends [] := by simp [Ends]

theorem endsComma (rest : Bytes) : Ends (44 :: rest) := by simp [Ends]

theorem endsBracket (rest : Bytes) : Ends (93 :: rest) := by simp [Ends]

theorem endsBrace (rest : Bytes) : Ends (125 :: rest) := by simp [Ends]

theorem readDigits (n : Nat) {rest : Bytes} (ends : Ends rest) :
    someDigits ((Number.natText n).flatMap Bytes.ofChar ++ rest) = some (digitsOf n, rest) := by
  have all : ∀ c ∈ Number.natText n, c.isDigit :=
    fun c mem => Nat.isDigit_of_mem_toDigits (by decide) (by decide) mem
  obtain ⟨digits, values⟩ := digitBytes _ all
  have stop : rest.takeWhile isDigit = [] ∧ rest.dropWhile isDigit = rest := by
    cases rest with
    | nil => simp
    | cons b rest => rcases ends b rfl with rfl | rfl | rfl <;> exact ⟨rfl, rfl⟩
  rw [someDigits, Node.digits, List.takeWhile_append_of_pos digits,
    List.dropWhile_append_of_pos digits, stop.1, stop.2, List.append_nil, values]
  have some : (digitsOf n).isEmpty = false := by simpa using digitsOfNonempty n
  exact if_neg (by simpa [digitsOf] using some)

theorem noFraction {rest : Bytes} (ends : Ends rest) : readFraction rest = some ([], rest) := by
  cases rest with
  | nil => rfl
  | cons b rest => rcases ends b rfl with rfl | rfl | rfl <;> rfl

theorem noExponent {rest : Bytes} (ends : Ends rest) : readExponent rest = some (none, rest) := by
  cases rest with
  | nil => rfl
  | cons b rest => rcases ends b rfl with rfl | rfl | rfl <;> rfl

theorem firstDigit (n : Nat) (rest : Bytes) : ∃ b more,
    (Number.natText n).flatMap Bytes.ofChar ++ rest = b :: more ∧ isDigit b := by
  have long : 0 < (Nat.toDigits 10 n).length := Nat.length_toDigits_pos
  obtain ⟨c, cs, text⟩ := List.exists_cons_of_length_pos long
  have digit : c.isDigit :=
    Nat.isDigit_of_mem_toDigits (b := 10) (n := n) (by decide) (by decide) (by simp [text])
  obtain ⟨b, one, isOne, -⟩ := charIsDigit digit
  exact ⟨b, cs.flatMap Bytes.ofChar ++ rest, by simp [Number.natText, text, one], isOne⟩

theorem readInteger (i : Int) {rest : Bytes} (ends : Ends rest) :
    readNumeral ((Number.intText i).flatMap Bytes.ofChar ++ rest) = some (numeral i, rest) := by
  have whole := readDigits i.natAbs ends
  by_cases negative : i < 0
  · have minus : (Number.intText i).flatMap Bytes.ofChar ++ rest =
        45 :: ((Number.natText i.natAbs).flatMap Bytes.ofChar ++ rest) := by
      rw [Number.intText, if_pos negative]
      rfl
    rw [minus, readNumeral.eq_1, whole]
    simp [noLeadingZero, noFraction ends, noExponent ends, numeral, negative]
  · obtain ⟨b, more, text, digit⟩ := firstDigit i.natAbs rest
    have noMinus : b ≠ 45 := by
      rintro rfl
      cases digit
    rw [Number.intText, if_neg negative, text]
    rw [text] at whole
    rw [readNumeral.eq_2 _ fun _ heading => noMinus (List.cons.inj heading).1, whole]
    simp [noLeadingZero, noFraction ends, noExponent ends, numeral, negative]

theorem foldGrows (ds : List Nat) (n : Nat) : n ≤ ds.foldl (fun m d => 10 * m + d) n := by
  induction ds generalizing n with
  | nil => simp
  | cons d ds ih => exact Nat.le_trans (by omega) (ih (10 * n + d))

theorem accumulateAll (ds : List Nat) (n : Nat)
    (fits : ds.foldl (fun m d => 10 * m + d) n ≤ Number.maxUnsigned) :
    Number.accumulate n ds = (ds.foldl (fun m d => 10 * m + d) n, []) := by
  induction ds generalizing n with
  | nil => rfl
  | cons d ds ih =>
    have first : 10 * n + d ≤ Number.maxUnsigned := Nat.le_trans (foldGrows ds _) fits
    rw [Number.accumulate, if_pos first]
    exact ih _ fits

theorem digitsValue (n : Nat) : (digitsOf n).foldl (fun m d => 10 * m + d) 0 = n := by
  rw [digitsOf, List.foldl_map]
  exact Nat.ofDigitChars_toDigits (by decide) (by decide)

def Kept (i : Int) : Prop := -2 ^ 63 ≤ i ∧ i < 2 ^ 64

theorem valueOfNumeral {i : Int} (kept : Kept i) :
    Number.ofNumeral? (numeral i) = some (.integer i) := by
  obtain ⟨low, high⟩ := kept
  have fits : i.natAbs ≤ Number.maxUnsigned := by
    have : Number.maxUnsigned = 18446744073709551615 := rfl
    omega
  have value : Number.accumulate 0 (digitsOf i.natAbs) = (i.natAbs, []) := by
    rw [accumulateAll _ _ (by rwa [digitsValue]), digitsValue]
  rw [Number.ofNumeral?, numeral, value]
  have narrow : Nat.pow 2 63 = 9223372036854775808 := rfl
  by_cases negative : i < 0
  · have signed : ¬ (i.natAbs = 0 ∨ Nat.pow 2 63 < i.natAbs) := by omega
    have same : -(i.natAbs : Int) = i := by omega
    simp only [List.isEmpty_nil, Option.isNone_none, and_self, if_true, negative, decide_true,
      Bool.not_true, Bool.false_eq_true, if_false, if_neg signed, same]
  · have same : (i.natAbs : Int) = i := by omega
    simp only [List.isEmpty_nil, Option.isNone_none, and_self, if_true, negative, decide_false,
      Bool.not_false, same]

end AmqpClient.Json
