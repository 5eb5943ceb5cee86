import AmqpClient.Text.LowerCase
/-! A text in lower case has nothing left to lower: no character that lower case gives has another
lower case itself, so that lowering a text again does not change it. -/
namespace AmqpClient.Text

def Member (r : Nat × Nat × Nat × Int) (n : Nat) : Prop :=
  r.1 ≤ n ∧ n ≤ r.2.1 ∧ (n - r.1) % r.2.2.1 = 0

instance (r : Nat × Nat × Nat × Int) (n : Nat) : Decidable (Member r n) := by
  unfold Member
  infer_instance

def Settled (c : Char) : Prop := c.toNat ≠ 0x130 ∧ ∀ r ∈ lowerRuns, ¬ Member r c.toNat

instance (c : Char) : Decidable (Settled c) := by
  unfold Settled
  infer_instance

def image (r : Nat × Nat × Nat × Int) (n : Nat) : Nat := (n + r.2.2.2).toNat

def WellFormed (r : Nat × Nat × Nat × Int) : Prop :=
  0 ≤ r.1 + r.2.2.2 ∧ (image r r.2.1 < 0xD800 ∨ 0xDFFF < image r r.1 ∧ image r r.2.1 < 0x110000)

instance (r : Nat × Nat × Nat × Int) : Decidable (WellFormed r) := by
  unfold WellFormed
  infer_instance

/-- No image of the first run is a member of the second: they lie apart, or one takes every other
place and the other has only the places between. -/
def clears (r q : Nat × Nat × Nat × Int) : Bool :=
  Nat.blt (image r r.2.1) q.1 || Nat.blt q.2.1 (image r r.1) ||
    (q.2.2.1 == 2 && (r.2.2.1 == 2 || r.1 == r.2.1) && (image r r.1 + q.1) % 2 == 1)

theorem runsFormed : ∀ r ∈ lowerRuns, WellFormed r ∧ clears r (0x130, 0x130, 1, 0) := by
  decide +kernel

theorem runsClear : ∀ r ∈ lowerRuns, lowerRuns.all (clears r) := by decide +kernel

theorem runsBeyond : ∀ r ∈ lowerRuns, r = (65, 90, 1, 32) ∨ 128 ≤ r.1 := by decide +kernel

theorem apartOfClears {r q : Nat × Nat × Nat × Int} {n : Nat} (formed : WellFormed r)
    (free : clears r q) (member : Member r n) : ¬ Member q (image r n) := by
  obtain ⟨first, last, stride, shift⟩ := r
  obtain ⟨first', last', stride', shift'⟩ := q
  simp only [WellFormed, clears, Member, image, Nat.blt, Bool.or_eq_true, Bool.and_eq_true,
    beq_iff_eq, Nat.ble_eq] at formed free member ⊢
  rintro ⟨above, below, place⟩
  rcases free with (apart | apart) | ⟨⟨rfl, rfl | rfl⟩, odd⟩ <;> omega

theorem charImage {r : Nat × Nat × Nat × Int} {n : Nat} (formed : WellFormed r)
    (member : Member r n) :
    (Char.ofNat (image r n)).toNat = image r n := by
  obtain ⟨first, last, stride, shift⟩ := r
  simp only [WellFormed, Member, image] at formed member ⊢
  have valid : (n + shift).toNat.isValidChar := by
    unfold Nat.isValidChar
    omega
  rw [Char.ofNat, dif_pos valid]
  rfl

theorem settledImage {r : Nat × Nat × Nat × Int} {n : Nat} (run : r ∈ lowerRuns)
    (member : Member r n) : Settled (Char.ofNat (image r n)) := by
  obtain ⟨formed, undotted⟩ := runsFormed r run
  rw [Settled, charImage formed member]
  refine ⟨fun dotted => ?_, fun q other => ?_⟩
  · have self : Member (0x130, 0x130, 1, 0) 0x130 := by decide
    exact apartOfClears formed undotted member (dotted ▸ self)
  · exact apartOfClears formed (List.all_eq_true.mp (runsClear r run) q other) member

theorem toLowerCapital {c : Char} (capital : Member (65, 90, 1, 32) c.toNat) :
    c.toLower = Char.ofNat (image (65, 90, 1, 32) c.toNat) := by
  have small : ∀ n < 91,
      (Char.ofNat n).toLower = Char.ofNat (image (65, 90, 1, 32) n) ∨ n < 65 := by
    decide
  obtain ⟨above, below, -⟩ := capital
  have given := (small c.toNat (Nat.lt_succ_of_le below)).resolve_right (Nat.not_lt.mpr above)
  rwa [Char.ofNat_toNat] at given

theorem toLowerOther {c : Char} (other : ¬ Member (65, 90, 1, 32) c.toNat) : c.toLower = c := by
  unfold Char.toLower
  refine dif_neg fun capital => other ⟨?_, ?_, Nat.mod_one _⟩
  · exact UInt32.le_iff_toNat_le.mp capital.1
  · exact UInt32.le_iff_toNat_le.mp capital.2

theorem settledSmall {c : Char} (small : c.toNat < 128) (other : ¬ Member (65, 90, 1, 32) c.toNat) :
    Settled c := by
  refine ⟨by omega, fun r run member => ?_⟩
  rcases runsBeyond r run with rfl | beyond
  · exact other member
  · exact absurd (Nat.le_trans beyond member.1) (Nat.not_le.mpr small)

theorem memberIff {r : Nat × Nat × Nat × Int} {n : Nat} :
    (r.1 ≤ n && n ≤ r.2.1 && (n - r.1) % r.2.2.1 == 0) = true ↔ Member r n := by
  simp [Member, and_assoc]

theorem lowerSettled {c : Char} (settled : Settled c) : lowerChar c = [c] := by
  unfold lowerChar
  split
  · rw [toLowerOther (settled.2 _ (by decide))]
  · rw [if_neg settled.1]
    split
    · rename_i first last stride shift found
      have taken := List.find?_some found
      exact absurd (memberIff.mp taken) (settled.2 _ (List.mem_of_find?_eq_some found))
    · rfl

theorem settledLower (c : Char) : ∀ d ∈ lowerChar c, Settled d := by
  intro d mem
  unfold lowerChar at mem
  split at mem
  · rename_i small
    cases List.mem_singleton.mp mem
    by_cases capital : Member (65, 90, 1, 32) c.toNat
    · rw [toLowerCapital capital]
      exact settledImage (by decide) capital
    · rw [toLowerOther capital]
      exact settledSmall small capital
  · rename_i large
    split at mem
    · simp only [List.mem_cons, List.not_mem_nil, or_false] at mem
      rcases mem with rfl | rfl <;> decide +kernel
    · rename_i undotted
      split at mem
      · rename_i first last stride shift found
        cases List.mem_singleton.mp mem
        have taken := List.find?_some found
        exact settledImage (List.mem_of_find?_eq_some found) (memberIff.mp taken)
      · rename_i missing
        cases List.mem_singleton.mp mem
        exact ⟨undotted, fun r run member =>
          List.find?_eq_none.mp missing r run (memberIff.mpr member)⟩

theorem settledFrom (before rest : List Char) : ∀ d ∈ lowerFrom before rest, Settled d := by
  induction rest generalizing before with
  | nil => simp [lowerFrom]
  | cons c rest ih =>
    intro d mem
    unfold lowerFrom at mem
    rcases List.mem_append.mp mem with here | later
    · split at here
      · split at here <;> cases List.mem_singleton.mp here <;> decide +kernel
      · exact settledLower c d here
    · exact ih _ d later

theorem lowerFromSettled (before : List Char) {rest : List Char} (settled : ∀ c ∈ rest, Settled c) :
    lowerFrom before rest = rest := by
  induction rest generalizing before with
  | nil => rfl
  | cons c rest ih =>
    have here := settled c List.mem_cons_self
    have other : c ≠ 'Σ' := by
      rintro rfl
      exact absurd here (by decide +kernel)
    rw [lowerFrom, if_neg other, lowerSettled here, ih _ fun d mem => settled d (by simp [mem])]
    rfl

theorem lowerTwice (s : String) : lower (lower s) = lower s := by
  have settled := settledFrom [] s.toList
  rw [lower, lower, String.toList_ofList, lowerFromSettled [] settled]

end AmqpClient.Text
