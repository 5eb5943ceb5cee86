import AmqpClient.Retry
import Mathlib.Algebra.Order.Ring.Nat
/-! The wait between two attempts is the base doubled for each failure, up to the cap. It is worked
out in words that stop at the largest one, for a factor that stops there too; but what is cut off
there lies above every cap. -/
namespace AmqpClient.Retry

theorem saturatedProduct (a b : UInt64) :
    (saturatingMul a b).toNat = min (a.toNat * b.toNat) (2 ^ 64 - 1) := by
  unfold saturatingMul
  split
  · rename_i fits
    have fits : a.toNat * b.toNat < 2 ^ 64 := fits
    rw [UInt64.toNat_mul, Nat.mod_eq_of_lt fits]
    exact (Nat.min_eq_left (Nat.le_pred_of_lt fits)).symm
  · rename_i beyond
    have beyond : 2 ^ 64 ≤ a.toNat * b.toNat := Nat.le_of_not_lt beyond
    exact (Nat.min_eq_right (Nat.le_trans (Nat.sub_le _ 1) beyond)).symm

theorem saturatedPower (n : UInt32) : (factor n).toNat = min (2 ^ n.toNat) (2 ^ 64 - 1) := by
  unfold factor
  split
  · rename_i small
    have fits : 2 ^ n.toNat < 2 ^ 64 :=
      Nat.pow_lt_pow_right (by decide) (UInt32.lt_iff_toNat_lt.mp small)
    have power : (Nat.pow 2 n.toNat).toUInt64.toNat = 2 ^ n.toNat :=
      UInt64.toNat_ofNat_of_lt' fits
    exact power.trans (Nat.min_eq_left (Nat.le_pred_of_lt fits)).symm
  · rename_i large
    have large : 64 ≤ n.toNat := UInt32.le_iff_toNat_le.mp (UInt32.not_lt.mp large)
    have beyond : 2 ^ 64 ≤ 2 ^ n.toNat := Nat.pow_le_pow_right (by decide) large
    exact (Nat.min_eq_right (Nat.le_trans (Nat.sub_le _ 1) beyond)).symm

theorem productCut (a b : Nat) {limit cap : Nat} (within : cap ≤ limit) :
    min (a * min b limit) cap = min (a * b) cap := by
  rcases Nat.le_total b limit with small | large
  · rw [Nat.min_eq_left small]
  · rw [Nat.min_eq_right large]
    rcases Nat.eq_zero_or_pos a with rfl | positive
    · rw [Nat.zero_mul, Nat.zero_mul]
    · have cut : cap ≤ a * limit := Nat.le_trans within (Nat.le_mul_of_pos_left limit positive)
      have whole : a * limit ≤ a * b := Nat.mul_le_mul_left a large
      rw [Nat.min_eq_right cut, Nat.min_eq_right (Nat.le_trans cut whole)]

theorem delaySecondsExact (n : UInt32) (p : RetryPolicy) :
    (delaySeconds n p).toNat = min (p.baseSeconds.toNat * 2 ^ n.toNat) p.capSeconds.toNat := by
  have cap : p.capSeconds.toNat ≤ 2 ^ 64 - 1 := Nat.le_pred_of_lt p.capSeconds.toNat_lt
  have least (a b : UInt64) : (min a b).toNat = min a.toNat b.toNat := by
    change (if a ≤ b then a else b).toNat = if a.toNat ≤ b.toNat then a.toNat else b.toNat
    rw [apply_ite UInt64.toNat]
    rfl
  rw [delaySeconds, least, saturatedProduct, saturatedPower, Nat.min_assoc, Nat.min_eq_right cap,
    productCut _ _ cap]

theorem secondsMonotone {a b : Nat} (less : a ≤ b) :
    (Duration.ofSeconds a).nanoseconds ≤ (Duration.ofSeconds b).nanoseconds :=
  Nat.mul_le_mul_left _ less

/-- The wait after `n` failures is the base times two to the power `n` in whole seconds, or the cap
if that is less; it never gets shorter with another failure. -/
theorem backoffExact (n : UInt32) (p : RetryPolicy) :
    delay n p = .ofSeconds (min (p.baseSeconds.toNat * 2 ^ n.toNat) p.capSeconds.toNat) ∧
    (∀ m, n ≤ m → (delay n p).nanoseconds ≤ (delay m p).nanoseconds) ∧
    (delay n p).nanoseconds ≤ (Duration.ofSeconds p.capSeconds.toNat).nanoseconds := by
  have exact (n : UInt32) : delay n p =
      .ofSeconds (min (p.baseSeconds.toNat * 2 ^ n.toNat) p.capSeconds.toNat) :=
    congrArg Duration.ofSeconds (delaySecondsExact n p)
  refine ⟨exact n, fun m later => ?_, ?_⟩
  · have doubled : 2 ^ n.toNat ≤ 2 ^ m.toNat :=
      Nat.pow_le_pow_right (by decide) (UInt32.le_iff_toNat_le.mp later)
    rw [exact, exact]
    exact secondsMonotone (min_le_min_right _ (Nat.mul_le_mul_left _ doubled))
  · rw [exact]
    exact secondsMonotone (Nat.min_le_right ..)

theorem longestBackoff :
    let p : RetryPolicy := { baseSeconds := 3, capSeconds := 18446744073709551615 }
    (delay 63 p = .ofSeconds 18446744073709551615 ∧
      (delay 63 p).nanoseconds ≤ (delay 70 p).nanoseconds) ∧
    delay 70 { p with baseSeconds := 0 } = .ofSeconds 0 := by
  intro p
  have exact := (backoffExact 63 p).1
  have none := (backoffExact 70 { p with baseSeconds := 0 }).1
  exact ⟨⟨exact.trans (congrArg _ (by decide +kernel)), (backoffExact 63 p).2.1 70 (by decide)⟩,
    none.trans (congrArg _ (by decide +kernel))⟩

end AmqpClient.Retry
