import AmqpClient.Publication
/-! How an attempt ends that has a deadline: with the answer if that comes in time, and otherwise at
the deadline. An answer that is there at once is in time even if the deadline has passed before. -/
namespace AmqpClient.Reply

def concludesBy (began deadline : Instant) : Reply → Instant × Outcome
  | .after n o =>
    if n = 0 ∨ began + n ≤ deadline then (began + n, o)
    else (max began deadline, .error .publishTimeout)
  | .never => (max began deadline, .error .publishTimeout)

variable {began deadline now : Instant} {o : Outcome} (x : Reply)

theorem concludesAfter (began deadline : Instant) : began ≤ (x.concludesBy began deadline).1 := by
  unfold concludesBy
  split
  · split
    · exact Nat.le_add_right ..
    · exact Nat.le_max_left ..
  · exact Nat.le_max_left ..

theorem concludedResult (since : began ≤ now) (early : now ≤ (x.concludesBy began deadline).1)
    (result : (Confirmation.ofReply began deadline x).result? now = some o) :
    x.concludesBy began deadline = (now, o) := by
  unfold concludesBy at early ⊢
  simp only [Confirmation.ofReply, Confirmation.result?] at result
  grind

theorem concludedLater (since : began ≤ now)
    (stuck : (Confirmation.ofReply began deadline x).result? now = none) :
    now < (x.concludesBy began deadline).1 ∧
      (Confirmation.ofReply began deadline x).timer = (x.concludesBy began deadline).1 := by
  unfold concludesBy
  simp only [Confirmation.ofReply, Confirmation.result?, Confirmation.timer] at stuck ⊢
  grind

theorem resultAtOnce (since : began ≤ now) :
    (Confirmation.ofReply began deadline (.after 0 o)).result? now = some o := by
  simp [Confirmation.ofReply, Confirmation.result?, since]

theorem resultFailed (failed : x = .never ∨ ∃ error, x = .after 0 (.error error))
    (result : (Confirmation.ofReply began deadline x).result? now = some o) :
    ∃ error, o = .error error := by
  simp only [Confirmation.ofReply, Confirmation.result?] at result
  grind

end AmqpClient.Reply
