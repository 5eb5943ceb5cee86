import AmqpClient.World.Clock
/-! Runs of a world. Whoever can make a step may make it, in any order; between two steps time may
pass, the broker may change from outside, and clients may be made, called and let go. A prompt run
lets time pass only when no one can make a step, and never past a timer. All that the schedule does
is a run, on every broker. -/
namespace AmqpClient.World

inductive Run {β : Type} (step : World β → World β → Prop) : World β → World β → Prop where
  | refl (w) : Run step w w
  | next {w v u} (run : Run step w v) (last : step v u) : Run step w u

namespace Run

variable {β : Type} {step weaker : World β → World β → Prop} {w v u : World β}

theorem single (last : step w v) : Run step w v := .next (.refl w) last

theorem trans (first : Run step w v) (second : Run step v u) : Run step w u := by
  induction second with
  | refl => exact first
  | next _ last ih => exact .next ih last

theorem map (each : ∀ w v, step w v → weaker w v) (run : Run step w v) : Run weaker w v := by
  induction run with
  | refl => exact .refl _
  | next _ last ih => exact .next ih (each _ _ last)

end Run

variable {β : Type} [Broker β]

def Acts (w v : World β) : Prop := ∃ a preferStop, w.step a preferStop = some v

def Quiet (w : World β) : Prop := ∀ a preferStop, w.step a preferStop = none

/-- One change of a world, where `outside` is what can befall the broker. -/
inductive Step (outside : β → β → Prop) : World β → World β → Prop where
  | act {w v} (made : Acts w v) : Step outside w v
  | time (w) {t} (later : w.env.now ≤ t) : Step outside w (w.advance t)
  | broker (w) {b} (change : outside w.env.broker b) :
      Step outside w { w with env := w.env.withBroker b }
  | make (w) (client : String) (p : Plan) : Step outside w (w.make client p)
  | call (w) (i : Nat) (x : Call) : Step outside w (w.call i x)
  | letGo (w) (i : Nat) : Step outside w (w.letGo i)

/-- A change that keeps no one waiting who could go on. -/
def Prompt (w v : World β) : Prop :=
  w.env.now < v.env.now → w.Quiet ∧ ∀ t ∈ w.timers, w.env.now < t → v.env.now ≤ t

abbrev FreeRun (outside : β → β → Prop) : World β → World β → Prop := Run (Step outside)

abbrev PromptRun (outside : β → β → Prop) : World β → World β → Prop :=
  Run fun w v => Step outside w v ∧ Prompt w v

variable {outside : β → β → Prop} {w v : World β}

theorem freeOfPrompt (run : PromptRun outside w v) : FreeRun outside w v :=
  run.map fun _ _ h => h.1

theorem freeOfActs (run : Run Acts w v) : FreeRun outside w v :=
  run.map fun _ _ h => .act h

theorem nowOfActs (run : Run Acts w v) : v.env.now = w.env.now := by
  induction run with
  | refl => rfl
  | next _ last ih =>
    obtain ⟨a, preferStop, made⟩ := last
    exact (nowOfStep made).trans ih

theorem driveActs (a : Actor) (fuel : Nat) (moved : Bool) (w : World β) :
    Run Acts w (drive a fuel moved w).2 := by
  induction fuel generalizing moved w with
  | zero => exact .refl w
  | succ fuel ih =>
    unfold drive
    split
    · rename_i v made
      exact (Run.single ⟨a, false, made⟩).trans (ih true v)
    · exact .refl w

theorem foldDriveActs (actors : List Actor) (moved : Bool) (w : World β) :
    Run Acts w (actors.foldl (fun (moved, w) a => drive a stepBound moved w) (moved, w)).2 := by
  induction actors generalizing moved w with
  | nil => exact .refl w
  | cons a rest ih => exact (driveActs a stepBound moved w).trans (ih _ _)

theorem settleWithinActs (fuel : Nat) (w : World β) : Run Acts w (settleWithin fuel w) := by
  induction fuel generalizing w with
  | zero => exact .refl w
  | succ fuel ih =>
    have turns : Run Acts w (takeTurns w).2 := foldDriveActs w.actors false w
    unfold settleWithin
    split <;> rename_i v taken <;> rw [taken] at turns
    · exact turns.trans (ih v)
    · exact turns

theorem settleActs (w : World β) : Run Acts w w.settle := settleWithinActs turnBound w

theorem nowSettle (w : World β) : w.settle.env.now = w.env.now := nowOfActs (settleActs w)

omit [Broker β] in
theorem nextTimerLater {t : Instant} (next : w.nextTimer? = some t) : w.env.now < t := by
  have mem := List.min?_mem next
  simpa using (List.mem_filter.mp mem).2

theorem approachWithinRuns {target : Instant} (fuel : Nat) (w : World β)
    (later : w.env.now ≤ target) : FreeRun outside w (approachWithin target fuel w) := by
  induction fuel generalizing w with
  | zero => exact .single (.time w later)
  | succ fuel ih =>
    have settled : FreeRun outside w w.settle := freeOfActs (settleActs w)
    have still : w.settle.env.now ≤ target := by rw [nowSettle]; exact later
    unfold approachWithin
    dsimp only
    split
    · rename_i t next
      split
      · rename_i near
        exact settled.trans
          ((Run.single (.time _ (Nat.le_of_lt (nextTimerLater next)))).trans
            (ih _ (Nat.le_of_lt near)))
      · exact settled.next (.time _ still)
    · exact settled.next (.time _ still)

theorem approachRuns {target : Instant} (w : World β) (later : w.env.now ≤ target) :
    FreeRun outside w (w.approach target) := approachWithinRuns timerBound w later

theorem advanceToRuns {target : Instant} (w : World β) (later : w.env.now ≤ target) :
    FreeRun outside w (w.advanceTo target) :=
  (approachRuns w later).trans (freeOfActs (settleActs _))

theorem awaitWithinRuns (done : World β → Bool) (fuel : Nat) (w : World β) :
    FreeRun outside w (awaitWithin done fuel w) := by
  induction fuel generalizing w with
  | zero => exact .refl w
  | succ fuel ih =>
    have settled : FreeRun outside w w.settle := freeOfActs (settleActs w)
    unfold awaitWithin
    dsimp only
    split
    · exact settled
    · split
      · rename_i t next
        exact settled.trans
          ((Run.single (.time _ (Nat.le_of_lt (nextTimerLater next)))).trans (ih _))
      · exact settled

theorem awaitRuns (done : World β → Bool) (w : World β) : FreeRun outside w (w.await done) :=
  awaitWithinRuns done timerBound w

theorem pollWithinRuns (done : World β → Bool) (pace fuel : Nat) (w : World β) :
    FreeRun outside w (pollWithin done pace fuel w).2 := by
  induction fuel generalizing w with
  | zero => exact .refl w
  | succ fuel ih =>
    unfold pollWithin
    split
    · exact .refl w
    · exact (approachRuns w (Nat.le_add_right _ _)).trans (ih _)

theorem waitUntilRuns (done : World β → Bool) (w : World β) :
    FreeRun outside w (w.waitUntil done).2 := pollWithinRuns done 10 6000 w

end AmqpClient.World
