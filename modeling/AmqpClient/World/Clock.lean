import AmqpClient.World.Schedule
/-! The clock stands still while tasks make steps: time passes only where the clock is moved. -/
namespace AmqpClient

variable {β : Type} [Broker β] {e f : Env β}

theorem Release.nowOfStep {r q : Release} (h : r.step e = some (f, q)) : f.now = e.now := by
  unfold Release.step at h
  split at h <;> grind

theorem Establish.nowOfStep {client : String} {t : Topology} {x y : Establish}
    (h : x.step client t e = some (f, y)) : f.now = e.now := by
  unfold Establish.step at h
  split at h <;> grind [Release.nowOfStep]

namespace Supervisor

variable {s t : Supervisor}

theorem nowOfRecoveryStep {alive preferStop : Bool}
    (h : s.recoveryStep alive preferStop e = some (f, t)) : f.now = e.now := by
  unfold recoveryStep at h
  split at h <;> grind [Release.nowOfStep, Establish.nowOfStep, Option.map_eq_some_iff]

theorem nowOfWatcherStep {i : Nat} {preferStop : Bool}
    (h : s.watcherStep i preferStop e = some (f, t)) : f.now = e.now := by
  unfold watcherStep at h
  split at h <;> grind

theorem nowOfCloseStep {x y : Closing} (h : s.closeStep e x = some (f, t, y)) :
    f.now = e.now := by
  unfold closeStep at h
  split at h <;> grind [Release.nowOfStep]

end Supervisor

theorem Publication.nowOfStep {s : Supervisor} {p q : Publication}
    (h : p.step s e = some (f, q)) : f.now = e.now := by
  unfold Publication.step at h
  split at h <;> grind [Option.map_eq_some_iff]

namespace Consumer

variable {s : Supervisor} {c d : Consumer}

theorem nowOfCloseStep {call : Nat} {t : Supervisor} {x y : ConsumerClosing}
    (h : c.closeStep call e s x = some (f, t, d, y)) : f.now = e.now := by
  unfold closeStep at h
  split at h <;> grind [Supervisor.nowOfCloseStep, Option.map_eq_some_iff]

@[simp, grind =] theorem nowDropStream? (stream : Option StreamId) :
    (dropStream? e stream).now = e.now := by
  cases stream <;> rfl

theorem nowOfLoopStep {i : Nat} {preferStop : Bool}
    (h : c.loopStep i preferStop s e = some (f, d)) : f.now = e.now := by
  unfold loopStep at h
  split at h
  · contradiction
  · dsimp only at h
    split at h <;> grind

theorem nowOfWorkerStep {i : Nat} (h : c.workerStep i e = some (f, d)) : f.now = e.now := by
  unfold workerStep at h
  split at h
  · contradiction
  · dsimp only at h
    split at h <;> grind

theorem RetryTask.nowOfStep {stopped : Bool} {r q : RetryTask}
    (h : r.step stopped s e = some (f, q)) : f.now = e.now := by
  unfold RetryTask.step at h
  split at h <;> grind [RetryTask.wake, Option.map_eq_some_iff]

theorem nowOfRetryStep {i : Nat} (h : c.retryStep i s e = some (f, d)) : f.now = e.now := by
  unfold retryStep at h
  split at h <;> grind [RetryTask.nowOfStep, Option.map_eq_some_iff]

end Consumer

namespace Client

variable {c d : Client}

theorem nowOfCallStep {i : Nat} (h : c.callStep i e = some (f, d)) : f.now = e.now := by
  unfold callStep at h
  split at h <;> grind [Publication.nowOfStep, Supervisor.nowOfCloseStep,
    Consumer.nowOfCloseStep, Option.map_eq_some_iff]

omit [Broker β] in
theorem nowOfConsumerStep {g : Supervisor → Env β → Consumer → Option (Env β × Consumer)}
    (still : ∀ {s k l} {e f : Env β}, g s e k = some (f, l) → f.now = e.now)
    (h : c.consumerStep g e = some (f, d)) : f.now = e.now := by
  unfold consumerStep at h
  split at h <;> grind [Option.map_eq_some_iff]

theorem nowOfStep {a : Activity} {preferStop : Bool} (h : c.step a preferStop e = some (f, d)) :
    f.now = e.now := by
  unfold step at h
  split at h
  · grind [Supervisor.nowOfRecoveryStep, Option.map_eq_some_iff]
  · grind [Supervisor.nowOfWatcherStep, Option.map_eq_some_iff]
  · exact nowOfConsumerStep Consumer.nowOfLoopStep h
  · exact nowOfConsumerStep Consumer.nowOfWorkerStep h
  · exact nowOfConsumerStep Consumer.nowOfRetryStep h
  · exact nowOfCallStep h

end Client

namespace World

variable {w v : World β}

theorem nowOfOpeningStep {i : Nat} (h : w.openingStep i = some v) : v.env.now = w.env.now := by
  unfold openingStep at h
  split at h
  · contradiction
  · split at h <;> grind [setOpening, Establish.nowOfStep, Option.map_eq_some_iff]

omit [Broker β] in
theorem nowRecordEnd (i : Nat) (a : Activity) (c : Client) : (recordEnd i a c e).now = e.now := by
  unfold recordEnd
  grind

theorem nowOfStep {a : Actor} {preferStop : Bool} (h : w.step a preferStop = some v) :
    v.env.now = w.env.now := by
  unfold step at h
  split at h
  · exact nowOfOpeningStep h
  · unfold clientStep at h
    split at h <;> grind [Client.nowOfStep, nowRecordEnd, Option.map_eq_some_iff]

end World

end AmqpClient
