import AmqpClient.Proofs.Supervisor.Guard
/-! What becomes of a loss that falls between the last declaration and the watches: the link is
watched when it is gone already, no signal ever fires, and the session is connected on it. -/
namespace AmqpClient

open Broker (Memory Store)

def Link.Dead (s : Store) (l : Link) : Prop :=
  ¬ (s.openAt .connection l.connection ∧ s.openAt .channel l.channel)

namespace Establish

def Doomed (s : Store) : Establish → Prop
  | .installing l [] => l.Dead s ∧ ∀ r, s.Bare r (l.id r)
  | .watchingConnection l => l.Dead s ∧ ∀ r, s.Bare r (l.id r)
  | .watchingChannel l c => l.Dead s ∧ s.Bare .channel l.channel ∧ ¬ s.fired c
  | .ready l c h => l.Dead s ∧ ¬ s.fired c ∧ ¬ s.fired h
  | _ => False

inductive Path (client : String) (t : Topology) :
    Env Memory → Establish → Env Memory → Establish → Prop where
  | refl {e x} : Path client t e x e x
  | next {e x f y g z} (first : x.step client t e = some (f, y)) (rest : Path client t f y g z) :
      Path client t e x g z

variable {e f : Env Memory} {x y : Establish} {client : String} {t : Topology}

theorem deadLose {l : Link} {r : Resource} {n : Nat} {reason : String} {m : Memory}
    (pair : l.connection = l.channel) (here : l.id r = n) :
    l.Dead (m.lose r n reason).store := by
  have here : l.channel = n := by
    cases r with
    | connection => exact pair.symm.trans here
    | channel => exact here
  intro ⟨_, channel⟩
  rw [here] at channel
  exact Memory.closedLose r n reason m channel

theorem doomedLose {r : Resource} {n : Nat} {reason : String} {m : Memory}
    (safe : x.Safe m.store) (unwatched : x.Unwatched m.store r n) :
    x.Doomed (m.lose r n reason).store := by
  cases x with
  | installing l rest =>
    cases rest with
    | nil => exact ⟨deadLose safe.1 unwatched, fun r => Memory.bareLose (safe.2.1 r)⟩
    | cons => exact unwatched.elim
  | watchingConnection l => exact ⟨deadLose safe.1 unwatched, fun r => Memory.bareLose (safe.2.1 r)⟩
  | watchingChannel l c =>
    obtain ⟨rfl, here, unfired⟩ := unwatched
    obtain ⟨pair, bare, -⟩ := safe
    refine ⟨deadLose pair here, Memory.bareLose bare, fun fired => unfired ?_⟩
    rw [here] at bare
    exact Store.firedShutBare bare fired
  | _ => exact unwatched.elim

theorem doomedMove (move : Move client t e x f y) (doomed : x.Doomed e.broker.store) :
    y.Doomed f.broker.store := by
  cases move with
  | installed => exact doomed
  | @watchConnection l =>
    obtain ⟨dead, bare⟩ := doomed
    refine ⟨fun still => dead ⟨?_, ?_⟩, ?_, Store.unfiredWatchConnection (bare .connection)⟩
    · exact Store.openWatchConnection.mp still.1
    · exact Store.openWatchConnection.mp still.2
    · exact Store.keptBare (Store.keepsWatchConnection l.connection e.broker.store)
        (fun h => by cases h.1) (bare .channel)
  | @watchChannel l c =>
    obtain ⟨dead, bare, unfired⟩ := doomed
    refine ⟨fun still => dead ⟨?_, ?_⟩, fun fired => unfired (Store.firedWatchChannel bare fired),
      Store.unfiredWatchChannel bare⟩
    · exact Store.openWatchChannel.mp still.1
    · exact Store.openWatchChannel.mp still.2
  | _ => exact doomed.elim

theorem doomedReady (client : String) (t : Topology) (doomed : x.Doomed e.broker.store) :
    ∃ f l c h, Path client t e x f (.ready l c h) ∧ Doomed f.broker.store (.ready l c h) := by
  have step {e f : Env Memory} {x y : Establish} (made : x.step client t e = some (f, y))
      (doomed : x.Doomed e.broker.store) : y.Doomed f.broker.store :=
    doomedMove (stepMove made) doomed
  have last {e : Env Memory} {l : Link} {c : SignalId}
      (doomed : Doomed e.broker.store (.watchingChannel l c)) :
      ∃ f i j k, Path client t e (.watchingChannel l c) f (.ready i j k) ∧
        Doomed f.broker.store (.ready i j k) :=
    ⟨_, _, _, _, .next rfl .refl, step (e := e) (x := .watchingChannel l c) rfl doomed⟩
  have watching {e : Env Memory} {l : Link} (doomed : Doomed e.broker.store (.watchingConnection l)) :
      ∃ f i j k, Path client t e (.watchingConnection l) f (.ready i j k) ∧
        Doomed f.broker.store (.ready i j k) := by
    obtain ⟨f, i, j, k, path, doomed⟩ := last (step (x := .watchingConnection l) rfl doomed)
    exact ⟨f, i, j, k, .next rfl path, doomed⟩
  cases x with
  | installing l rest =>
    cases rest with
    | nil =>
      obtain ⟨f, i, j, k, path, doomed⟩ := watching (step (x := .installing l []) rfl doomed)
      exact ⟨f, i, j, k, .next rfl path, doomed⟩
    | cons => exact doomed.elim
  | watchingConnection l => exact watching doomed
  | watchingChannel l c => exact last doomed
  | ready l c h => exact ⟨e, l, c, h, .refl, doomed⟩
  | _ => exact doomed.elim

end Establish

namespace Supervisor

def Noticed (s : Store) (v : Supervisor) : Prop :=
  (∃ x ∈ v.events, x.generation = v.session.generation) ∨
    (∃ w ∈ v.watchers, w.generation = v.session.generation ∧ w.phase = .watching ∧
      s.fired w.signal) ∨
    ∃ c h, v.recovery = .arming v.session.generation c h ∧ (s.fired c ∨ s.fired h)

def Astray (m : Memory) (v : Supervisor) : Prop :=
  v.session.state = .connected ∧ v.isConnected m = false

variable {m : Memory} {v : Supervisor} {alive : Bool}

theorem astrayOfDead {l : Link} (connected : v.session.state = .connected)
    (connection : v.session.connection = some l.connection)
    (channel : v.session.channel = some l.channel) (dead : l.Dead m.store) : v.Astray m := by
  refine ⟨connected, Bool.eq_false_iff.mpr fun healthy => dead ?_⟩
  unfold isConnected Session.healthy at healthy
  rw [connection, channel, Bool.and_eq_true, Bool.and_eq_true] at healthy
  exact ⟨healthy.1.2, healthy.2⟩

theorem guardedNoticed (guarded : v.Guarded m.store alive) (astray : v.Astray m)
    (running : v.stopped = false) (asked : alive = true) :
    v.recovery.attends ∧ v.Noticed m.store := by
  obtain ⟨connected, gone⟩ := astray
  constructor
  · rcases guarded.attends connected with attends | ended
    · exact attends
    · rcases guarded.ended ended with stopped | unasked
      · rw [running] at stopped; cases stopped
      · rw [asked] at unasked; cases unasked
  obtain ⟨n, c, h, connection, channel, watched, told⟩ := guarded.watched connected running asked
  have closed : ¬ (m.store.openAt .connection n ∧ m.store.openAt .channel n) := by
    intro ⟨first, second⟩
    have first : m.store.connectionOpen n = true := first
    have second : m.store.channelOpen n = true := second
    have healthy : v.isConnected m = true := by
      simp only [isConnected, Session.healthy, connected, connection, channel, Option.any_some,
        Broker.connectionOpen, Broker.channelOpen, first, second, beq_self_eq_true, Bool.and_self]
    rw [gone] at healthy
    cases healthy
  have fired := Store.firedOfClosed watched closed
  rcases told with arming | ⟨first, second⟩
  · exact .inr (.inr ⟨c, h, arming, fired⟩)
  have ready {i : SignalId} (alerts : v.Alerts i) (fired : m.store.fired i) : v.Noticed m.store := by
    rcases alerts with ⟨w, mem, generation, signal, watching⟩ | event
    · exact .inr (.inl ⟨w, mem, generation, watching, by rw [signal]; exact fired⟩)
    · exact .inl event
  rcases fired with fired | fired
  · exact ready first fired
  · exact ready second fired

end Supervisor

end AmqpClient
