import AmqpClient.Proofs.Use
/-! What every change that a task makes to its surroundings does, a client does. A task changes them
by what it asks of the broker, by what it notes down, and by the identities and numbers it draws. -/
namespace AmqpClient

variable {β : Type} [Broker β]

structure Env.Covers (R : Env β → Env β → Prop) : Prop where
  idle (e : Env β) : R e e
  trans {e f g : Env β} : R e f → R f g → R e g
  record (x : Fact) (e : Env β) : R e (e.record x)
  freshId (e : Env β) : R e e.freshId.1
  beginDial (client : String) (e : Env β) : R e (e.beginDial client).1
  dial (client : String) (number : Nat) (e : Env β) : R e (e.dial client number).1
  watchConnection (c : ConnectionId) (e : Env β) : R e (e.watchConnection c).1
  watchChannel (c : ChannelId) (e : Env β) : R e (e.watchChannel c).1
  declare (c : ChannelId) (d : Declaration) (e : Env β) : R e (e.declare c d).1
  prefetch (c : ChannelId) (n : UInt16) (e : Env β) : R e (e.prefetch c n).1
  consume (c : ChannelId) (queue consumerTag : String) (e : Env β) :
    R e (e.consume c queue consumerTag).1
  poll (i : StreamId) (e : Env β) : R e (e.poll i).1
  dropStream (i : StreamId) (e : Env β) : R e (e.dropStream i)
  publish (c : ChannelId) (exchange key : String) (m : Envelope) (e : Env β) :
    R e (e.publish c exchange key m).1
  settle (c : ChannelId) (tag : Nat) (s : Settlement) (e : Env β) : R e (e.settle c tag s).1
  closeChannel (c : ChannelId) (e : Env β) : R e (e.closeChannel c).1
  closeConnection (c : ConnectionId) (e : Env β) : R e (e.closeConnection c).1

variable {R : Env β → Env β → Prop} {e f : Env β}

omit [Broker β] in
theorem answerCovered {α : Type} {asked : Env β × α} {a : α} (answer : asked = (f, a))
    (covered : R e asked.1) : R e f := by
  rw [answer] at covered
  exact covered

section

variable (covers : Env.Covers R) {s t : Supervisor} {k m : Consumer}
include covers

theorem Release.covered {r q : Release} (move : Move e r f q) : R e f := by
  cases move with
  | channel => exact covers.closeChannel ..
  | connection => exact covers.closeConnection ..

theorem Establish.covered {client : String} {t : Topology} {x y : Establish}
    (move : Move client t e x f y) : R e f := by
  cases move with
  | start => exact covers.beginDial ..
  | dialed _ answer | refused _ answer => exact answerCovered answer (covers.dial ..)
  | declared answer | undeclared answer => exact answerCovered answer (covers.declare ..)
  | discard move => exact Release.covered covers move
  | watchConnection => exact covers.watchConnection ..
  | watchChannel => exact covers.watchChannel ..
  | installed | discarded => exact covers.idle _

theorem Supervisor.recoveryCovered {alive : Bool} (move : RecoveryMove alive e s f t) : R e f := by
  cases move with
  | release _ move | abandon _ move => exact Release.covered covers move
  | establish _ move => exact Establish.covered covers move
  | _ => exact covers.idle _

theorem Supervisor.closingCovered {x y : Closing} (move : ClosingMove e s x f t y) : R e f := by
  cases move with
  | release move => exact Release.covered covers move
  | _ => exact covers.idle _

theorem Publication.covered {p q : Publication} (h : p.step s e = some (f, q)) : R e f := by
  unfold step at h
  split at h
  case h_1 | h_2 => split at h <;> cases h <;> exact covers.idle _
  case h_3 =>
    split at h <;> cases h
    · exact covers.idle _
    · exact covers.trans (covers.freshId e) (covers.publish ..)
  case h_4 =>
    obtain ⟨o, -, same⟩ := Option.map_eq_some_iff.mp h
    cases same
    exact covers.idle _
  all_goals contradiction

namespace Consumer

theorem loopCovered {i : Nat} {l : Loop} (move : LoopMove i s e k l f m) : R e f := by
  have dropped (stream : Option StreamId) : R e (dropStream? e stream) := by
    cases stream with
    | none => exact covers.idle _
    | some stream => exact covers.dropStream stream _
  cases move with
  | prefetched _ answer | unprefetched _ answer => exact answerCovered answer (covers.prefetch ..)
  | subscribed _ answer | unsubscribed _ answer => exact answerCovered answer (covers.consume ..)
  | take _ _ _ answer | broken _ _ _ answer | ended _ _ _ answer =>
    exact answerCovered answer (covers.poll ..)
  | stop | renew | leave => exact covers.dropStream ..
  | resume | wake => exact dropped _
  | _ => exact covers.idle _

theorem workerCovered {i : Nat} {x : Worker} (move : WorkerMove i e k x f m) : R e f := by
  cases move with
  | refuse => exact covers.idle _
  | schedule => exact covers.freshId _
  | settle => exact covers.settle ..
  | handle | succeed | fail | finish => exact covers.record ..

theorem retryCovered {stopped : Bool} {r q : RetryTask} (move : RetryMove stopped s e r f q) :
    R e f := by
  cases move with
  | send => exact covers.publish ..
  | _ => exact covers.idle _

theorem closeCovered {call : Nat} {x y : ConsumerClosing} (move : CloseMove call e s k x f t m y) :
    R e f := by
  cases move with
  | closing made => exact Supervisor.closingCovered covers (Supervisor.closingMove made)
  | _ => exact covers.idle _

end Consumer

theorem Client.covered {c d : Client} (move : Move e c f d) : R e f := by
  cases move with
  | recovery made => exact Supervisor.recoveryCovered covers (Supervisor.recoveryMove made)
  | watcher made =>
    rw [(Supervisor.watcherMove made).1]
    exact covers.idle _
  | loop _ made =>
    obtain ⟨l, -, move⟩ := Consumer.loopMove made
    exact Consumer.loopCovered covers move
  | worker _ made =>
    obtain ⟨x, -, move⟩ := Consumer.workerMove made
    exact Consumer.workerCovered covers move
  | retry _ made =>
    obtain ⟨r, q, -, move, -⟩ := Consumer.retryStepSource made
    exact Consumer.retryCovered covers move
  | publish _ made => exact Publication.covered covers made
  | close _ made => exact Supervisor.closingCovered covers (Supervisor.closingMove made)
  | start => exact covers.idle _
  | closeConsumer _ _ made => exact Consumer.closeCovered covers (Consumer.closeMove made)

namespace World

variable {w v : World β}

theorem recordEndCovered (i : Nat) (a : Activity) (c : Client) (e : Env β) :
    R e (recordEnd i a c e) := by
  unfold recordEnd
  split
  · split
    · exact covers.record ..
    · exact covers.idle _
  · exact covers.idle _

theorem actCovered (made : Acts w v) : R w.env v.env := by
  obtain ⟨a, preferStop, made⟩ := made
  cases a with
  | opening i =>
    obtain ⟨o, -, move⟩ := openingMove made
    cases move with
    | start | refuse | fail | opened => exact covers.idle _
    | establish _ move => exact Establish.covered covers move
  | client i a =>
    obtain ⟨c, e, d, -, stepped, rfl⟩ := clientStepSource made
    exact covers.trans (Client.covered covers (Client.clientMove stepped))
      (recordEndCovered covers i a d e)

theorem useCovered {outside : β → β → Prop} (used : Use outside w v)
    (time : ∀ t e, e.now ≤ t → R e { e with now := t })
    (outer : ∀ b e, outside e.broker b → R e (e.withBroker b)) : R w.env v.env := by
  cases used with
  | act made => exact actCovered covers made
  | @time t later => exact time t _ later
  | broker change => exact outer _ _ change
  | make | call | letGo => exact covers.idle _

end World

end

end AmqpClient
