import AmqpClient.Proofs.ClientMoves
import AmqpClient.Proofs.Consumer.Moves
import AmqpClient.Proofs.Supervisor.Moves
import AmqpClient.World
/-! The journal only grows, and each kind of task writes its own kind of facts into it. -/
namespace AmqpClient

inductive Fact.Writer where
  | link
  | loop
  | publisher
  | worker
  | call
  deriving DecidableEq

def Fact.writer : Fact → Writer
  | dialed .. => .link
  | declared .. => .link
  | closedChannel .. => .link
  | closedConnection .. => .link
  | prefetched .. => .loop
  | subscribed .. => .loop
  | published .. => .publisher
  | handling _ => .worker
  | handled .. => .worker
  | settled .. => .worker
  | spanEnded _ => .worker
  | ended .. => .call

variable {β : Type} {e f g : Env β}

namespace Env

def Grows (e f : Env β) : Prop := e.journal <:+ f.journal

def GrowsBy (writer : Fact.Writer) (e f : Env β) : Prop :=
  ∃ new, f.journal = new ++ e.journal ∧ ∀ x ∈ new, x.fact.writer = writer

theorem growsRefl (e : Env β) : e.Grows e := List.suffix_refl _

theorem growsTrans (first : e.Grows f) (second : f.Grows g) : e.Grows g :=
  List.IsSuffix.trans first second

theorem growsMem (grows : e.Grows f) {x : Entry} (mem : x ∈ e.journal) : x ∈ f.journal :=
  grows.subset mem

variable {writer : Fact.Writer}

theorem growsByRefl (e : Env β) : e.GrowsBy writer e := ⟨[], rfl, fun x mem => by cases mem⟩

theorem growsByRecord (e : Env β) (x : Fact) : e.GrowsBy x.writer (e.record x) :=
  ⟨[⟨e.now, x⟩], rfl, fun y mem => by cases List.mem_singleton.mp mem; rfl⟩

theorem growsByAnswer {α : Type} {asked : Env β × α} {a : α} (answer : asked = (f, a))
    (grows : e.GrowsBy writer asked.1) : e.GrowsBy writer f := by
  rw [answer] at grows
  exact grows

theorem growsOfBy (grows : e.GrowsBy writer f) : e.Grows f := by
  obtain ⟨new, same, -⟩ := grows
  exact ⟨new, same.symm⟩

theorem countOther {p : Entry → Bool} (grows : e.GrowsBy writer f)
    (other : ∀ x, p x = true → x.fact.writer ≠ writer) :
    f.journal.countP p = e.journal.countP p := by
  obtain ⟨new, same, own⟩ := grows
  have none : new.countP p = 0 :=
    List.countP_eq_zero.mpr fun x mem counted => other x counted (own x mem)
  rw [same, List.countP_append, none, Nat.zero_add]

end Env

variable [Broker β]

theorem Release.growsOfMove {r q : Release} (move : Move e r f q) : e.GrowsBy .link f := by
  cases move with
  | @channel c => exact Env.growsByRecord _ (.closedChannel c _)
  | @connection c => exact Env.growsByRecord _ (.closedConnection c _)

theorem Establish.growsOfMove {client : String} {t : Topology} {x y : Establish}
    (move : Move client t e x f y) : e.GrowsBy .link f := by
  cases move with
  | start | installed | discarded | watchConnection | watchChannel => exact Env.growsByRefl e
  | @dialed number _ _ _ _ answer | @refused number _ _ _ _ answer =>
    exact Env.growsByAnswer answer (Env.growsByRecord _ (.dialed client number _))
  | @declared l d _ _ answer | @undeclared l d _ _ _ answer =>
    exact Env.growsByAnswer answer (Env.growsByRecord _ (.declared l.channel d _))
  | discard move => exact Release.growsOfMove move

namespace Supervisor

variable {s t : Supervisor}

theorem growsOfRecovery {alive : Bool} (move : RecoveryMove alive e s f t) :
    e.GrowsBy .link f := by
  cases move with
  | release _ move | abandon _ move => exact Release.growsOfMove move
  | establish _ move => exact Establish.growsOfMove move
  | _ => exact Env.growsByRefl e

theorem growsOfClosing {x y : Closing} (move : ClosingMove e s x f t y) : e.GrowsBy .link f := by
  cases move with
  | release move => exact Release.growsOfMove move
  | _ => exact Env.growsByRefl e

end Supervisor

theorem Publication.growsOfStep {s : Supervisor} {p q : Publication}
    (h : p.step s e = some (f, q)) : e.GrowsBy .publisher f := by
  unfold Publication.step at h
  split at h
  case h_1 => split at h <;> cases h <;> exact Env.growsByRefl e
  case h_2 => split at h <;> cases h <;> exact Env.growsByRefl e
  case h_3 c _ =>
    split at h <;> cases h
    · exact Env.growsByRefl e
    · exact Env.growsByRecord _ (.published c _ _ _ _)
  case h_4 =>
    obtain ⟨o, -, same⟩ := Option.map_eq_some_iff.mp h
    cases same
    exact Env.growsByRefl e
  all_goals contradiction

namespace Consumer

variable {s : Supervisor} {k l : Consumer}

theorem growsOfLoop {i : Nat} {j : Loop} (move : LoopMove i s e k j f l) : e.GrowsBy .loop f := by
  have kept (stream : Option StreamId) : e.GrowsBy .loop (dropStream? e stream) := by
    cases stream <;> exact Env.growsByRefl e
  cases move with
  | @prefetched c _ _ answer | @unprefetched c _ _ _ answer =>
    exact Env.growsByAnswer answer (Env.growsByRecord _ (.prefetched c _ _))
  | @subscribed c _ _ _ answer | @unsubscribed c _ _ _ answer =>
    exact Env.growsByAnswer answer (Env.growsByRecord _ (.subscribed c _ _ _))
  | take _ _ _ answer | broken _ _ _ answer | ended _ _ _ answer =>
    exact Env.growsByAnswer answer (Env.growsByRefl e)
  | resume | wake => exact kept _
  | _ => exact Env.growsByRefl e

theorem growsOfWorker {i : Nat} {x : Worker} (move : WorkerMove i e k x f l) :
    e.GrowsBy .worker f := by
  cases move with
  | refuse | schedule => exact Env.growsByRefl e
  | settle => exact Env.growsByRecord _ (.settled x.channel x.delivery.tag _ _)
  | _ => exact Env.growsByRecord e _

theorem growsOfRetry {stopped : Bool} {r q : RetryTask} (move : RetryMove stopped s e r f q) :
    e.GrowsBy .publisher f := by
  cases move with
  | @send a c => exact Env.growsByRecord _ (.published c _ _ _ _)
  | _ => exact Env.growsByRefl e

theorem growsOfClose {call : Nat} {t : Supervisor} {x y : ConsumerClosing}
    (move : CloseMove call e s k x f t l y) : e.GrowsBy .link f := by
  cases move with
  | closing made => exact Supervisor.growsOfClosing (Supervisor.closingMove made)
  | _ => exact Env.growsByRefl e

end Consumer

theorem Client.growsByMove {c d : Client} (move : Move e c f d) :
    (∃ k l i x, c.role = .consumer k ∧ d = { c with role := .consumer l } ∧
      k.workers[i]? = some x ∧ k.WorkerMove i e x f l) ∨
    ∃ writer, writer ≠ .worker ∧ e.GrowsBy writer f := by
  cases move with
  | recovery made =>
    exact .inr ⟨_, by decide, Supervisor.growsOfRecovery (Supervisor.recoveryMove made)⟩
  | watcher made =>
    rw [(Supervisor.watcherMove made).1]
    exact .inr ⟨.link, by decide, Env.growsByRefl e⟩
  | loop _ made =>
    obtain ⟨j, -, move⟩ := Consumer.loopMove made
    exact .inr ⟨_, by decide, Consumer.growsOfLoop move⟩
  | worker role made =>
    obtain ⟨x, found, move⟩ := Consumer.workerMove made
    exact .inl ⟨_, _, _, x, role, rfl, found, move⟩
  | retry _ made =>
    obtain ⟨r, q, -, move, -⟩ := Consumer.retryStepSource made
    exact .inr ⟨_, by decide, Consumer.growsOfRetry move⟩
  | publish _ made => exact .inr ⟨_, by decide, Publication.growsOfStep made⟩
  | close _ made =>
    exact .inr ⟨_, by decide, Supervisor.growsOfClosing (Supervisor.closingMove made)⟩
  | start => exact .inr ⟨.link, by decide, Env.growsByRefl e⟩
  | closeConsumer _ _ made =>
    exact .inr ⟨_, by decide, Consumer.growsOfClose (Consumer.closeMove made)⟩

theorem Client.growsOfMove {c d : Client} (move : Move e c f d) : e.Grows f := by
  rcases growsByMove move with ⟨k, l, i, x, -, -, -, move⟩ | ⟨writer, -, grows⟩
  · exact Env.growsOfBy (Consumer.growsOfWorker move)
  · exact Env.growsOfBy grows

omit [Broker β] in
theorem World.growsRecordEnd (i : Nat) (a : Activity) (c : Client) (e : Env β) :
    e.GrowsBy .call (recordEnd i a c e) := by
  unfold recordEnd
  split
  · split
    · exact Env.growsByRecord e (.ended i _ _)
    · exact Env.growsByRefl e
  · exact Env.growsByRefl e

omit [Broker β] in
theorem World.brokerRecordEnd (i : Nat) (a : Activity) (c : Client) (e : Env β) :
    (recordEnd i a c e).broker = e.broker := by
  unfold recordEnd
  repeat' split
  all_goals rfl

end AmqpClient
