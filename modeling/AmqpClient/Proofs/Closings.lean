import AmqpClient.Proofs.Ledger
/-! The calls that close a supervisor. Each raises the stop flag before it closes the session. Only
one that found the session connected has a pair to close, and as long as it does, nobody else of
that client has one. -/
namespace AmqpClient

variable {β : Type} [Broker β] {e f : Env β}

def Closing.stage : Closing → Nat
  | .raising => 0
  | .taking => 1
  | .releasing _ => 2
  | .done _ => 3

def Call.closing? : Call → Option Closing
  | .close x => some x
  | .closeConsumer (.closing x) => some x
  | _ => none

def Call.stage (x : Call) : Nat := (x.closing?.map Closing.stage).getD 0

def Call.pending (x : Call) : Bool := x.held.pending

namespace Call

variable {x : Call} {a : Closing}

theorem stageAt (here : x.closing? = some a) : x.stage = a.stage := by
  unfold stage
  rw [here]
  rfl

theorem heldAt (here : x.closing? = some a) : x.held = a.held := by
  unfold closing? at here
  split at here <;> cases here <;> rfl

theorem releasingOf (pending : x.pending = true) :
    ∃ r, x.closing? = some (.releasing r) ∧ r.pending = true := by
  unfold Call.pending at pending
  cases x with
  | close x => cases x <;> first | exact ⟨_, rfl, pending⟩ | cases pending
  | closeConsumer x =>
    cases x with
    | closing x => cases x <;> first | exact ⟨_, rfl, pending⟩ | cases pending
    | _ => cases pending
  | _ => cases pending

theorem pendingStage (pending : x.pending = true) : 1 < x.stage := by
  obtain ⟨r, here, -⟩ := releasingOf pending
  rw [stageAt here]
  exact Nat.lt_succ_self 1

end Call

theorem Supervisor.settledOfRecovery {alive : Bool} {s t : Supervisor}
    (move : RecoveryMove alive e s f t) (closed : s.session.state = .closed)
    (settled : s.recovery.replacing = false) : t.recovery.replacing = false := by
  cases move with
  | handle here =>
    unfold handle
    split
    · rename_i current
      rw [closed] at current
      cases current.2
    · exact settled
  | adopt here | dial here | release here | released here | failed here | establish here
  | abandon here =>
    rw [here] at settled
    cases settled
  | _ => rfl

namespace Client

variable {c d : Client}

structure Closings (c : Client) : Prop where
  raised : ∀ x ∈ c.calls, 0 < x.stage → c.supervisor.stopped = true
  taken : ∀ x ∈ c.calls, 1 < x.stage → c.supervisor.session.state = .closed
  halted : c.supervisor.session.state = .closed → c.supervisor.stopped = true
  one : c.calls.countP Call.pending ≤ 1
  alone : ∀ x ∈ c.calls, x.pending = true → c.supervisor.recovery.replacing = false
  consumer : ∀ x, .closeConsumer x ∈ c.calls → ∃ k, c.role = .consumer k

omit [Broker β] in
theorem closingsKept (closings : c.Closings)
    (stopped : d.supervisor.stopped = c.supervisor.stopped)
    (closed : d.supervisor.session.state = .closed ↔ c.supervisor.session.state = .closed)
    (settled : c.supervisor.session.state = .closed → c.supervisor.recovery.replacing = false →
      d.supervisor.recovery.replacing = false)
    (calls : d.calls = c.calls)
    (role : ∀ k, c.role = .consumer k → ∃ l, d.role = .consumer l) : d.Closings := by
  refine ⟨fun x mem stage => ?_, fun x mem stage => ?_, fun h => ?_, calls ▸ closings.one,
    fun x mem pending => ?_, fun x mem => ?_⟩
  · rw [stopped]; exact closings.raised x (calls ▸ mem) stage
  · exact closed.mpr (closings.taken x (calls ▸ mem) stage)
  · rw [stopped]; exact closings.halted (closed.mp h)
  · rw [calls] at mem
    exact settled (closings.taken x mem (Call.pendingStage pending)) (closings.alone x mem pending)
  · obtain ⟨k, consumer⟩ := closings.consumer x (calls ▸ mem)
    exact role k consumer

theorem closingsCall {i : Nat} {x y : Call} (closings : c.Closings) (here : c.calls[i]? = some x)
    (calls : d.calls = c.calls.set i y)
    (stopped : c.supervisor.stopped = true → d.supervisor.stopped = true)
    (closed : c.supervisor.session.state = .closed → d.supervisor.session.state = .closed)
    (recovery : d.supervisor.recovery = c.supervisor.recovery)
    (halted : d.supervisor.session.state = .closed → d.supervisor.stopped = true)
    (raised : 0 < y.stage → d.supervisor.stopped = true)
    (taken : 1 < y.stage → d.supervisor.session.state = .closed)
    (pending : y.pending = true → x.pending = true ∨
      (∀ z ∈ c.calls, z.pending = false) ∧ c.supervisor.recovery.replacing = false)
    (role : ∀ k, c.role = .consumer k → ∃ l, d.role = .consumer l)
    (consumer : ∀ z, y = .closeConsumer z → ∃ l, d.role = .consumer l) : d.Closings := by
  have source {z : Call} (mem : z ∈ d.calls) : z = y ∨ z ∈ c.calls := by
    rw [calls] at mem
    exact (memSet here mem).imp_right fun ⟨_, _, there⟩ => List.mem_of_getElem? there
  refine ⟨fun z mem far => ?_, fun z mem far => ?_, halted, ?_, fun z mem owes => ?_,
    fun z mem => ?_⟩
  · rcases source mem with rfl | old
    · exact raised far
    · exact stopped (closings.raised z old far)
  · rcases source mem with rfl | old
    · exact taken far
    · exact closed (closings.taken z old far)
  · have replaced := countSet (p := Call.pending) (y := y) here
    have one := closings.one
    rw [calls]
    by_cases owes : y.pending = true
    · rcases pending owes with before | ⟨none, -⟩
      · rw [if_pos before, if_pos owes] at replaced
        omega
      · have zero : c.calls.countP Call.pending = 0 :=
          List.countP_eq_zero.mpr fun z mem => by rw [none z mem]; nofun
        rw [zero, if_pos owes] at replaced
        omega
    · rw [if_neg owes] at replaced
      omega
  · rw [recovery]
    rcases source mem with rfl | old
    · exact (pending owes).elim (closings.alone x (List.mem_of_getElem? here)) And.right
    · exact closings.alone z old owes
  · rcases source mem with same | old
    · exact consumer z same.symm
    · obtain ⟨k, was⟩ := closings.consumer z old
      exact role k was

theorem closingsIdle {i : Nat} {x y : Call} (closings : c.Closings) (here : c.calls[i]? = some x)
    (calls : d.calls = c.calls.set i y) (supervisor : d.supervisor = c.supervisor)
    (early : y.stage = 0) (role : ∀ k, c.role = .consumer k → ∃ l, d.role = .consumer l)
    (consumer : ∀ z, y = .closeConsumer z → ∃ l, d.role = .consumer l) : d.Closings := by
  refine closingsCall closings here calls ?_ ?_ ?_ ?_ ?_ ?_ ?_ role consumer
  · rw [supervisor]; exact id
  · rw [supervisor]; exact id
  · rw [supervisor]
  · rw [supervisor]; exact closings.halted
  · intro far; omega
  · intro far; omega
  · intro owes
    have far := Call.pendingStage owes
    omega

theorem unowedConnected (coherent : c.supervisor.Coherent) (closings : c.Closings)
    (full : c.supervisor.session.held.pending = true) :
    (∀ z ∈ c.calls, z.pending = false) ∧ c.supervisor.recovery.replacing = false := by
  have connected : c.supervisor.session.state = .connected := by
    by_cases here : c.supervisor.session.state = .connected
    · exact here
    · rw [Supervisor.heldSession coherent here] at full
      cases full
  refine ⟨fun z mem => Bool.eq_false_iff.mpr fun owes => ?_,
    Bool.eq_false_iff.mpr fun lost => coherent.replacing lost connected⟩
  have closed := closings.taken z mem (Call.pendingStage owes)
  rw [connected] at closed
  cases closed

theorem closingsClosing {i : Nat} {x y : Call} {a b : Closing} {t : Supervisor}
    (coherent : c.supervisor.Coherent) (closings : c.Closings) (here : c.calls[i]? = some x)
    (before : x.closing? = some a) (after : y.closing? = some b)
    (move : Supervisor.ClosingMove e c.supervisor a f t b) (supervisor : d.supervisor = t)
    (calls : d.calls = c.calls.set i y)
    (role : ∀ k, c.role = .consumer k → ∃ l, d.role = .consumer l)
    (consumer : ∀ z, y = .closeConsumer z → ∃ l, d.role = .consumer l) : d.Closings := by
  have mem : x ∈ c.calls := List.mem_of_getElem? here
  have far (n : Nat) (further : n < a.stage) : n < x.stage := by
    rw [Call.stageAt before]
    exact further
  have stopped : t.stopped = true := by
    cases move with
    | raise => rfl
    | take => exact closings.raised x mem (far 0 (Nat.lt_succ_self 0))
    | release | released => exact closings.raised x mem (far 0 (Nat.succ_pos 1))
  have taken : 1 < y.stage → t.session.state = .closed := by
    rw [Call.stageAt after]
    cases move with
    | raise => exact fun early => absurd early (Nat.lt_irrefl 1)
    | take => exact fun _ => rfl
    | release | released => exact fun _ => closings.taken x mem (far 1 (Nat.lt_succ_self 1))
  have pending : y.pending = true → x.pending = true ∨
      (∀ z ∈ c.calls, z.pending = false) ∧ c.supervisor.recovery.replacing = false := by
    rw [Call.pending, Call.pending, Call.heldAt before, Call.heldAt after]
    cases move with
    | raise | released => nofun
    | take => exact fun full => .inr (unowedConnected coherent closings full)
    | release move => exact fun _ => .inl (Release.pendingMove move)
  refine closingsCall closings here calls ?_ ?_ ?_ ?_ ?_ ?_ pending role consumer
  all_goals rw [supervisor]
  · exact fun _ => stopped
  · cases move <;> first | exact id | exact fun _ => rfl
  · exact Supervisor.recoveryOfClosing move
  · exact fun _ => stopped
  · exact fun _ => stopped
  · exact taken

theorem closingsMove (coherent : c.supervisor.Coherent) (closings : c.Closings)
    (move : Move e c f d) : d.Closings := by
  have consumes {k l : Consumer} (role : c.role = .consumer k) (become : d.role = .consumer l)
      (supervisor : d.supervisor = c.supervisor) (calls : d.calls = c.calls) : d.Closings := by
    refine closingsKept closings ?_ ?_ ?_ calls fun _ _ => ⟨l, become⟩
    · rw [supervisor]
    · rw [supervisor]
    · rw [supervisor]; exact fun _ => id
  cases move with
  | recovery made =>
    have move := Supervisor.recoveryMove made
    exact closingsKept closings (Supervisor.stoppedOfRecovery move)
      ⟨Supervisor.openOfRecovery move, Supervisor.closedOfRecovery move⟩
      (fun closed => Supervisor.settledOfRecovery move closed) rfl fun k role => ⟨k, role⟩
  | watcher made =>
    obtain ⟨-, move⟩ := Supervisor.watcherMove made
    refine closingsKept closings (Supervisor.stoppedOfWatcher move) ?_ ?_ rfl
      fun k role => ⟨k, role⟩
    · dsimp only; rw [Supervisor.sessionOfWatcher move]
    · cases move <;> exact fun _ => id
  | loop role | worker role | retry role => exact consumes role rfl rfl rfl
  | publish here =>
    exact closingsIdle closings here rfl rfl rfl (fun k role => ⟨k, role⟩) nofun
  | start role here =>
    exact closingsIdle closings here rfl rfl rfl (fun _ _ => ⟨_, rfl⟩) nofun
  | close here made =>
    exact closingsClosing coherent closings here rfl rfl (Supervisor.closingMove made) rfl rfl
      (fun k role => ⟨k, role⟩) nofun
  | closeConsumer role here made =>
    cases Consumer.closeMove made with
    | closing stepped =>
      exact closingsClosing coherent closings here rfl rfl (Supervisor.closingMove stepped) rfl rfl
        (fun _ _ => ⟨_, rfl⟩) fun _ _ => ⟨_, rfl⟩
    | _ =>
      exact closingsIdle closings here rfl rfl rfl (fun _ _ => ⟨_, rfl⟩) fun _ _ => ⟨_, rfl⟩

theorem closingsChange (coherent : c.supervisor.Coherent) (closings : c.Closings)
    (change : Change e c f d) : d.Closings := by
  cases change with
  | same => exact closings
  | step made => exact closingsMove coherent closings (clientMove made)
  | letGo =>
    exact ⟨closings.raised, closings.taken, closings.halted, closings.one, closings.alone,
      closings.consumer⟩
  | @call x held opens =>
    have early : x.stage = 0 := by
      unfold Call.Opens at opens
      split at opens <;> first | rfl | contradiction
    have idle : x.pending = false := Bool.eq_false_iff.mpr fun owes => by
      have far := Call.pendingStage owes
      omega
    have split {z : Call} (mem : z ∈ c.calls ++ [x]) : z ∈ c.calls ∨ z = x :=
      (List.mem_append.mp mem).imp_right List.mem_singleton.mp
    refine ⟨fun z mem far => ?_, fun z mem far => ?_, closings.halted, ?_, fun z mem owes => ?_,
      fun z mem => ?_⟩
    · rcases split mem with old | rfl
      · exact closings.raised z old far
      · omega
    · rcases split mem with old | rfl
      · exact closings.taken z old far
      · omega
    · rw [List.countP_append, List.countP_singleton, idle]
      exact closings.one
    · rcases split mem with old | rfl
      · exact closings.alone z old owes
      · rw [idle] at owes
        cases owes
    · rcases split mem with old | rfl
      · exact closings.consumer z old
      · unfold Call.Opens at opens
        split at opens <;> first | contradiction | exact ⟨_, by assumption⟩

theorem closingsReachable {outside : β → β → Prop} {w : World β}
    (reached : World.Reachable outside w) {i : Nat} (found : w.clients[i]? = some c) :
    c.supervisor.Coherent ∧ c.Closings := by
  refine World.reachableClient (P := fun _ c => c.supervisor.Coherent ∧ c.Closings)
    (fun _ o l s t => ⟨Supervisor.coherentStart _ _ _ l s t, ?_⟩)
    (fun e c f d change ⟨coherent, closings⟩ => ⟨?_, closingsChange coherent closings change⟩)
    reached found
  · exact ⟨fun _ => nofun, fun _ => nofun, nofun, Nat.zero_le 1, fun _ => nofun, fun _ => nofun⟩
  · exact Supervisor.coherentChange coherent (Supervisor.changeOf change)

end Client

end AmqpClient
