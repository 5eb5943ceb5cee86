import AmqpClient.Proofs.Answers
import AmqpClient.Proofs.Consumer.Retirement
/-! What one client writes into the journal in the course of a run; and a consumer of which nothing
is left: it publishes nothing more, and a call that closes it once more changes nothing. -/
namespace AmqpClient

variable {β : Type}

def published (notes : List Entry) : List Entry :=
  notes.filter fun a => a.fact.writer = .publisher

theorem publishedAppend (new notes : List Entry) :
    published (new ++ notes) = published new ++ published notes := List.filter_append ..

theorem publishedOther {e f : Env β} {new : List Entry} {writer : Fact.Writer}
    (wrote : f.journal = new ++ e.journal) (grows : e.GrowsBy writer f)
    (other : writer ≠ .publisher) : published new = [] := by
  obtain ⟨more, journal, own⟩ := grows
  cases List.append_cancel_right (wrote.symm.trans journal)
  refine List.filter_eq_nil_iff.mpr fun a mem publishes => other ?_
  rw [← own a mem]
  exact of_decide_eq_true publishes

variable [Broker β]

namespace World

inductive Noted (change : World β → World β → Prop) (i : Nat) (w : World β) :
    List Entry → World β → Prop where
  | start : Noted change i w [] w
  | own {notes new v u a preferStop} (run : Noted change i w notes v)
      (made : v.step (.client i a) preferStop = some u)
      (wrote : u.env.journal = new ++ v.env.journal) : Noted change i w (new ++ notes) u
  | other {notes v u} (run : Noted change i w notes v) (last : change v u)
      (apart : ∀ a preferStop, v.step (.client i a) preferStop ≠ some u) :
      Noted change i w notes u

variable {change : World β → World β → Prop} {i : Nat} {w v u : World β} {notes : List Entry}

theorem runOfNoted (acts : ∀ w v, Acts w v → change w v) (noted : Noted change i w notes v) :
    Run change w v := by
  induction noted with
  | start => exact .refl w
  | own _ made _ ih => exact .next ih (acts _ _ ⟨_, _, made⟩)
  | other _ last _ ih => exact .next ih last

theorem notedOfRun (run : Run change w v) : ∃ notes, Noted change i w notes v := by
  induction run with
  | refl => exact ⟨[], .start⟩
  | @next v u _ last ih =>
    obtain ⟨notes, noted⟩ := ih
    by_cases mine : ∃ a preferStop, v.step (.client i a) preferStop = some u
    · obtain ⟨a, preferStop, made⟩ := mine
      obtain ⟨c, e, d, -, stepped, rfl⟩ := clientStepSource made
      obtain ⟨new, wrote⟩ := Env.growsTrans (Client.growsOfMove (Client.clientMove stepped))
        (Env.growsOfBy (growsRecordEnd i a d e))
      exact ⟨_, noted.own made wrote.symm⟩
    · exact ⟨notes, noted.other last fun a preferStop made => mine ⟨a, preferStop, made⟩⟩

theorem clientWrites {a : Activity} {preferStop : Bool} {c : Client} {new : List Entry}
    (found : w.clients[i]? = some c) (made : w.step (.client i a) preferStop = some v)
    (wrote : v.env.journal = new ++ w.env.journal) :
    ∃ f d mid, c.step a preferStop w.env = some (f, d) ∧
      v = { w with env := recordEnd i a d f, clients := w.clients.set i d } ∧
      f.journal = mid ++ w.env.journal ∧ published new = published mid := by
  obtain ⟨b, f, d, same, stepped, rfl⟩ := clientStepSource made
  cases Option.some.inj (found.symm.trans same)
  obtain ⟨mid, before⟩ := Client.growsOfMove (Client.clientMove stepped)
  have last := growsRecordEnd i a d f
  obtain ⟨ended, after, -⟩ := id last
  refine ⟨f, d, mid, stepped, rfl, before.symm, ?_⟩
  have parts : new = ended ++ mid := by
    refine List.append_cancel_right (wrote.symm.trans (after.trans ?_))
    rw [← before, List.append_assoc]
  rw [parts, publishedAppend, publishedOther after last nofun, List.nil_append]

end World

def Call.Vain : Call → Prop
  | .start _ => True
  | .closeConsumer (.grace _) => False
  | .closeConsumer (.closing a) => a.Empty
  | .closeConsumer _ => True
  | _ => False

namespace Client

variable {c d : Client} {k m : Consumer} {e f : Env β}

structure Gone (c : Client) (k : Consumer) : Prop extends c.Retired k where
  workers : ∀ x ∈ k.workers, x.phase.finished = true
  retries : ∀ r ∈ k.retries, r.phase.finished = true
  reaped : k.unreaped = []
  vain : ∀ x ∈ c.calls, x.Vain
  coherent : c.supervisor.Coherent
  closed : c.supervisor.session.state = .closed
  halted : c.supervisor.stopped = true

omit [Broker β] in
theorem goneSame (gone : c.Gone k) (retired : d.Retired m) (workers : m.workers = k.workers)
    (retries : m.retries = k.retries) (reaped : m.unreaped = []) (vain : ∀ x ∈ d.calls, x.Vain)
    (supervisor : d.supervisor = c.supervisor) : d.Gone m :=
  ⟨retired, workers ▸ gone.workers, retries ▸ gone.retries, reaped, vain,
    supervisor ▸ gone.coherent, supervisor ▸ gone.closed, supervisor ▸ gone.halted⟩

theorem goneClose {i : Nat} {t : Supervisor} {x y : Consumer.ConsumerClosing} (gone : c.Gone k)
    (here : c.calls[i]? = some (.closeConsumer x)) (move : k.CloseMove i e c.supervisor x f t m y) :
    f = e ∧ t = c.supervisor ∧ (∃ lock, m = { k with lock }) ∧ (Call.closeConsumer y).Vain := by
  have vain := gone.vain _ (List.mem_of_getElem? here)
  cases move with
  | lock => exact ⟨rfl, rfl, ⟨_, rfl⟩, trivial⟩
  | clear => exact ⟨rfl, rfl, ⟨k.lock, by rw [← gone.idle]⟩, trivial⟩
  | unlock => exact ⟨rfl, rfl, ⟨_, rfl⟩, trivial⟩
  | raise running => exact absurd gone.stopped (Bool.eq_false_iff.mp running)
  | raised => exact ⟨rfl, rfl, ⟨k.lock, rfl⟩, trivial⟩
  | grace => exact vain.elim
  | collect => exact ⟨rfl, rfl, ⟨k.lock, by rw [← gone.reaped]⟩, trivial⟩
  | joined => exact ⟨rfl, rfl, ⟨k.lock, rfl⟩, trivial⟩
  | closing made =>
    obtain ⟨rfl, rfl, empty⟩ := Supervisor.emptyMove gone.coherent gone.closed gone.halted vain
      (Supervisor.closingMove made)
    exact ⟨rfl, rfl, ⟨k.lock, rfl⟩, empty⟩

theorem goneMove (gone : c.Gone k) (role : c.role = .consumer k) (move : Move e c f d) :
    (∃ m, d.role = .consumer m ∧ d.Gone m) ∧ ∃ writer, writer ≠ .publisher ∧ e.GrowsBy writer f := by
  obtain ⟨l, same, retired, -⟩ := retiredMove gone.toRetired (silentSelf gone.toRetired) role move
  have vain {i : Nat} {y : Call} (ends : y.Vain) : ∀ x ∈ c.calls.set i y, x.Vain :=
    allSet gone.vain ends
  cases move with
  | recovery made =>
    cases role.symm.trans same
    have move := Supervisor.recoveryMove made
    exact ⟨⟨k, role, retired, gone.workers, gone.retries, gone.reaped, gone.vain,
      Supervisor.coherentRecovery gone.coherent move, Supervisor.closedOfRecovery move gone.closed,
      (Supervisor.stoppedOfRecovery move).trans gone.halted⟩,
      .link, nofun, Supervisor.growsOfRecovery move⟩
  | watcher made =>
    cases role.symm.trans same
    obtain ⟨rfl, move⟩ := Supervisor.watcherMove made
    exact ⟨⟨k, role, retired, gone.workers, gone.retries, gone.reaped, gone.vain,
      Supervisor.coherentWatcher gone.coherent move,
      (Supervisor.sessionOfWatcher move) ▸ gone.closed,
      (Supervisor.stoppedOfWatcher move).trans gone.halted⟩,
      .link, nofun, Env.growsByRefl _⟩
  | loop was made =>
    cases role.symm.trans was
    obtain ⟨x, found, move⟩ := Consumer.loopMove made
    have ended := gone.loops x (List.mem_of_getElem? found)
    rw [Consumer.loopUnfinished move] at ended
    cases ended
  | worker was made =>
    cases role.symm.trans was
    obtain ⟨x, found, move⟩ := Consumer.workerMove made
    have ended := gone.workers x (List.mem_of_getElem? found)
    rw [Consumer.workerUnfinished move] at ended
    cases ended
  | retry was made =>
    cases role.symm.trans was
    obtain ⟨r, q, found, move, -⟩ := Consumer.retryStepSource made
    have ended := gone.retries r (List.mem_of_getElem? found)
    rw [Consumer.retryUnfinished move] at ended
    cases ended
  | publish here | close here => exact (gone.vain _ (List.mem_of_getElem? here)).elim
  | start was here made =>
    cases role.symm.trans was
    cases same
    obtain ⟨-, -, retries, unreaped, workers⟩ := Consumer.startFrame made
    exact ⟨⟨l, rfl, goneSame gone retired workers retries (unreaped.trans gone.reaped)
      (vain trivial) rfl⟩, .link, nofun, Env.growsByRefl e⟩
  | closeConsumer was here made =>
    cases role.symm.trans was
    cases same
    obtain ⟨rfl, rfl, ⟨lock, rfl⟩, ends⟩ := goneClose gone here (Consumer.closeMove made)
    exact ⟨⟨_, rfl, goneSame gone retired rfl rfl gone.reaped (vain ends) rfl⟩,
      .link, nofun, Env.growsByRefl _⟩

theorem goneChange (gone : c.Gone k) (role : c.role = .consumer k) (change : Change e c f d) :
    ∃ m, d.role = .consumer m ∧ d.Gone m := by
  obtain ⟨l, same, retired, -⟩ :=
    retiredChange gone.toRetired (silentSelf gone.toRetired) role change
  cases change with
  | same => exact ⟨k, role, gone⟩
  | step made => exact (goneMove gone role (clientMove made)).1
  | letGo =>
    cases role.symm.trans same
    exact ⟨k, role, goneSame gone retired rfl rfl gone.reaped gone.vain rfl⟩
  | call held opens =>
    cases role.symm.trans same
    rw [role] at opens
    refine ⟨k, role, goneSame gone retired rfl rfl gone.reaped (allMore gone.vain ?_) rfl⟩
    rcases Call.opensConsumer opens with rfl | rfl <;> trivial

omit [Broker β] in
theorem retriesFinished {tasks : List Nat} (finished : ∀ r ∈ k.retries, r.phase.finished = true) :
    tasks.all k.retryFinished = true := by
  refine List.all_eq_true.mpr fun n _ => ?_
  unfold Consumer.retryFinished
  cases found : k.retries[n]? with
  | none => rfl
  | some r => exact finished r (List.mem_of_getElem? found)

theorem goneReturned {i : Nat} {x : Consumer.ConsumerClosing} (gone : c.Gone k)
    (role : c.role = .consumer k) (locked : c.Locked k)
    (here : c.calls[i]? = some (.closeConsumer x)) (still : ∀ a, c.step a false e = none) :
    x = .closing (.done (.ok ())) := by
  have vain := gone.vain _ (List.mem_of_getElem? here)
  have stuck := still (.call i)
  simp only [step, callStep, here, role, Option.map_eq_none_iff] at stuck
  cases x with
  | locking =>
    simp only [Consumer.closeStep, unlockedStill locked role still] at stuck
    cases stuck
  | clearing | unlocking | collecting => cases stuck
  | raising =>
    simp only [Consumer.closeStep, gone.stopped] at stuck
    cases stuck
  | grace => exact vain.elim
  | joining tasks =>
    simp only [Consumer.closeStep, retriesFinished gone.retries, if_true] at stuck
    cases stuck
  | closing a =>
    have stuck := Option.map_eq_none_iff.mp stuck
    cases a with
    | done o => cases (show o = .ok () from vain); rfl
    | raising | taking => cases stuck
    | releasing r =>
      unfold Supervisor.closeStep at stuck
      dsimp only at stuck
      split at stuck <;> cases stuck

end Client

namespace World

variable {outside : β → β → Prop} {i : Nat} {w v u : World β} {c : Client} {k : Consumer}
  {notes : List Entry}

structure Idles (i j : Nat) (c : Client) (k : Consumer) (w v : World β) : Prop where
  openings : v.openings = w.openings
  clients : ∃ lock y, v.clients = w.clients.set i
    { c with role := .consumer { k with lock }, calls := c.calls.set j y }
  env : v.env = w.env ∨ v.env = w.env.record (.ended i j (.ok ()))

theorem goneIdles {j : Nat} {x : Consumer.ConsumerClosing} {preferStop : Bool}
    (found : w.clients[i]? = some c) (role : c.role = .consumer k) (gone : c.Gone k)
    (here : c.calls[j]? = some (.closeConsumer x))
    (made : w.step (.client i (.call j)) preferStop = some v) : Idles i j c k w v := by
  obtain ⟨b, f, d, same, stepped, rfl⟩ := clientStepSource made
  cases Option.some.inj (found.symm.trans same)
  simp only [Client.step, Client.callStep, here, role] at stepped
  obtain ⟨⟨g, t, m, y⟩, closed, same⟩ := Option.map_eq_some_iff.mp stepped
  cases same
  obtain ⟨rfl, rfl, ⟨lock, rfl⟩, vain⟩ := Client.goneClose gone here (Consumer.closeMove closed)
  have count : j < c.calls.length := (List.getElem?_eq_some_iff.mp here).1
  refine ⟨rfl, ⟨lock, _, rfl⟩, ?_⟩
  unfold recordEnd Client.setCall
  dsimp only
  rw [List.getElem?_set_self count]
  cases y with
  | closing a =>
    cases a with
    | done o => cases (show o = .ok () from vain); exact .inr rfl
    | _ => exact .inl rfl
  | _ => exact .inl rfl

theorem goneRun (found : w.clients[i]? = some c) (role : c.role = .consumer k) (gone : c.Gone k)
    (run : Noted (Use outside) i w notes v) : published notes = [] ∧
      ∃ d m, v.clients[i]? = some d ∧ d.role = .consumer m ∧ d.Gone m := by
  induction run with
  | start => exact ⟨rfl, c, k, found, role, gone⟩
  | own _ made wrote ih =>
    obtain ⟨none, b, l, before, was, gone⟩ := ih
    obtain ⟨f, d, mid, stepped, rfl, middle, publishes⟩ := clientWrites before made wrote
    obtain ⟨⟨m, same, still⟩, writer, other, grows⟩ :=
      Client.goneMove gone was (Client.clientMove stepped)
    refine ⟨?_, d, m, List.getElem?_set_self (List.getElem?_eq_some_iff.mp before).1, same, still⟩
    rw [publishedAppend, none, publishes, publishedOther middle grows other]
    rfl
  | other _ last _ ih =>
    obtain ⟨none, b, l, before, was, gone⟩ := ih
    obtain ⟨d, there⟩ := useKeeps last before
    obtain ⟨m, same, still⟩ := Client.goneChange gone was (useSame last before there)
    exact ⟨none, d, m, there, same, still⟩

end World

end AmqpClient
