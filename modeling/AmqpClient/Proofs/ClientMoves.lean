import AmqpClient.Client
import AmqpClient.Proofs.Consumer.Moves
import AmqpClient.Proofs.Supervisor.Moves
/-! A step of a client is a step of one of its tasks or calls; what that task does not own stays. -/
namespace AmqpClient.Client

variable {β : Type} [Broker β]

inductive Move (e : Env β) (c : Client) : Env β → Client → Prop where
  | recovery {preferStop f t}
      (made : c.supervisor.recoveryStep c.alive preferStop e = some (f, t)) :
      Move e c f { c with supervisor := t }
  | watcher {i preferStop f t} (made : c.supervisor.watcherStep i preferStop e = some (f, t)) :
      Move e c f { c with supervisor := t }
  | loop {i preferStop k l f} (role : c.role = .consumer k)
      (made : k.loopStep i preferStop c.supervisor e = some (f, l)) :
      Move e c f { c with role := .consumer l }
  | worker {i k l f} (role : c.role = .consumer k) (made : k.workerStep i e = some (f, l)) :
      Move e c f { c with role := .consumer l }
  | retry {i k l f} (role : c.role = .consumer k)
      (made : k.retryStep i c.supervisor e = some (f, l)) :
      Move e c f { c with role := .consumer l }
  | publish {i p q f} (here : c.calls[i]? = some (.publish p))
      (made : p.step c.supervisor e = some (f, q)) : Move e c f (c.setCall i (.publish q))
  | close {i x y f t} (here : c.calls[i]? = some (.close x))
      (made : c.supervisor.closeStep e x = some (f, t, y)) :
      Move e c f ({ c with supervisor := t }.setCall i (.close y))
  | start {i x y k l} (role : c.role = .consumer k) (here : c.calls[i]? = some (.start x))
      (made : k.startStep i c.supervisor x = some (l, y)) :
      Move e c e ({ c with role := .consumer l }.setCall i (.start y))
  | closeConsumer {i x y k l f t} (role : c.role = .consumer k)
      (here : c.calls[i]? = some (.closeConsumer x))
      (made : k.closeStep i e c.supervisor x = some (f, t, l, y)) :
      Move e c f ({ c with supervisor := t, role := .consumer l }.setCall i (.closeConsumer y))

omit [Broker β] in
theorem consumerStepSource {g : Supervisor → Env β → Consumer → Option (Env β × Consumer)}
    {e f : Env β} {c d : Client} (h : c.consumerStep g e = some (f, d)) :
    ∃ k l, c.role = .consumer k ∧ g c.supervisor e k = some (f, l) ∧
      d = { c with role := .consumer l } := by
  unfold consumerStep at h
  split at h
  · rename_i k role
    obtain ⟨⟨f', l⟩, made, same⟩ := Option.map_eq_some_iff.mp h
    cases same
    exact ⟨k, l, role, made, rfl⟩
  · contradiction

theorem callMove {i : Nat} {e f : Env β} {c d : Client} (h : c.callStep i e = some (f, d)) :
    Move e c f d := by
  unfold callStep at h
  split at h
  case h_1 p here =>
    obtain ⟨⟨f', q⟩, made, same⟩ := Option.map_eq_some_iff.mp h
    cases same
    exact .publish here made
  case h_2 x here =>
    obtain ⟨⟨f', t, y⟩, made, same⟩ := Option.map_eq_some_iff.mp h
    cases same
    exact .close here made
  case h_3 x k here role =>
    obtain ⟨⟨l, y⟩, made, same⟩ := Option.map_eq_some_iff.mp h
    cases same
    exact .start role here made
  case h_4 x k here role =>
    obtain ⟨⟨f', t, l, y⟩, made, same⟩ := Option.map_eq_some_iff.mp h
    cases same
    exact .closeConsumer role here made
  case h_5 => contradiction

theorem clientMove {a : Activity} {preferStop : Bool} {e f : Env β} {c d : Client}
    (h : c.step a preferStop e = some (f, d)) : Move e c f d := by
  cases a with
  | recovery =>
    obtain ⟨⟨f', t⟩, made, same⟩ := Option.map_eq_some_iff.mp h
    cases same
    exact .recovery made
  | watcher i =>
    obtain ⟨⟨f', t⟩, made, same⟩ := Option.map_eq_some_iff.mp h
    cases same
    exact .watcher made
  | loop i =>
    obtain ⟨k, l, role, made, rfl⟩ := consumerStepSource h
    exact .loop role made
  | worker i =>
    obtain ⟨k, l, role, made, rfl⟩ := consumerStepSource (g := fun _ e k => k.workerStep i e) h
    exact .worker role made
  | retry i =>
    obtain ⟨k, l, role, made, rfl⟩ := consumerStepSource h
    exact .retry role made
  | call i => exact callMove h

theorem publishGoing {s : Supervisor} {e f : Env β} {p q : Publication}
    (made : p.step s e = some (f, q)) : (Call.publish p).result? = none := by
  obtain ⟨message, timeout, phase⟩ := p
  cases phase <;> first | rfl | cases made

theorem closeGoing {s t : Supervisor} {e f : Env β} {x y : Closing}
    (made : s.closeStep e x = some (f, t, y)) : (Call.close x).result? = none := by
  cases Supervisor.closingMove made <;> rfl

theorem startGoing {i : Nat} {s : Supervisor} {k l : Consumer} {x y : Consumer.Starting}
    (made : k.startStep i s x = some (l, y)) : (Call.start x).result? = none := by
  cases x <;> first | rfl | cases made

theorem closeConsumerGoing {i : Nat} {s t : Supervisor} {e f : Env β} {k l : Consumer}
    {x y : Consumer.ConsumerClosing} (made : k.closeStep i e s x = some (f, t, l, y)) :
    (Call.closeConsumer x).result? = none := by
  cases Consumer.closeMove made with
  | closing stepped => cases Supervisor.closingMove stepped <;> rfl
  | _ => rfl

theorem callGoing {i : Nat} {e f : Env β} {c d : Client} (h : c.callStep i e = some (f, d)) :
    ∃ x, c.calls[i]? = some x ∧ x.result? = none := by
  unfold callStep at h
  split at h
  case h_1 p here =>
    obtain ⟨_, made, -⟩ := Option.map_eq_some_iff.mp h
    exact ⟨_, here, publishGoing made⟩
  case h_2 x here =>
    obtain ⟨_, made, -⟩ := Option.map_eq_some_iff.mp h
    exact ⟨_, here, closeGoing made⟩
  case h_3 x k here role =>
    obtain ⟨_, made, -⟩ := Option.map_eq_some_iff.mp h
    exact ⟨_, here, startGoing made⟩
  case h_4 x k here role =>
    obtain ⟨_, made, -⟩ := Option.map_eq_some_iff.mp h
    exact ⟨_, here, closeConsumerGoing made⟩
  case h_5 => contradiction

inductive LoopFrom (e : Env β) (s : Supervisor) (k : Consumer) (f : Env β) (m : Consumer) (j : Nat)
    (l : Consumer.Loop) : Prop where
  | kept (before : k.loops[j]? = some l)
  | spawned (fresh : l = { seen := s.announced, generation := s.session.generation })
  | moved {was} (before : k.loops[j]? = some was) (move : Consumer.LoopMove j s e k was f m)

theorem loopFrom {e f : Env β} {c d : Client} (move : Move e c f d) {m : Consumer}
    (role : d.role = .consumer m) : ∃ k, c.role = .consumer k ∧ m.options = k.options ∧
      ∀ j l, m.loops[j]? = some l → LoopFrom e c.supervisor k f m j l := by
  cases move with
  | recovery | watcher | publish | close => exact ⟨m, role, rfl, fun _ _ => .kept⟩
  | worker was made =>
    cases role
    obtain ⟨x, -, move⟩ := Consumer.workerMove made
    refine ⟨_, was, by cases move <;> rfl, fun j l there => .kept ?_⟩
    rw [← Consumer.loopsOfWorker move]
    exact there
  | retry was made =>
    cases role
    obtain ⟨r, q, -, -, rfl⟩ := Consumer.retryStepSource made
    exact ⟨_, was, rfl, fun j l there => .kept there⟩
  | closeConsumer was here made =>
    cases role
    have move := Consumer.closeMove made
    refine ⟨_, was, by cases move <;> rfl, fun j l there => .kept ?_⟩
    rw [← Consumer.loopsOfClose move]
    exact there
  | start was here made =>
    cases role
    refine ⟨_, was, Consumer.optionsOfStart made, fun j l there => ?_⟩
    rcases Consumer.loopsOfStart made with none | one
    · exact .kept (none ▸ there)
    · rw [one, List.getElem?_append] at there
      split at there
      · exact .kept there
      · exact .spawned (List.mem_singleton.mp (List.mem_of_getElem? there))
  | @loop i preferStop k m g was made =>
    cases role
    obtain ⟨x, found, move⟩ := Consumer.loopMove made
    refine ⟨k, was, (Consumer.loopFrame move).options, fun j l there => ?_⟩
    by_cases mine : i = j
    · exact mine ▸ .moved found move
    · obtain ⟨y, loops⟩ := Consumer.loopsOfLoop move
      rw [loops, List.getElem?_set_ne mine] at there
      exact .kept there

omit [Broker β] in
theorem memRunning {α : Type} {ended : α → Bool} {tasks : List α} {i : Nat} {x : α}
    (found : tasks[i]? = some x) (going : ended x = false) : i ∈ running ended tasks := by
  refine List.mem_filterMap.mpr ⟨(x, i), List.mem_zipIdx_iff_getElem?.mpr found, ?_⟩
  dsimp only
  rw [going]
  rfl

omit [Broker β] in
theorem consumerOf {c : Client} {k : Consumer} (role : c.role = .consumer k) :
    c.consumer? = some k := by
  unfold consumer?
  rw [role]

theorem activityOf {a : Activity} {preferStop : Bool} {e f : Env β} {c d : Client}
    (h : c.step a preferStop e = some (f, d)) : a ∈ c.activities := by
  unfold activities
  cases a with
  | recovery => exact List.mem_append_right _ (List.mem_singleton.mpr rfl)
  | watcher i =>
    obtain ⟨⟨g, t⟩, made, -⟩ := Option.map_eq_some_iff.mp h
    refine List.mem_append_left _ (List.mem_append_right _ (List.mem_map_of_mem ?_))
    cases (Supervisor.watcherMove made).2 with
    | report found here | quit found here => exact memRunning found (by rw [here]; rfl)
  | loop i =>
    obtain ⟨k, _, role, made, -⟩ := consumerStepSource h
    obtain ⟨l, found, move⟩ := Consumer.loopMove made
    refine List.mem_append_left _ (List.mem_append_left _ (List.mem_append_right _ ?_))
    rw [consumerOf role]
    exact List.mem_append_left _ (List.mem_append_left _
      (List.mem_map_of_mem (memRunning found (Consumer.loopUnfinished move))))
  | worker i =>
    obtain ⟨k, _, role, made, -⟩ := consumerStepSource (g := fun _ e k => k.workerStep i e) h
    obtain ⟨y, found, move⟩ := Consumer.workerMove made
    refine List.mem_append_left _ (List.mem_append_left _ (List.mem_append_right _ ?_))
    rw [consumerOf role]
    exact List.mem_append_left _ (List.mem_append_right _
      (List.mem_map_of_mem (memRunning found (Consumer.workerUnfinished move))))
  | retry i =>
    obtain ⟨k, _, role, made, -⟩ := consumerStepSource h
    obtain ⟨r, q, found, move, -⟩ := Consumer.retryStepSource made
    refine List.mem_append_left _ (List.mem_append_left _ (List.mem_append_right _ ?_))
    rw [consumerOf role]
    exact List.mem_append_right _
      (List.mem_map_of_mem (memRunning found (Consumer.retryUnfinished move)))
  | call i =>
    obtain ⟨x, found, going⟩ := callGoing h
    refine List.mem_append_left _ (List.mem_append_left _ (List.mem_append_left _ ?_))
    exact List.mem_map_of_mem (memRunning found (by rw [going]; rfl))

theorem topologyOfMove {e f : Env β} {c d : Client} (move : Move e c f d) :
    d.supervisor.topology = c.supervisor.topology := by
  cases move with
  | recovery made => exact Supervisor.topologyOfRecovery (Supervisor.recoveryMove made)
  | watcher made => exact Supervisor.topologyOfWatcher (Supervisor.watcherMove made).2
  | close _ made => cases Supervisor.closingMove made <;> rfl
  | closeConsumer _ _ made =>
    cases Consumer.closeMove made with
    | closing stepped => cases Supervisor.closingMove stepped <;> rfl
    | _ => rfl
  | _ => rfl

theorem delayOfMove {e f : Env β} {c d : Client} (move : Move e c f d) :
    d.supervisor.reconnectDelay = c.supervisor.reconnectDelay := by
  cases move with
  | recovery made => exact Supervisor.delayOfRecovery (Supervisor.recoveryMove made)
  | watcher made => exact Supervisor.delayOfWatcher (Supervisor.watcherMove made).2
  | close _ made => cases Supervisor.closingMove made <;> rfl
  | closeConsumer _ _ made =>
    cases Consumer.closeMove made with
    | closing stepped => cases Supervisor.closingMove stepped <;> rfl
    | _ => rfl
  | _ => rfl

end AmqpClient.Client
