import AmqpClient.Proofs.Course
/-! What the journal says of a link: it came back from one dial, and every declaration of the
topology was made on its channel before a session showed it. -/
namespace AmqpClient

open scoped List

variable {β : Type} {e f : Env β} {client : String} {t : Topology} {l : Link}
  {done : List Declaration}

namespace Env

def facts (e : Env β) : List Fact := e.journal.map Entry.fact

def Made (client : String) (done : List Declaration) (l : Link) (e : Env β) : Prop :=
  ∃ number, (done.map fun d => Fact.declared l.channel d (.ok ())).reverse ++
    [.dialed client number (.ok l)] <+ e.facts

theorem factsGrow (grows : e.Grows f) : e.facts <+ f.facts := (grows.sublist).map _

theorem madeGrows (grows : e.Grows f) (made : e.Made client done l) : f.Made client done l := by
  obtain ⟨number, part⟩ := made
  exact ⟨number, part.trans (factsGrow grows)⟩

end Env

variable [Broker β]

theorem Env.madeDialed {number : Nat} (answer : e.dial client number = (f, .ok l)) :
    f.Made client [] l := by
  have noted : f.facts = .dialed client number (.ok l) :: e.facts := by
    rw [← (Prod.mk.inj answer).1, ← (Prod.mk.inj answer).2]
    rfl
  refine ⟨number, ?_⟩
  rw [noted]
  exact .cons_cons _ (List.nil_sublist _)

theorem Env.madeDeclared {d : Declaration} (made : e.Made client done l)
    (answer : e.declare l.channel d = (f, .ok ())) : f.Made client (done ++ [d]) l := by
  have noted : f.facts = .declared l.channel d (.ok ()) :: e.facts := by
    rw [← (Prod.mk.inj answer).1, ← (Prod.mk.inj answer).2]
    rfl
  obtain ⟨number, part⟩ := made
  refine ⟨number, ?_⟩
  rw [noted, List.map_append, List.reverse_append]
  exact .cons_cons _ part

namespace Establish

variable {x y : Establish}

def Recorded (client : String) (t : Topology) (e : Env β) : Establish → Prop
  | .installing l rest => ∃ done, t.plan = done ++ rest ∧ e.Made client done l
  | .watchingConnection l => e.Made client t.plan l
  | .watchingChannel l _ => e.Made client t.plan l
  | .ready l _ _ => e.Made client t.plan l
  | _ => True

omit [Broker β] in
theorem recordedGrows (grows : e.Grows f) (recorded : x.Recorded client t e) :
    x.Recorded client t f := by
  cases x with
  | installing l rest =>
    obtain ⟨done, plan, made⟩ := recorded
    exact ⟨done, plan, Env.madeGrows grows made⟩
  | watchingConnection | watchingChannel | ready => exact Env.madeGrows grows recorded
  | _ => trivial

theorem recordedMove (move : Move client t e x f y) (recorded : x.Recorded client t e) :
    y.Recorded client t f := by
  cases move with
  | dialed due answer => exact ⟨[], rfl, Env.madeDialed answer⟩
  | installed =>
    obtain ⟨done, plan, made⟩ := recorded
    rw [List.append_nil] at plan
    subst plan
    exact made
  | @declared l d rest f answer =>
    obtain ⟨done, plan, made⟩ := recorded
    refine ⟨done ++ [d], ?_, Env.madeDeclared made answer⟩
    rw [plan, List.append_assoc, List.singleton_append]
  | watchConnection | watchChannel => exact recorded
  | _ => trivial

end Establish

namespace Supervisor

variable {s u : Supervisor}

structure Recorded (e : Env β) (s : Supervisor) : Prop where
  establishing : ∀ x, s.recovery = .establishing x → x.Recorded s.client s.topology e
  session : ∀ n m, s.session.connection = some n → s.session.channel = some m →
    e.Made s.client s.topology.plan ⟨n, m⟩

omit [Broker β] in
theorem recordedKept (grows : e.Grows f) (recorded : s.Recorded e) (client : u.client = s.client)
    (topology : u.topology = s.topology)
    (connection : ∀ n, u.session.connection = some n → s.session.connection = some n)
    (channel : ∀ n, u.session.channel = some n → s.session.channel = some n)
    (recovery : ∀ x, u.recovery = .establishing x →
      s.recovery = .establishing x ∨ x.Recorded s.client s.topology f) : u.Recorded f := by
  refine ⟨fun x here => ?_, fun n m first second => ?_⟩
  · rw [client, topology]
    rcases recovery x here with old | new
    · exact Establish.recordedGrows grows (recorded.establishing x old)
    · exact new
  · rw [client, topology]
    exact Env.madeGrows grows (recorded.session n m (connection n first) (channel m second))

theorem recordedRecovery {alive : Bool} (recorded : s.Recorded e)
    (move : RecoveryMove alive e s f u) : u.Recorded f := by
  have grows : e.Grows f := Env.growsOfBy (growsOfRecovery move)
  cases move with
  | handle here =>
    unfold handle
    split
    · exact recordedKept grows recorded rfl rfl nofun nofun fun _ => nofun
    · exact recordedKept grows recorded rfl rfl (fun _ => id) (fun _ => id) fun _ => .inl
  | @adopt l c h here =>
    unfold adopt
    split
    · exact recordedKept grows recorded rfl rfl (fun _ => id) (fun _ => id) fun _ => nofun
    · refine ⟨fun _ => nofun, fun n m first second => ?_⟩
      cases first
      cases second
      exact recorded.establishing _ here
  | dial here =>
    refine recordedKept grows recorded rfl rfl (fun _ => id) (fun _ => id) fun x there => ?_
    cases there
    exact .inr trivial
  | establish here move =>
    refine recordedKept grows recorded rfl rfl (fun _ => id) (fun _ => id) fun x there => ?_
    cases there
    exact .inr (Establish.recordedMove move (recorded.establishing _ here))
  | _ => exact recordedKept grows recorded rfl rfl (fun _ => id) (fun _ => id) fun _ => nofun

theorem recordedChange (recorded : s.Recorded e) (change : Change e s f u) : u.Recorded f := by
  have same {g : Env β} (grows : e.Grows g) : s.Recorded g :=
    recordedKept grows recorded rfl rfl (fun _ => id) (fun _ => id) fun _ => .inl
  cases change with
  | same grows => exact same grows
  | recovery move grows =>
    exact recordedKept grows (recordedRecovery recorded move) rfl rfl (fun _ => id) (fun _ => id)
      fun _ => .inl
  | watcher move grows =>
    cases move <;> exact recordedKept grows recorded rfl rfl (fun _ => id) (fun _ => id) fun _ => .inl
  | closing move grows =>
    have grows := Env.growsTrans (Env.growsOfBy (growsOfClosing move)) grows
    cases move with
    | take => exact recordedKept grows recorded rfl rfl nofun nofun fun _ => .inl
    | raise | release | released =>
      exact recordedKept grows recorded rfl rfl (fun _ => id) (fun _ => id) fun _ => .inl

theorem recordedReachable {outside : β → β → Prop} {w : World β}
    (reached : World.Reachable outside w) {i : Nat} {c : Client} (found : w.clients[i]? = some c) :
    c.supervisor.Recorded w.env := by
  obtain ⟨start, fresh, run⟩ := reached
  obtain ⟨changes, course⟩ := World.runCourse run
  refine World.courseClient (P := fun _ _ e c => c.supervisor.Recorded e) ?_ ?_ fresh course found
  · intro changes w v i o l c h before mem ready same
    have made : Establish.Recorded o.client o.plan.topology w.env (.ready l c h) :=
      World.reachableLinks (X := fun client t e x => x.Recorded client t e) (fun _ _ _ => trivial)
        (fun _ _ _ _ _ grows => Establish.recordedGrows grows)
        (fun _ _ _ _ _ _ move => Establish.recordedMove move)
        (World.courseReachable fresh before) mem ready
    refine ⟨fun _ => nofun, fun n m first second => ?_⟩
    cases first
    cases second
    rw [same]
    exact made
  · intro changes w v i c d _ _ _ change recorded
    exact recordedChange recorded (changeOf change)

end Supervisor

end AmqpClient
