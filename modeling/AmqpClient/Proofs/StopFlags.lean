import AmqpClient.Shutdown
import Mathlib.Data.List.Induction
/-! What the handles on stop flags answer. A flag is up from the first time that anybody raises it
through any of its handles; that request alone is answered by true, and everyone who waits for the
flag is let go from then on. -/
namespace AmqpClient.Shutdown

def Board.flagOf (b : Board) (on : Nat) : Nat := (b.handles[on % b.handles.length]?).getD 0

def Board.Up (b : Board) (flag : Nat) : Prop := b.flags[flag]? = some true

def after (steps : List (Request × Nat)) : Board :=
  steps.foldl (fun b x => (b.act x.1 x.2).1) Board.start

def Raised (steps : List (Request × Nat)) (flag : Nat) : Prop :=
  ∃ early on late, steps = early ++ (.trigger, on) :: late ∧ (after early).flagOf on = flag

structure Board.Sound (b : Board) : Prop where
  some : 0 < b.handles.length
  inside : ∀ h ∈ b.handles, h < b.flags.length

variable {b : Board} {steps : List (Request × Nat)}

theorem afterNext (steps : List (Request × Nat)) (r : Request) (on : Nat) :
    after (steps ++ [(r, on)]) = ((after steps).act r on).1 := by
  rw [after, List.foldl_append]
  rfl

theorem runNext (steps : List (Request × Nat)) (r : Request) (on : Nat) :
    Board.start.run (steps ++ [(r, on)]) =
      Board.start.run steps ++ [((after steps).act r on).2] := by
  have onward (b : Board) : b.run (steps ++ [(r, on)]) =
      b.run steps ++ [((steps.foldl (fun b x => (b.act x.1 x.2).1) b).act r on).2] := by
    induction steps generalizing b with
    | nil => rfl
    | cons x rest ih => exact congrArg ((b.act x.1 x.2).2 :: ·) (ih (b.act x.1 x.2).1)
  exact onward Board.start

theorem soundFlag (sound : b.Sound) (on : Nat) :
    b.handles[on % b.handles.length]? = some (b.flagOf on) ∧ b.flagOf on < b.flags.length := by
  have inside : on % b.handles.length < b.handles.length := Nat.mod_lt _ sound.some
  have found := List.getElem?_eq_getElem inside
  unfold Board.flagOf
  rw [found, Option.getD_some]
  exact ⟨rfl, sound.inside _ (List.getElem_mem inside)⟩

theorem soundAct (sound : b.Sound) (r : Request) (on : Nat) : (b.act r on).1.Sound := by
  cases r with
  | trigger => exact ⟨sound.some, fun h mem => (List.length_set ..).symm ▸ sound.inside h mem⟩
  | isTriggered | wait => exact sound
  | clone =>
    refine ⟨by simp [Board.act], fun h mem => ?_⟩
    rcases List.mem_append.mp mem with old | new
    · exact sound.inside h old
    · exact List.mem_singleton.mp new ▸ (soundFlag sound on).2
  | create =>
    refine ⟨by simp [Board.act], fun h mem => ?_⟩
    rw [Board.act, List.length_append]
    rcases List.mem_append.mp mem with old | new
    · exact Nat.lt_add_right _ (sound.inside h old)
    · exact List.mem_singleton.mp new ▸ Nat.lt_succ_self _

theorem soundAfter (steps : List (Request × Nat)) : (after steps).Sound := by
  induction steps using List.reverseRecOn with
  | nil => exact ⟨Nat.zero_lt_one, by decide⟩
  | append_singleton steps x ih => exact afterNext steps x.1 x.2 ▸ soundAct ih x.1 x.2

theorem upAct (sound : b.Sound) (r : Request) (on flag : Nat) :
    (b.act r on).1.Up flag ↔ b.Up flag ∨ (r = .trigger ∧ b.flagOf on = flag) := by
  cases r with
  | trigger =>
    change (b.flags.set (b.flagOf on) true)[flag]? = some true ↔ _
    by_cases here : b.flagOf on = flag
    · rw [here, List.getElem?_set_self (here ▸ (soundFlag sound on).2)]
      exact iff_of_true rfl (.inr ⟨rfl, rfl⟩)
    · rw [List.getElem?_set_ne here]
      exact (or_iff_left fun mine => here mine.2).symm
  | isTriggered | wait | clone => exact (or_iff_left fun other => nomatch other.1).symm
  | create =>
    refine Iff.trans ?_ (or_iff_left fun other => nomatch other.1).symm
    change (b.flags ++ [false])[flag]? = some true ↔ b.flags[flag]? = some true
    rw [List.getElem?_append]
    split
    · exact Iff.rfl
    · -- a flag that is new is down
      rename_i beyond
      rw [List.getElem?_eq_none (Nat.le_of_not_lt beyond)]
      refine iff_of_false (fun up => ?_) nofun
      cases List.mem_singleton.mp (List.mem_of_getElem? up)

theorem upRaised (steps : List (Request × Nat)) (flag : Nat) :
    (after steps).Up flag ↔ Raised steps flag := by
  induction steps using List.reverseRecOn with
  | nil =>
    refine iff_of_false (fun up => ?_) fun raised => ?_
    · cases List.mem_singleton.mp (List.mem_of_getElem? up)
    · obtain ⟨early, on, late, none, -⟩ := raised
      exact List.append_ne_nil_of_right_ne_nil early (List.cons_ne_nil _ late) none.symm
  | append_singleton steps x ih =>
    obtain ⟨r, on⟩ := x
    rw [afterNext, upAct (soundAfter steps), ih]
    constructor
    · rintro (⟨early, first, late, rfl, same⟩ | ⟨rfl, same⟩)
      · exact ⟨early, first, late ++ [(r, on)], by simp, same⟩
      · exact ⟨steps, on, [], rfl, same⟩
    · rintro ⟨early, other, late, split, same⟩
      rcases List.eq_nil_or_concat late with rfl | ⟨late, y, rfl⟩
      · obtain ⟨rfl, last⟩ := List.append_inj' split rfl
        cases last
        exact .inr ⟨rfl, same⟩
      · have split : steps ++ [(r, on)] = (early ++ (.trigger, other) :: late) ++ [y] := by
          rw [split]
          simp
        exact .inl ⟨early, other, late, (List.append_inj' split rfl).1, same⟩

structure Told (steps : List (Request × Nat)) (on : Nat) : Prop where
  last : ∀ r, Board.start.run (steps ++ [(r, on)]) =
    Board.start.run steps ++ [((after steps).act r on).2]
  trigger : ((after steps).act .trigger on).2 = .flag true ↔
    ¬ Raised steps ((after steps).flagOf on)
  isTriggered : ((after steps).act .isTriggered on).2 = .flag true ↔
    Raised steps ((after steps).flagOf on)
  wait : ((after steps).act .wait on).2 = .flag true ↔ Raised steps ((after steps).flagOf on)
  clone : ∀ n, ((after steps).act .clone on).2 = .handle n →
    (after (steps ++ [(.clone, on)])).flagOf n = (after steps).flagOf on
  create : ∀ n, ((after steps).act .create on).2 = .handle n →
    ¬ Raised (steps ++ [(.create, on)]) ((after (steps ++ [(.create, on)])).flagOf n)

theorem newFlag {flag : Nat} {flags : List Bool} (handles : List Nat) :
    (Board.mk flags (handles ++ [flag])).flagOf handles.length = flag := by
  simp [Board.flagOf]

theorem flagsTold (steps : List (Request × Nat)) (on : Nat) : Told steps on := by
  have up : ((after steps).flags[(after steps).flagOf on]?).getD false = true ↔
      Raised steps ((after steps).flagOf on) := by
    rw [← upRaised, Board.Up]
    cases (after steps).flags[(after steps).flagOf on]? <;> simp
  have flag {x : Bool} : Answer.flag x = .flag true ↔ x = true := by simp
  have down {x : Bool} : (!x) = true ↔ ¬ x = true := by simp
  refine ⟨fun r => runNext steps r on, flag.trans ?_, flag.trans up, flag.trans up,
    fun n made => ?_, fun n made => ?_⟩
  · exact down.trans (not_congr up)
  · cases made
    rw [afterNext]
    exact newFlag _
  · cases made
    rw [← upRaised, afterNext]
    intro up
    rw [show (((after steps).act .create on).1.flagOf (after steps).handles.length) =
      (after steps).flags.length from newFlag _] at up
    have last : ((after steps).flags ++ [false])[(after steps).flags.length]? = some false :=
      List.getElem?_concat_length
    cases last.symm.trans up

theorem handlesAct (b : Board) (r : Request) (on : Nat) : b.handles <+: (b.act r on).1.handles := by
  cases r with
  | trigger | isTriggered | wait => exact List.prefix_rfl
  | clone | create => exact List.prefix_append ..

theorem flagKept (steps later : List (Request × Nat)) {n : Nat}
    (made : n < (after steps).handles.length) :
    (after (steps ++ later)).flagOf n = (after steps).flagOf n := by
  have grown : (after steps).handles <+: (after (steps ++ later)).handles := by
    induction later using List.reverseRecOn with
    | nil => simp only [List.append_nil, List.prefix_rfl]
    | append_singleton later x ih =>
      rw [← List.append_assoc, afterNext]
      exact ih.trans (handlesAct ..)
  have inside := Nat.lt_of_lt_of_le made grown.length_le
  obtain ⟨more, split⟩ := grown
  unfold Board.flagOf
  rw [Nat.mod_eq_of_lt made, Nat.mod_eq_of_lt inside, ← split, List.getElem?_append_left made]

end AmqpClient.Shutdown
