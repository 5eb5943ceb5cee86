/-! A list of which one place is replaced: what stands in it, counts and sums over it. -/
namespace AmqpClient

variable {α : Type} {xs : List α} {i : Nat} {x y : α}

def total (f : α → Nat) : List α → Nat
  | [] => 0
  | x :: rest => f x + total f rest

theorem toNatIf (b : Bool) : b.toNat = if b then 1 else 0 := by cases b <;> rfl

theorem countSet {p : α → Bool} (found : xs[i]? = some x) :
    (xs.set i y).countP p + (if p x then 1 else 0) = xs.countP p + if p y then 1 else 0 := by
  obtain ⟨inside, here⟩ := List.getElem?_eq_some_iff.mp found
  rw [List.countP_set inside, here]
  have counted : (if p x = true then 1 else 0) ≤ xs.countP p := by
    split
    · exact List.one_le_countP_iff.mpr ⟨x, List.mem_of_getElem? found, by assumption⟩
    · exact Nat.zero_le _
  omega

theorem totalAppend {f : α → Nat} {ys : List α} : total f (xs ++ ys) = total f xs + total f ys := by
  induction xs with
  | nil => exact (Nat.zero_add _).symm
  | cons x rest ih => simp only [List.cons_append, total, ih, Nat.add_assoc]

theorem totalMap {γ : Type} {f : γ → Nat} {g : α → γ} :
    total f (xs.map g) = total (fun x => f (g x)) xs := by
  induction xs with
  | nil => rfl
  | cons x rest ih => simp only [List.map_cons, total, ih]

theorem totalSet {f : α → Nat} (found : xs[i]? = some x) :
    total f (xs.set i y) + f x = total f xs + f y := by
  induction xs generalizing i with
  | nil => cases found
  | cons z rest ih =>
    cases i with
    | zero =>
      cases found
      simp only [List.set_cons_zero, total]
      omega
    | succ i =>
      have step := ih (i := i) found
      simp only [List.set_cons_succ, total]
      omega

theorem flatMapSet {γ : Type} {f : α → List γ} (found : xs[i]? = some x) :
    (f x ++ (xs.set i y).flatMap f).Perm (f y ++ xs.flatMap f) := by
  induction xs generalizing i with
  | nil => cases found
  | cons z rest ih =>
    cases i with
    | zero =>
      cases found
      rw [List.set_cons_zero, List.flatMap_cons, List.flatMap_cons, ← List.append_assoc,
        ← List.append_assoc]
      exact List.perm_append_comm.append_right _
    | succ i =>
      rw [List.set_cons_succ, List.flatMap_cons, List.flatMap_cons]
      exact (List.perm_append_comm_assoc ..).trans
        (((ih found).append_left _).trans (List.perm_append_comm_assoc ..))

theorem memSet {z : α} (found : xs[i]? = some x)
    (mem : z ∈ xs.set i y) : z = y ∨ ∃ j, i ≠ j ∧ xs[j]? = some z := by
  obtain ⟨j, there⟩ := List.getElem?_of_mem mem
  by_cases here : i = j
  · subst here
    rw [List.getElem?_set_self (List.getElem?_eq_some_iff.mp found).1] at there
    exact .inl (Option.some.inj there).symm
  · exact .inr ⟨j, here, (List.getElem?_set_ne here).symm.trans there⟩

theorem allSet {p : α → Prop} (all : ∀ z ∈ xs, p z) (new : p y) : ∀ z ∈ xs.set i y, p z := by
  intro z mem
  rcases List.mem_or_eq_of_mem_set mem with old | rfl
  · exact all z old
  · exact new

theorem allMore {p : α → Prop} (all : ∀ z ∈ xs, p z) (new : p y) : ∀ z ∈ xs ++ [y], p z := by
  intro z mem
  rcases List.mem_append.mp mem with old | last
  · exact all z old
  · exact List.mem_singleton.mp last ▸ new

theorem allModify {p : α → Prop} {f : α → α} (all : ∀ z ∈ xs, p z) (new : ∀ z, p z → p (f z)) :
    ∀ z ∈ xs.modify i f, p z := by
  intro z mem
  obtain ⟨j, there⟩ := List.getElem?_of_mem mem
  rw [List.getElem?_modify] at there
  obtain ⟨x, old, same⟩ := Option.map_eq_some_iff.mp there
  have before := all x (List.mem_of_getElem? old)
  split at same <;> subst same
  · exact new x before
  · exact before

theorem otherStays {z : α} (found : xs[i]? = some x) (mem : z ∈ xs) (other : z ≠ x) :
    z ∈ xs.set i y := by
  obtain ⟨j, there⟩ := List.getElem?_of_mem mem
  have apart : i ≠ j := by
    rintro rfl
    exact other (Option.some.inj (there.symm.trans found))
  exact List.mem_of_getElem? ((List.getElem?_set_ne apart).trans there)

theorem totalParts {γ : Type} {f : γ → Nat} {g : α → List γ} :
    total f (xs.flatMap g) = total (fun x => total f (g x)) xs := by
  induction xs with
  | nil => rfl
  | cons x rest ih => rw [List.flatMap_cons, totalAppend, ih, total]

theorem flatMapModify {γ : Type} {f : α → α} {g : α → List γ} (same : ∀ x, g (f x) = g x) :
    (xs.modify i f).flatMap g = xs.flatMap g := by
  induction xs generalizing i with
  | nil => cases i <;> rfl
  | cons x rest ih =>
    cases i with
    | zero => simp only [List.modify_zero_cons, List.flatMap_cons, same]
    | succ i => simp only [List.modify_succ_cons, List.flatMap_cons, ih]

theorem modifyFound {f : α → α} (found : xs[i]? = some x) : xs.modify i f = xs.set i (f x) := by
  refine List.ext_getElem? fun j => ?_
  rw [List.getElem?_modify, List.getElem?_set]
  by_cases here : i = j
  · subst here
    rw [found, if_pos rfl, if_pos (List.getElem?_eq_some_iff.mp found).1]
    simp
  · simp [here]

theorem totalModify {f : α → Nat} {g : α → α} (same : ∀ x, f (g x) = f x) :
    total f (xs.modify i g) = total f xs := by
  induction xs generalizing i with
  | nil => cases i <;> rfl
  | cons x rest ih =>
    cases i with
    | zero => simp only [List.modify_zero_cons, total, same]
    | succ i => simp only [List.modify_succ_cons, total, ih]

theorem totalSame {f g : α → Nat} (same : ∀ x ∈ xs, f x = g x) : total f xs = total g xs := by
  induction xs with
  | nil => rfl
  | cons x rest ih =>
    rw [total, total, same x List.mem_cons_self, ih fun y mem => same y (List.mem_cons_of_mem x mem)]

theorem totalZero {f : α → Nat} (none : ∀ x ∈ xs, f x = 0) : total f xs = 0 := by
  induction xs with
  | nil => rfl
  | cons x rest ih =>
    rw [total, none x List.mem_cons_self, ih fun y mem => none y (List.mem_cons_of_mem x mem)]

theorem leTotal {f : α → Nat} (mem : x ∈ xs) : f x ≤ total f xs := by
  induction mem with
  | head rest => exact Nat.le_add_right _ _
  | tail z _ ih => exact Nat.le_trans ih (Nat.le_add_left _ _)

theorem leTotalTwo {f : α → Nat} {j : Nat} (found : xs[i]? = some x) (there : xs[j]? = some y)
    (other : i ≠ j) : f x + f y ≤ total f xs := by
  induction xs generalizing i j with
  | nil => cases found
  | cons z rest ih =>
    unfold total
    cases i with
    | zero =>
      cases found
      cases j with
      | zero => exact absurd rfl other
      | succ j =>
        have second := leTotal (f := f) (List.mem_of_getElem? (i := j) there)
        omega
    | succ i =>
      have first := leTotal (f := f) (List.mem_of_getElem? (i := i) found)
      cases j with
      | zero => cases there; omega
      | succ j =>
        have both := ih (i := i) (j := j) found there (fun same => other (congrArg _ same))
        omega

theorem countParts {n : Nat} {f : α → List Nat} :
    (xs.flatMap f).count n = total (fun x => (f x).count n) xs := by
  induction xs with
  | nil => rfl
  | cons x rest ih => rw [List.flatMap_cons, List.count_append, ih, total]

theorem countFew {γ : Type} {p : γ → Bool} {g : α → List γ} (few : ∀ x ∈ xs, (g x).countP p ≤ 1) :
    (xs.flatMap g).countP p ≤ xs.length := by
  induction xs with
  | nil => exact Nat.le_refl 0
  | cons x rest ih =>
    have first := few x List.mem_cons_self
    have others := ih fun y mem => few y (List.mem_cons_of_mem x mem)
    rw [List.flatMap_cons, List.countP_append, List.length_cons]
    omega

end AmqpClient
