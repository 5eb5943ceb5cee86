/-! Association lists sorted by key. A later entry replaces an earlier one of the same key, so
that the order of insertion never shows. Keys are ordered by code point, which is the order of
their UTF-8 octets. -/
namespace AmqpClient

abbrev Assoc (α : Type u) := List (String × α)

namespace Assoc

def find? (k : String) : Assoc α → Option α
  | [] => none
  | (k', v) :: rest => if k = k' then some v else find? k rest

def insert (k : String) (v : α) : Assoc α → Assoc α
  | [] => [(k, v)]
  | (k', v') :: rest =>
    if k < k' then (k, v) :: (k', v') :: rest
    else if k = k' then (k, v) :: rest
    else (k', v') :: insert k v rest

def insertAll (m : Assoc α) (entries : List (String × α)) : Assoc α :=
  entries.foldl (fun m e => m.insert e.1 e.2) m

def ofList (entries : List (String × α)) : Assoc α := insertAll [] entries

def keys (m : Assoc α) : List String := m.map Prod.fst

def contains (k : String) (m : Assoc α) : Bool := (find? k m).isSome

def Sorted (m : Assoc α) : Prop := m.Pairwise fun a b => a.1 < b.1

@[simp] theorem findNil (k : String) : find? k ([] : Assoc α) = none := rfl

theorem findInsert (k q : String) (v : α) (m : Assoc α) :
    find? q (insert k v m) = if q = k then some v else find? q m := by
  induction m with
  | nil => simp [insert, find?]
  | cons e rest ih =>
    obtain ⟨k', v'⟩ := e
    unfold insert
    split
    · simp [find?]
    · split
      · rename_i same
        subst same
        by_cases h : q = k <;> simp [find?, h]
      · rename_i other
        by_cases h : q = k'
        · subst h
          simp [find?, Ne.symm other]
        · simp [find?, h, ih]

end Assoc

end AmqpClient
