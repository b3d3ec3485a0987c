-- SUMMARY: Ordered associations: a key keeps the place where it was first put.

/-!
# Ordered associations

Objects, variables, sets and captures keep their keys in the order in which they first came. Putting
a value under a known key replaces the value and keeps the place.
-/
namespace RandomTables

/-- Values under text keys, in the order of their keys. -/
abbrev Assoc (α : Type _) := List (String × α)

namespace Assoc

variable {α : Type _}

/-- The value under a key. -/
def get? (a : Assoc α) (key : String) : Option α := a.lookup key

/-- Whether a key is present. -/
def has (a : Assoc α) (key : String) : Bool := (a.get? key).isSome

/-- Puts a value under a key: in place if the key is known, otherwise at the end. -/
def put : Assoc α → String → α → Assoc α
  | [], key, value => [(key, value)]
  | (k, v) :: rest, key, value =>
    if k = key then (k, value) :: rest else (k, v) :: put rest key value

/-- Puts all associations of the second into the first, in order. -/
def putAll (a b : Assoc α) : Assoc α := b.foldl (fun a (key, value) => a.put key value) a

/-- The associations of a list of pairs; of equal keys the last value counts, at the first place. -/
def ofPairs (pairs : List (String × α)) : Assoc α := putAll [] pairs

/-- The association without a key. -/
def without (a : Assoc α) (key : String) : Assoc α := a.filter (·.1 != key)

def keys (a : Assoc α) : List String := a.map (·.1)

@[simp] theorem get?_nil (key : String) : get? ([] : Assoc α) key = none := rfl

theorem get?_cons (k : String) (v : α) (rest : Assoc α) (key : String) :
    get? ((k, v) :: rest) key = if key = k then some v else get? rest key := by
  simp only [get?, List.lookup_cons]
  by_cases h : key = k
  · simp [h]
  · simp [h, beq_eq_false_iff_ne.2 h]

theorem get?_put (a : Assoc α) (key : String) (value : α) (other : String) :
    (a.put key value).get? other = if other = key then some value else a.get? other := by
  induction a with
  | nil => simp [put, get?_cons]
  | cons p rest ih =>
    obtain ⟨k, v⟩ := p
    simp only [put]
    split
    · rename_i h
      subst h
      simp only [get?_cons]
      split <;> rfl
    · rename_i h
      simp only [get?_cons, ih]
      by_cases h1 : other = k
      · subst h1
        simp [h]
      · simp [h1]

@[simp] theorem get?_put_self (a : Assoc α) (key : String) (value : α) :
    (a.put key value).get? key = some value := by simp [get?_put]

end Assoc

end RandomTables
