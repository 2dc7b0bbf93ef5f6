/-!
# Keyed lists

Pairs of a key and a value in the order in which the keys first came. Giving a key a second time
replaces its value and leaves its place.
-/

namespace FragmentShapes

/-- Values under keys, each key once, in order of first appearance. -/
abbrev KeyedList (α : Type) := List (String × α)

namespace KeyedList

variable {α β : Type}

/-- Sets the value of a key: in its place if the key is there, else at the end. -/
def put (key : String) (value : α) : KeyedList α → KeyedList α
  | [] => [(key, value)]
  | entry :: rest => if entry.1 = key then (key, value) :: rest else entry :: put key value rest

/-- The keyed list of pairs that may repeat a key: first place, last value. -/
def ofPairs (pairs : List (String × α)) : KeyedList α :=
  pairs.foldl (fun entries pair => put pair.1 pair.2 entries) []

def get? (entries : KeyedList α) (key : String) : Option α := List.lookup key entries

/-- Groups values by key: the keys in order of first appearance, under each its values in order. -/
def groupPairs (pairs : List (String × α)) : KeyedList (List α) :=
  pairs.foldl (fun groups pair => put pair.1 ((get? groups pair.1).getD [] ++ [pair.2]) groups) []

end KeyedList

end FragmentShapes
