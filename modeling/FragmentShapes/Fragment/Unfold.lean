import FragmentShapes.Fragment

/-!
# Unfolding spreads

The entries of a fragment with every spread opened: in its place stand the entries of the fragment
that it names, opened in turn. A fragment inside itself is not opened again; such a spread closes a
cycle, and the tree stays finite. A spread that names no fragment stays as unknown. The tree can be far
larger than the fragments are, so that the part under a spread is formed only where it is looked at.
-/

namespace FragmentShapes

/-- An entry with its spreads opened. -/
inductive Node where
  | field (head : FieldHead) (children : List Node)
  | condition (on : String) (label : Option String) (children : List Node)
  | group (children : List Node)
  /-- The entries of another fragment as a group, and the type that the fragment is on. -/
  | opened (fragment onType : String) (body : Unit → Node)
  /-- A spread of a fragment inside itself: the fragments on the way, the repeated one last. -/
  | cycle (chain : List String)
  | unknown (fragment : String)
  deriving Inhabited

mutual

/-- An entry with spreads opened by `openSpread`. -/
def Entry.unfold (openSpread : String → Node) : Entry → Node
  | .field head selection => .field head (Entry.unfoldAll openSpread selection)
  | .spread fragment => openSpread fragment
  | .condition on label selection => .condition on label (Entry.unfoldAll openSpread selection)
  | .group selection => .group (Entry.unfoldAll openSpread selection)

/-- Entries with spreads opened by `openSpread`. -/
def Entry.unfoldAll (openSpread : String → Node) : List Entry → List Node
  | [] => []
  | entry :: entries => entry.unfold openSpread :: Entry.unfoldAll openSpread entries

end

namespace Fragment

/-- The fragment of a name; of a repeated name the first. -/
def find? (name : String) (fragments : List Fragment) : Option Fragment :=
  fragments.find? (·.name = name)

def without (name : String) (fragments : List Fragment) : List Fragment :=
  fragments.filter (·.name ≠ name)

theorem length_without_lt {name : String} {fragments : List Fragment} {f : Fragment}
    (h : find? name fragments = some f) : (without name fragments).length < fragments.length := by
  refine List.length_filter_lt_length_iff_exists.2 ⟨f, List.mem_of_find?_eq_some h, ?_⟩
  simpa using List.find?_some h

/-- Opens a spread inside the fragments of `trail`, outermost first. The fragments that can still be
opened are `unopened`; those of the trail are known but no longer among them. -/
def openSpread (known unopened : List Fragment) (trail : List String) (name : String) : Node :=
  match h : find? name unopened with
  | some f =>
    have := length_without_lt h
    .opened name f.onType fun _ => .group
      (Entry.unfoldAll (openSpread known (without name unopened) (trail ++ [name]) ·) f.entries)
  | none => if (find? name known).isSome then .cycle (trail ++ [name]) else .unknown name
termination_by unopened.length

/-- A bound on the levels of a fragment with the spreads of known fragments opened: on the way to a node
each of them is opened once at most. -/
def levels (known : List Fragment) (f : Fragment) : Nat :=
  Entry.heightAll f.entries + known.foldr (fun g bound => Entry.heightAll g.entries + 1 + bound) 0

/-- The entries of a fragment with the spreads of known fragments opened. -/
def unfold (known : List Fragment) (f : Fragment) : List Node :=
  Entry.unfoldAll (openSpread known (without f.name known) [f.name]) f.entries

end Fragment

end FragmentShapes
