import FragmentShapes.Proofs.Grammar.Reading
import Mathlib.Data.List.Induction

/-!
# Productions and derivations

A language can be given by the productions of nonterminals, each with a value and with what it rejects
of that value. A right-hand side is a grammar over the nonterminals; those that begin with their own
nonterminal are listed apart, by what stands behind it. A derivation tree has a node for each use of
a production. What is rejected comes in the order in which the productions are completed: children
before their parent, from left to right.

The main statements are `derives_iff_reads`, by which the trees of a right-hand side are those that the
reading of it describes, and `phrase_eq` and `phrase_eq_collect`, the equations of a nonterminal without
and with productions that begin with itself.
-/

namespace FragmentShapes

open Token (Kind Located)

/-- A derivation tree over the nonterminals `N`. -/
inductive Tree (N : Type → Type) : Type 1 where
  | leaf (t : Located)
  | node {α : Type} (n : N α) (children : List (Tree N))

namespace Tree

variable {N : Type → Type}

mutual

/-- The tokens at the leaves of a tree. -/
def yield : Tree N → List Located
  | leaf t => [t]
  | node _ children => yieldAll children

/-- The tokens at the leaves of trees. -/
def yieldAll : List (Tree N) → List Located
  | [] => []
  | tree :: trees => tree.yield ++ yieldAll trees

end

mutual

/-- The number of nodes and leaves of a tree. -/
def size : Tree N → Nat
  | leaf _ => 1
  | node _ children => sizeAll children + 1

def sizeAll : List (Tree N) → Nat
  | [] => 0
  | tree :: trees => tree.size + sizeAll trees

end

@[simp] theorem yieldAll_append (ts us : List (Tree N)) :
    yieldAll (ts ++ us) = yieldAll ts ++ yieldAll us := by
  induction ts with
  | nil => rfl
  | cons t ts ih => simp [yieldAll, ih]

@[simp] theorem yieldAll_singleton (t : Tree N) : yieldAll [t] = t.yield := by simp [yieldAll]

@[simp] theorem sizeAll_append (ts us : List (Tree N)) :
    sizeAll (ts ++ us) = sizeAll ts + sizeAll us := by
  induction ts with
  | nil => simp [sizeAll]
  | cons t ts ih => simp [sizeAll, ih, Nat.add_assoc]

@[simp] theorem sizeAll_singleton (t : Tree N) : sizeAll [t] = t.size := by simp [sizeAll]

end Tree

open FragmentShapes.Tree (yieldAll sizeAll)

/-- A language by its productions. -/
structure Productions (N : Type → Type) (E : Type) where
  /-- The right-hand sides of a nonterminal that do not begin with itself. -/
  body : {α : Type} → N α → Grammar N α
  /-- What stands behind the nonterminal in those that do. -/
  tail : {α : Type} → N α → Grammar N (α → α)
  /-- What a production rejects of its value. -/
  rejects : {α : Type} → N α → α → List E

namespace Productions

variable {N : Type → Type} {E α β γ : Type}

/-- There are no right-hand sides of this kind. -/
def noTail : Grammar N (α → α) := (fun _ a => a) <$> .token []

/-- The trees are those of a right-hand side, with its value and what is rejected in them. -/
inductive Derives (P : Productions N E) :
    {α : Type} → Grammar N α → List (Tree N) → α → List E → Prop where
  | token {kinds : List Kind} {t : Located} (h : t.kind ∈ kinds) :
    Derives P (.token kinds) [.leaf t] t []
  | pure {α : Type} (a : α) : Derives P (.pure a) [] a []
  | map {α β : Type} {g : Grammar N α} {trees : List (Tree N)} {a : α} {faults : List E} (f : α → β)
    (h : Derives P g trees a faults) : Derives P (.map f g) trees (f a) faults
  | seq {α β : Type} {g : Grammar N (α → β)} {k : Grammar N α} {front back : List (Tree N)}
    {f : α → β} {a : α} {before behind : List E} (first : Derives P g front f before)
    (rest : Derives P k back a behind) :
    Derives P (.seq g k) (front ++ back) (f a) (before ++ behind)
  | left {α : Type} {g k : Grammar N α} {trees : List (Tree N)} {a : α} {faults : List E}
    (h : Derives P g trees a faults) : Derives P (.alt g k) trees a faults
  | right {α : Type} {g k : Grammar N α} {trees : List (Tree N)} {a : α} {faults : List E}
    (h : Derives P k trees a faults) : Derives P (.alt g k) trees a faults
  | nil {α : Type} {g : Grammar N α} : Derives P (.many g) [] [] []
  | cons {α : Type} {g : Grammar N α} {front back : List (Tree N)} {a : α} {as : List α}
    {before behind : List E} (first : Derives P g front a before)
    (rest : Derives P (.many g) back as behind) :
    Derives P (.many g) (front ++ back) (a :: as) (before ++ behind)
  /-- A production that does not begin with its own nonterminal. -/
  | body {α : Type} {n : N α} {trees : List (Tree N)} {a : α} {faults : List E}
    (h : Derives P (P.body n) trees a faults) :
    Derives P (.rule n) [.node n trees] a (faults ++ P.rejects n a)
  /-- A production that begins with its own nonterminal. -/
  | tail {α : Type} {n : N α} {tree : Tree N} {trees : List (Tree N)} {a : α} {f : α → α}
    {before behind : List E} (first : Derives P (.rule n) [tree] a before)
    (rest : Derives P (P.tail n) trees f behind) :
    Derives P (.rule n) [.node n (tree :: trees)] (f a) (before ++ behind ++ P.rejects n (f a))

/-- What a nonterminal reads: the leaves of its derivation trees. -/
def phrase (P : Productions N E) {α : Type} (n : N α) : Reading E α := fun tokens value faults =>
  ∃ tree : Tree N, tree.yield = tokens ∧ P.Derives (.rule n) [tree] value faults

variable {P : Productions N E}

/-- How a derivation of a token, of a repetition or of a nonterminal begins. -/
def Begins (P : Productions N E) : {α : Type} → Grammar N α → List (Tree N) → α → List E → Prop
  | _, .token kinds, trees, t, faults => trees = [.leaf t] ∧ t.kind ∈ kinds ∧ faults = []
  | _, .many _, trees, [], faults => trees = [] ∧ faults = []
  | _, .many g, trees, a :: as, faults => ∃ front before back behind, P.Derives g front a before ∧
    P.Derives (.many g) back as behind ∧ trees = front ++ back ∧ faults = before ++ behind
  | _, .rule _, trees, _, _ => ∃ tree, trees = [tree]
  | _, _, _, _, _ => True

theorem Derives.begins {g : Grammar N α} {trees : List (Tree N)} {a : α} {faults : List E}
    (h : P.Derives g trees a faults) : P.Begins g trees a faults := by
  cases h with
  | token h => exact ⟨rfl, h, rfl⟩
  | nil => exact ⟨rfl, rfl⟩
  | cons first rest => exact ⟨_, _, _, _, first, rest, rfl, rfl⟩
  | body h => exact ⟨_, rfl⟩
  | tail first rest => exact ⟨_, rfl⟩
  | _ => trivial

/-- What is known of each tree at hand carries over to a right-hand side. -/
theorem Derives.reads {ρ : {α : Type} → N α → Reading E α} {g : Grammar N α}
    {trees : List (Tree N)} {a : α} {faults : List E} (h : P.Derives g trees a faults)
    (hρ : ∀ {α : Type} {n : N α} {tree a faults}, tree ∈ trees →
      P.Derives (.rule n) [tree] a faults → ρ n tree.yield a faults) :
    g.reads ρ (yieldAll trees) a faults := by
  induction h with
  | token h => exact ⟨by simp [Tree.yield], h, rfl⟩
  | pure a => exact ⟨rfl, rfl, rfl⟩
  | map f h ih => exact ⟨_, ih hρ, rfl⟩
  | seq first rest ihfirst ihrest =>
    exact ⟨_, _, _, _, _, _, ihfirst fun hmem => hρ (List.mem_append_left _ hmem),
      ihrest fun hmem => hρ (List.mem_append_right _ hmem), (Tree.yieldAll_append _ _).symm, rfl, rfl⟩
  | left h ih => exact .inl (ih hρ)
  | right h ih => exact .inr (ih hρ)
  | nil => exact .nil
  | cons first rest ihfirst ihrest =>
    rw [Tree.yieldAll_append]
    exact .cons (ihfirst fun hmem => hρ (List.mem_append_left _ hmem))
      (ihrest fun hmem => hρ (List.mem_append_right _ hmem))
  | body h ih => simpa using hρ (List.mem_singleton_self _) (.body h)
  | tail first rest ihfirst ihrest => simpa using hρ (List.mem_singleton_self _) (.tail first rest)

theorem reads_of_derives {g : Grammar N α} {trees : List (Tree N)} {a : α} {faults : List E}
    (h : P.Derives g trees a faults) : g.reads P.phrase (yieldAll trees) a faults :=
  h.reads fun _ htree => ⟨_, rfl, htree⟩

/-- The trees of a right-hand side have at their leaves what it reads. -/
theorem derives_iff_reads {g : Grammar N α} {tokens : List Located} {a : α} {faults : List E} :
    (∃ trees, yieldAll trees = tokens ∧ P.Derives g trees a faults) ↔
      g.reads P.phrase tokens a faults := by
  constructor
  · rintro ⟨trees, rfl, h⟩
    exact reads_of_derives h
  · intro h
    -- A phrase of a rule has a tree already; the trees of the parts are put side by side.
    induction g generalizing tokens faults with
    | token kinds =>
      obtain ⟨rfl, hkind, rfl⟩ := h
      exact ⟨[.leaf a], by simp [Tree.yield], .token hkind⟩
    | pure value =>
      obtain ⟨rfl, rfl, rfl⟩ := h
      exact ⟨[], rfl, .pure value⟩
    | map f g ih =>
      obtain ⟨b, hb, rfl⟩ := h
      obtain ⟨trees, htrees, hb⟩ := ih hb
      exact ⟨trees, htrees, .map f hb⟩
    | seq g k ihg ihk =>
      obtain ⟨_, f, before, _, b, behind, hf, hb, rfl, rfl, rfl⟩ := h
      obtain ⟨front, rfl, hfront⟩ := ihg hf
      obtain ⟨back, rfl, hback⟩ := ihk hb
      exact ⟨front ++ back, Tree.yieldAll_append _ _, .seq hfront hback⟩
    | alt g k ihg ihk =>
      obtain h | h := h
      · obtain ⟨trees, htrees, h⟩ := ihg h
        exact ⟨trees, htrees, .left h⟩
      · obtain ⟨trees, htrees, h⟩ := ihk h
        exact ⟨trees, htrees, .right h⟩
    | many g ih =>
      induction h with
      | nil => exact ⟨[], rfl, .nil⟩
      | cons first rest ihrest =>
        obtain ⟨front, rfl, hfirst⟩ := ih first
        obtain ⟨back, rfl, hrest⟩ := ihrest
        exact ⟨front ++ back, Tree.yieldAll_append _ _, .cons hfirst hrest⟩
    | rule n =>
      obtain ⟨tree, rfl, h⟩ := h
      exact ⟨[tree], Tree.yieldAll_singleton _, h⟩

/-! ## Equations of nonterminals -/

/-- A derivation of a nonterminal ends with one of its productions. -/
theorem phrase_iff {n : N α} {tokens : List Located} {value : α} {faults : List E} :
    P.phrase n tokens value faults ↔
      Reading.judge (P.rejects n) ((P.body n).reads P.phrase) tokens value faults ∨
      Reading.judge (P.rejects n) (.seq (.map (fun a f => f a) (P.phrase n))
        ((P.tail n).reads P.phrase)) tokens value faults := by
  constructor
  · rintro ⟨tree, rfl, h⟩
    cases h with
    | body h => exact .inl ⟨_, reads_of_derives h, rfl⟩
    | tail first rest =>
      refine .inr ⟨_, ⟨_, _, _, _, _, _, ⟨_, ⟨_, rfl, first⟩, rfl⟩, reads_of_derives rest, ?_, rfl,
        rfl⟩, rfl⟩
      simp [Tree.yield, yieldAll]
  · rintro (⟨before, h, rfl⟩ | ⟨_, ⟨_, _, before, _, f, behind, ⟨a, ⟨tree, rfl, first⟩, rfl⟩, rest,
      rfl, rfl, rfl⟩, rfl⟩)
    · obtain ⟨trees, rfl, hbody⟩ := derives_iff_reads.2 h
      exact ⟨.node n trees, rfl, .body hbody⟩
    · obtain ⟨trees, rfl, htail⟩ := derives_iff_reads.2 rest
      exact ⟨.node n (tree :: trees), rfl, .tail first htail⟩

/-- A nonterminal without productions that begin with itself reads what its body reads. -/
theorem phrase_eq {n : N α} (htail : P.tail n = noTail) :
    P.phrase n = .judge (P.rejects n) ((P.body n).reads P.phrase) := by
  funext tokens value faults
  rw [phrase_iff, htail, eq_iff_iff, or_iff_left]
  rintro ⟨_, ⟨_, _, _, _, _, _, _, ⟨_, ⟨_, hkind, _⟩, _⟩, _⟩, _⟩
  cases hkind

/-! ## Nonterminals that reject nothing -/

/-- All rules of a grammar satisfy the test. -/
def isOver (p : {α : Type} → N α → Bool) : {α : Type} → Grammar N α → Bool
  | _, .token _ => true
  | _, .pure _ => true
  | _, .map _ g => isOver p g
  | _, .seq g k => isOver p g && isOver p k
  | _, .alt g k => isOver p g && isOver p k
  | _, .many g => isOver p g
  | _, .rule n => p n

/-- Where no production rejects anything and none leads elsewhere, nothing is rejected. -/
theorem Derives.faults_eq_nil {p : {α : Type} → N α → Bool}
    (hp : ∀ {α : Type} (n : N α), p n = true →
      isOver p (P.body n) = true ∧ isOver p (P.tail n) = true ∧ P.rejects n = fun _ => [])
    {g : Grammar N α} {trees : List (Tree N)} {a : α} {faults : List E}
    (h : P.Derives g trees a faults) (hg : isOver p g = true) : faults = [] := by
  induction h with
  | token h => rfl
  | pure a => rfl
  | map f h ih => exact ih hg
  | seq first rest ihfirst ihrest =>
    obtain ⟨hfirst, hrest⟩ := Bool.and_eq_true_iff.1 hg
    rw [ihfirst hfirst, ihrest hrest, List.nil_append]
  | left h ih => exact ih (Bool.and_eq_true_iff.1 hg).1
  | right h ih => exact ih (Bool.and_eq_true_iff.1 hg).2
  | nil => rfl
  | cons first rest ihfirst ihrest => rw [ihfirst hg, ihrest hg, List.nil_append]
  | @body _ n _ a _ h ih =>
    obtain ⟨hbody, _, hrejects⟩ := hp n hg
    rw [ih hbody, hrejects, List.nil_append]
  | @tail _ n _ _ a f _ _ first rest ihfirst ihrest =>
    obtain ⟨_, htail, hrejects⟩ := hp n hg
    rw [ihfirst hg, ihrest htail, hrejects, List.nil_append, List.nil_append]

/-! ## Nonterminals that begin with themselves -/

/-- What one use of a production that begins with its own nonterminal adds. -/
structure Growth (N : Type → Type) (E α : Type) where
  trees : List (Tree N)
  step : α → α
  faults : List E

/-- A derivation of `n`, as its tree, value and faults, inside one more production. -/
def grow (P : Productions N E) (n : N α) (d : Tree N × α × List E) (g : Growth N E α) :
    Tree N × α × List E :=
  (.node n (d.1 :: g.trees), g.step d.2.1, d.2.2 ++ g.faults ++ P.rejects n (g.step d.2.1))

/-- A derivation goes back through productions that begin with `n` to one that does not. -/
theorem exists_growths {n : N α} {tree : Tree N} {a : α} {faults : List E}
    (h : P.Derives (.rule n) [tree] a faults) :
    ∃ trees b before, ∃ gs : List (Growth N E α), P.Derives (P.body n) trees b before ∧
      (∀ g ∈ gs, P.Derives (P.tail n) g.trees g.step g.faults) ∧
      gs.foldl (P.grow n) (.node n trees, b, before ++ P.rejects n b) = (tree, a, faults) := by
  induction hsize : tree.size using Nat.strongRecOn generalizing tree a faults with
  | ind size ih =>
  cases h with
  | body h => exact ⟨_, _, _, [], h, by simp, rfl⟩
  | @tail _ _ tree trees a f before behind first rest =>
    have hlt : tree.size < size := by
      rw [← hsize, Tree.size, sizeAll]
      omega
    obtain ⟨bottom, b, others, gs, hbody, hgs, heq⟩ := ih _ hlt first rfl
    refine ⟨bottom, b, others, gs ++ [⟨trees, f, behind⟩], hbody, ?_, ?_⟩
    · simp only [List.mem_append, List.mem_singleton]
      rintro g (hg | rfl)
      · exact hgs g hg
      · exact rest
    · rw [List.foldl_append, heq]
      rfl

theorem yield_foldl_grow (P : Productions N E) (n : N α) (gs : List (Growth N E α)) (d : Tree N × α × List E) :
    (gs.foldl (P.grow n) d).1.yield = d.1.yield ++ gs.flatMap fun g => yieldAll g.trees := by
  induction gs generalizing d with
  | nil => simp
  | cons g gs ih => simp [ih, grow, Tree.yield, yieldAll]

theorem size_foldl_grow (P : Productions N E) (n : N α) (gs : List (Growth N E α)) (d : Tree N × α × List E) :
    d.1.size + sizeAll (gs.flatMap (·.trees)) ≤ (gs.foldl (P.grow n) d).1.size := by
  induction gs generalizing d with
  | nil => simp [sizeAll]
  | cons g gs ih =>
    have := ih (P.grow n d g)
    simp only [grow, Tree.size, sizeAll, List.flatMap_cons, Tree.sizeAll_append,
      List.foldl_cons] at this ⊢
    omega

theorem foldl_grow {n : N α} (hrejects : P.rejects n = fun _ => []) (gs : List (Growth N E α))
    (d : Tree N × α × List E) :
    (gs.foldl (P.grow n) d).2 = ((gs.map (·.step)).foldl (fun a f => f a) d.2.1,
      d.2.2 ++ gs.flatMap (·.faults)) := by
  induction gs generalizing d with
  | nil => simp
  | cons g gs ih => simp [ih, grow, hrejects]

theorem star_of_growths {n : N α} {gs : List (Growth N E α)}
    (h : ∀ g ∈ gs, P.Derives (P.tail n) g.trees g.step g.faults) :
    Reading.Star ((P.tail n).reads P.phrase) (gs.flatMap fun g => yieldAll g.trees)
      (gs.map (·.step)) (gs.flatMap (·.faults)) := by
  induction gs with
  | nil => exact .nil
  | cons g gs ih =>
    simp only [List.flatMap_cons, List.map_cons]
    exact .cons (reads_of_derives (h g (by simp))) (ih fun g' hg' => h g' (by simp [hg']))

/-- A nonterminal that rejects nothing reads its body and any number of its tails. -/
theorem phrase_eq_star {n : N α} (hrejects : P.rejects n = fun _ => []) :
    P.phrase n = .seq (.map (fun a fs => fs.foldl (fun a f => f a) a) ((P.body n).reads P.phrase))
      (.Star ((P.tail n).reads P.phrase)) := by
  funext tokens value faults
  rw [eq_iff_iff]
  constructor
  · rintro ⟨tree, rfl, h⟩
    obtain ⟨trees, b, before, gs, hbody, hgs, heq⟩ := exists_growths h
    have hyield := yield_foldl_grow P n gs (Tree.node n trees, b, before ++ P.rejects n b)
    have hvalue := foldl_grow hrejects gs (Tree.node n trees, b, before ++ P.rejects n b)
    rw [heq] at hyield hvalue
    obtain ⟨rfl, rfl⟩ := Prod.mk.inj hvalue
    refine ⟨_, _, _, _, _, _, ⟨_, reads_of_derives hbody, rfl⟩, star_of_growths hgs, hyield.symm, rfl, ?_⟩
    simp [hrejects]
  · rintro ⟨front, _, before, back, fs, behind, ⟨a, ha, rfl⟩, hfs, rfl, rfl, rfl⟩
    have hfirst : P.phrase n front a before :=
      phrase_iff.2 (.inl ⟨before, ha, by simp [hrejects]⟩)
    clear ha
    induction hfs generalizing front a before with
    | nil => simpa using hfirst
    | @cons tokens f before' back fs behind first rest ih =>
      have hnext : P.phrase n (front ++ tokens) (f a) (before ++ before') :=
        phrase_iff.2 (.inr ⟨_, ⟨_, _, _, _, _, _, ⟨a, hfirst, rfl⟩, first, rfl, rfl, rfl⟩,
          by simp [hrejects]⟩)
      simpa using ih _ _ _ hnext

/-- A nonterminal for a list: `collect` makes a value of a first part and of further ones. -/
theorem phrase_eq_collect {n : N α} {first : Grammar N β} {more : Grammar N γ}
    (collect : β → List γ → α) (extend : γ → α → α) (hrejects : P.rejects n = fun _ => [])
    (hbody : (P.body n).reads P.phrase = .map (collect · []) (first.reads P.phrase))
    (htail : P.tail n = extend <$> more)
    (hcollect : ∀ b cs c, collect b (cs ++ [c]) = extend c (collect b cs)) :
    P.phrase n = .seq (.map collect (first.reads P.phrase)) (.Star (more.reads P.phrase)) := by
  have hfold (b : β) (cs : List γ) :
      (cs.map extend).foldl (fun a f => f a) (collect b []) = collect b cs := by
    induction cs using List.reverseRecOn with
    | nil => rfl
    | append_singleton cs c ih => simp [ih, hcollect]
  rw [phrase_eq_star hrejects, hbody, htail]
  simp only [Grammar.reads_map, Reading.map_map, Reading.star_map, Reading.seq_map]
  congr 2
  funext b cs
  exact hfold b cs

end Productions

end FragmentShapes
