import FragmentShapes.Proofs.Grammar.Derivation
import FragmentShapes.Proofs.Grammar.Preview

/-!
# Unambiguous productions

`Productions.isForeseen` is a check on a nonterminal by itself: its phrases look as the preview says,
and at each place two tokens decide which production goes on.

The main statement is `Productions.derives_unique`: a language whose nonterminals all pass the check has
at most one derivation tree for each row of tokens.
-/

namespace FragmentShapes

open Token (Kind Located)
open FragmentShapes.Tree (yieldAll sizeAll)

namespace Productions

variable {N : Type → Type} {E α β : Type} {P : Productions N E} {v : Preview N}

/-- The preview is right about a nonterminal, and two tokens decide between its productions. -/
def isForeseen (P : Productions N E) (v : Preview N) (n : N α) : Bool :=
  (P.body n).isDecided v true && (P.tail n).isDecided v true &&
  !(P.tail n).mayBeEmpty v && (!(P.body n).mayBeEmpty v || v.nullable n) &&
  ((P.body n).firsts v).within (v.firsts n) &&
  ((P.body n).singles v).within (v.singles n) &&
  (Kind.all.all fun k => !((P.body n).firsts v).contains k ||
    ((P.body n).seconds v k).within (v.seconds n k)) &&
  (!v.nullable n || ((P.tail n).firsts v).within .empty) &&
  (Kind.all.all fun k => !(v.singles n).contains k ||
    ((P.tail n).firsts v).within (v.seconds n k)) &&
  ((P.body n).extensions v).disjoint ((P.tail n).firsts v) &&
  ((P.tail n).extensions v).disjoint ((P.tail n).firsts v) &&
  ((P.body n).extensions v).within (v.extensions n) &&
  ((P.tail n).firsts v).within (v.extensions n) &&
  ((P.tail n).extensions v).within (v.extensions n)

/-- What the check says, field by field. -/
structure IsForeseen (P : Productions N E) (v : Preview N) (n : N α) : Prop where
  body_decided : (P.body n).isDecided v true = true
  tail_decided : (P.tail n).isDecided v true = true
  tail_ne : (P.tail n).mayBeEmpty v = false
  nullable : (P.body n).mayBeEmpty v = true → v.nullable n = true
  firsts : ∀ {k}, ((P.body n).firsts v).contains k = true → (v.firsts n).contains k = true
  singles : ∀ {k}, ((P.body n).singles v).contains k = true → (v.singles n).contains k = true
  seconds : ∀ {k l}, ((P.body n).firsts v).contains k = true →
    ((P.body n).seconds v k).contains l = true → (v.seconds n k).contains l = true
  not_nullable : ∀ {k}, ((P.tail n).firsts v).contains k = true → v.nullable n = false
  tail_seconds : ∀ {k l}, (v.singles n).contains k = true →
    ((P.tail n).firsts v).contains l = true → (v.seconds n k).contains l = true
  body_disjoint : ((P.body n).extensions v).disjoint ((P.tail n).firsts v) = true
  tail_disjoint : ((P.tail n).extensions v).disjoint ((P.tail n).firsts v) = true
  body_extensions : ∀ {k}, ((P.body n).extensions v).contains k = true →
    (v.extensions n).contains k = true
  tail_firsts : ∀ {k}, ((P.tail n).firsts v).contains k = true → (v.extensions n).contains k = true
  tail_extensions : ∀ {k}, ((P.tail n).extensions v).contains k = true →
    (v.extensions n).contains k = true

theorem isForeseen_of {n : N α} (h : P.isForeseen v n = true) : P.IsForeseen v n := by
  simp only [isForeseen, Bool.and_eq_true, Bool.not_eq_true', Bool.or_eq_true] at h
  obtain ⟨⟨⟨⟨⟨⟨⟨⟨⟨⟨⟨⟨⟨hbody, htail⟩, hne⟩, hnullable⟩, hfirsts⟩, hsingles⟩, hseconds⟩, hnot⟩,
    htailSeconds⟩, hbodyDisjoint⟩, htailDisjoint⟩, hextensions⟩, htailFirsts⟩, htailExtensions⟩ := h
  exact {
    body_decided := hbody
    tail_decided := htail
    tail_ne := hne
    nullable := fun hempty => hnullable.resolve_left (by simp [hempty])
    firsts := KindSet.of_within hfirsts
    singles := KindSet.of_within hsingles
    seconds := fun {k _} hfirst hsecond => by
      have hk := List.all_eq_true.1 hseconds k (Kind.mem_all k)
      simp only [hfirst, Bool.not_true, Bool.false_or] at hk
      exact KindSet.of_within hk hsecond
    not_nullable := fun hfirst => hnot.resolve_right fun hempty => by
      simpa using KindSet.of_within hempty hfirst
    tail_seconds := fun {k _} hsingle hfirst => by
      have hk := List.all_eq_true.1 htailSeconds k (Kind.mem_all k)
      simp only [hsingle, Bool.not_true, Bool.false_or] at hk
      exact KindSet.of_within hk hfirst
    body_disjoint := hbodyDisjoint
    tail_disjoint := htailDisjoint
    body_extensions := KindSet.of_within hextensions
    tail_firsts := KindSet.of_within htailFirsts
    tail_extensions := KindSet.of_within htailExtensions }

/-! ## The preview is right about derivations -/

theorem IsForeseen.shows_body {n : N α} (hn : P.IsForeseen v n) {tokens : List Located}
    (h : (P.body n).Shows v tokens) : (Grammar.rule n).Shows v tokens := by
  match tokens with
  | [] => exact hn.nullable h
  | [_] => exact ⟨hn.firsts h.1, hn.singles h.2⟩
  | _ :: _ :: _ => exact ⟨hn.firsts h.1, hn.seconds h.1 h.2⟩

theorem IsForeseen.shows_tail {n : N α} (hn : P.IsForeseen v n) {front back : List Located}
    (hfront : (Grammar.rule n).Shows v front) (hback : (P.tail n).Shows v back) :
    (Grammar.rule n).Shows v (front ++ back) := by
  match front, back with
  | _, [] => exact absurd rfl (hback.ne_nil hn.tail_ne)
  | [], u :: _ =>
    have hempty : v.nullable n = true := hfront
    rw [hn.not_nullable hback.first] at hempty
    cases hempty
  | [_], u :: _ => exact ⟨hfront.1, hn.tail_seconds hfront.2 hback.first⟩
  | _ :: _ :: _, u :: _ => exact hfront

variable (hP : ∀ {α : Type} (n : N α), P.IsForeseen v n)

theorem size_le_of_mem {tree : Tree N} {trees : List (Tree N)} (h : tree ∈ trees) :
    tree.size ≤ sizeAll trees := by
  induction trees with
  | nil => cases h
  | cons u trees ih =>
    rw [sizeAll]
    cases h with
    | head => omega
    | tail _ h => have := ih h; omega

include hP in
theorem shows_yield {n : N α} {tree : Tree N} {a : α} {faults : List E}
    (h : P.Derives (.rule n) [tree] a faults) : (Grammar.rule n).Shows v tree.yield := by
  induction hsize : tree.size using Nat.strongRecOn generalizing α n tree a faults with
  | ind size ih =>
  -- Everything below the root is smaller, so that the preview is right about right-hand sides there.
  have hchildren : ∀ {γ : Type} {g : Grammar N γ} {trees : List (Tree N)} {b : γ} {others : List E},
      sizeAll trees < size → P.Derives g trees b others → g.Shows v (yieldAll trees) := by
    intro γ g trees b others hlt hg
    refine Grammar.shows_of_reads (ρ := fun n tokens _ (_ : List E) => (Grammar.rule n).Shows v tokens)
      (fun hshows => hshows) (hg.reads fun hmem htree => ?_)
    exact ih _ (Nat.lt_of_le_of_lt (size_le_of_mem hmem) hlt) htree rfl
  cases h with
  | body h =>
    exact (hP n).shows_body (hchildren (by rw [← hsize, Tree.size]; omega) h)
  | tail first rest =>
    refine (hP n).shows_tail (ih _ ?_ first rfl) (hchildren ?_ rest)
    · rw [← hsize, Tree.size, sizeAll]; omega
    · rw [← hsize, Tree.size, sizeAll]; omega

include hP in
theorem shows_of_derives {g : Grammar N α} {trees : List (Tree N)} {a : α} {faults : List E}
    (h : P.Derives g trees a faults) : g.Shows v (yieldAll trees) :=
  Grammar.shows_of_reads (ρ := fun n tokens _ (_ : List E) => (Grammar.rule n).Shows v tokens)
    (fun hshows => hshows) (h.reads fun _ htree => shows_yield hP htree)

/-! ## One derivation for each text -/

/-- Two derivations whose leaves begin one text, each up to where its phrase ends, are the same. -/
def Settled (P : Productions N E) (v : Preview N) (size : Nat) {α : Type} (g : Grammar N α) : Prop :=
  ∀ {trees trees' : List (Tree N)} {a a' : α} {faults faults' : List E} {rest rest' : List Located},
    P.Derives g trees a faults → P.Derives g trees' a' faults' → sizeAll trees ≤ size →
    yieldAll trees ++ rest = yieldAll trees' ++ rest' → g.Ends v rest → g.Ends v rest' →
    trees = trees' ∧ a = a' ∧ faults = faults' ∧ rest = rest'

include hP in
theorem Settled.seq {size : Nat} {g : Grammar N (α → β)} {k : Grammar N α}
    (hg : P.Settled v size g) (hk : P.Settled v size k)
    (hdisjoint : (g.extensions v).disjoint (k.firsts v) = true) : P.Settled v size (.seq g k) := by
  intro trees trees' a a' faults faults' rest rest' h h' hle hyield hend hend'
  cases h with
  | seq hfront hback =>
  cases h' with
  | seq hfront' hback' =>
  rw [Tree.sizeAll_append] at hle
  rw [Tree.yieldAll_append, Tree.yieldAll_append, List.append_assoc, List.append_assoc] at hyield
  obtain ⟨rfl, rfl, rfl, hbehind⟩ := hg hfront hfront' (by omega) hyield
    (hend.first hdisjoint (shows_of_derives hP hback))
    (hend'.first hdisjoint (shows_of_derives hP hback'))
  obtain ⟨rfl, rfl, rfl, rfl⟩ := hk hback hback' (by omega) hbehind hend.second hend'.second
  exact ⟨rfl, rfl, rfl, rfl⟩

include hP in
theorem Settled.alt {size : Nat} {g k : Grammar N α} (hg : P.Settled v size g)
    (hk : P.Settled v size k) (hne : g.mayBeEmpty v = false)
    (hapart : Grammar.areApart v true g k = true) : P.Settled v size (.alt g k) := by
  intro trees trees' a a' faults faults' rest rest' h h' hle hyield hend hend'
  -- The tokens in front tell the alternatives apart, so that no text is derived in both ways.
  cases h with
  | left h =>
    cases h' with
    | left h' => exact hg h h' hle hyield hend.left hend'.left
    | right h' =>
      exact absurd hyield
        (hend'.append_ne_append hne hapart (shows_of_derives hP h) (shows_of_derives hP h'))
  | right h =>
    cases h' with
    | left h' =>
      exact absurd hyield.symm
        (hend.append_ne_append hne hapart (shows_of_derives hP h') (shows_of_derives hP h))
    | right h' => exact hk h h' hle hyield hend.right hend'.right

include hP in
theorem Settled.many {size : Nat} {g : Grammar N α} (hg : P.Settled v size g)
    (hne : g.mayBeEmpty v = false) (hdisjoint : (g.extensions v).disjoint (g.firsts v) = true) :
    P.Settled v size (.many g) := by
  intro trees trees' as as' faults faults' rest rest' h h' hle hyield hend hend'
  -- Along the items of the one derivation: the other has an item there if and only if the text goes on
  -- with one, which the end of the phrase excludes.
  induction as generalizing trees trees' as' faults faults' with
  | nil =>
    obtain ⟨rfl, rfl⟩ := h.begins
    cases as' with
    | nil =>
      obtain ⟨rfl, rfl⟩ := h'.begins
      exact ⟨rfl, rfl, rfl, hyield⟩
    | cons b as' =>
      obtain ⟨front, before, back, behind, hfront, hback, rfl, rfl⟩ := h'.begins
      rw [Tree.yieldAll_append, List.append_assoc] at hyield
      exact absurd hyield.symm (hend.append_ne hne (shows_of_derives hP hfront))
  | cons b as ih =>
    obtain ⟨front, before, back, behind, hfront, hback, rfl, rfl⟩ := h.begins
    rw [Tree.yieldAll_append, List.append_assoc] at hyield
    cases as' with
    | nil =>
      obtain ⟨rfl, rfl⟩ := h'.begins
      exact absurd hyield (hend'.append_ne hne (shows_of_derives hP hfront))
    | cons b' as' =>
      obtain ⟨front', before', back', behind', hfront', hback', rfl, rfl⟩ := h'.begins
      rw [Tree.yieldAll_append, List.append_assoc] at hyield
      rw [Tree.sizeAll_append] at hle
      obtain ⟨rfl, rfl, rfl, hbehind⟩ := hg hfront hfront' (by omega) hyield
        (hend.item hdisjoint (shows_of_derives hP hback))
        (hend'.item hdisjoint (shows_of_derives hP hback'))
      obtain ⟨rfl, rfl, rfl, rfl⟩ := ih hback hback' (by omega) hbehind
      exact ⟨rfl, rfl, rfl, rfl⟩

include hP in
theorem settled_of_rules {size : Nat} (hrules : ∀ {α : Type} (n : N α), P.Settled v size (.rule n))
    {g : Grammar N α} (hg : g.isDecided v true = true) : P.Settled v size g := by
  induction g with
  | token kinds =>
    intro trees trees' a a' faults faults' rest rest' h h' _ hyield _ _
    obtain ⟨rfl, _, rfl⟩ := h.begins
    obtain ⟨rfl, _, rfl⟩ := h'.begins
    simpa [Tree.yield, yieldAll] using hyield
  | pure value =>
    intro trees trees' a a' faults faults' rest rest' h h' _ hyield _ _
    cases h
    cases h'
    exact ⟨rfl, rfl, rfl, hyield⟩
  | map f g ih =>
    intro trees trees' a a' faults faults' rest rest' h h' hle hyield hend hend'
    cases h with
    | map _ h =>
    cases h' with
    | map _ h' =>
    obtain ⟨rfl, rfl, rfl, rfl⟩ := ih hg h h' hle hyield hend hend'
    exact ⟨rfl, rfl, rfl, rfl⟩
  | seq g k ihg ihk =>
    obtain ⟨⟨hdecg, hdeck⟩, hdisjoint⟩ := Grammar.isDecided_seq.1 hg
    exact Settled.seq hP (ihg hdecg) (ihk hdeck) hdisjoint
  | alt g k ihg ihk =>
    obtain ⟨⟨⟨hdecg, hdeck⟩, hne⟩, hapart⟩ := Grammar.isDecided_alt.1 hg
    exact Settled.alt hP (ihg hdecg) (ihk hdeck) hne hapart
  | many g ih =>
    obtain ⟨⟨hdecg, hne⟩, hdisjoint⟩ := Grammar.isDecided_many.1 hg
    exact Settled.many hP (ih hdecg) hne hdisjoint
  | rule n => exact hrules n

include hP in
/-- Growths of a nonterminal, if there are any, end the phrase before them. -/
theorem ends_of_growths {n : N α} {g : Grammar N β} {gs : List (Growth N E α)}
    (hgs : ∀ g ∈ gs, P.Derives (P.tail n) g.trees g.step g.faults)
    (hdisjoint : (g.extensions v).disjoint ((P.tail n).firsts v) = true)
    (hextensions : ∀ k, (g.extensions v).contains k = true → (v.extensions n).contains k = true)
    {rest : List Located} (hend : (Grammar.rule n).Ends v rest) :
    g.Ends v ((gs.flatMap fun g => yieldAll g.trees) ++ rest) := by
  have hrest : g.Ends v rest := by
    intro t ht
    by_contra hnot
    exact Bool.false_ne_true ((hend t ht).symm.trans (hextensions _ (Bool.of_not_eq_false hnot)))
  cases gs with
  | nil => exact hrest
  | cons s gs =>
    have hshows := shows_of_derives hP (hgs s (by simp))
    rw [List.flatMap_cons, List.append_assoc]
    exact Grammar.Ends.before (fun hnil => absurd hnil (hshows.ne_nil (hP n).tail_ne)) hdisjoint hshows

include hP in
/-- A text in which one more growth begins does not end a phrase. -/
theorem growth_ne {n : N α} {g : Growth N E α}
    (hg : P.Derives (P.tail n) g.trees g.step g.faults) {more rest : List Located}
    (hend : (Grammar.rule n).Ends v rest) : yieldAll g.trees ++ more ≠ rest := by
  refine (shows_of_derives hP hg).append_ne (hP n).tail_ne fun t ht => ?_
  by_contra hnot
  exact Bool.false_ne_true ((hend t ht).symm.trans ((hP n).tail_firsts (Bool.of_not_eq_false hnot)))

include hP in
theorem growths_unique {size : Nat} {n : N α} (htail : P.Settled v size (P.tail n))
    {gs gs' : List (Growth N E α)} (hgs : ∀ g ∈ gs, P.Derives (P.tail n) g.trees g.step g.faults)
    (hgs' : ∀ g ∈ gs', P.Derives (P.tail n) g.trees g.step g.faults)
    (hle : sizeAll (gs.flatMap (·.trees)) ≤ size) {rest rest' : List Located}
    (hyield : (gs.flatMap fun g => yieldAll g.trees) ++ rest =
      (gs'.flatMap fun g => yieldAll g.trees) ++ rest')
    (hend : (Grammar.rule n).Ends v rest) (hend' : (Grammar.rule n).Ends v rest') :
    gs = gs' ∧ rest = rest' := by
  -- Neither side has a growth where the other ends, since what ends a phrase begins no growth.
  induction gs generalizing gs' with
  | nil =>
    cases gs' with
    | nil => exact ⟨rfl, hyield⟩
    | cons g' gs' =>
      rw [List.flatMap_cons, List.append_assoc] at hyield
      exact absurd hyield.symm (growth_ne hP (hgs' g' (by simp)) hend)
  | cons g gs ih =>
    rw [List.flatMap_cons, List.append_assoc] at hyield
    cases gs' with
    | nil => exact absurd hyield (growth_ne hP (hgs g (by simp)) hend')
    | cons g' gs' =>
      have hrest : ∀ s ∈ gs, P.Derives (P.tail n) s.trees s.step s.faults :=
        fun s hs => hgs s (by simp [hs])
      have hrest' : ∀ s ∈ gs', P.Derives (P.tail n) s.trees s.step s.faults :=
        fun s hs => hgs' s (by simp [hs])
      rw [List.flatMap_cons, List.append_assoc] at hyield
      rw [List.flatMap_cons, Tree.sizeAll_append] at hle
      obtain ⟨htrees, hstep, hfaults, hbehind⟩ := htail (hgs g (by simp)) (hgs' g' (by simp)) (by omega)
        hyield (ends_of_growths hP hrest (hP n).tail_disjoint (fun _ => (hP n).tail_extensions) hend)
        (ends_of_growths hP hrest' (hP n).tail_disjoint (fun _ => (hP n).tail_extensions) hend')
      obtain ⟨rfl, rfl⟩ := ih hrest hrest' (by omega) hbehind
      cases g
      cases g'
      cases htrees
      cases hstep
      cases hfaults
      exact ⟨rfl, rfl⟩

include hP in
theorem settled_rule (size : Nat) (n : N α) : P.Settled v size (.rule n) := by
  induction size using Nat.strongRecOn generalizing α with
  | ind size ih =>
  intro trees trees' a a' faults faults' rest rest' h h' hle hyield hend hend'
  obtain ⟨tree, rfl⟩ := h.begins
  obtain ⟨tree', rfl⟩ := h'.begins
  obtain ⟨bottom, b, before, gs, hbody, hgs, heq⟩ := exists_growths h
  obtain ⟨bottom', b', before', gs', hbody', hgs', heq'⟩ := exists_growths h'
  have hsize := size_foldl_grow P n gs (.node n bottom, b, before ++ P.rejects n b)
  have htokens := yield_foldl_grow P n gs (.node n bottom, b, before ++ P.rejects n b)
  have htokens' := yield_foldl_grow P n gs' (.node n bottom', b', before' ++ P.rejects n b')
  rw [heq] at hsize htokens
  rw [heq'] at htokens'
  simp only [Tree.size, Tree.yield, Tree.sizeAll_singleton] at hsize htokens htokens' hle
  rw [Tree.yieldAll_singleton, Tree.yieldAll_singleton, htokens, htokens', List.append_assoc,
    List.append_assoc] at hyield
  -- The root takes one node, so that what is below it is of a smaller size.
  have hlt : size - 1 < size := by omega
  have hgrowths : sizeAll (gs.flatMap (·.trees)) ≤ size - 1 := by omega
  have hsettled : ∀ {β : Type} {g : Grammar N β}, g.isDecided v true = true →
      P.Settled v (size - 1) g := fun hg => settled_of_rules hP (fun n => ih _ hlt n) hg
  obtain ⟨rfl, rfl, rfl, hbehind⟩ := hsettled (hP n).body_decided hbody hbody' (by omega) hyield
    (ends_of_growths hP hgs (hP n).body_disjoint (fun _ => (hP n).body_extensions) hend)
    (ends_of_growths hP hgs' (hP n).body_disjoint (fun _ => (hP n).body_extensions) hend')
  obtain ⟨rfl, rfl⟩ := growths_unique hP (hsettled (hP n).tail_decided) hgs hgs' hgrowths hbehind
    hend hend'
  cases heq.symm.trans heq'
  exact ⟨rfl, rfl, rfl, rfl⟩

/-- A language that passes the check has at most one derivation for each row of tokens. -/
theorem derives_unique (hP : ∀ {α : Type} (n : N α), P.isForeseen v n = true) {n : N α}
    {tree tree' : Tree N} {a a' : α} {faults faults' : List E}
    (h : P.Derives (.rule n) [tree] a faults) (h' : P.Derives (.rule n) [tree'] a' faults')
    (hyield : tree.yield = tree'.yield) : tree = tree' ∧ a = a' ∧ faults = faults' := by
  have hend : (Grammar.rule n).Ends v [] := fun _ ht => by cases ht
  obtain ⟨htrees, ha, hfaults, _⟩ := settled_rule (fun n => isForeseen_of (hP n)) tree.size n h h'
    (by simp) (by simpa using hyield) hend hend
  exact ⟨by simpa using htrees, ha, hfaults⟩

end Productions

end FragmentShapes
