import FragmentShapes.Proofs.Naming.Indexes
import FragmentShapes.Proofs.Naming.PathName
import Mathlib.Algebra.BigOperators.Group.List.Lemmas
import Mathlib.Algebra.Ring.Nat
import Mathlib.Data.List.Find

/-!
# Histories of a registry

Calls register names, relate models and start again, and some of them fail. What is registered after a
history is what its log holds: the registrations that succeeded since the last reset, of which the first
under each path counts (`NameRegistry.Follows`, kept by each call). Where names have no dots, a path stands
for one name in one scope, so that this is the first registration of the name in its scope.

Main statement: `NameRegistry.keepsFirst_run`.
-/

namespace FragmentShapes

/-- Of names without dots, no two in the same scope or in two scopes have one path. -/
theorem qualify_injective {scope scope' name name' : String} (hname : '.' ∉ name.toList)
    (hname' : '.' ∉ name'.toList) (h : qualify scope name = qualify scope' name') :
    scope = scope' ∧ name = name' := by
  have hdot : ∀ front behind : String, '.' ∈ (front ++ "." ++ behind).toList := by
    intro front behind
    simp
  unfold qualify at h
  split_ifs at h with hscope hscope' hscope'
  · exact ⟨hscope.trans hscope'.symm, h⟩
  · exact absurd (h ▸ hdot scope' name') hname
  · exact absurd (h ▸ hdot scope name) hname'
  · exact NamingPolicy.eq_of_append_dot hname hname' h

namespace NameRegistry

variable {σ : Type}

/-- The name that is registered has no dot. -/
def Change.IsDotless : Change σ → Prop
  | register name _ _ => '.' ∉ name.toList
  | relate .. => True
  | reset => True

instance : DecidablePred (Change.IsDotless (σ := σ))
  | .register name _ _ => inferInstanceAs (Decidable ('.' ∉ name.toList))
  | .relate .. => inferInstanceAs (Decidable True)
  | .reset => inferInstanceAs (Decidable True)

/-! ## Logs -/

/-- The log behind a call that ended in this way: a registration that succeeds is put down, again if it
is not the first, and a reset begins a new log. -/
def logged (log : List (Registration σ)) : Change σ × Option NamingError → List (Registration σ)
  | (.register name scope signature, none) => log ++ [⟨name, scope, signature⟩]
  | (.register .., some _) => log
  | (.relate .., _) => log
  | (.reset, _) => []

/-- The registrations of a history that succeeded since the last reset, in order. -/
def logOf (history : List (Change σ × Option NamingError)) : List (Registration σ) :=
  history.foldl logged []

theorem mem_logged {log : List (Registration σ)} {entry : Change σ × Option NamingError}
    {g : Registration σ} (h : g ∈ logged log entry) :
    g ∈ log ∨ ∃ name scope signature, entry.1 = .register name scope signature ∧ g.name = name := by
  unfold logged at h
  split at h
  · rcases List.mem_append.1 h with hold | hnew
    · exact .inl hold
    · cases List.mem_singleton.1 hnew
      exact .inr ⟨_, _, _, rfl, rfl⟩
  · exact .inl h
  · exact .inl h
  · cases h

/-- A registry says what the log says, of each path the first registration, in order of these. -/
structure Follows (r : NameRegistry σ) (log : List (Registration σ)) : Prop where
  atPath : ∀ path, r.atPath? path = log.find? (·.path = path)
  paths : r.paths = (log.map (·.path)).eraseDups
  mem : ∀ g ∈ r.registrations, g ∈ log
  relations : r.relations.Nodup

theorem follows_empty : (empty : NameRegistry σ).Follows [] :=
  ⟨fun _ => rfl, rfl, fun _ h => h, List.nodup_nil⟩

variable {r : NameRegistry σ} {log : List (Registration σ)}

theorem mem_map_path_iff {path : String} :
    path ∈ log.map (·.path) ↔ (log.find? (·.path = path)).isSome := by
  simp [List.find?_isSome]

/-- Each scope has the names of its registrations, and each registration is in one scope. -/
theorem length_registrations (r : NameRegistry σ) :
    r.registrations.length = (r.scopes.map fun scope => (r.namesIn scope).length).sum := by
  have hnames : (fun scope => (r.namesIn scope).length) =
      fun scope => (r.registrations.map (·.scope)).count scope := by
    funext scope
    rw [namesIn, List.length_map, ← List.countP_eq_length_filter, List.count, List.countP_map]
    rfl
  have hscopes : r.scopes.Perm (r.registrations.map (·.scope)).dedup := by
    refine (List.perm_ext_iff_of_nodup (KeyedList.nodup_eraseDups _) (List.nodup_dedup _)).2 ?_
    exact fun scope => List.mem_eraseDups.trans List.mem_dedup.symm
  rw [hnames, (hscopes.map _).sum_eq, List.sum_map_count_dedup_eq_length, List.length_map]

theorem nodup_children (h : r.relations.Nodup) (parent : String) : (r.children parent).Nodup := by
  refine List.Nodup.map_on ?_ (h.filter _)
  rintro ⟨first, child⟩ hpair ⟨second, other⟩ hother heq
  have hfirst := of_decide_eq_true (List.mem_filter.1 hpair).2
  have hsecond := of_decide_eq_true (List.mem_filter.1 hother).2
  exact Prod.ext (hfirst.trans hsecond.symm) heq

/-! ## Calls -/

variable [DecidableEq σ]

theorem Follows.register (h : r.Follows log) (name scope : String) (signature : σ) :
    (r.after (.register name scope signature)).Follows
      (logged log (.register name scope signature, r.error? (.register name scope signature))) := by
  rw [after, error?, apply]
  cases hregister : r.register name scope signature with
  | error e => exact h
  | ok r' =>
    have hpath : r.get? name scope = log.find? (·.path = qualify scope name) := h.atPath _
    change r'.Follows (log ++ [⟨name, scope, signature⟩])
    obtain ⟨⟨existing, hexisting, -⟩, rfl⟩ | ⟨hnone, rfl⟩ := register_cases hregister
    · -- a second registration comes behind the first in the log, and changes nothing
      have hmem : qualify scope name ∈ log.map (·.path) := by
        rw [mem_map_path_iff, ← hpath, hexisting, Option.isSome_some]
      refine ⟨fun path => ?_, ?_, fun g hg => List.mem_append_left _ (h.mem g hg), h.relations⟩
      · rw [List.find?_append, h.atPath path]
        by_cases hsame : Registration.path ⟨name, scope, signature⟩ = path
        · have hfirst : log.find? (·.path = path) = some existing :=
            hsame ▸ hpath.symm.trans hexisting
          rw [hfirst, Option.some_or]
        · rw [List.find?_cons_of_neg (by simpa using hsame), List.find?_nil, Option.or_none]
      · rw [List.map_append, List.map_singleton, KeyedList.eraseDups_concat, Registration.path,
          if_pos hmem, h.paths]
    · -- a first registration comes last in the log and in the registry
      have hnot : qualify scope name ∉ log.map (·.path) := by
        rw [mem_map_path_iff, ← hpath, hnone]
        exact Bool.false_ne_true
      refine ⟨fun path => ?_, ?_, fun g hg => ?_, h.relations⟩
      · rw [atPath?, List.find?_append, List.find?_append, ← h.atPath path, atPath?]
      · rw [NameRegistry.paths, List.map_append, List.map_append, List.map_singleton,
          KeyedList.eraseDups_concat, Registration.path, if_neg hnot, ← h.paths, NameRegistry.paths]
      · exact (List.mem_append.1 hg).elim (fun hold => List.mem_append_left _ (h.mem g hold))
          (List.mem_append_right _)

/-- Each call keeps a registry with its log. -/
theorem Follows.after (h : r.Follows log) (c : Change σ) :
    (r.after c).Follows (logged log (c, r.error? c)) := by
  cases c with
  | register name scope signature => exact h.register name scope signature
  | relate parent child =>
    rw [NameRegistry.after, apply]
    cases hrelate : r.relate parent child with
    | error e => exact h
    | ok r' =>
      obtain ⟨-, ⟨-, rfl⟩ | ⟨hnew, rfl⟩⟩ := relate_cases hrelate
      · exact h
      · refine ⟨h.atPath, h.paths, h.mem, List.nodup_append.2 ⟨h.relations, List.nodup_singleton _, ?_⟩⟩
        rintro pair hpair other hother rfl
        exact hnew (List.mem_singleton.1 hother ▸ hpair)
  | reset => exact follows_empty

/-! ## Histories -/

/-- The registry behind calls. -/
def run (r : NameRegistry σ) (calls : List (Change σ)) : NameRegistry σ := calls.foldl after r

/-- The calls in order, each with its error if it fails. -/
def trace (r : NameRegistry σ) : List (Change σ) → List (Change σ × Option NamingError)
  | [] => []
  | c :: calls => (c, r.error? c) :: (r.after c).trace calls

theorem Follows.run (h : r.Follows log) (calls : List (Change σ)) :
    (r.run calls).Follows ((r.trace calls).foldl logged log) := by
  induction calls generalizing r log with
  | nil => exact h
  | cons c calls ih => exact ih (h.after c)

/-- Only names of the calls are put down. -/
theorem dotless_logOf_trace {calls : List (Change σ)} (h : ∀ c ∈ calls, c.IsDotless)
    (hlog : ∀ g ∈ log, '.' ∉ g.name.toList) :
    ∀ g ∈ (r.trace calls).foldl logged log, '.' ∉ g.name.toList := by
  induction calls generalizing r log with
  | nil => exact hlog
  | cons c calls ih =>
    obtain ⟨hc, hcalls⟩ := List.forall_mem_cons.1 h
    refine ih hcalls fun g hg => ?_
    obtain hold | ⟨name, scope, signature, hcall, rfl⟩ := mem_logged hg
    · exact hlog g hold
    · exact (hcall ▸ hc : Change.IsDotless (.register g.name scope signature))

/-! ## Answers -/

/-- What the registry behind a history is, in terms of its log. -/
structure KeepsFirst (r : NameRegistry σ) (log : List (Registration σ)) : Prop where
  /-- A name in a scope stands for the shape that was first registered under it. -/
  get? : ∀ name scope : String, '.' ∉ name.toList →
    r.get? name scope = log.find? fun g => g.name = name ∧ g.scope = scope
  /-- Names with dots, which are not registered, are looked up by their path. -/
  get?_path : ∀ name scope : String, r.get? name scope = log.find? (·.path = qualify scope name)
  /-- A name is registered in a scope exactly if it is listed there. -/
  isSome_get? : ∀ name scope : String, '.' ∉ name.toList →
    ((r.get? name scope).isSome ↔ name ∈ r.namesIn scope)
  nodup_paths : r.paths.Nodup
  /-- Models are listed in the order in which they were first registered. -/
  paths : r.paths = (log.map (·.path)).eraseDups
  length : r.registrations.length = (r.scopes.map fun scope => (r.namesIn scope).length).sum
  nodup_children : ∀ parent : String, (r.children parent).Nodup
  /-- Registering fails exactly if the name is registered in the scope for another shape. -/
  register_fails : ∀ (name scope : String) (signature : σ), '.' ∉ name.toList →
    ((∃ e, r.register name scope signature = .error e) ↔
      ∃ g ∈ r.registrations, g.name = name ∧ g.scope = scope ∧ g.signature ≠ signature)

theorem Follows.keepsFirst (h : r.Follows log) (hlog : ∀ g ∈ log, '.' ∉ g.name.toList) :
    r.KeepsFirst log := by
  -- Dots stand between scopes only, so that a path tells its name and its scope.
  have hname {name scope : String} (hdot : '.' ∉ name.toList) (g : Registration σ) (hg : g ∈ log) :
      g.path = qualify scope name ↔ g.name = name ∧ g.scope = scope :=
    ⟨fun heq => (qualify_injective (hlog g hg) hdot heq).symm, fun ⟨hn, hs⟩ => by
      rw [Registration.path, hn, hs]⟩
  have hnodup : r.paths.Nodup := h.paths ▸ KeyedList.nodup_eraseDups _
  have hfound {g : Registration σ} (hg : g ∈ r.registrations) : r.get? g.name g.scope = some g :=
    get?_of_mem hnodup hg
  have hmem {name scope : String} {g : Registration σ} (hdot : '.' ∉ name.toList)
      (hget : r.get? name scope = some g) : g ∈ r.registrations ∧ g.name = name ∧ g.scope = scope := by
    obtain ⟨hg, hpath⟩ := mem_of_get? hget
    exact ⟨hg, (hname hdot g (h.mem g hg)).1 hpath⟩
  refine
    { get? := fun name scope hdot => (h.atPath _).trans (List.find?_congr fun g hg => ?_)
      get?_path := fun name scope => h.atPath _
      isSome_get? := fun name scope hdot => ⟨fun hsome => ?_, fun hlisted => ?_⟩
      nodup_paths := hnodup
      paths := h.paths
      length := r.length_registrations
      nodup_children := NameRegistry.nodup_children h.relations
      register_fails := fun name scope signature hdot => ⟨?_, ?_⟩ }
  · exact decide_eq_decide.2 (hname hdot g hg)
  · obtain ⟨g, hget⟩ := Option.isSome_iff_exists.1 hsome
    obtain ⟨hg, hgname, hgscope⟩ := hmem hdot hget
    exact List.mem_map.2 ⟨g, List.mem_filter.2 ⟨hg, decide_eq_true hgscope⟩, hgname⟩
  · obtain ⟨g, hg, rfl⟩ := List.mem_map.1 hlisted
    obtain ⟨hg, hscope⟩ := List.mem_filter.1 hg
    rw [← of_decide_eq_true hscope, hfound hg, Option.isSome_some]
  · rintro ⟨e, hfails⟩
    obtain ⟨-, τ, hτ, hne⟩ := register_eq_error hfails
    obtain ⟨g, hget, rfl⟩ := Option.map_eq_some_iff.1 hτ
    obtain ⟨hg, hgname, hgscope⟩ := hmem hdot hget
    exact ⟨g, hg, hgname, hgscope, hne⟩
  · rintro ⟨g, hg, rfl, rfl, hne⟩
    exact ⟨.collision g.name g.scope, by rw [NameRegistry.register, hfound hg]; exact if_neg hne⟩

end NameRegistry

/-- The errors of calls on indexes, and the indexes behind them. -/
def Indexes.run {σ : Type} [DecidableEq σ] (x : Indexes σ) :
    List (NameRegistry.Change σ) → List (NameRegistry.Change σ × Option NamingError) × Indexes σ
  | [] => ([], x)
  | c :: calls =>
    let (error?, x') := x.apply c
    let (history, last) := x'.run calls
    ((c, error?) :: history, last)

namespace NameRegistry

variable {σ : Type} [DecidableEq σ]

theorem run_indexes (r : NameRegistry σ) (calls : List (Change σ)) :
    r.indexes.run calls = (r.trace calls, (r.run calls).indexes) := by
  induction calls generalizing r with
  | nil => rfl
  | cons c calls ih =>
    rw [Indexes.run, apply_indexes]
    dsimp only
    rw [ih]
    rfl

/-- A registry is a map in which the first to register a name in a scope keeps it: after every history
of calls that register names without dots, relate models and start again, some of which fail. Kept as
three indexes it gives the same answers and fails on the same calls, and a call that fails leaves all
three as they are. -/
theorem keepsFirst_run (calls : List (Change σ)) (h : ∀ c ∈ calls, c.IsDotless) :
    (run empty calls).KeepsFirst (logOf (trace empty calls)) ∧
      ∃ x : Indexes σ, Indexes.run {} calls = (trace empty calls, x) ∧ (run empty calls).Agrees x ∧
        ∀ c e x', x.apply c = (some e, x') → x' = x :=
  ⟨(follows_empty.run calls).keepsFirst (dotless_logOf_trace h nofun), (run empty calls).indexes,
    run_indexes empty calls, agrees_indexes _, fun _ _ _ => Indexes.eq_of_apply⟩

/-- Two users ask for the same names in the same scopes, before and after a reset. -/
def Change.cards : List (Change Nat) :=
  [.register "Card" globalScope 1, .relate "Card" "", .register "Card" globalScope 2,
    .register "Posts" "Card" 2, .relate "Card" "Card.Posts", .reset, .register "Posts" "Card" 3,
    .register "Posts" globalScope 4, .register "Posts" "Card" 5, .register "Posts" "Card" 3,
    .relate "Card" "Card.Posts", .relate "Card" "Posts", .relate "Card" "Card.Posts"]

/-- Three of the calls fail. -/
theorem keepsFirst_run_cards :
    (trace empty Change.cards).filterMap Prod.snd =
        [.emptyRelation, .collision "Card" globalScope, .collision "Posts" "Card"] ∧
      (run empty Change.cards).KeepsFirst (logOf (trace empty Change.cards)) ∧
      ∃ x : Indexes Nat, Indexes.run {} Change.cards = (trace empty Change.cards, x) ∧
        (run empty Change.cards).Agrees x ∧ ∀ c e x', x.apply c = (some e, x') → x' = x :=
  ⟨by decide, keepsFirst_run Change.cards (by decide)⟩

/-- A name with a dot stands for another one in a scope of its own. -/
example : (run (empty : NameRegistry Nat)
    [.register "Posts" "Card" 3, .register "Card.Posts" globalScope 3]).paths = ["Card.Posts"] := by decide

end NameRegistry

end FragmentShapes
