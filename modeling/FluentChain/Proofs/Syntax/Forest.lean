import Mathlib.Logic.ExistsUnique
import Mathlib.Logic.Relation
import FluentChain.Program.Basic

/-!
# Syntax forests

In a program that is built in order the children of a node are made before it (`Ordered`), and in a forest every
node belongs to one place only: to one parent, or to the declarations (`IsForest`).  The main fact on forests is
that what lies below a node determines the way up: of two nodes above a third, one is above the other
(`IsForest.within_or_within`), so what lies below two siblings is apart.
-/

namespace FluentChain.Program

variable {p : Program}

/-- Every node is made after its children. -/
def Ordered (p : Program) : Prop := ∀ n, ∀ c ∈ p.children n, c < n

/-- The node `m` is `n` or lies somewhere below it. -/
def Within (p : Program) (n m : NodeId) : Prop := Relation.ReflTransGen (fun n c => c ∈ p.children n) n m

/-- The node lies in a declaration. -/
def Reachable (p : Program) (m : NodeId) : Prop := ∃ d ∈ p.decls, p.Within d m

/-- Every node belongs to one parent and stands there once, or it is a declaration, and one only. -/
structure IsForest (p : Program) : Prop where
  ordered : p.Ordered
  nodup_children : ∀ n, (p.children n).Nodup
  parent_unique : ∀ {m n c}, c ∈ p.children m → c ∈ p.children n → m = n
  nodup_decls : p.decls.Nodup
  decl_not_child : ∀ {d n}, d ∈ p.decls → d ∉ p.children n

/-! ### Order -/

theorem exists_node_of_mem_children {n c : NodeId} (h : c ∈ p.children n) :
    ∃ node, p.node? n = some node ∧ c ∈ node.children := by
  unfold children at h
  cases hnode : p.node? n with
  | none => simp [hnode] at h
  | some node => exact ⟨node, rfl, by simpa [hnode] using h⟩

theorem lt_size_of_node? {n : NodeId} {node : Node} (h : p.node? n = some node) : n < p.nodes.size := by
  obtain ⟨data, hdata, -⟩ := Option.map_eq_some_iff.1 h
  exact (Array.getElem?_eq_some_iff.1 hdata).1

theorem lt_size_of_mem_children {n c : NodeId} (h : c ∈ p.children n) : n < p.nodes.size := by
  obtain ⟨node, hnode, -⟩ := exists_node_of_mem_children h
  exact lt_size_of_node? hnode

/-- Only the nodes that there are have to be looked at. -/
theorem ordered_of_forall_lt (h : ∀ n < p.nodes.size, ∀ c ∈ p.children n, c < n) : p.Ordered :=
  fun n c hc => h n (lt_size_of_mem_children hc) c hc

theorem Within.refl (n : NodeId) : p.Within n n := Relation.ReflTransGen.refl

theorem Within.child {n c m : NodeId} (hc : c ∈ p.children n) (h : p.Within c m) : p.Within n m :=
  Relation.ReflTransGen.head hc h

theorem Within.trans {n m l : NodeId} (h : p.Within n m) (h' : p.Within m l) : p.Within n l :=
  Relation.ReflTransGen.trans h h'

theorem Within.eq_or_child {n m : NodeId} (h : p.Within n m) :
    m = n ∨ ∃ c ∈ p.children n, p.Within c m := by
  rcases Relation.ReflTransGen.cases_head h with rfl | ⟨c, hc, hm⟩
  · exact Or.inl rfl
  · exact Or.inr ⟨c, hc, hm⟩

theorem Ordered.le_of_within (hp : p.Ordered) {n m : NodeId} (h : p.Within n m) : m ≤ n := by
  induction h with
  | refl => exact Nat.le_refl n
  | tail _ hc ih => exact Nat.le_trans (Nat.le_of_lt (hp _ _ hc)) ih

theorem Reachable.child {n c : NodeId} (h : p.Reachable n) (hc : c ∈ p.children n) : p.Reachable c := by
  obtain ⟨d, hd, hn⟩ := h
  exact ⟨d, hd, Relation.ReflTransGen.tail hn hc⟩

theorem Within.eq_or_parent {n m : NodeId} (h : p.Within n m) :
    m = n ∨ ∃ l, p.Within n l ∧ m ∈ p.children l := by
  rcases Relation.ReflTransGen.cases_tail h with heq | ⟨l, hl, hm⟩
  · exact Or.inl heq
  · exact Or.inr ⟨l, hl, hm⟩

/-! ### Apart -/

/-- Neither of two nodes lies within the other. -/
def Apart (p : Program) (a b : NodeId) : Prop := ¬ p.Within a b ∧ ¬ p.Within b a

namespace IsForest

/-- Of two nodes above a third, one is above the other. -/
theorem within_or_within (hp : p.IsForest) {a b m : NodeId} (ha : p.Within a m) (hb : p.Within b m) :
    p.Within a b ∨ p.Within b a := by
  -- both ways to `m` end with the same step, as `m` has one parent only
  induction ha with
  | refl => exact Or.inr hb
  | @tail l m hl hm ih =>
    rcases hb.eq_or_parent with heq | ⟨l', hl', hm'⟩
    · subst heq
      exact Or.inl (Relation.ReflTransGen.tail hl hm)
    · rw [hp.parent_unique hm' hm] at hl'
      exact ih hl'

theorem not_within_of_apart (hp : p.IsForest) {a b m : NodeId} (h : p.Apart a b) (ha : p.Within a m) :
    ¬ p.Within b m := by
  intro hb
  rcases hp.within_or_within ha hb with hab | hba
  · exact h.1 hab
  · exact h.2 hba

private theorem not_within_sibling (hp : p.IsForest) {n a b : NodeId} (ha : a ∈ p.children n)
    (hb : b ∈ p.children n) (hne : a ≠ b) : ¬ p.Within a b := by
  intro hab
  rcases hab.eq_or_parent with heq | ⟨l, hl, hbl⟩
  · exact hne heq.symm
  · rw [hp.parent_unique hbl hb] at hl
    exact absurd (hp.ordered n a ha) (Nat.not_lt.2 (hp.ordered.le_of_within hl))

theorem apart_of_siblings (hp : p.IsForest) {n a b : NodeId} (ha : a ∈ p.children n)
    (hb : b ∈ p.children n) (hne : a ≠ b) : p.Apart a b :=
  ⟨hp.not_within_sibling ha hb hne, hp.not_within_sibling hb ha hne.symm⟩

theorem pairwise_apart (hp : p.IsForest) {n : NodeId} {l : List NodeId} (hl : l.Sublist (p.children n)) :
    l.Pairwise p.Apart :=
  (hl.nodup (hp.nodup_children n)).imp_of_mem fun ha hb hne =>
    hp.apart_of_siblings (hl.subset ha) (hl.subset hb) hne

/-- What is apart from a node is apart from its children. -/
theorem apart_child (hp : p.IsForest) {a b c : NodeId} (h : p.Apart a b) (hc : c ∈ p.children b) :
    p.Apart a c := by
  refine ⟨?_, fun hca => h.2 (.child hc hca)⟩
  intro hac
  rcases hac.eq_or_parent with heq | ⟨l, hl, hcl⟩
  · subst heq
    exact h.2 (.child hc (.refl c))
  · rw [hp.parent_unique hcl hc] at hl
    exact h.1 hl

end IsForest

/-! ### The way up -/

/-- The nodes in `above` lead from `n` up to a declaration: the parent of `n`, the parent of that, and so on.  For a
declaration there are none. -/
inductive Ancestry (p : Program) : NodeId → List NodeId → Prop
  | decl {d : NodeId} (hd : d ∈ p.decls) : Ancestry p d []
  | child {n parent : NodeId} {above : List NodeId} (hn : n ∈ p.children parent) (hparent : Ancestry p parent above) :
    Ancestry p n (parent :: above)

theorem Ancestry.reachable {n : NodeId} {above : List NodeId} (h : p.Ancestry n above) : p.Reachable n := by
  induction h with
  | decl hd => exact ⟨_, hd, .refl _⟩
  | child hn _ ih => exact ih.child hn

/-- No node is left over: each is a declaration or belongs to a parent. -/
def Complete (p : Program) : Prop := ∀ n < p.nodes.size, n ∈ p.decls ∨ ∃ parent, n ∈ p.children parent

/-- Where no node is left over there is a way up from each. -/
theorem Complete.exists_ancestry (h : p.Complete) (hp : p.Ordered) {n : NodeId} (hn : n < p.nodes.size) :
    ∃ above, p.Ancestry n above := by
  -- parents have greater numbers, so the nodes are gone through from the last one down
  induction hk : p.nodes.size - n using Nat.strongRecOn generalizing n with
  | ind k ih =>
    rcases h n hn with hd | ⟨parent, hparent⟩
    · exact ⟨[], .decl hd⟩
    · have hcloser : p.nodes.size - parent < k := hk ▸ Nat.sub_lt_sub_left hn (hp parent n hparent)
      obtain ⟨above, habove⟩ := ih _ hcloser (lt_size_of_mem_children hparent) rfl
      exact ⟨parent :: above, .child hparent habove⟩

theorem IsForest.ancestry_unique (hp : p.IsForest) {n : NodeId} {above above' : List NodeId} (h : p.Ancestry n above)
    (h' : p.Ancestry n above') : above = above' := by
  induction h generalizing above' with
  | decl hd =>
    cases h' with
    | decl => rfl
    | child hn => exact absurd hn (hp.decl_not_child hd)
  | child hn _ ih =>
    cases h' with
    | decl hd => exact absurd hn (hp.decl_not_child hd)
    | child hn' hparent' =>
      cases hp.parent_unique hn hn'
      rw [ih hparent']

/-- Each node of a forest of which no node is left over lies in one declaration. -/
theorem IsForest.existsUnique_decl (hp : p.IsForest) (h : p.Complete) {n : NodeId} (hn : n < p.nodes.size) :
    ∃! d, d ∈ p.decls ∧ p.Within d n := by
  obtain ⟨above, habove⟩ := h.exists_ancestry hp.ordered hn
  obtain ⟨d, hd, hwithin⟩ := habove.reachable
  have htop : ∀ {a b : NodeId}, b ∈ p.decls → p.Within a b → b = a := by
    intro a b hb hab
    rcases hab.eq_or_parent with heq | ⟨parent, -, hchild⟩
    · exact heq
    · exact absurd hchild (hp.decl_not_child hb)
  refine ⟨d, ⟨hd, hwithin⟩, ?_⟩
  rintro d' ⟨hd', hwithin'⟩
  rcases hp.within_or_within hwithin hwithin' with h | h
  · exact htop hd' h
  · exact (htop hd h).symm

/-- There is one way up from each node of a forest of which no node is left over. -/
theorem IsForest.existsUnique_ancestry (hp : p.IsForest) (h : p.Complete) {n : NodeId} (hn : n < p.nodes.size) :
    ∃! above, p.Ancestry n above := by
  obtain ⟨above, habove⟩ := h.exists_ancestry hp.ordered hn
  exact ⟨above, habove, fun other hother => hp.ancestry_unique hother habove⟩

/-! ### A small program -/

/-- The program `q.From(User{}).In("Home").Pick("Zip")`.  The home of a user is an address, and addresses have a
city only. -/
def sample : Program where
  files := #[⟨"a", [12]⟩]
  nodes := #[⟨.ident "q" (some 3) false, ⟨0, 1, 1⟩, some 3⟩, ⟨.ident "From" (some 0) false, ⟨0, 1, 3⟩, some 7⟩,
    ⟨.selector 0 1, ⟨0, 1, 1⟩, some 7⟩, ⟨.composite [], ⟨0, 1, 8⟩, some 0⟩,
    ⟨.call 2 [3] false, ⟨0, 1, 1⟩, some 3⟩, ⟨.ident "In" (some 1) false, ⟨0, 1, 16⟩, some 8⟩,
    ⟨.selector 4 5, ⟨0, 1, 1⟩, some 8⟩, ⟨.literal .string "\"Home\"", ⟨0, 1, 19⟩, some 6⟩,
    ⟨.call 6 [7] false, ⟨0, 1, 1⟩, some 3⟩, ⟨.ident "Pick" (some 2) false, ⟨0, 1, 27⟩, some 9⟩,
    ⟨.selector 8 9, ⟨0, 1, 1⟩, some 9⟩, ⟨.literal .string "\"Zip\"", ⟨0, 1, 32⟩, some 6⟩,
    ⟨.call 10 [11] false, ⟨0, 1, 1⟩, some 3⟩]
  types := ⟨#[.named ⟨"User", none, some 4, []⟩, .named ⟨"Address", some ⟨0, 2, 6⟩, some 5, []⟩,
    .named ⟨"Name", none, some 6, []⟩, .named ⟨"Query", none, none, [0, 1, 2]⟩,
    .struct [⟨"Home", 1, false, none, none⟩], .struct [⟨"City", 2, false, none, none⟩], .basic "string",
    .signature ⟨[0], false, [3]⟩, .signature ⟨[2], false, [3]⟩, .signature ⟨[2], false, [3]⟩]⟩
  objects := #[⟨"(Query).From", "From", .method, some 7, some 3, none⟩,
    ⟨"(Query).In", "In", .method, some 8, some 3, none⟩,
    ⟨"(Query).Pick", "Pick", .method, some 9, some 3, none⟩, ⟨"q", "q", .var, some 3, none, none⟩,
    ⟨"offsetof", "offsetof", .builtin, none, none, none⟩]

theorem ordered_sample : sample.Ordered := ordered_of_forall_lt (by decide)

end FluentChain.Program
