import Mathlib.Data.List.Nodup
import FluentChain.Proofs.Merge.Reading

/-!
# Items of dumps

A dump says one thing at a time about a program: how a type is defined, that a type has a method, that there is a
symbol.  These are its items, and all that a program knows of its types and symbols can be told from the items it
was made from (`Describes`).

Items fit together if each makes sense by itself, no type is defined by two of them, and no two of them declare a
symbol under one key (`Consistent`).  The order in which they come plays no part in this.
-/

namespace FluentChain

inductive Item
  | definition (type : TypeDump)
  | method (owner : String) (m : MethodDump)
  | object (obj : ObjectDump)

/-- A symbol as an item declares it. -/
structure ObjectShape where
  key : String
  name : String
  kind : ObjectKind
  type : Option TypeShape
  recv : Option TypeExpr
deriving DecidableEq, Repr

/-- The types that a symbol is declared with. -/
def ObjectShape.exprs (shape : ObjectShape) : List TypeExpr :=
  shape.recv.toList ++ shape.type.toList.flatMap TypeShape.exprs

namespace TypeDump

/-- Whether a dump says what a type is, and not only that it exists. -/
def defines (type : TypeDump) : Bool := type.fields.isSome || type.underlying.isSome

/-- The types that a definition mentions. -/
def exprs (type : TypeDump) : List TypeExpr :=
  match type.fields, type.underlying with
  | some fields, _ => fields.map fun f => .read f.type
  | none, some text => [.read text]
  | none, none => []

end TypeDump

/-- The receiver of a method. -/
def MethodDump.recv (m : MethodDump) (owner : String) : TypeExpr :=
  if m.pointer then .pointer (.declared owner) else .declared owner

/-- The type of a symbol. -/
def ObjectDump.shape? (obj : ObjectDump) : Option TypeShape :=
  match obj.params, obj.type with
  | some params, _ => some (.function (.ofTexts params obj.results))
  | none, some text => some (.plain (.read text))
  | none, none => none

namespace Item

/-- The symbol that an item declares. -/
def object? : Item → Option ObjectShape
  | .definition _ => none
  | .method owner m =>
    some ⟨"(" ++ (m.recv owner).text ++ ")." ++ m.name, m.name, .method,
      some (.function (.ofTexts m.params m.results)), some (m.recv owner)⟩
  | .object obj => some ⟨obj.key, obj.name.getD (Build.nameOfKey obj.key), obj.kind, obj.shape?, none⟩

def key? (i : Item) : Option String := i.object?.map (·.key)

/-- The definition that an item gives for a name. -/
def definition? (name : String) : Item → Option TypeDump
  | .definition type => if type.name = name ∧ type.defines then some type else none
  | _ => none

/-- The name that an item defines. -/
def defined? : Item → Option String
  | .definition type => if type.defines then some type.name else none
  | _ => none

/-- The key of the method that an item gives to a name. -/
def methodKey? (name : String) : Item → Option String
  | .method owner m => if owner = name then (Item.method owner m).key? else none
  | _ => none

/-- The types that an item mentions. -/
def exprs : Item → List TypeExpr
  | .definition type => type.exprs
  | i => i.object?.toList.flatMap ObjectShape.exprs

/-- The types that an item brings with it. -/
def parts (i : Item) : List TypeExpr := i.exprs.flatMap TypeExpr.parts

/-- The positions that an item mentions. -/
def places : Item → List String
  | .definition type => (type.fields.getD []).filterMap (·.pos)
  | .method .. => []
  | .object obj => obj.pos.toList

/-- The parameters of an item. -/
def params : Item → List String
  | .definition _ => []
  | .method _ m => m.params
  | .object obj => obj.params.getD []

/-- The named type that an item belongs to. -/
def owner? : Item → Option String
  | .definition type => some type.name
  | .method owner _ => some owner
  | .object _ => none

/-- An item that makes sense where the names in `declared` are declared. -/
structure Sound (declared : List String) (i : Item) : Prop where
  owner : ∀ name ∈ i.owner?, name ∈ declared
  places : ∀ text ∈ i.places, IsPlace text
  params : VariadicLast i.params
  exprs : ∀ e ∈ i.exprs, e.Known declared

end Item

def declaredNames (types : List TypeDump) : List String := types.map (·.name)

/-- Items that fit together where the names of `types` are declared. -/
structure Consistent (types : List TypeDump) (items : List Item) : Prop where
  sound : ∀ i ∈ items, i.Sound (declaredNames types)
  defined : (items.filterMap Item.defined?).Nodup
  keys : (items.filterMap Item.key?).Nodup

/-- The definition that items give for a name. -/
def definitionIn (items : List Item) (name : String) : Option TypeDump := items.findSome? (Item.definition? name)

theorem filterMap_concat_none {α β : Type} {f : α → Option β} {l : List α} {a : α} (h : f a = none) :
    (l ++ [a]).filterMap f = l.filterMap f := by
  rw [List.filterMap_append, List.filterMap_cons_none h, List.filterMap_nil, List.append_nil]

theorem filterMap_concat_some {α β : Type} {f : α → Option β} {l : List α} {a : α} {b : β} (h : f a = some b) :
    (l ++ [a]).filterMap f = l.filterMap f ++ [b] := by
  rw [List.filterMap_append, List.filterMap_cons_some h, List.filterMap_nil]

theorem Item.definition?_eq_some_iff {name : String} {i : Item} {type : TypeDump} :
    i.definition? name = some type ↔ i = .definition type ∧ type.name = name ∧ type.defines := by
  cases i with
  | definition type' =>
    simp only [definition?, Option.ite_none_right_eq_some, Option.some.injEq, Item.definition.injEq]
    constructor
    · rintro ⟨h, rfl⟩
      exact ⟨rfl, h⟩
    · rintro ⟨rfl, h⟩
      exact ⟨h, rfl⟩
  | _ => simp [Item.definition?]

/-- Where no value comes twice, only one element has it. -/
theorem eq_of_nodup_filterMap {α β : Type} {f : α → Option β} {l : List α} (h : (l.filterMap f).Nodup) {a a' : α}
    {b : β} (ha : a ∈ l) (ha' : a' ∈ l) (hb : f a = some b) (hb' : f a' = some b) : a = a' := by
  have hmem : ∀ {c : α} {l : List α}, c ∈ l → f c = some b → b ∈ l.filterMap f := fun hc hb =>
    List.mem_filterMap.2 ⟨_, hc, hb⟩
  induction l with
  | nil => exact absurd ha List.not_mem_nil
  | cons c l ih =>
    rcases List.mem_cons.1 ha with hac | ha <;> rcases List.mem_cons.1 ha' with hac' | ha'
    · rw [hac, hac']
    · rw [List.filterMap_cons_some (hac ▸ hb)] at h
      exact absurd (hmem ha' hb') (List.nodup_cons.1 h).1
    · rw [List.filterMap_cons_some (hac' ▸ hb')] at h
      exact absurd (hmem ha hb) (List.nodup_cons.1 h).1
    · exact ih (((List.sublist_cons_self c l).filterMap f).nodup h) ha ha'

namespace Consistent

variable {types : List TypeDump} {items items' : List Item}

theorem nil (types : List TypeDump) : Consistent types [] :=
  ⟨by simp, List.nodup_nil, List.nodup_nil⟩

theorem perm {types' : List TypeDump} (h : Consistent types items) (hperm : items.Perm items')
    (htypes : types.Perm types') : Consistent types' items' where
  sound i hi := by
    have hnames : ∀ name ∈ declaredNames types, name ∈ declaredNames types' := fun _ => (htypes.map _).mem_iff.1
    have hi := h.sound i (hperm.mem_iff.2 hi)
    exact ⟨fun name hname => hnames name (hi.owner name hname), hi.places, hi.params,
      fun e he => (hi.exprs e he).mono hnames⟩
  defined := (hperm.filterMap _).nodup_iff.1 h.defined
  keys := (hperm.filterMap _).nodup_iff.1 h.keys

theorem of_append {before after : List Item} (h : Consistent types (before ++ after)) :
    Consistent types before where
  sound i hi := h.sound i (List.mem_append_left after hi)
  defined := ((List.sublist_append_left before after).filterMap _).nodup h.defined
  keys := ((List.sublist_append_left before after).filterMap _).nodup h.keys

/-- The definition that items give for a name is given by one of them. -/
theorem definitionIn_eq_some_iff (h : Consistent types items) {name : String} {type : TypeDump} :
    definitionIn items name = some type ↔ ∃ i ∈ items, i.definition? name = some type := by
  constructor
  · exact List.exists_of_findSome?_eq_some
  · rintro ⟨i, hi, hdef⟩
    have hsome : (definitionIn items name).isSome := List.findSome?_isSome_iff.2 ⟨i, hi, by simp [hdef]⟩
    obtain ⟨other, hother⟩ := Option.isSome_iff_exists.1 hsome
    obtain ⟨j, hj, hdef'⟩ := List.exists_of_findSome?_eq_some hother
    obtain ⟨hij, hname, hdefines⟩ := Item.definition?_eq_some_iff.1 hdef
    obtain ⟨hj', hname', hdefines'⟩ := Item.definition?_eq_some_iff.1 hdef'
    have heq := eq_of_nodup_filterMap h.defined hi hj (b := name) (by simp [hij, Item.defined?, hname, hdefines])
      (by simp [hj', Item.defined?, hname', hdefines'])
    rw [heq, hdef'] at hdef
    rw [hother, hdef]

/-- A name is defined once, so it does not matter where. -/
theorem definitionIn_perm (h : Consistent types items) (hperm : items.Perm items') {types' : List TypeDump}
    (h' : Consistent types' items') (name : String) : definitionIn items name = definitionIn items' name := by
  ext type
  simp only [h.definitionIn_eq_some_iff, h'.definitionIn_eq_some_iff, hperm.mem_iff]

/-- What one more item must satisfy. -/
theorem concat_iff (h : Consistent types items) (i : Item) :
    Consistent types (items ++ [i]) ↔
      i.Sound (declaredNames types) ∧ (∀ name ∈ i.defined?, name ∉ items.filterMap Item.defined?) ∧
        ∀ key ∈ i.key?, key ∉ items.filterMap Item.key? := by
  have hconcat : ∀ {α : Type} (f : Item → Option α), (items.filterMap f).Nodup →
      (((items ++ [i]).filterMap f).Nodup ↔ ∀ a ∈ f i, a ∉ items.filterMap f) := by
    intro α f hnodup
    cases hf : f i with
    | none => simp [filterMap_concat_none hf, hnodup]
    | some a =>
      have hperm : (items.filterMap f ++ [a]).Perm (a :: items.filterMap f) := List.perm_append_singleton _ _
      simp [filterMap_concat_some hf, hperm.nodup_iff, hnodup]
  have hsound : (∀ j ∈ items ++ [i], j.Sound (declaredNames types)) ↔ i.Sound (declaredNames types) := by
    simp only [List.forall_mem_append, List.forall_mem_singleton]
    exact and_iff_right h.sound
  constructor
  · intro h'
    exact ⟨hsound.1 h'.sound, (hconcat _ h.defined).1 h'.defined, (hconcat _ h.keys).1 h'.keys⟩
  · rintro ⟨hi, hdefined, hkeys⟩
    exact ⟨hsound.2 hi, (hconcat _ h.defined).2 hdefined, (hconcat _ h.keys).2 hkeys⟩

end Consistent

end FluentChain
