import FluentChain.Proofs.Alike.Programs
import FluentChain.Proofs.Merge.Phases
import FluentChain.Proofs.Syntax.Lowered

/-!
# Programs that the same items describe

Two programs that the same items describe are alike, in whatever order they were given the items, as long as each
name has the same position in both (`alike_of_describes`).
-/

namespace FluentChain

open Program

variable {N : FileNames} {p q : Program} {a b : TypeId}

/-! ### What one text says of both programs -/

/-- A text that names its file stands for the same place in both programs. -/
theorem Program.Places.samePlace {text : String} {pos pos' : Pos} (hleft : p.fileNames = N.shared ++ N.left)
    (hright : q.fileNames = N.shared ++ N.right) (hp : p.Places text pos) (hq : q.Places text pos') :
    N.SamePlace pos pos' := by
  obtain ⟨name, hparse, hfile⟩ := hp
  obtain ⟨name', hparse', hfile'⟩ := hq
  rw [hparse, Option.some.injEq, WrittenPos.mk.injEq, Option.some.injEq] at hparse'
  obtain ⟨rfl, hline, hcol⟩ := hparse'
  exact ⟨hline, hcol, name, hleft ▸ hfile, hright ▸ hfile'⟩

/-- A signature that is the same for both tables has types of one shape in them. -/
theorem TypeTable.Signs.sameSignature {t u : TypeTable} {shape : SignatureShape} {sig sig' : Signature}
    (ht : t.Signs shape sig) (hu : u.Signs shape sig') : t.SameSignature u sig sig' where
  params := forall₂_join ht.params hu.params fun e _ _ ha hb => ⟨e, ha, hb⟩
  variadic := ht.variadic.trans hu.variadic.symm
  results := forall₂_join ht.results hu.results fun e _ _ ha hb => ⟨e, ha, hb⟩

/-- A shape has types in both tables that are of one shape, also where it is a signature's. -/
theorem TypeTable.HasShape.sameType {R : Pos → Pos → Prop} {t u : TypeTable} {shape : TypeShape}
    (ha : t.HasShape shape a) (hb : u.HasShape shape b) : TypeTable.SameType R t u a b := by
  cases ha with
  | plain ha =>
    cases hb with
    | plain hb => exact .plain ⟨_, ha, hb⟩
  | function ha hsig =>
    cases hb with
    | function hb hsig' => exact .function ha hb (hsig.sameSignature hsig')

section

variable (hleft : p.fileNames = N.shared ++ N.left) (hright : q.fileNames = N.shared ++ N.right)

include hleft hright

/-- A definition that both programs read from one dump is the same. -/
theorem DefinitionOf.sameType {type : TypeDump} (ha : DefinitionOf p type a) (hb : DefinitionOf q type b) :
    SameType N p q a b := by
  cases ha with
  | struct hfields ha hgs =>
    cases hb with
    | struct hfields' hb hgs' =>
      obtain rfl := Option.some.inj (hfields.symm.trans hfields')
      refine .struct ha hb (forall₂_join hgs hgs' fun f g g' hg hg' => ?_)
      exact ⟨hg.name.trans hg'.name.symm, ⟨_, hg.type, hg'.type⟩, hg.embedded.trans hg'.embedded.symm,
        hg.tag.trans hg'.tag.symm, rel_join hg.pos hg'.pos fun _ _ _ hp hq => hp.samePlace hleft hright hq⟩
    | plain hfields' => exact absurd (hfields.symm.trans hfields') (by simp)
  | plain hfields hunderlying ha =>
    cases hb with
    | struct hfields' => exact absurd (hfields.symm.trans hfields') (by simp)
    | plain hfields' hunderlying' hb =>
      obtain rfl := Option.some.inj (hunderlying.symm.trans hunderlying')
      exact .plain ⟨_, ha, hb⟩

omit hleft hright in
/-- Symbols that both programs read from one dump are the same. -/
theorem ObjectOf.sameObject {shape : ObjectShape} {obj obj' : Object} (h : ObjectOf p shape obj)
    (h' : ObjectOf q shape obj') : SameObject N p q obj obj' where
  key := h.key.trans h'.key.symm
  kind := h.kind.trans h'.kind.symm
  type := rel_join h.type h'.type fun _ _ _ ha hb => ha.sameType hb
  recv := rel_join h.recv h'.recv fun e _ _ ha hb => ⟨e, ha, hb⟩

end

/-! ### The whole programs -/

namespace Describes

variable {files : List String} {types : List TypeDump} {items : List Item} {loose : List TypeExpr} {key : String}

/-- The keys of symbols are listed in the order of the items. -/
theorem getElem?_keys (h : Describes files types items loose p) (o : ObjId) :
    p.key? o = (items.filterMap Item.key?)[o]? := by
  rw [← h.map_key, Program.getElem?_map_key]

/-- A symbol has a key if some item declares it. -/
theorem exists_key?_iff (h : Describes files types items loose p) :
    (∃ o, p.key? o = some key) ↔ key ∈ items.filterMap Item.key? := by
  simp only [h.getElem?_keys, List.mem_iff_getElem?]

/-- Keys are unique where the items fit together. -/
theorem key?_unique (h : Describes files types items loose p) (hitems : Consistent types items) {o o' : ObjId}
    (ho : p.key? o = some key) (ho' : p.key? o' = some key) : o = o' := by
  rw [h.getElem?_keys] at ho ho'
  exact (List.getElem?_inj (List.getElem?_eq_some_iff.1 ho).1 hitems.keys).1 (ho.trans ho'.symm)

/-- A symbol is what the item with its key says. -/
theorem exists_item (h : Describes files types items loose p) {o : ObjId} {obj : Object}
    (hobj : p.object? o = some obj) : ∃ i ∈ items, ∃ shape, i.object? = some shape ∧ ObjectOf p shape obj := by
  obtain ⟨shape, hshape, hof⟩ := exists_of_mem_right h.objects (Array.mem_toList_iff.2 (Array.mem_of_getElem? hobj))
  obtain ⟨i, hi, hshape⟩ := List.mem_filterMap.1 hshape
  exact ⟨i, hi, shape, hshape, hof⟩

end Describes

/-- Before the syntax is added the files have no declarations. -/
theorem files_of_bare {names : List String} (hfiles : p.fileNames = names) (hbare : p.syntaxOf = ([], [])) :
    p.files.toList = names.map (⟨·, []⟩) := by
  have hdecls : ∀ f ∈ p.files.toList, f.decls = [] := List.flatMap_eq_nil_iff.1 (congrArg Prod.snd hbare)
  rw [← hfiles, Program.fileNames, List.map_map, List.map_congr_left, List.map_id']
  intro f hf
  simp [← hdecls f hf]

/-- Programs are alike that the same items describe, before there is any syntax. -/
theorem alike_of_describes {types types' : List TypeDump} {items items' : List Item}
    (hp : Describes N.shared types items [] p) (hq : Describes N.shared types' items' [] q)
    (hleft : p.fileNames = N.shared ++ N.left) (hright : q.fileNames = N.shared ++ N.right)
    (hbare : p.syntaxOf = ([], [])) (hbare' : q.syntaxOf = ([], []))
    (htypes : types.Perm types') (hitems : items.Perm items') (hconsistent : Consistent types items)
    (hplace : ∀ name, placeIn types name = placeIn types' name) : Alike N p q := by
  have hconsistent' := hconsistent.perm hitems htypes
  refine ⟨?_, ⟨hp.ready.wellFormed, hq.ready.wellFormed, fun e => ?_, ?_⟩, fun key => ?_,
    fun ha hb => hp.key?_unique hconsistent ha hb, fun ha hb => hq.key?_unique hconsistent' ha hb, ?_, ?_⟩
  · refine ⟨N.shared.map (⟨·, []⟩), ?_, ?_, ?_⟩
    · rw [List.map_map]
      exact List.map_id N.shared
    · rw [files_of_bare hleft hbare, List.map_append]
    · rw [files_of_bare hright hbare', List.map_append]
  · have hnames : ∀ name, name ∈ declaredNames types ↔ name ∈ declaredNames types' := fun _ => (htypes.map _).mem_iff
    simp only [hp.has, hq.has, hnames, (hitems.flatMap_right Item.parts).mem_iff]
  · intro a b d d' ha hb hname
    have hd := hp.decls ha
    have hd' := hq.decls hb
    have hpos := hd.place
    have hdefinition := hd.definition
    rw [hname, hplace] at hpos
    rw [hname, hconsistent.definitionIn_perm hitems hconsistent'] at hdefinition
    exact ⟨hname, rel_join hpos hd'.place fun _ _ _ hp hq => hp.samePlace hleft hright hq,
      rel_join hdefinition hd'.definition fun _ _ _ ha hb => ha.sameType hleft hright hb⟩
  · rw [hp.exists_key?_iff, hq.exists_key?_iff, (hitems.filterMap _).mem_iff]
  · intro o o' obj obj' hobj hobj' hkey
    obtain ⟨i, hi, shape, hshape, hof⟩ := hp.exists_item hobj
    obtain ⟨i', hi', shape', hshape', hof'⟩ := hq.exists_item hobj'
    -- no two items have one key, so both symbols come from one item
    have hsame : shape.key = shape'.key := by rw [← hof.key, hkey, hof'.key]
    have hitem : i = i' := eq_of_nodup_filterMap hconsistent.keys hi (hitems.mem_iff.2 hi') (b := shape.key)
      (by simp [Item.key?, hshape]) (by simp [Item.key?, hshape', hsame])
    obtain rfl : shape = shape' := Option.some.inj (by rw [← hshape, ← hshape', hitem])
    exact hof.sameObject hof'
  · have hnodes : ∀ {p : Program}, p.syntaxOf = ([], []) → p.nodes.toList = [] := fun hbare =>
      List.map_eq_nil_iff.1 (congrArg Prod.fst hbare)
    rw [hnodes hbare, hnodes hbare']
    exact .nil

end FluentChain
