import FluentChain.Proofs.Merge.Describes

/-!
# Declaring what dumps describe

The steps before the syntax, in which types are declared, defined and given their methods, and symbols are
declared.  Each of them succeeds exactly if its item fits together with those before it, and then the program says
what that item says too.
-/

namespace FluentChain

variable {declared files : List String} {types : List TypeDump} {items : List Item} {loose : List TypeExpr}
  {p q : Program} {name : String}

namespace Build

/-! ### Names -/

theorem placeIn_concat (types : List TypeDump) (type : TypeDump) (name : String) :
    placeIn (types ++ [type]) name = (placeIn types name).or (if type.name = name then type.pos else none) := by
  rw [placeIn, List.findSome?_append, List.findSome?_singleton]
  rfl

theorem placeIn_concat_self (types : List TypeDump) (type : TypeDump) :
    placeIn (types ++ [type]) type.name = (placeIn types type.name).or type.pos := by
  rw [placeIn_concat, if_pos rfl]

theorem placeIn_concat_of_ne {type : TypeDump} (h : type.name ≠ name) (types : List TypeDump) :
    placeIn (types ++ [type]) name = placeIn types name := by
  rw [placeIn_concat, if_neg h, Option.or_none]

theorem placeIn_eq_none (h : name ∉ declaredNames types) : placeIn types name = none := by
  refine List.findSome?_eq_none_iff.2 fun type htype => if_neg ?_
  rintro rfl
  exact h (List.mem_map_of_mem htype)

theorem mem_declaredNames_concat {type : TypeDump} :
    name ∈ declaredNames (types ++ [type]) ↔ name ∈ declaredNames types ∨ name = type.name := by
  simp [declaredNames]

/-- A program in which names are declared and nothing else. -/
theorem describes_names (ht : p.types.WellFormed) (hnodup : p.fileNames.Nodup) (hfiles : files <+: p.fileNames)
    (hobjects : p.objects = #[])
    (hhas : ∀ e, p.types.Has e ↔ ∃ name ∈ declaredNames types, e = .declared name)
    (hdecls : ∀ {id : TypeId} {decl : NamedType}, p.types.get? id = some (.named decl) →
      Option.Rel p.Places (placeIn types decl.name) decl.pos ∧ decl.underlying = none ∧ decl.methods = []) :
    Describes files types [] [] p where
  ready.wellFormed := ht
  ready.nodup := hnodup
  files := hfiles
  ready.declares.has name hname := (hhas _).2 ⟨name, hname, rfl⟩
  ready.declares.only name hname := by
    obtain ⟨other, hother, heq⟩ := (hhas _).1 hname
    cases heq
    exact Or.inr hother
  has e := by simpa using hhas e
  owners := by simp
  decls hid := by
    obtain ⟨hplace, hunderlying, hmethods⟩ := hdecls hid
    exact ⟨hplace, hunderlying ▸ .none, by rw [hmethods]; rfl⟩
  objects := by
    rw [hobjects]
    exact .nil

theorem has_of_names (h : Describes files types [] [] p) (e : TypeExpr) :
    p.types.Has e ↔ ∃ name ∈ declaredNames types, e = .declared name := by
  simpa using h.has e

theorem objects_of_names (h : Describes files types [] [] p) : p.objects = #[] := by
  have hnone := h.objects
  rw [List.filterMap_nil, List.forall₂_nil_left_iff] at hnone
  exact Array.toList_eq_nil_iff.1 hnone

theorem decl_of_names (h : Describes files types [] [] p) {id : TypeId} {decl : NamedType}
    (hid : p.types.get? id = some (.named decl)) :
    Option.Rel p.Places (placeIn types decl.name) decl.pos ∧ decl.underlying = none ∧ decl.methods = [] := by
  have hof := h.decls hid
  refine ⟨hof.place, ?_, List.map_eq_nil_iff.1 hof.methods⟩
  rw [← Option.not_isSome_iff_eq_none, isSome_eq_of_rel hof.definition]
  exact Bool.false_ne_true

/-- A name that is there gets the position if it has none. -/
theorem describes_declare_known (h : Describes files types [] [] p) {type : TypeDump} {pos : Option Pos}
    (hpos : Option.Rel p.Places type.pos pos) {id : TypeId} (hn : p.types.named? type.name = some id) :
    Describes files (types ++ [type]) [] [] { p with types := (p.types.declare type.name pos).2 } := by
  obtain ⟨decl, hid, hname⟩ := TypeTable.get?_of_named? hn
  have hold : type.name ∈ declaredNames types := by
    obtain ⟨name, hname', heq⟩ := (has_of_names h _).1 (TypeTable.Denotes.of_named? hn).has
    cases heq
    exact hname'
  have hobjects := objects_of_names h
  simp only [TypeTable.declare, hn]
  refine describes_names (h.ready.wellFormed.modifyDecl hid rfl) h.ready.nodup h.files hobjects (fun e => ?_)
    fun {id' decl'} hid' => ?_
  · rw [TypeTable.has_modifyDecl_iff hid rfl, has_of_names h]
    simp only [mem_declaredNames_concat]
    exact exists_congr fun name => and_congr_left fun _ => (or_iff_left_of_imp fun heq => heq ▸ hold).symm
  · rw [TypeTable.get?_modifyDecl hid] at hid'
    split at hid'
    · cases hid'
      obtain ⟨hplace, hrest⟩ := decl_of_names h hid
      refine ⟨?_, hrest⟩
      show Option.Rel _ (placeIn _ decl.name) _
      rw [hname] at hplace ⊢
      rw [placeIn_concat_self, Option.orElse_eq_orElse, Option.orElse_eq_or]
      exact rel_or hplace hpos
    · rename_i hne
      obtain ⟨hplace, hrest⟩ := decl_of_names h hid'
      refine ⟨?_, hrest⟩
      have hother : type.name ≠ decl'.name := fun heq =>
        hne (h.ready.wellFormed.names hid' hid (heq.symm.trans hname.symm))
      rw [placeIn_concat_of_ne hother]
      exact hplace

/-- A new name gets the next index. -/
theorem describes_declare_new (h : Describes files types [] [] p) {type : TypeDump} {pos : Option Pos}
    (hpos : Option.Rel p.Places type.pos pos) (hn : p.types.named? type.name = none) :
    Describes files (types ++ [type]) [] [] { p with types := (p.types.declare type.name pos).2 } := by
  have hnew := TypeTable.named?_eq_none_iff.1 hn
  have hobjects := objects_of_names h
  simp only [TypeTable.declare, hn]
  refine describes_names (h.ready.wellFormed.push (by simp [Ty.components]) False.elim fun decl hdecl => ?_)
    h.ready.nodup h.files hobjects (fun e => ?_) fun {id decl} hid => ?_
  · cases hdecl
    exact hnew
  · have hid : (p.types.push (.named ⟨type.name, pos, none, []⟩)).2.Denotes (.declared type.name) p.types.size :=
      TypeTable.denotes_declared_iff.2 ⟨_, TypeTable.get?_push_size _ _, rfl⟩
    rw [TypeTable.has_push_iff h.ready.wellFormed, has_of_names h]
    simp only [mem_declaredNames_concat, or_and_right, exists_or, exists_eq_left]
    exact or_congr_right ⟨fun he => he.expr_unique hid, fun he => he ▸ hid⟩
  · rw [TypeTable.get?_push] at hid
    split at hid
    · cases hid
      have hunplaced : placeIn types type.name = none :=
        placeIn_eq_none fun hmem => hnew ((has_of_names h _).2 ⟨_, hmem, rfl⟩)
      refine ⟨?_, rfl, rfl⟩
      rw [placeIn_concat_self, hunplaced, Option.none_or]
      exact hpos
    · obtain ⟨hplace, hrest⟩ := decl_of_names h hid
      have hother : type.name ≠ decl.name := fun heq => hnew (heq ▸ (TypeTable.Denotes.declared hid).has)
      refine ⟨?_, hrest⟩
      rw [placeIn_concat_of_ne hother]
      exact hplace

theorem describes_declare (h : Describes files types [] [] p) {type : TypeDump} {pos : Option Pos}
    (hpos : Option.Rel p.Places type.pos pos) :
    Describes files (types ++ [type]) [] [] { p with types := (p.types.declare type.name pos).2 } := by
  cases hn : p.types.named? type.name with
  | some id => exact describes_declare_known h hpos hn
  | none => exact describes_declare_new h hpos hn

theorem decides_declareTypeOf (type : TypeDump) :
    Decides (Describes files types [] []) (declareTypeOf type) (∀ s ∈ type.pos, IsPlace s)
      fun _ => Describes files (types ++ [type]) [] [] := by
  refine Decides.of_forall fun p hp => ?_
  refine Decides.bind_total (adds_position? type.pos hp.ready) fun _ pos => Decides.of_forall fun q ⟨hq, hpos⟩ => ?_
  have hnext := describes_declare (hp.grow hq) hpos
  refine Decides.bind_total (Decides.modifyGet (Q := fun _ => Describes files (types ++ [type]) [] []) ?_)
    fun _ _ => Decides.pure fun _ h => h
  rintro r rfl
  exact hnext

/-! ### Definitions -/

theorem run_setUnderlying (id underlying : TypeId) (p : Program) :
    setUnderlying id underlying p = match p.types.decl? id with
      | none => .error (.badReceiver (p.types.display id)) p
      | some decl =>
        if decl.underlying.isSome then .error (.conflictingType (p.types.display id)) p
        else .ok () { p with
          types := p.types.modifyDecl id fun d => { d with underlying := some underlying } } := by
  rw [setUnderlying, get_bind]
  cases p.types.decl? id with
  | none => rfl
  | some decl =>
    dsimp only
    split <;> rfl

/-- An underlying type can be given to a name that no item has defined. -/
theorem decides_setUnderlying (h : Describes files types items loose p) {type : TypeDump} {named u : TypeId}
    (hname : type.name ∈ declaredNames types) (hnamed : p.types.Denotes (.declared type.name) named)
    (hdefines : type.defines = true) (hu : DefinitionOf p type u)
    (hloose : ∀ e, e ∈ loose ↔ e ∈ (Item.definition type).parts) :
    Decides (fun q => q = p) (setUnderlying named u) (type.name ∉ items.filterMap Item.defined?)
      fun _ => Describes files types (items ++ [.definition type]) [] := by
  rintro q rfl
  obtain ⟨decl, hid, hdecl⟩ := TypeTable.denotes_declared_iff.1 hnamed
  have hof := h.decls hid
  have hsome : decl.underlying.isSome ↔ type.name ∈ items.filterMap Item.defined? := by
    rw [← isSome_definitionIn_iff, ← hdecl, isSome_eq_of_rel hof.definition]
  rw [run_setUnderlying]
  simp only [TypeTable.decl?, hid]
  by_cases hold : decl.underlying.isSome
  · simp only [hold, ↓reduceIte]
    exact not_not.2 (hsome.1 hold)
  simp only [hold, Bool.false_eq_true, ↓reduceIte]
  refine ⟨mt hsome.2 hold, ?_⟩
  have hgrow : q.GrowsTo { q with types := q.types.modifyDecl named fun d => { d with underlying := some u } } :=
    ⟨TypeTable.growsTo_modifyDecl hid rfl, List.prefix_refl _, List.prefix_refl _⟩
  refine h.add ⟨h.ready.wellFormed.modifyDecl hid rfl, h.ready.declares.modifyDecl hid rfl, h.ready.nodup⟩
    hgrow.files (fun e => TypeTable.has_modifyDecl_iff hid rfl) hloose (by simpa [Item.owner?] using hname) ?_ ?_
  · intro id decl' hid'
    rw [TypeTable.get?_modifyDecl hid] at hid'
    split at hid'
    · cases hid'
      have hnone : definitionIn items decl.name = none := by
        rw [← Option.not_isSome_iff_eq_none, ← isSome_eq_of_rel hof.definition]
        exact hold
      have hsome : (Item.definition type).definition? decl.name = some type := by
        simp [Item.definition?, hdecl, hdefines]
      refine ⟨(hof.mono hgrow).place, ?_, ?_⟩
      · rw [definitionIn_concat, hnone, hsome]
        exact .some (hu.mono hgrow)
      · rw [filterMap_concat_none rfl]
        exact (hof.mono hgrow).methods
    · rename_i hne
      have hother : type.name ≠ decl'.name := fun heq =>
        hne (h.ready.wellFormed.names hid' hid (heq.symm.trans hdecl.symm))
      refine ((h.decls hid').mono hgrow).of_items ?_ ?_
      · simp [definitionIn_concat, Item.definition?, hother]
      · exact filterMap_concat_none rfl
  · rw [filterMap_concat_none rfl]
    exact h.objects.imp fun _ _ ho => ho.mono hgrow

/-- What a struct definition reads. -/
theorem adds_struct {type : TypeDump} {fields : List FieldDump} (hfields : type.fields = some fields) :
    Adds declared p (do onTypes (·.push (.struct (← fields.mapM field))))
      (∀ f ∈ fields, (∀ s ∈ f.pos, IsPlace s) ∧ (TypeExpr.read f.type).Known declared)
      (fields.flatMap fun f => (TypeExpr.read f.type).parts) fun u q => DefinitionOf q type u := by
  have hpush : ∀ gs q, List.Forall₂ (FieldOf q) fields gs →
      Adds declared q (onTypes (·.push (.struct gs))) True [] fun u r => DefinitionOf r type u := by
    rintro gs q hgs hq r rfl
    have hcomponents : ∀ c ∈ gs.map (·.type), c < r.types.size := by
      intro c hc
      obtain ⟨g, hg, rfl⟩ := List.mem_map.1 hc
      obtain ⟨f, -, hf⟩ := exists_of_mem_right hgs hg
      exact hf.type.lt_size
    have hgrown := (TypeTable.Grown.refl hq.wellFormed hq.declares).push_shapeless (.struct gs) hcomponents
      (Or.inl ⟨gs, rfl⟩)
    have hfiles : r.fileNames <+: ({ r with types := (r.types.push (.struct gs)).2 } : Program).fileNames :=
      List.prefix_refl _
    refine ⟨trivial, ⟨hgrown, hfiles, hq.nodup, rfl⟩, ?_⟩
    exact .struct hfields (TypeTable.get?_push_size _ _) (hgs.imp fun _ _ hf => hf.mono hgrown.old.growsTo hfiles)
  refine (Adds.bind (adds_fields fields) fun gs q _ hgs => hpush gs q hgs).congr (iff_of_eq (and_true _)) ?_
  rw [List.append_nil]

theorem decides_declareType (h : p.types.Has (.declared name)) :
    Decides (fun q => q = p) (declareType name none) True fun id q => q = p ∧ p.types.Denotes (.declared name) id := by
  rintro q rfl
  cases hn : q.types.named? name with
  | none => exact absurd h (TypeTable.named?_eq_none_iff.1 hn)
  | some id =>
    have hrun : declareType name none q = .ok (q.types.declare name none).1
        { q with types := (q.types.declare name none).2 } := rfl
    rw [hrun, TypeTable.declare_none hn]
    exact ⟨trivial, rfl, .of_named? hn⟩

/-- A definition that fits together with the items before it. -/
private theorem consistent_definition_iff (hc : Consistent types items) {type : TypeDump}
    (hname : type.name ∈ declaredNames types) :
    Consistent types (items ++ [.definition type]) ↔
      ((∀ text ∈ (Item.definition type).places, IsPlace text) ∧ ∀ e ∈ type.exprs, e.Known (declaredNames types)) ∧
        (type.defines → type.name ∉ items.filterMap Item.defined?) := by
  rw [hc.concat_iff]
  constructor
  · rintro ⟨hsound, hdefined, -⟩
    exact ⟨⟨hsound.places, hsound.exprs⟩, fun hd => hdefined type.name (by simp [Item.defined?, hd])⟩
  · rintro ⟨⟨hplaces, hexprs⟩, hdefined⟩
    refine ⟨⟨by simpa [Item.owner?] using hname, hplaces, trivial, hexprs⟩, ?_, by simp [Item.key?, Item.object?]⟩
    intro name hn
    simp only [Item.defined?, Option.mem_def, Option.ite_none_right_eq_some, Option.some.injEq] at hn
    exact hn.2 ▸ hdefined hn.1

theorem decides_defineType (hc : Consistent types items) {type : TypeDump} (hname : type.name ∈ declaredNames types) :
    Decides (Describes files types items []) (defineType type) (Consistent types (items ++ [.definition type]))
      fun _ => Describes files types (items ++ [.definition type]) [] := by
  refine Decides.of_forall fun p hp => ?_
  have hdeclared := decides_declareType (hp.ready.declares.has type.name hname)
  unfold defineType
  refine Decides.total_bind hdeclared fun named => Decides.of_forall fun q ⟨hq, hnamed⟩ => ?_
  subst hq
  split
  · rename_i fields hfields
    have hdefines : type.defines = true := by simp [TypeDump.defines, hfields]
    have hexprs : type.exprs = fields.map fun f => .read f.type := by simp [TypeDump.exprs, hfields]
    have hplaces : (Item.definition type).places = fields.filterMap (·.pos) := by simp [Item.places, hfields]
    simp only [defineStruct]
    rw [← bind_assoc]
    refine (Decides.bind (adds_struct hfields hp.ready) fun _ u => Decides.of_forall fun r ⟨hgrown, hu⟩ =>
      decides_setUnderlying (hp.grow hgrown) hname (hnamed.mono hgrown.types.old.growsTo) hdefines hu ?_).congr ?_
    · simp [Item.parts, Item.exprs, hexprs, List.flatMap_map]
    · have hplaced : (∀ text ∈ fields.filterMap (·.pos), IsPlace text) ↔ ∀ f ∈ fields, ∀ s ∈ f.pos, IsPlace s := by
        simp only [List.mem_filterMap, Option.mem_def]
        exact ⟨fun h f hf s hs => h s ⟨f, hf, hs⟩, fun h s ⟨f, hf, hs⟩ => h f hf s hs⟩
      rw [consistent_definition_iff hc hname, hexprs, hplaces, hplaced, List.forall_mem_map]
      simp only [forall_and, hdefines, forall_const]
  · rename_i text hfields hunderlying
    have hdefines : type.defines = true := by simp [TypeDump.defines, hunderlying]
    have hexprs : type.exprs = [.read text] := by simp [TypeDump.exprs, hfields, hunderlying]
    have hplaces : (Item.definition type).places = [] := by simp [Item.places, hfields]
    refine (Decides.bind (adds_parseType text hp.ready) fun _ u => Decides.of_forall fun r ⟨hgrown, hu⟩ =>
      decides_setUnderlying (hp.grow hgrown) hname (hnamed.mono hgrown.types.old.growsTo) hdefines
        (.plain hfields hunderlying hu) ?_).congr ?_
    · simp [Item.parts, Item.exprs, hexprs]
    · simp [consistent_definition_iff hc hname, hexprs, hplaces, hdefines]
  · rename_i hfields hunderlying
    have hdefines : type.defines = false := by simp [TypeDump.defines, hfields, hunderlying]
    have hexprs : type.exprs = [] := by simp [TypeDump.exprs, hfields, hunderlying]
    have hplaces : (Item.definition type).places = [] := by simp [Item.places, hfields]
    refine (Decides.pure ?_).congr (iff_of_true trivial ?_)
    · rintro r rfl
      refine hp.add hp.ready (List.prefix_refl _) (fun _ => Iff.rfl) ?_ (by simpa [Item.owner?] using hname) ?_ ?_
      · simp [Item.parts, Item.exprs, hexprs]
      · intro id decl hid
        refine (hp.decls hid).of_items ?_ (filterMap_concat_none rfl)
        simp [definitionIn_concat, Item.definition?, hdefines]
      · rw [filterMap_concat_none rfl]
        exact hp.objects
    · simp [consistent_definition_iff hc hname, hexprs, hplaces, hdefines]

/-! ### Symbols -/

theorem run_object (obj : Object) (p : Program) :
    object obj p = match p.lookupObject? obj.key with
      | some _ => .error (.duplicateObject obj.key) p
      | none => .ok p.objects.size { p with objects := p.objects.push obj } := by
  rw [object, get_bind]
  cases p.lookupObject? obj.key <;> rfl

theorem run_method (recv : TypeId) (name : String) (sig : TypeId) (p : Program) :
    method recv name sig p = match p.types.methodOwner? recv with
      | none => .error (.badReceiver (p.types.display recv)) p
      | some owner =>
        match p.lookupObject? (methodKey p.types recv name) with
        | some _ => .error (.duplicateObject (methodKey p.types recv name)) p
        | none => .ok p.objects.size { p with
            objects := p.objects.push ⟨methodKey p.types recv name, name, .method, some sig, some recv, none⟩
            types := p.types.modifyDecl owner fun d => { d with methods := d.methods ++ [p.objects.size] } } := by
  rw [method, get_bind]
  cases p.types.methodOwner? recv with
  | none => rfl
  | some owner =>
    have hrun := run_object ⟨methodKey p.types recv name, name, .method, some sig, some recv, none⟩ p
    cases hkey : p.lookupObject? (methodKey p.types recv name) with
    | some o =>
      simp only [hkey] at hrun ⊢
      rw [bind_of_error hrun]
    | none =>
      simp only [hkey] at hrun ⊢
      rw [bind_of_ok hrun]
      rfl

theorem growsTo_pushObject (p : Program) (obj : Object) : p.GrowsTo { p with objects := p.objects.push obj } where
  types := .refl _
  files := List.prefix_refl _
  objects := by simp

/-- The symbols of items, with one more. -/
theorem objects_concat (h : Describes files types items loose p) (hgrow : p.GrowsTo q) {i : Item} {shape : ObjectShape}
    {obj : Object} (hi : i.object? = some shape) (hobj : ObjectOf p shape obj)
    (hobjects : q.objects = p.objects.push obj) :
    List.Forall₂ (ObjectOf q) ((items ++ [i]).filterMap Item.object?) q.objects.toList := by
  rw [filterMap_concat_some hi, hobjects, Array.toList_push]
  exact List.rel_append (h.objects.imp fun _ _ ho => ho.mono hgrow) (.cons (hobj.mono hgrow) .nil)

theorem decides_object (h : Describes files types items loose p) {d : ObjectDump} {obj : Object}
    {shape : ObjectShape} (hshape : (Item.object d).object? = some shape) (hobj : ObjectOf p shape obj)
    (hloose : ∀ e, e ∈ loose ↔ e ∈ (Item.object d).parts) :
    Decides (fun q => q = p) (do let _ ← object obj) (shape.key ∉ items.filterMap Item.key?)
      fun _ => Describes files types (items ++ [.object d]) [] := by
  refine Decides.bind_total (R := fun _ => Describes files types (items ++ [.object d]) []) ?_
    fun _ _ => Decides.pure fun _ h => h
  rintro q rfl
  rw [run_object]
  cases hold : q.lookupObject? obj.key with
  | some o =>
    have hne : q.lookupObject? obj.key ≠ none := by simp [hold]
    exact fun hnew => hne (h.lookupObject?_eq_none_iff.2 (hobj.key ▸ hnew))
  | none =>
    have hgrow := growsTo_pushObject q obj
    refine ⟨hobj.key ▸ h.lookupObject?_eq_none_iff.1 hold, ?_⟩
    refine h.add ⟨h.ready.wellFormed, h.ready.declares, h.ready.nodup⟩ hgrow.files (fun _ => Iff.rfl) hloose
      (by simp [Item.owner?]) ?_ (objects_concat h hgrow hshape hobj rfl)
    intro id decl hid
    refine ((h.decls hid).mono hgrow).of_items ?_ (filterMap_concat_none rfl)
    simp [definitionIn_concat, Item.definition?]

/-- A symbol is declared once its type is read. -/
theorem decides_declareTyped (hc : Consistent types items) (hp : Describes files types items [] p) {d : ObjectDump}
    {shape : Option TypeShape} (hshape : d.shape? = shape) {m : Build (Option TypeId)} {good : Prop}
    {shapes : List TypeExpr}
    (hm : Adds (declaredNames types) p m good shapes fun type q => Option.Rel q.types.HasShape shape type)
    (hgood : good ↔ VariadicLast (d.params.getD []) ∧
      ∀ e ∈ shape.toList.flatMap TypeShape.exprs, e.Known (declaredNames types))
    (hshapes : shapes = (shape.toList.flatMap TypeShape.exprs).flatMap TypeExpr.parts) :
    Decides (fun q => q = p) (do
        let type ← m
        let pos ← position? d.pos
        let _ ← object ⟨d.key, d.name.getD (nameOfKey d.key), d.kind, type, none, pos⟩)
      (Consistent types (items ++ [.object d])) fun _ => Describes files types (items ++ [.object d]) [] := by
  subst hshape
  have hexprs : (Item.object d).exprs = d.shape?.toList.flatMap TypeShape.exprs := by
    simp [Item.exprs, Item.object?, ObjectShape.exprs]
  refine (Decides.bind (hm hp.ready) fun _ type => Decides.of_forall fun q ⟨hq, htype⟩ =>
    Decides.bind (adds_position? d.pos hq.ready) fun _ pos => Decides.of_forall fun r ⟨hr, _⟩ =>
      decides_object (d := d) ((hp.grow hq).grow hr) rfl ?_ ?_).congr ?_
  · exact ⟨rfl, rfl, rfl, rel_imp htype fun _ _ h => h.mono hr.types.old.growsTo, .none⟩
  · simp [Item.parts, hexprs, hshapes]
  · rw [hc.concat_iff, hgood]
    constructor
    · rintro ⟨⟨hparams, hknown⟩, hplaces, hkey⟩
      refine ⟨⟨by simp [Item.owner?], by simpa [Item.places] using hplaces, hparams, hexprs ▸ hknown⟩,
        by simp [Item.defined?], ?_⟩
      simpa [Item.key?, Item.object?] using hkey
    · rintro ⟨hsound, -, hkey⟩
      refine ⟨⟨hsound.params, hexprs ▸ hsound.exprs⟩, by simpa [Item.places] using hsound.places, ?_⟩
      simpa [Item.key?, Item.object?] using hkey

theorem decides_declareObject (hc : Consistent types items) (d : ObjectDump) :
    Decides (Describes files types items []) (declareObject d) (Consistent types (items ++ [.object d]))
      fun _ => Describes files types (items ++ [.object d]) [] := by
  refine Decides.of_forall fun p hp => ?_
  unfold declareObject
  split
  · rename_i params hparams
    have hshape : d.shape? = some (.function (.ofTexts params d.results)) := by simp [ObjectDump.shape?, hparams]
    refine decides_declareTyped hc hp hshape
      ((adds_signatureType d.key params d.results).map fun _ _ h => .some h) ?_ ?_
    · simp [hparams, TypeShape.exprs]
    · simp [TypeShape.exprs]
  · rename_i text hparams htext
    have hshape : d.shape? = some (.plain (.read text)) := by simp [ObjectDump.shape?, hparams, htext]
    refine decides_declareTyped hc hp hshape ((adds_parseType text).map fun _ _ h => .some (.plain h)) ?_ ?_
    · simp [hparams, TypeShape.exprs, VariadicLast]
    · simp [TypeShape.exprs]
  · rename_i hparams htext
    have hshape : d.shape? = none := by simp [ObjectDump.shape?, hparams, htext]
    refine decides_declareTyped hc hp hshape (Adds.pure .none) ?_ rfl
    simp [hparams, VariadicLast]

/-! ### Methods -/

/-- The receiver of a method belongs to the name that has the method. -/
theorem methodOwner?_of_denotes {t : TypeTable} (ht : t.WellFormed) {m : MethodDump} {owner : String}
    {named recv : TypeId} (hnamed : t.Denotes (.declared owner) named) (hrecv : t.Denotes (m.recv owner) recv) :
    t.methodOwner? recv = some named := by
  obtain ⟨decl, hid, -⟩ := TypeTable.denotes_declared_iff.1 hnamed
  unfold MethodDump.recv at hrecv
  split at hrecv
  · cases hrecv with
    | pointer hrecv helem =>
      rw [helem.id_unique ht hnamed] at hrecv
      simp [TypeTable.methodOwner?, hrecv, TypeTable.decl?, hid]
  · rw [hrecv.id_unique ht hnamed]
    simp [TypeTable.methodOwner?, hid]

theorem adds_receiver {m : MethodDump} {owner : String} {named : TypeId}
    (hnamed : p.types.Denotes (.declared owner) named) :
    Adds declared p (if m.pointer then intern (.pointer named) else pure named) True
      (m.recv owner).parts fun id q => q.types.Denotes (m.recv owner) id := by
  have hold : ∀ {shapes}, p.Grown declared shapes p → p.Grown declared (shapes ++ [.declared owner]) p :=
    fun h => ⟨h.types.of_has hnamed.has, h.files, h.nodup, h.objects⟩
  unfold MethodDump.recv
  split
  · have hpointer : Adds declared p (intern (.pointer named)) True [.pointer (.declared owner)] fun id q =>
        q.types.Denotes (.pointer (.declared owner)) id :=
      adds_intern trivial (by simp [Ty.components, hnamed.lt_size]) fun v hv id hid =>
        .pointer hid (hnamed.mono hv.growsTo)
    intro hp
    exact (hpointer hp).weaken (fun _ h => h) fun id q hq => ⟨(hold (.refl hp)).trans hq.1, hq.2⟩
  · intro hp
    refine Decides.pure ?_
    rintro q rfl
    exact ⟨hold (.refl hp), hnamed⟩

/-- A method that is declared, and added to the methods of its owner. -/
theorem describes_method (h : Describes files types items loose p) {owner : String} {m : MethodDump}
    {named recv sig : TypeId} {decl : NamedType} {shape : ObjectShape}
    (hshape : (Item.method owner m).object? = some shape) (howner : owner ∈ declaredNames types)
    (hid : p.types.get? named = some (.named decl)) (hdecl : decl.name = owner)
    (hrecv : p.types.Denotes (m.recv owner) recv)
    (hsig : p.types.HasShape (.function (.ofTexts m.params m.results)) sig)
    (hloose : ∀ e, e ∈ loose ↔ e ∈ (Item.method owner m).parts) :
    Describes files types (items ++ [.method owner m]) [] { p with
      objects := p.objects.push ⟨shape.key, m.name, .method, some sig, some recv, none⟩
      types := p.types.modifyDecl named fun d => { d with methods := d.methods ++ [p.objects.size] } } := by
  have hgrow : p.GrowsTo { p with
      objects := p.objects.push ⟨shape.key, m.name, .method, some sig, some recv, none⟩
      types := p.types.modifyDecl named fun d => { d with methods := d.methods ++ [p.objects.size] } } :=
    ⟨TypeTable.growsTo_modifyDecl hid rfl, List.prefix_refl _, by simp⟩
  have hobj : ObjectOf p shape ⟨shape.key, m.name, .method, some sig, some recv, none⟩ := by
    cases hshape
    exact ⟨rfl, rfl, rfl, .some hsig, .some hrecv⟩
  have hkey : (Item.method owner m).key? = some shape.key := by rw [Item.key?, hshape, Option.map_some]
  refine h.add ⟨h.ready.wellFormed.modifyDecl hid rfl, h.ready.declares.modifyDecl hid rfl, h.ready.nodup⟩
    hgrow.files (fun e => TypeTable.has_modifyDecl_iff hid rfl) hloose (by simpa [Item.owner?] using howner) ?_
    (objects_concat h hgrow hshape hobj rfl)
  intro id decl' hid'
  have hdefinition : ∀ name, definitionIn (items ++ [.method owner m]) name = definitionIn items name := by
    intro name
    simp [definitionIn_concat, Item.definition?]
  rw [TypeTable.get?_modifyDecl hid] at hid'
  split at hid'
  · cases hid'
    have hof := (h.decls hid).mono hgrow
    have hmethod : (Item.method owner m).methodKey? decl.name = some shape.key := by
      rw [Item.methodKey?, if_pos hdecl.symm, hkey]
    refine ⟨hof.place, hdefinition decl.name ▸ hof.definition, ?_⟩
    rw [filterMap_concat_some hmethod, List.map_append, List.map_append, hof.methods]
    simp [Program.key?, Program.object?]
  · rename_i hne
    have hother : owner ≠ decl'.name := fun heq =>
      hne (h.ready.wellFormed.names hid' hid (heq.symm.trans hdecl.symm))
    exact ((h.decls hid').mono hgrow).of_items (hdefinition _) (filterMap_concat_none (if_neg hother))

theorem decides_method (h : Describes files types items loose p) {owner : String} {m : MethodDump} {recv sig : TypeId}
    {shape : ObjectShape} (hshape : (Item.method owner m).object? = some shape) (howner : owner ∈ declaredNames types)
    (hrecv : p.types.Denotes (m.recv owner) recv)
    (hsig : p.types.HasShape (.function (.ofTexts m.params m.results)) sig)
    (hloose : ∀ e, e ∈ loose ↔ e ∈ (Item.method owner m).parts) :
    Decides (fun q => q = p) (do let _ ← method recv m.name sig) (shape.key ∉ items.filterMap Item.key?)
      fun _ q => Describes files types (items ++ [.method owner m]) [] q ∧ p.types.GrowsTo q.types := by
  refine Decides.bind_total
    (R := fun _ q => Describes files types (items ++ [.method owner m]) [] q ∧ p.types.GrowsTo q.types) ?_
    fun _ _ => Decides.pure fun _ h => h
  rintro q rfl
  obtain ⟨named, hnamed⟩ := h.ready.declares.has owner howner
  obtain ⟨decl, hid, hdecl⟩ := TypeTable.denotes_declared_iff.1 hnamed
  have hkey : methodKey q.types recv m.name = shape.key := by
    cases hshape
    rw [methodKey, hrecv.display_eq h.ready.wellFormed]
  rw [run_method]
  simp only [methodOwner?_of_denotes h.ready.wellFormed hnamed hrecv, hkey]
  cases hold : q.lookupObject? shape.key with
  | some o =>
    have hne : q.lookupObject? shape.key ≠ none := by simp [hold]
    exact fun hnew => hne (h.lookupObject?_eq_none_iff.2 hnew)
  | none =>
    exact ⟨h.lookupObject?_eq_none_iff.1 hold, describes_method h hshape howner hid hdecl hrecv hsig hloose,
      TypeTable.growsTo_modifyDecl hid rfl⟩

theorem methodOf_eq (named : TypeId) (owner : String) (m : MethodDump) :
    methodOf named owner m = (if m.pointer then intern (.pointer named) else pure named) >>= fun recv => (do
      let sig ← signatureType (owner ++ "." ++ m.name) m.params m.results
      let _ ← method recv m.name sig) := by
  unfold methodOf
  split <;> rfl

theorem decides_methodOf (hc : Consistent types items) {owner : String} (howner : owner ∈ declaredNames types)
    (named : TypeId) (m : MethodDump) :
    Decides (fun p => Describes files types items [] p ∧ p.types.Denotes (.declared owner) named)
      (methodOf named owner m) (Consistent types (items ++ [.method owner m]))
      fun _ p => Describes files types (items ++ [.method owner m]) [] p ∧ p.types.Denotes (.declared owner) named := by
  refine Decides.of_forall fun p ⟨hp, hnamed⟩ => ?_
  have hexprs : (Item.method owner m).exprs = m.recv owner :: (SignatureShape.ofTexts m.params m.results).exprs := by
    simp [Item.exprs, Item.object?, ObjectShape.exprs, TypeShape.exprs]
  have hrecv : (m.recv owner).Known (declaredNames types) := by
    unfold MethodDump.recv
    split <;> exact Or.inr howner
  rw [methodOf_eq]
  refine (Decides.total_bind (adds_receiver hnamed hp.ready) fun recv => Decides.of_forall fun q ⟨hq, hr⟩ =>
    Decides.bind (adds_signatureType _ m.params m.results hq.ready) fun _ sig => Decides.of_forall fun r ⟨hr', hs⟩ =>
      (decides_method ((hp.grow hq).grow hr') rfl howner (hr.mono hr'.types.old.growsTo) hs ?_).weaken
        (fun _ h => h) fun _ s hs => ⟨hs.1, ?_⟩).congr ?_
  · simp [Item.parts, hexprs]
  · rw [hc.concat_iff]
    constructor
    · rintro ⟨⟨hparams, hknown⟩, hkey⟩
      refine ⟨⟨by simpa [Item.owner?] using howner, by simp [Item.places], hparams, ?_⟩, by simp [Item.defined?], ?_⟩
      · rw [hexprs]
        exact List.forall_mem_cons.2 ⟨hrecv, hknown⟩
      · simpa [Item.key?, Item.object?] using hkey
    · rintro ⟨hsound, -, hkey⟩
      have hknown := hsound.exprs
      rw [hexprs] at hknown
      refine ⟨⟨hsound.params, (List.forall_mem_cons.1 hknown).2⟩, ?_⟩
      simpa [Item.key?, Item.object?] using hkey
  · exact ((hnamed.mono hq.types.old.growsTo).mono hr'.types.old.growsTo).mono hs.2

theorem decides_methodsOf (hc : Consistent types items) {type : TypeDump} (hname : type.name ∈ declaredNames types) :
    Decides (Describes files types items []) (methodsOf type)
      (Consistent types (items ++ type.methods.map (.method type.name)))
      fun _ => Describes files types (items ++ type.methods.map (.method type.name)) [] := by
  refine Decides.of_forall fun p hp => ?_
  refine Decides.total_bind (decides_declareType (hp.ready.declares.has type.name hname)) fun named => ?_
  have hloop := Decides.forM (J := fun items p => Describes files types items [] p ∧
      p.types.Denotes (.declared type.name) named) (f := methodOf named type.name)
    (g := fun m => [Item.method type.name m]) (l := type.methods) (fun _ _ => Consistent.of_append)
    (fun before m _ hbefore => decides_methodOf hbefore hname named m) hc
  rw [← List.map_eq_flatMap] at hloop
  exact hloop.weaken (by rintro q ⟨rfl, hnamed⟩; exact ⟨hp, hnamed⟩) fun _ _ h => h.1

end Build

end FluentChain
