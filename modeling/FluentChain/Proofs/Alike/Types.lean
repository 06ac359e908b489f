import FluentChain.Proofs.Related
import FluentChain.Proofs.Type.Reading
import FluentChain.Type.Selection

/-!
# Tables that are alike

Two type tables are alike if they have the same types, whatever the indices under which they have them: the same
shapes, and under each name the same definition, with positions that a relation `R` makes out to be the same place.
A type of one table is a type of the other where both have one shape, or where they are functions, structs, or
pointers to these, that agree in their parts (`TypeTable.SameType`).

What is asked of a type has the same answer in both tables, and it matters nowhere under which index a type stands
(`SameType.eq_iff`).
-/

namespace FluentChain.TypeTable

/-! ### The same types -/

section

variable (R : Pos → Pos → Prop) (t u : TypeTable)

/-- The types `a` and `b` have one shape. -/
def SameShape (a b : TypeId) : Prop := ∃ e, t.Denotes e a ∧ u.Denotes e b

structure SameSignature (s s' : Signature) : Prop where
  params : List.Forall₂ (t.SameShape u) s.params s'.params
  variadic : s.variadic = s'.variadic
  results : List.Forall₂ (t.SameShape u) s.results s'.results

structure SameField (f g : Field) : Prop where
  name : f.name = g.name
  type : t.SameShape u f.type g.type
  embedded : f.embedded = g.embedded
  tag : f.tag = g.tag
  pos : Option.Rel R f.pos g.pos

/-- The types `a` and `b` are the same type. -/
inductive SameType : TypeId → TypeId → Prop
  | plain {a b : TypeId} (h : t.SameShape u a b) : SameType a b
  | pointer {a b c d : TypeId} (ha : t.get? a = some (.pointer c)) (hb : u.get? b = some (.pointer d))
    (h : SameType c d) : SameType a b
  | function {a b : TypeId} {s s' : Signature} (ha : t.get? a = some (.signature s))
    (hb : u.get? b = some (.signature s')) (h : t.SameSignature u s s') : SameType a b
  | struct {a b : TypeId} {fs gs : List Field} (ha : t.get? a = some (.struct fs)) (hb : u.get? b = some (.struct gs))
    (h : List.Forall₂ (SameField R t u) fs gs) : SameType a b

structure SameDecl (d d' : NamedType) : Prop where
  name : d.name = d'.name
  pos : Option.Rel R d.pos d'.pos
  underlying : Option.Rel (SameType R t u) d.underlying d'.underlying

/-- The tables `t` and `u` have the same types. -/
structure Alike : Prop where
  left : t.WellFormed
  right : u.WellFormed
  has : ∀ e, t.Has e ↔ u.Has e
  decls : ∀ {a b : TypeId} {d d' : NamedType}, t.get? a = some (.named d) → u.get? b = some (.named d') →
    d.name = d'.name → SameDecl R t u d d'

/-- The entries of two types that are the same. -/
inductive SameEntry : Ty → Ty → Prop
  | basic (name : String) : SameEntry (.basic name) (.basic name)
  | named {d d' : NamedType} (h : SameDecl R t u d d') : SameEntry (.named d) (.named d')
  | pointer {c d : TypeId} (h : SameType R t u c d) : SameEntry (.pointer c) (.pointer d)
  | slice {c d : TypeId} (h : t.SameShape u c d) : SameEntry (.slice c) (.slice d)
  | array {c d : TypeId} (h : t.SameShape u c d) : SameEntry (.array c) (.array d)
  | map {k l c d : TypeId} (hkey : t.SameShape u k l) (hvalue : t.SameShape u c d) :
    SameEntry (.map k c) (.map l d)
  | struct {fs gs : List Field} (h : List.Forall₂ (SameField R t u) fs gs) : SameEntry (.struct fs) (.struct gs)
  | signature {s s' : Signature} (h : t.SameSignature u s s') : SameEntry (.signature s) (.signature s')
  | interface : SameEntry .interface .interface

end

variable {R : Pos → Pos → Prop} {t u t' u' : TypeTable} {a b c d : TypeId} {e : TypeExpr} {name : String}

theorem denotes_iff_of_pointer (h : t.get? a = some (.pointer c)) :
    t.Denotes e a ↔ ∃ elem, e = .pointer elem ∧ t.Denotes elem c := by
  constructor
  · intro ha
    cases ha <;> cases h.symm.trans ‹t.get? a = _›
    exact ⟨_, rfl, ‹_›⟩
  · rintro ⟨elem, rfl, hc⟩
    exact .pointer h hc

theorem Denotes.get?_ne_signature (h : t.Denotes e a) (sig : Signature) : t.get? a ≠ some (.signature sig) := by
  cases h <;> simp [*]

/-- The same types have the same shapes, if any. -/
theorem SameType.denotes_iff (h : SameType R t u a b) : t.Denotes e a ↔ u.Denotes e b := by
  induction h generalizing e with
  | plain h =>
    obtain ⟨shape, ha, hb⟩ := h
    constructor
    · intro h
      rw [h.expr_unique ha]
      exact hb
    · intro h
      rw [h.expr_unique hb]
      exact ha
  | pointer ha hb _ ih => simp only [denotes_iff_of_pointer ha, denotes_iff_of_pointer hb, ih]
  | function ha hb => exact iff_of_false (fun h => h.get?_ne_signature _ ha) fun h => h.get?_ne_signature _ hb
  | struct ha hb => exact iff_of_false (fun h => h.get?_ne_struct _ ha) fun h => h.get?_ne_struct _ hb

/-- A type that has a shape is compared with other types alike in both tables. -/
theorem Alike.eq_iff (htu : Alike R t u) (h : SameType R t u a b) (h' : t.SameShape u c d) : a = c ↔ b = d := by
  obtain ⟨e, hc, hd⟩ := h'
  constructor
  · rintro rfl
    exact (h.denotes_iff.1 hc).id_unique htu.right hd
  · rintro rfl
    exact (h.denotes_iff.2 hd).id_unique htu.left hc

theorem SameType.exists_get? (h : SameType R t u a b) : (∃ ty, t.get? a = some ty) ∧ ∃ ty, u.get? b = some ty := by
  cases h with
  | plain h =>
    obtain ⟨e, ha, hb⟩ := h
    exact ⟨ha.get?, hb.get?⟩
  | pointer ha hb | function ha hb | struct ha hb => exact ⟨⟨_, ha⟩, ⟨_, hb⟩⟩

/-! ### Types that are added later -/

/-- Types of one shape stay so when both tables grow. -/
theorem SameShape.mono (h : t.SameShape u a b) (ht : t.GrowsTo t') (hu : u.GrowsTo u') : t'.SameShape u' a b := by
  obtain ⟨e, ha, hb⟩ := h
  exact ⟨e, ha.mono ht, hb.mono hu⟩

theorem SameSignature.mono {s s' : Signature} (h : t.SameSignature u s s') (ht : t.GrowsTo t') (hu : u.GrowsTo u') :
    t'.SameSignature u' s s' :=
  ⟨h.params.imp fun _ _ h => h.mono ht hu, h.variadic, h.results.imp fun _ _ h => h.mono ht hu⟩

theorem SameSignature.singleResult? {s s' : Signature} (h : t.SameSignature u s s') :
    Option.Rel (t.SameShape u) s.singleResult? s'.singleResult? := by
  obtain ⟨params, variadic, results⟩ := s
  obtain ⟨params', variadic', results'⟩ := s'
  rcases h.results with _ | ⟨hab, _ | _⟩
  · exact .none
  · exact .some hab
  · exact .none

theorem SameField.mono {f g : Field} (h : SameField R t u f g) (ht : t.GrowsTo t') (hu : u.GrowsTo u') :
    SameField R t' u' f g :=
  ⟨h.name, h.type.mono ht hu, h.embedded, h.tag, h.pos⟩

theorem SameType.mono (h : SameType R t u a b) (ht : t.GrowsTo t') (hu : u.GrowsTo u') : SameType R t' u' a b := by
  induction h with
  | plain h => exact .plain (h.mono ht hu)
  | pointer ha hb _ ih => exact .pointer (ht.unnamed ha (by simp)) (hu.unnamed hb (by simp)) ih
  | function ha hb h => exact .function (ht.unnamed ha (by simp)) (hu.unnamed hb (by simp)) (h.mono ht hu)
  | struct ha hb h =>
    exact .struct (ht.unnamed ha (by simp)) (hu.unnamed hb (by simp)) (h.imp fun _ _ h => h.mono ht hu)

theorem SameDecl.mono {d d' : NamedType} (h : SameDecl R t u d d') (ht : t.GrowsTo t') (hu : u.GrowsTo u') :
    SameDecl R t' u' d d' :=
  ⟨h.name, h.pos, rel_imp h.underlying fun _ _ h => h.mono ht hu⟩

/-- Tables stay alike when the same shapes are added to both of them. -/
theorem Alike.extend (h : Alike R t u) (ht : t.Extends t') (hu : u.Extends u') (hleft : t'.WellFormed)
    (hright : u'.WellFormed) (hhas : ∀ e, t'.Has e ↔ u'.Has e) : Alike R t' u' where
  left := hleft
  right := hright
  has := hhas
  decls {a b d d'} ha hb hname := by
    -- a name is new in both tables or in neither, since they had the same shapes before
    rcases ht.blank ha with ha | ⟨hnew, hd⟩ <;> rcases hu.blank hb with hb | ⟨hnew', hd'⟩
    · exact (h.decls ha hb hname).mono ht.growsTo hu.growsTo
    · exact absurd ((h.has _).1 (Denotes.declared ha).has) (hname ▸ hnew')
    · exact absurd ((h.has _).2 (Denotes.declared hb).has) (hname ▸ hnew)
    · rw [hd, hd']
      exact ⟨hname, .none, .none⟩

/-- Tables that are alike stay alike when types of the same shapes are added to both. -/
theorem Alike.grown {declared : List String} {shapes : List TypeExpr} (h : Alike R t u)
    (ht : Grown declared t shapes t') (hu : Grown declared u shapes u') : Alike R t' u' :=
  h.extend ht.old hu.old ht.wellFormed hu.wellFormed fun e => by rw [ht.has, hu.has, h.has]

theorem Alike.declares {declared : List String} (h : Alike R t u) (ht : t.Declares declared) : u.Declares declared :=
  ⟨fun name hname => (h.has _).1 (ht.has name hname), fun name hname => ht.only name ((h.has _).2 hname)⟩

/-- A type expression is read alike into both tables. -/
theorem Alike.resolve (h : Alike R t u) (e : TypeExpr) :
    RunTogether (fun a b t' u' => Alike R t' u' ∧ t.GrowsTo t' ∧ u.GrowsTo u' ∧ t'.SameShape u' a b)
      (e.resolve t) (e.resolve u) := by
  obtain ⟨declared, hdeclares⟩ := exists_declares t
  have ht := decides_resolve e t [] t (.refl h.left hdeclares)
  have hu := decides_resolve e u [] u (.refl h.right (h.declares hdeclares))
  revert ht hu
  cases e.resolve t <;> cases e.resolve u <;> intro ht hu
  · exact .ok ⟨h.grown ht.2.1 hu.2.1, ht.2.1.old.growsTo, hu.2.1.old.growsTo, e, ht.2.2, hu.2.2⟩
  · exact absurd ht.1 hu
  · exact absurd hu.1 ht
  · exact .error

/-! ### Entries -/

theorem SameShape.sameType (h : t.SameShape u a b) : SameType R t u a b := .plain h

/-- Types that are the same stand in both tables, with parts that are the same. -/
theorem Alike.exists_entry (htu : Alike R t u) (h : SameType R t u a b) :
    ∃ ty ty', t.get? a = some ty ∧ u.get? b = some ty' ∧ SameEntry R t u ty ty' := by
  cases h with
  | plain h =>
    obtain ⟨e, ha, hb⟩ := h
    cases ha with
    | pointer ha hc =>
      cases hb with
      | pointer hb hd => exact ⟨_, _, ha, hb, .pointer (.plain ⟨_, hc, hd⟩)⟩
    | slice ha hc =>
      cases hb with
      | slice hb hd => exact ⟨_, _, ha, hb, .slice ⟨_, hc, hd⟩⟩
    | array ha hc =>
      cases hb with
      | array hb hd => exact ⟨_, _, ha, hb, .array ⟨_, hc, hd⟩⟩
    | map ha hk hc =>
      cases hb with
      | map hb hl hd => exact ⟨_, _, ha, hb, .map ⟨_, hk, hl⟩ ⟨_, hc, hd⟩⟩
    | interface ha =>
      cases hb with
      | interface hb => exact ⟨_, _, ha, hb, .interface⟩
    | basic ha =>
      cases hb with
      | basic hb => exact ⟨_, _, ha, hb, .basic _⟩
    | declared ha =>
      obtain ⟨d', hb, hname⟩ := denotes_declared_iff.1 hb
      exact ⟨_, _, ha, hb, .named (htu.decls ha hb hname.symm)⟩
  | pointer ha hb h => exact ⟨_, _, ha, hb, .pointer h⟩
  | function ha hb h => exact ⟨_, _, ha, hb, .signature h⟩
  | struct ha hb h => exact ⟨_, _, ha, hb, .struct h⟩

/-- Both tables are asked for a type of one shape. -/
private theorem rel_of_denotes (htu : Alike R t u) {x y : Option TypeId} (hx : ∀ a, x = some a ↔ t.Denotes e a)
    (hy : ∀ b, y = some b ↔ u.Denotes e b) : Option.Rel (t.SameShape u) x y := by
  cases x <;> cases y
  · exact .none
  · have hb := (hy _).1 rfl
    obtain ⟨a, ha⟩ := (htu.has e).2 hb.has
    exact absurd ((hx a).2 ha) (by simp)
  · have ha := (hx _).1 rfl
    obtain ⟨b, hb⟩ := (htu.has e).1 ha.has
    exact absurd ((hy b).2 hb) (by simp)
  · exact .some ⟨e, (hx _).1 rfl, (hy _).1 rfl⟩

theorem pointerTo?_eq_some_iff (ht : t.WellFormed) (ha : t.Denotes e a) :
    t.pointerTo? a = some b ↔ t.Denotes (.pointer e) b := by
  rw [pointerTo?, find?_eq_some_iff ht (by trivial)]
  constructor
  · exact fun hb => .pointer hb ha
  · rintro (hb | _)
    rename_i c hc
    rwa [hc.id_unique ht ha] at hb

namespace Alike

variable (htu : Alike R t u)

include htu

/-! ### Questions to a table -/

theorem named? (name : String) : Option.Rel (t.SameShape u) (t.named? name) (u.named? name) :=
  rel_of_denotes htu (fun _ => named?_eq_some_iff htu.left) fun _ => named?_eq_some_iff htu.right

theorem pointerTo? (h : t.SameShape u a b) : Option.Rel (t.SameShape u) (t.pointerTo? a) (u.pointerTo? b) := by
  obtain ⟨e, ha, hb⟩ := h
  exact rel_of_denotes htu (fun _ => pointerTo?_eq_some_iff htu.left ha) fun _ => pointerTo?_eq_some_iff htu.right hb

theorem decl? (h : SameType R t u a b) : Option.Rel (SameDecl R t u) (t.decl? a) (u.decl? b) := by
  obtain ⟨ty, ty', ha, hb, hentry⟩ := htu.exists_entry h
  simp only [TypeTable.decl?, ha, hb]
  cases hentry with
  | named h => exact .some h
  | _ => exact .none

/-- The names of types that are the same lead to types that are the same. -/
theorem underlyingWithin (h : SameType R t u a b) (depth : Nat) :
    SameType R t u (t.underlyingWithin depth a) (u.underlyingWithin depth b) := by
  induction depth generalizing a b with
  | zero => exact h
  | succ depth ih =>
    have hdecl := htu.decl? h
    simp only [TypeTable.underlyingWithin]
    revert hdecl
    generalize t.decl? a = x, u.decl? b = y
    rintro (hdecl | _)
    · obtain ⟨-, -, hunderlying⟩ := hdecl
      rename_i d d'
      obtain ⟨name, pos, underlying, methods⟩ := d
      obtain ⟨name', pos', underlying', methods'⟩ := d'
      cases hunderlying with
      | none => exact h
      | some h => exact ih h
    · exact h

theorem underlying (h : SameType R t u a b) : SameType R t u (t.underlying a) (u.underlying b) :=
  htu.underlyingWithin h maxNameDepth

theorem structFields? (h : SameType R t u a b) :
    Option.Rel (List.Forall₂ (SameField R t u)) (t.structFields? a) (u.structFields? b) := by
  obtain ⟨ty, ty', ha, hb, hentry⟩ := htu.exists_entry (htu.underlying h)
  simp only [TypeTable.structFields?, ha, hb]
  cases hentry with
  | struct h => exact .some h
  | _ => exact .none

theorem signature? (h : SameType R t u a b) : Option.Rel (t.SameSignature u) (t.signature? a) (u.signature? b) := by
  obtain ⟨ty, ty', ha, hb, hentry⟩ := htu.exists_entry (htu.underlying h)
  simp only [TypeTable.signature?, ha, hb]
  cases hentry with
  | signature h => exact .some h
  | _ => exact .none

theorem isMap (h : SameType R t u a b) : t.isMap a = u.isMap b := by
  obtain ⟨ty, ty', ha, hb, hentry⟩ := htu.exists_entry (htu.underlying h)
  simp only [TypeTable.isMap, ha, hb]
  cases hentry <;> rfl

theorem sliceElem? (h : SameType R t u a b) : Option.Rel (t.SameShape u) (t.sliceElem? a) (u.sliceElem? b) := by
  obtain ⟨ty, ty', ha, hb, hentry⟩ := htu.exists_entry h
  simp only [TypeTable.sliceElem?, ha, hb]
  cases hentry with
  | slice h => exact .some h
  | _ => exact .none

/-- Types of one shape have records of one shape, or none in both. -/
theorem recordType? (h : SameType R t u a b) : Option.Rel (t.SameShape u) (t.recordType? a) (u.recordType? b) := by
  -- only the indices of `t` decrease by assumption; in `u` they do since it is well formed
  induction a using Nat.strongRecOn generalizing b with
  | _ a ih =>
    obtain ⟨ty, ty', ha, hb, hentry⟩ := htu.exists_entry h
    have hleft := htu.left.ordered ha
    have hright := htu.right.ordered hb
    rw [TypeTable.recordType?, TypeTable.recordType?]
    simp only [ha, hb]
    cases hentry with
    | pointer h =>
      simp only [hleft _ List.mem_cons_self, hright _ List.mem_cons_self, ↓reduceIte]
      exact ih _ (hleft _ List.mem_cons_self) h
    | slice h | array h =>
      simp only [hleft _ List.mem_cons_self, hright _ List.mem_cons_self, ↓reduceIte]
      exact ih _ (hleft _ List.mem_cons_self) h.sameType
    | named hdecl =>
      simp only [isSome_eq_of_rel (htu.structFields? h)]
      split
      · exact .some ⟨_, .declared ha, denotes_declared_iff.2 ⟨_, hb, hdecl.name.symm⟩⟩
      · exact .none
    | _ => exact .none

private theorem components_display_eq {as bs : List TypeId} (h : List.Forall₂ (t.SameShape u) as bs)
    (ha : ∀ c ∈ as, c < a) (hb : ∀ d ∈ bs, d < b) :
    (as.map fun c => if c < a then t.display c else "") = bs.map fun d => if d < b then u.display d else "" := by
  induction h with
  | nil => rfl
  | cons hcd _ ih =>
    obtain ⟨e, hc, hd⟩ := hcd
    rw [List.map_cons, List.map_cons, if_pos (ha _ List.mem_cons_self), if_pos (hb _ List.mem_cons_self),
      hc.display_eq htu.left, hd.display_eq htu.right,
      ih (fun c hc => ha c (List.mem_cons_of_mem _ hc)) fun d hd => hb d (List.mem_cons_of_mem _ hd)]

/-- Types of one shape are shown alike, as parts stand before what is made of them. -/
theorem display (h : SameType R t u a b) : t.display a = u.display b := by
  induction h with
  | plain h =>
    obtain ⟨e, ha, hb⟩ := h
    rw [ha.display_eq htu.left, hb.display_eq htu.right]
  | pointer ha hb _ ih =>
    rw [TypeTable.display, TypeTable.display]
    simp only [ha, hb, htu.left.ordered ha _ List.mem_cons_self, htu.right.ordered hb _ List.mem_cons_self,
      ↓reduceIte, ih]
  | function ha hb h =>
    have hleft := htu.left.ordered ha
    have hright := htu.right.ordered hb
    rw [TypeTable.display, TypeTable.display]
    simp only [ha, hb]
    rw [htu.components_display_eq h.params (fun c hc => hleft c (List.mem_append_left _ hc))
        fun d hd => hright d (List.mem_append_left _ hd),
      htu.components_display_eq h.results (fun c hc => hleft c (List.mem_append_right _ hc))
        fun d hd => hright d (List.mem_append_right _ hd)]
  | struct ha hb =>
    rw [TypeTable.display, TypeTable.display]
    simp only [ha, hb]

theorem selectWithin (name : String) (depth : Nat) (h : SameType R t u a b) :
    Option.Rel (t.SameShape u) (t.selectWithin name depth a) (u.selectWithin name depth b) := by
  induction depth generalizing a b with
  | zero => exact .none
  | succ depth ih =>
    refine rel_bind (htu.structFields? h) fun fs gs hfields => ?_
    have hfind := rel_find? (p := (·.name == name)) (q := (·.name == name)) hfields fun f g hfg => by rw [hfg.name]
    revert hfind
    generalize fs.find? (·.name == name) = x, gs.find? (·.name == name) = y
    rintro (hfg | _)
    · exact .some hfg.type
    · refine rel_findSome? (rel_filter_list hfields fun f g hfg => hfg.embedded) fun f g hfg => ?_
      exact ih hfg.type.sameType

theorem selectField? (name : String) (h : SameType R t u a b) :
    Option.Rel (t.SameShape u) (t.selectField? a name) (u.selectField? b name) := by
  obtain ⟨ty, ty', ha, hb, hentry⟩ := htu.exists_entry h
  simp only [TypeTable.selectField?, ha, hb]
  cases hentry with
  | pointer h => exact htu.selectWithin name _ h
  | _ => exact htu.selectWithin name _ h

end Alike

/-! ### Pointers -/

theorem get?_intern (t : TypeTable) (ty : Ty) : (t.intern ty).2.get? (t.intern ty).1 = some ty := by
  unfold TypeTable.intern
  split
  · rename_i id hid
    exact get?_of_find? hid
  · exact get?_push_size t ty

/-- A pointer has a shape if what it points to has one. -/
theorem grown_pointer {declared : List String} {shapes : List TypeExpr} (ht : t.WellFormed)
    (hdeclares : t.Declares declared) (ha : a < t.size)
    (hshapes : ∀ e, e ∈ shapes ↔ ∃ elem, e = .pointer elem ∧ t.Denotes elem a) :
    Grown declared t shapes (t.intern (.pointer a)).2 := by
  have hrefl : Grown declared t [] t := .refl ht hdeclares
  unfold TypeTable.intern
  split
  · rename_i id hid
    refine ⟨ht, hdeclares, .refl t, fun e => (or_iff_left_of_imp fun he => ?_).symm⟩
    obtain ⟨elem, rfl, helem⟩ := (hshapes e).1 he
    exact (Denotes.pointer (get?_of_find? hid) helem).has
  · rename_i hnone
    have hcomponents : ∀ c ∈ (Ty.pointer a).components, c < t.size := by simpa [Ty.components] using ha
    refine hrefl.push (.pointer a) hcomponents (fun _ => get?_ne_of_find? hnone) (by simp) fun e => ?_
    rw [hshapes, denotes_iff_of_pointer (get?_push_size t _)]
    refine exists_congr fun elem => and_congr_right fun _ => ?_
    exact ⟨fun h => h.of_push ht ha, fun h => h.mono (growsTo_push t _)⟩

/-- Making pointers to the same type keeps tables alike, also where that type has no shape. -/
theorem Alike.intern_pointer (htu : Alike R t u) (h : SameType R t u a b) :
    Alike R (t.intern (.pointer a)).2 (u.intern (.pointer b)).2 ∧ t.GrowsTo (t.intern (.pointer a)).2 ∧
      u.GrowsTo (u.intern (.pointer b)).2 ∧
      SameType R (t.intern (.pointer a)).2 (u.intern (.pointer b)).2 (t.intern (.pointer a)).1
        (u.intern (.pointer b)).1 := by
  -- the pointer brings one shape or none, and by `denotes_iff` the same to both tables
  obtain ⟨shapes, hshapes⟩ : ∃ shapes : List TypeExpr,
      ∀ e, e ∈ shapes ↔ ∃ elem, e = .pointer elem ∧ t.Denotes elem a := by
    by_cases hshape : ∃ elem, t.Denotes elem a
    · obtain ⟨elem, helem⟩ := hshape
      refine ⟨[.pointer elem], fun e => ?_⟩
      rw [List.mem_singleton]
      constructor
      · rintro rfl
        exact ⟨elem, rfl, helem⟩
      · rintro ⟨elem', rfl, helem'⟩
        rw [helem'.expr_unique helem]
    · refine ⟨[], fun e => iff_of_false List.not_mem_nil ?_⟩
      rintro ⟨elem, -, helem⟩
      exact hshape ⟨elem, helem⟩
  obtain ⟨⟨ty, ha⟩, ⟨ty', hb⟩⟩ := h.exists_get?
  obtain ⟨declared, hdeclares⟩ := exists_declares t
  have ht := grown_pointer htu.left hdeclares (lt_size_of_get? ha) hshapes
  have hshapes' : ∀ e, e ∈ shapes ↔ ∃ elem, e = .pointer elem ∧ u.Denotes elem b := fun e => by
    simp only [hshapes, h.denotes_iff]
  have hu := grown_pointer htu.right (htu.declares hdeclares) (lt_size_of_get? hb) hshapes'
  refine ⟨htu.grown ht hu, ht.old.growsTo, hu.old.growsTo, ?_⟩
  exact .pointer (get?_intern t _) (get?_intern u _) (h.mono ht.old.growsTo hu.old.growsTo)

end FluentChain.TypeTable
