import FluentChain.Proofs.Decides
import FluentChain.Proofs.Type.Shape

/-!
# Reading type expressions

What reading a type expression does to the table it is read into.  It succeeds exactly if every name in the
expression is declared or qualified, whatever else the table has, and then the table has gained the shapes that
the expression is made of and no others (`decides_resolve`).
-/

namespace FluentChain

namespace TypeTable

variable {declared : List String} {t u : TypeTable} {ty : Ty} {id : TypeId} {e : TypeExpr} {shapes : List TypeExpr}

/-- The names in `declared` have types, and so have qualified names, but no others. -/
structure Declares (declared : List String) (t : TypeTable) : Prop where
  has : ∀ name ∈ declared, t.Has (.declared name)
  only : ∀ name, t.Has (.declared name) → '.' ∈ name.toList ∨ name ∈ declared

/-- The table `u` is `t` with the types of some shapes added. -/
structure Grown (declared : List String) (t : TypeTable) (shapes : List TypeExpr) (u : TypeTable) : Prop where
  wellFormed : u.WellFormed
  declares : u.Declares declared
  old : t.Extends u
  has : ∀ e, u.Has e ↔ t.Has e ∨ e ∈ shapes

/-- Every table declares the names it has. -/
theorem exists_declares (t : TypeTable) : ∃ declared, t.Declares declared := by
  refine ⟨(List.range t.size).filterMap fun id => (t.decl? id).map (·.name), ?_, ?_⟩
  · intro name hname
    obtain ⟨id, -, hid⟩ := List.mem_filterMap.1 hname
    obtain ⟨decl, hdecl, rfl⟩ := Option.map_eq_some_iff.1 hid
    unfold TypeTable.decl? at hdecl
    split at hdecl
    · rename_i hid
      cases hdecl
      exact (Denotes.declared hid).has
    · cases hdecl
  · rintro name ⟨id, hid⟩
    obtain ⟨decl, hid, hname⟩ := denotes_declared_iff.1 hid
    have hmem := List.mem_range.2 (lt_size_of_get? hid)
    exact Or.inr (List.mem_filterMap.2 ⟨id, hmem, by simp [TypeTable.decl?, hid, hname]⟩)

/-! ### New entries -/

theorem WellFormed.push (ht : t.WellFormed) (hcomponents : ∀ c ∈ ty.components, c < t.size)
    (hshared : ty.IsShared → ∀ id, t.get? id ≠ some ty)
    (hnamed : ∀ decl, ty = .named decl → ¬ t.Has (.declared decl.name)) : (t.push ty).2.WellFormed where
  ordered {id ty'} hid c hc := by
    rw [get?_push] at hid
    split at hid
    · rename_i heq
      cases hid
      rw [heq]
      exact hcomponents c hc
    · exact ht.ordered hid c hc
  shared {a b ty'} ha hb hty' := by
    rw [get?_push] at ha hb
    split at ha <;> split at hb
    · rename_i ha' hb'
      rw [ha', hb']
    · cases ha
      exact absurd hb (hshared hty' b)
    · cases hb
      exact absurd ha (hshared hty' a)
    · exact ht.shared ha hb hty'
  names {a b d d'} ha hb hname := by
    rw [get?_push] at ha hb
    split at ha <;> split at hb
    · rename_i ha' hb'
      rw [ha', hb']
    · cases ha
      exact absurd (hname ▸ (Denotes.declared hb).has) (hnamed d rfl)
    · cases hb
      exact absurd (hname ▸ (Denotes.declared ha).has) (hnamed d' rfl)
    · exact ht.names ha hb hname

theorem get?_push_of_some {ty' : Ty} (h : t.get? id = some ty') : (t.push ty).2.get? id = some ty' := by
  rw [get?_push, if_neg (Nat.ne_of_lt (lt_size_of_get? h))]
  exact h

theorem growsTo_push (t : TypeTable) (ty : Ty) : t.GrowsTo (t.push ty).2 :=
  ⟨fun hid _ => get?_push_of_some hid, fun hid => ⟨_, get?_push_of_some hid, rfl⟩⟩

theorem extends_push (t : TypeTable)
    (hnamed : ∀ decl, ty = .named decl → ¬ t.Has (.declared decl.name) ∧ decl = .blank decl.name) :
    t.Extends (t.push ty).2 where
  get? := get?_push_of_some
  blank hid := by
    rw [get?_push] at hid
    split at hid
    · cases hid
      exact Or.inr (hnamed _ rfl)
    · exact Or.inl hid

/-- A type that was there before had its shape before. -/
theorem Denotes.of_push (h : (t.push ty).2.Denotes e id) (ht : t.WellFormed) (hid : id < t.size) :
    t.Denotes e id := by
  have hback : ∀ {id ty'}, (t.push ty).2.get? id = some ty' → id < t.size → t.get? id = some ty' := by
    intro id ty' hu hlt
    rwa [get?_push, if_neg (Nat.ne_of_lt hlt)] at hu
  induction h with
  | pointer hu _ ih =>
    have ht' := hback hu hid
    exact .pointer ht' (ih (Nat.lt_trans (ht.ordered ht' _ List.mem_cons_self) hid))
  | slice hu _ ih =>
    have ht' := hback hu hid
    exact .slice ht' (ih (Nat.lt_trans (ht.ordered ht' _ List.mem_cons_self) hid))
  | array hu _ ih =>
    have ht' := hback hu hid
    exact .array ht' (ih (Nat.lt_trans (ht.ordered ht' _ List.mem_cons_self) hid))
  | map hu _ _ ihk ihv =>
    have ht' := hback hu hid
    exact .map ht' (ihk (Nat.lt_trans (ht.ordered ht' _ List.mem_cons_self) hid))
      (ihv (Nat.lt_trans (ht.ordered ht' _ (List.mem_cons_of_mem _ List.mem_cons_self)) hid))
  | interface hu => exact .interface (hback hu hid)
  | basic hu => exact .basic (hback hu hid)
  | declared hu => exact .declared (hback hu hid)

theorem has_push_iff (ht : t.WellFormed) : (t.push ty).2.Has e ↔ t.Has e ∨ (t.push ty).2.Denotes e t.size := by
  constructor
  · rintro ⟨id, hid⟩
    have hlt : id < t.size + 1 := by
      have := hid.lt_size
      rwa [size, push, Array.size_push] at this
    rcases Nat.lt_succ_iff_lt_or_eq.1 hlt with hlt | rfl
    · exact Or.inl (hid.of_push ht hlt).has
    · exact Or.inr hid
  · rintro (h | h)
    · exact h.mono (growsTo_push t ty)
    · exact h.has

/-! ### Growth step by step -/

namespace Grown

theorem refl (ht : t.WellFormed) (hdeclares : t.Declares declared) : Grown declared t [] t where
  wellFormed := ht
  declares := hdeclares
  old := .refl t
  has e := by simp

theorem trans {more : List TypeExpr} {v : TypeTable} (h : Grown declared t shapes u) (h' : Grown declared u more v) :
    Grown declared t (shapes ++ more) v where
  wellFormed := h'.wellFormed
  declares := h'.declares
  old := h.old.trans h'.old
  has e := by rw [h'.has, h.has, List.mem_append, or_assoc]

/-- A type of the given shapes is new. -/
theorem push {new : List TypeExpr} (h : Grown declared t shapes u) (ty : Ty)
    (hcomponents : ∀ c ∈ ty.components, c < u.size)
    (hshared : ty.IsShared → ∀ id, u.get? id ≠ some ty)
    (hnamed : ∀ decl, ty = .named decl →
      (¬ u.Has (.declared decl.name) ∧ decl = .blank decl.name) ∧ '.' ∈ decl.name.toList)
    (hnew : ∀ e, (u.push ty).2.Denotes e u.size ↔ e ∈ new) :
    Grown declared t (shapes ++ new) (u.push ty).2 := by
  have hext : u.Extends (u.push ty).2 := extends_push u fun decl hd => (hnamed decl hd).1
  refine ⟨h.wellFormed.push hcomponents hshared fun decl hd => (hnamed decl hd).1.1, ⟨?_, ?_⟩,
    h.old.trans hext, ?_⟩
  · intro name hname
    exact (h.declares.has name hname).mono hext.growsTo
  · intro name hname
    rcases (has_push_iff h.wellFormed).1 hname with hold | hid
    · exact h.declares.only name hold
    · obtain ⟨decl, hdecl, rfl⟩ := denotes_declared_iff.1 hid
      rw [get?_push_size, Option.some.injEq] at hdecl
      exact Or.inl (hnamed decl hdecl).2
  · intro e
    rw [has_push_iff h.wellFormed, h.has, hnew, List.mem_append, or_assoc]

/-- Nothing is new. -/
theorem of_has (h : Grown declared t shapes u) (he : u.Has e) : Grown declared t (shapes ++ [e]) u where
  wellFormed := h.wellFormed
  declares := h.declares
  old := h.old
  has e' := by
    rw [h.has, List.mem_append, List.mem_singleton, ← or_assoc]
    refine (or_iff_left_of_imp ?_).symm
    rintro rfl
    exact (h.has e').1 he

/-- A struct or a function adds no shape. -/
theorem push_shapeless (h : Grown declared t shapes u) (ty : Ty) (hcomponents : ∀ c ∈ ty.components, c < u.size)
    (hty : (∃ fields, ty = .struct fields) ∨ ∃ sig, ty = .signature sig) : Grown declared t shapes (u.push ty).2 := by
  have hnew : ∀ e, (u.push ty).2.Denotes e u.size ↔ e ∈ ([] : List TypeExpr) := by
    intro e
    refine iff_of_false (fun he => ?_) List.not_mem_nil
    have hid := get?_push_size u ty
    rcases hty with ⟨fields, rfl⟩ | ⟨sig, rfl⟩ <;> cases he <;> simp_all
  rw [← List.append_nil shapes]
  refine h.push ty hcomponents ?_ ?_ hnew
  · rcases hty with ⟨fields, rfl⟩ | ⟨sig, rfl⟩ <;> exact False.elim
  · rintro decl rfl
    simp at hty

/-- A composite type, whose shape is known from its parts. -/
theorem intern (h : Grown declared t shapes u) (hty : ty.IsShared) (hcomponents : ∀ c ∈ ty.components, c < u.size)
    (hshape : ∀ v, u.Extends v → ∀ id, v.get? id = some ty → v.Denotes e id) :
    Grown declared t (shapes ++ [e]) (u.intern ty).2 ∧ (u.intern ty).2.Denotes e (u.intern ty).1 := by
  unfold TypeTable.intern
  split
  · rename_i id hfind
    have hid := hshape u (.refl u) id (get?_of_find? hfind)
    exact ⟨h.of_has hid.has, hid⟩
  · rename_i hfind
    have hnamed : ∀ decl, ty ≠ .named decl := by
      rintro decl rfl
      exact hty
    have hext : u.Extends (u.push ty).2 := extends_push u fun decl hd => absurd hd (hnamed decl)
    have hid := hshape _ hext u.size (get?_push_size u ty)
    refine ⟨h.push ty hcomponents (fun _ => get?_ne_of_find? hfind) (fun decl hd => absurd hd (hnamed decl)) ?_, hid⟩
    intro e'
    rw [List.mem_singleton]
    exact ⟨fun he' => he'.expr_unique hid, fun he' => he' ▸ hid⟩

theorem declare (h : Grown declared t shapes u) {name : String} (hnew : u.named? name = none)
    (hname : '.' ∈ name.toList) :
    Grown declared t (shapes ++ [.declared name]) (u.declare name none).2 ∧
      (u.declare name none).2.Denotes (.declared name) (u.declare name none).1 := by
  have hid : (u.push (.named (.blank name))).2.Denotes (.declared name) u.size :=
    denotes_declared_iff.2 ⟨.blank name, get?_push_size u _, rfl⟩
  simp only [TypeTable.declare, hnew]
  refine ⟨h.push (.named (.blank name)) (by simp [Ty.components]) False.elim ?_ ?_, hid⟩
  · rintro decl hdecl
    cases hdecl
    exact ⟨⟨named?_eq_none_iff.1 hnew, rfl⟩, hname⟩
  · intro e
    rw [List.mem_singleton]
    exact ⟨fun he => he.expr_unique hid, fun he => he ▸ hid⟩

end Grown

/-! ### Changed declarations -/

section

variable {decl : NamedType} {f : NamedType → NamedType}

theorem get?_modifyDecl (h : t.get? id = some (.named decl)) (j : TypeId) :
    (t.modifyDecl id f).get? j = if j = id then some (.named (f decl)) else t.get? j := by
  unfold TypeTable.get? at h
  simp only [TypeTable.get?, modifyDecl, Array.getElem?_modify, eq_comm (a := j)]
  split
  · subst_vars
    rw [h]
    rfl
  · rfl

theorem growsTo_modifyDecl (h : t.get? id = some (.named decl)) (hf : (f decl).name = decl.name) :
    t.GrowsTo (t.modifyDecl id f) where
  unnamed {j ty} hj hty := by
    rw [get?_modifyDecl h, if_neg ?_, hj]
    rintro rfl
    cases h.symm.trans hj
    exact hty decl rfl
  named {j decl'} hj := by
    rw [get?_modifyDecl h]
    split
    · subst_vars
      cases h.symm.trans hj
      exact ⟨f decl, rfl, hf⟩
    · exact ⟨decl', hj, rfl⟩

theorem growsTo_of_modifyDecl (h : t.get? id = some (.named decl)) (hf : (f decl).name = decl.name) :
    (t.modifyDecl id f).GrowsTo t where
  unnamed {j ty} hj hty := by
    rw [get?_modifyDecl h] at hj
    split at hj
    · cases hj
      exact absurd rfl (hty (f decl))
    · exact hj
  named {j decl'} hj := by
    rw [get?_modifyDecl h] at hj
    split at hj
    · subst_vars
      cases hj
      exact ⟨decl, h, hf.symm⟩
    · exact ⟨decl', hj, rfl⟩

theorem has_modifyDecl_iff (h : t.get? id = some (.named decl)) (hf : (f decl).name = decl.name) :
    (t.modifyDecl id f).Has e ↔ t.Has e :=
  ⟨fun he => he.mono (growsTo_of_modifyDecl h hf), fun he => he.mono (growsTo_modifyDecl h hf)⟩

theorem WellFormed.modifyDecl (ht : t.WellFormed) (h : t.get? id = some (.named decl))
    (hf : (f decl).name = decl.name) : (t.modifyDecl id f).WellFormed where
  ordered {j ty} hj c hc := by
    rw [get?_modifyDecl h] at hj
    split at hj
    · cases hj
      exact absurd hc List.not_mem_nil
    · exact ht.ordered hj c hc
  shared {a b ty} ha hb hty := by
    have hback : ∀ {j}, (t.modifyDecl id f).get? j = some ty → t.get? j = some ty :=
      fun hj => (growsTo_of_modifyDecl h hf).unnamed hj fun decl hd => by subst hd; exact hty
    exact ht.shared (hback ha) (hback hb) hty
  names {a b d d'} ha hb hname := by
    obtain ⟨da, ha', hda⟩ := (growsTo_of_modifyDecl h hf).named ha
    obtain ⟨db, hb', hdb⟩ := (growsTo_of_modifyDecl h hf).named hb
    exact ht.names ha' hb' (by rw [hda, hdb, hname])

theorem Declares.modifyDecl (ht : t.Declares declared) (h : t.get? id = some (.named decl))
    (hf : (f decl).name = decl.name) : (t.modifyDecl id f).Declares declared :=
  ⟨fun name hname => (has_modifyDecl_iff h hf).2 (ht.has name hname),
    fun name hname => ht.only name ((has_modifyDecl_iff h hf).1 hname)⟩

/-- Declaring a name again without a position changes nothing. -/
theorem declare_none {name : String} (h : t.named? name = some id) : t.declare name none = (id, t) := by
  obtain ⟨decl, hid, -⟩ := get?_of_named? h
  have hsame : (t.modifyDecl id fun decl => { decl with pos := decl.pos <|> none }) = t := by
    have hget : ∀ j, (t.modifyDecl id fun decl => { decl with pos := decl.pos <|> none }).get? j = t.get? j := by
      intro j
      rw [get?_modifyDecl hid]
      split
      · subst_vars
        simp [hid]
      · rfl
    cases t
    exact congrArg TypeTable.mk (Array.ext_getElem? hget)
  simp only [TypeTable.declare, h, hsame]

end

/-! ### Type expressions -/

/-- Reading a type expression into a table adds the shapes it is made of. -/
theorem decides_resolve (e : TypeExpr) (t : TypeTable) (shapes : List TypeExpr) :
    Decides (Grown declared t shapes) e.resolve (e.Known declared) fun id u =>
      Grown declared t (shapes ++ e.parts) u ∧ u.Denotes e id := by
  induction e generalizing t shapes with
  | pointer elem ih =>
    refine Decides.bind_total (ih t shapes) fun _ a => Decides.modifyGet fun u hu => ?_
    obtain ⟨hu, ha⟩ := hu
    rw [TypeExpr.parts, ← List.append_assoc]
    exact hu.intern trivial (by simp [Ty.components, ha.lt_size]) fun v hv id hid => .pointer hid (ha.mono hv.growsTo)
  | slice elem ih =>
    refine Decides.bind_total (ih t shapes) fun _ a => Decides.modifyGet fun u hu => ?_
    obtain ⟨hu, ha⟩ := hu
    rw [TypeExpr.parts, ← List.append_assoc]
    exact hu.intern trivial (by simp [Ty.components, ha.lt_size]) fun v hv id hid => .slice hid (ha.mono hv.growsTo)
  | array elem ih =>
    refine Decides.bind_total (ih t shapes) fun _ a => Decides.modifyGet fun u hu => ?_
    obtain ⟨hu, ha⟩ := hu
    rw [TypeExpr.parts, ← List.append_assoc]
    exact hu.intern trivial (by simp [Ty.components, ha.lt_size]) fun v hv id hid => .array hid (ha.mono hv.growsTo)
  | map key value ihk ihv =>
    refine Decides.bind (ihk t shapes) fun _ k => Decides.of_forall fun s hs => ?_
    obtain ⟨hs, hk⟩ := hs
    -- the key keeps its shape while the value is read
    have hvalue : Decides (fun v => v = s) value.resolve (value.Known declared) fun a u =>
        Grown declared s value.parts u ∧ u.Denotes value a :=
      (ihv s []).weaken (by rintro v rfl; exact .refl hs.wellFormed hs.declares) fun _ _ h => h
    refine Decides.bind_total hvalue fun _ a => Decides.modifyGet fun u hu => ?_
    obtain ⟨hu, ha⟩ := hu
    have hk' := hk.mono hu.old.growsTo
    rw [TypeExpr.parts, ← List.append_assoc, ← List.append_assoc]
    refine (hs.trans hu).intern trivial ?_ fun v hv id hid =>
      .map hid (hk'.mono hv.growsTo) (ha.mono hv.growsTo)
    simp [Ty.components, hk'.lt_size, ha.lt_size]
  | interface =>
    exact Decides.modifyGet fun u hu => hu.intern trivial (by simp [Ty.components]) fun v _ id hid => .interface hid
  | basic name =>
    exact Decides.modifyGet fun u hu => hu.intern trivial (by simp [Ty.components]) fun v _ id hid => .basic hid
  | declared name =>
    intro s hs
    rw [TypeExpr.resolve, get_bind]
    cases hn : s.named? name with
    | some id =>
      have hid := Denotes.of_named? hn
      exact ⟨hs.declares.only name hid.has, hs.of_has hid.has, hid⟩
    | none =>
      by_cases hname : '.' ∈ name.toList
      · simp only [hname, ↓reduceIte]
        exact ⟨Or.inl hname, hs.declare hn hname⟩
      · simp only [hname, ↓reduceIte]
        rintro (h | h)
        · exact hname h
        · exact named?_eq_none_iff.1 hn (hs.declares.has name h)
  | malformed text flaw => exact Decides.throw

end TypeTable

end FluentChain
