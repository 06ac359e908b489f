import FluentChain.Type.Display
import FluentChain.Type.Expression

/-!
# Shapes of types

Indices of types say nothing by themselves: the same type has another index in another table.  What a type is, in
whatever table it stands, is its shape, the type expression that it is written as (`TypeTable.Denotes`).  Named
types end a shape, and structs and functions have none.

In a well-formed table a shape is the shape of one type only (`Denotes.id_unique`), and a type keeps its shape in
all that is done to the table later (`Denotes.mono`).
-/

namespace FluentChain

namespace TypeExpr

/-- All shapes that a shape is made of, its own included, a part before what it is part of. -/
def parts : TypeExpr → List TypeExpr
  | .pointer elem => elem.parts ++ [.pointer elem]
  | .slice elem => elem.parts ++ [.slice elem]
  | .array elem => elem.parts ++ [.array elem]
  | .map key value => key.parts ++ value.parts ++ [.map key value]
  | .interface => [.interface]
  | .basic name => [.basic name]
  | .declared name => [.declared name]
  | .malformed text flaw => [.malformed text flaw]

/-- Whether a shape is a type where the names in `declared` are declared. -/
def Known (declared : List String) : TypeExpr → Prop
  | .pointer elem | .slice elem | .array elem => elem.Known declared
  | .map key value => key.Known declared ∧ value.Known declared
  | .interface | .basic _ => True
  | .declared name => '.' ∈ name.toList ∨ name ∈ declared
  | .malformed .. => False

/-- The text of a type of this shape. -/
def text : TypeExpr → String
  | .pointer elem => "*" ++ elem.text
  | .slice elem => "[]" ++ elem.text
  | .array elem => "[_]" ++ elem.text
  | .map key value => "map[" ++ key.text ++ "]" ++ value.text
  | .interface => "interface\x7b\x7d"
  | .basic name | .declared name | .malformed name _ => name

/-- What is known where some names are declared is known where more are. -/
theorem Known.mono {declared more : List String} {e : TypeExpr} (h : e.Known declared)
    (hsub : ∀ name ∈ declared, name ∈ more) : e.Known more := by
  induction e with
  | pointer elem ih | slice elem ih | array elem ih => exact ih h
  | map key value ihk ihv => exact ⟨ihk h.1, ihv h.2⟩
  | declared name => exact h.imp_right (hsub name)
  | interface | basic => trivial
  | malformed => exact h

end TypeExpr

namespace Ty

/-- The types that a type is made of. -/
def components : Ty → List TypeId
  | .pointer elem | .slice elem | .array elem => [elem]
  | .map key value => [key, value]
  | .struct fields => fields.map (·.type)
  | .signature sig => sig.params ++ sig.results
  | _ => []

/-- Whether types with equal parts are one type. -/
def IsShared : Ty → Prop
  | .named _ | .struct _ | .signature _ => False
  | _ => True

end Ty

/-- The declaration of a name of which nothing else is known. -/
def NamedType.blank (name : String) : NamedType := ⟨name, none, none, []⟩

namespace TypeTable

variable {t u v : TypeTable} {ty : Ty} {id : TypeId} {name : String}

/-! ### Entries -/

theorem lt_size_of_get? (h : t.get? id = some ty) : id < t.size := (Array.getElem?_eq_some_iff.1 h).1

theorem exists_get?_of_lt (h : id < t.size) : ∃ ty, t.get? id = some ty := ⟨_, Array.getElem?_eq_getElem h⟩

/-- A new type comes to the end, and the others keep their indices. -/
theorem get?_push (t : TypeTable) (ty : Ty) (id : TypeId) :
    (t.push ty).2.get? id = if id = t.size then some ty else t.get? id := Array.getElem?_push

theorem get?_push_size (t : TypeTable) (ty : Ty) : (t.push ty).2.get? t.size = some ty := by
  rw [get?_push, if_pos rfl]

/-- A type that is found stands where it is found. -/
theorem get?_of_find? (h : t.find? ty = some id) : t.get? id = some ty := by
  obtain ⟨hid, hty, -⟩ := Array.findIdx?_eq_some_iff_getElem.1 h
  exact Array.getElem?_eq_some_iff.2 ⟨hid, of_decide_eq_true hty⟩

/-- A type that is not found stands nowhere. -/
theorem get?_ne_of_find? (h : t.find? ty = none) (id : TypeId) : t.get? id ≠ some ty := by
  intro hid
  have hmem := Array.mem_of_getElem? hid
  simpa using Array.findIdx?_eq_none_iff.1 h ty hmem

/-- A name that is found stands for the type that is declared under it. -/
theorem get?_of_named? (h : t.named? name = some id) :
    ∃ decl, t.get? id = some (.named decl) ∧ decl.name = name := by
  obtain ⟨hid, hdeclares, -⟩ := Array.findIdx?_eq_some_iff_getElem.1 h
  cases hty : t.entries[id] with
  | named decl =>
    rw [hty] at hdeclares
    exact ⟨decl, Array.getElem?_eq_some_iff.2 ⟨hid, hty⟩, eq_of_beq hdeclares⟩
  | _ => simp [hty, declares] at hdeclares

/-- Where a name is not found, no type is declared under it. -/
theorem name_ne_of_named? (h : t.named? name = none) {decl : NamedType} (hid : t.get? id = some (.named decl)) :
    decl.name ≠ name := by
  have hmem := Array.mem_of_getElem? hid
  simpa [declares] using Array.findIdx?_eq_none_iff.1 h _ hmem

/-! ### Shapes -/

/-- The type `id` has the shape `e`. -/
inductive Denotes (t : TypeTable) : TypeExpr → TypeId → Prop
  | pointer {e : TypeExpr} {elem id : TypeId} (hid : t.get? id = some (.pointer elem)) (helem : Denotes t e elem) :
    Denotes t (.pointer e) id
  | slice {e : TypeExpr} {elem id : TypeId} (hid : t.get? id = some (.slice elem)) (helem : Denotes t e elem) :
    Denotes t (.slice e) id
  | array {e : TypeExpr} {elem id : TypeId} (hid : t.get? id = some (.array elem)) (helem : Denotes t e elem) :
    Denotes t (.array e) id
  | map {k v : TypeExpr} {key value id : TypeId} (hid : t.get? id = some (.map key value))
    (hkey : Denotes t k key) (hvalue : Denotes t v value) : Denotes t (.map k v) id
  | interface {id : TypeId} (hid : t.get? id = some .interface) : Denotes t .interface id
  | basic {name : String} {id : TypeId} (hid : t.get? id = some (.basic name)) : Denotes t (.basic name) id
  | declared {decl : NamedType} {id : TypeId} (hid : t.get? id = some (.named decl)) :
    Denotes t (.declared decl.name) id

/-- The table has a type of the shape `e`. -/
def Has (t : TypeTable) (e : TypeExpr) : Prop := ∃ id, t.Denotes e id

/-- A shape that a type has is in the table. -/
theorem Denotes.has {e : TypeExpr} (h : t.Denotes e id) : t.Has e := ⟨id, h⟩

theorem Denotes.get? {e : TypeExpr} (h : t.Denotes e id) : ∃ ty, t.get? id = some ty := by
  cases h <;> exact ⟨_, ‹_›⟩

theorem Denotes.lt_size {e : TypeExpr} (h : t.Denotes e id) : id < t.size :=
  lt_size_of_get? h.get?.choose_spec

theorem Denotes.get?_ne_struct {e : TypeExpr} (h : t.Denotes e id) (fields : List Field) :
    t.get? id ≠ some (.struct fields) := by
  cases h <;> simp [*]

/-- A name is the shape of the types that are declared under it. -/
theorem denotes_declared_iff :
    t.Denotes (.declared name) id ↔ ∃ decl, t.get? id = some (.named decl) ∧ decl.name = name := by
  constructor
  · rintro (_ | _ | _ | _ | _ | _ | hid)
    exact ⟨_, hid, rfl⟩
  · rintro ⟨decl, hid, rfl⟩
    exact .declared hid

theorem Denotes.of_named? (h : t.named? name = some id) : t.Denotes (.declared name) id :=
  denotes_declared_iff.2 (get?_of_named? h)

/-- A name is not found if the table has no type of it. -/
theorem named?_eq_none_iff : t.named? name = none ↔ ¬ t.Has (.declared name) := by
  constructor
  · rintro h ⟨id, hid⟩
    obtain ⟨decl, hid, hname⟩ := denotes_declared_iff.1 hid
    exact name_ne_of_named? h hid hname
  · intro h
    cases hn : t.named? name with
    | none => rfl
    | some id => exact absurd (Denotes.of_named? hn).has h

/-- A type has one shape. -/
theorem Denotes.expr_unique {e e' : TypeExpr} (h : t.Denotes e id) (h' : t.Denotes e' id) : e = e' := by
  induction h generalizing e' with
  | pointer hid _ ih | slice hid _ ih | array hid _ ih =>
    cases h' <;> cases hid.symm.trans ‹t.get? _ = _›
    rename_i h' _
    rw [ih h']
  | map hid _ _ ihk ihv =>
    cases h' <;> cases hid.symm.trans ‹t.get? _ = _›
    rename_i hk hv _
    rw [ihk hk, ihv hv]
  | interface hid | basic hid | declared hid =>
    cases h' <;> cases hid.symm.trans ‹t.get? _ = _›
    rfl

/-! ### Well-formed tables -/

/-- The invariants of a table: a type stands behind what it is made of, and types that are the same type are
one entry. -/
structure WellFormed (t : TypeTable) : Prop where
  ordered : ∀ {id : TypeId} {ty : Ty}, t.get? id = some ty → ∀ c ∈ ty.components, c < id
  shared : ∀ {a b : TypeId} {ty : Ty}, t.get? a = some ty → t.get? b = some ty → ty.IsShared → a = b
  names : ∀ {a b : TypeId} {d d' : NamedType},
    t.get? a = some (.named d) → t.get? b = some (.named d') → d.name = d'.name → a = b

/-- A shape is the shape of one type only. -/
theorem Denotes.id_unique (ht : t.WellFormed) {e : TypeExpr} {a b : TypeId} (ha : t.Denotes e a)
    (hb : t.Denotes e b) : a = b := by
  induction ha generalizing b with
  | pointer hid _ ih =>
    cases hb with
    | pointer hb helem =>
      rw [← ih helem] at hb
      exact ht.shared hid hb trivial
  | slice hid _ ih =>
    cases hb with
    | slice hb helem =>
      rw [← ih helem] at hb
      exact ht.shared hid hb trivial
  | array hid _ ih =>
    cases hb with
    | array hb helem =>
      rw [← ih helem] at hb
      exact ht.shared hid hb trivial
  | map hid _ _ ihk ihv =>
    cases hb with
    | map hb hkey hvalue =>
      rw [← ihk hkey, ← ihv hvalue] at hb
      exact ht.shared hid hb trivial
  | interface hid =>
    cases hb with
    | interface hb => exact ht.shared hid hb trivial
  | basic hid =>
    cases hb with
    | basic hb => exact ht.shared hid hb trivial
  | declared hid =>
    obtain ⟨decl, hb, hname⟩ := denotes_declared_iff.1 hb
    exact ht.names hid hb hname.symm

/-- In a well-formed table a name leads to the one type of it. -/
theorem named?_eq_some_iff (ht : t.WellFormed) : t.named? name = some id ↔ t.Denotes (.declared name) id := by
  refine ⟨Denotes.of_named?, fun h => ?_⟩
  cases hn : t.named? name with
  | none => exact absurd h.has (named?_eq_none_iff.1 hn)
  | some other => rw [(Denotes.of_named? hn).id_unique ht h]

/-- In a well-formed table a type leads to the one index where it stands. -/
theorem find?_eq_some_iff (ht : t.WellFormed) (hty : ty.IsShared) : t.find? ty = some id ↔ t.get? id = some ty := by
  refine ⟨get?_of_find?, fun h => ?_⟩
  cases hn : t.find? ty with
  | none => exact absurd h (get?_ne_of_find? hn id)
  | some other => rw [ht.shared (get?_of_find? hn) h hty]

/-- The text of a type is the text of its shape. -/
theorem Denotes.display_eq (ht : t.WellFormed) {e : TypeExpr} (h : t.Denotes e id) : t.display id = e.text := by
  induction h with
  | pointer hid _ ih | slice hid _ ih | array hid _ ih =>
    have hlt := ht.ordered hid _ List.mem_cons_self
    rw [display]
    simp only [hid, hlt, ↓reduceIte, ih, TypeExpr.text]
  | map hid _ _ ihk ihv =>
    have hkey := ht.ordered hid _ List.mem_cons_self
    have hvalue := ht.ordered hid _ (List.mem_cons_of_mem _ List.mem_cons_self)
    rw [display]
    simp only [hid, hkey, hvalue, ↓reduceIte, ihk, ihv, TypeExpr.text]
  | interface hid | basic hid | declared hid =>
    rw [display]
    simp only [hid, TypeExpr.text]

/-! ### Growth -/

/-- The table `u` has what `t` has at the same indices, the definitions and methods of names aside. -/
structure GrowsTo (t u : TypeTable) : Prop where
  unnamed : ∀ {id : TypeId} {ty : Ty}, t.get? id = some ty → (∀ decl, ty ≠ .named decl) → u.get? id = some ty
  named : ∀ {id : TypeId} {decl : NamedType}, t.get? id = some (.named decl) →
    ∃ decl', u.get? id = some (.named decl') ∧ decl'.name = decl.name

/-- The table `u` has all entries of `t`, and nothing is known of the names that are new in it. -/
structure Extends (t u : TypeTable) : Prop where
  get? : ∀ {id : TypeId} {ty : Ty}, t.get? id = some ty → u.get? id = some ty
  blank : ∀ {id : TypeId} {decl : NamedType}, u.get? id = some (.named decl) →
    t.get? id = some (.named decl) ∨ ¬ t.Has (.declared decl.name) ∧ decl = .blank decl.name

theorem GrowsTo.refl (t : TypeTable) : t.GrowsTo t := ⟨fun h _ => h, fun h => ⟨_, h, rfl⟩⟩

/-- Growth of a table is growth in steps. -/
theorem GrowsTo.trans (h : t.GrowsTo u) (h' : u.GrowsTo v) : t.GrowsTo v where
  unnamed hid hty := h'.unnamed (h.unnamed hid hty) hty
  named hid := by
    obtain ⟨decl', hid', hname⟩ := h.named hid
    obtain ⟨decl'', hid'', hname'⟩ := h'.named hid'
    exact ⟨decl'', hid'', hname'.trans hname⟩

/-- A table that has what another has has grown from it. -/
theorem Extends.growsTo (h : t.Extends u) : t.GrowsTo u where
  unnamed hid _ := h.get? hid
  named hid := ⟨_, h.get? hid, rfl⟩

/-- A type keeps its shape. -/
theorem Denotes.mono {e : TypeExpr} (h : t.Denotes e id) (hgrow : t.GrowsTo u) : u.Denotes e id := by
  induction h with
  | pointer hid _ ih => exact .pointer (hgrow.unnamed hid nofun) ih
  | slice hid _ ih => exact .slice (hgrow.unnamed hid nofun) ih
  | array hid _ ih => exact .array (hgrow.unnamed hid nofun) ih
  | map hid _ _ ihk ihv => exact .map (hgrow.unnamed hid nofun) ihk ihv
  | interface hid => exact .interface (hgrow.unnamed hid nofun)
  | basic hid => exact .basic (hgrow.unnamed hid nofun)
  | declared hid =>
    obtain ⟨decl', hid', hname⟩ := hgrow.named hid
    rw [← hname]
    exact .declared hid'

/-- A type is written in the same way in all that is done to the table later. -/
theorem display_of_growsTo (ht : t.WellFormed) (hgrow : t.GrowsTo u) (hid : id < t.size) :
    u.display id = t.display id := by
  induction id using Nat.strongRecOn with
  | _ id ih =>
    obtain ⟨ty, hty⟩ := exists_get?_of_lt hid
    have hcomponent : ∀ c ∈ ty.components, u.display c = t.display c := fun c hc =>
      ih c (ht.ordered hty c hc) (Nat.lt_trans (ht.ordered hty c hc) hid)
    rw [display, display]
    cases ty with
    | named decl =>
      obtain ⟨decl', hid', hname⟩ := hgrow.named hty
      simp only [hty, hid', hname]
    | basic | struct | interface => simp only [hty, hgrow.unnamed hty nofun]
    | pointer elem | slice elem | array elem =>
      simp only [hty, hgrow.unnamed hty nofun, hcomponent elem List.mem_cons_self]
    | map key value =>
      simp only [hty, hgrow.unnamed hty nofun, hcomponent key List.mem_cons_self,
        hcomponent value (List.mem_cons_of_mem _ List.mem_cons_self)]
    | signature sig =>
      have hmap : ∀ ids : List TypeId, (∀ c ∈ ids, c ∈ sig.params ++ sig.results) →
          (ids.map fun c => if c < id then u.display c else "") = ids.map fun c => if c < id then t.display c else "" :=
        fun ids hids => List.map_congr_left fun c hc => by rw [hcomponent c (hids c hc)]
      simp only [hty, hgrow.unnamed hty nofun, hmap sig.params fun c hc => List.mem_append_left _ hc,
        hmap sig.results fun c hc => List.mem_append_right _ hc]

/-- A shape stays in the table when it grows. -/
theorem Has.mono {e : TypeExpr} (h : t.Has e) (hgrow : t.GrowsTo u) : u.Has e := by
  obtain ⟨id, hid⟩ := h
  exact (hid.mono hgrow).has

theorem Extends.refl (t : TypeTable) : t.Extends t := ⟨fun h => h, fun h => Or.inl h⟩

theorem Extends.trans (h : t.Extends u) (h' : u.Extends v) : t.Extends v where
  get? hid := h'.get? (h.get? hid)
  blank hid := by
    rcases h'.blank hid with hid' | ⟨hnew, hblank⟩
    · exact h.blank hid'
    · exact Or.inr ⟨fun hhas => hnew (hhas.mono h.growsTo), hblank⟩

end TypeTable

end FluentChain
