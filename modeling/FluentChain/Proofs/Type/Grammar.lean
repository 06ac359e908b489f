import FluentChain.Proofs.Type.Text

/-!
# The grammar of type expressions

`TypeTable.Derives` is the grammar that type expressions have on paper, with blanks around every part.  Reading a
text succeeds exactly where the grammar derives the text, all derivations of a text give one shape, and what is
returned is a type of that shape (`parse_exact`).

That a derived text is read in the same way needs two facts: the blanks behind a text are trimmed off before the
part that they belong to is reached, so a part is read alike with and without them, and a derived text closes its
brackets, so the key of a map ends where the grammar says it ends.
-/

namespace FluentChain

namespace TypeExpr

open Text (Padded trim trimEnd)

/-! ### Names -/

/-- One or more identifiers with dots between them. -/
def IsQualifiedName (cs : List Char) : Prop :=
  ∃ parts : List (List Char), parts ≠ [] ∧ (∀ part ∈ parts, isIdentifier part = true) ∧ cs = ['.'].intercalate parts

theorem isQualified_iff {cs : List Char} : isQualified cs = true ↔ IsQualifiedName cs := by
  constructor
  · intro h
    exact ⟨cs.splitOn '.', List.splitOn_ne_nil '.' cs, List.all_eq_true.1 h, (List.intercalate_splitOn '.').symm⟩
  · rintro ⟨parts, hne, hparts, rfl⟩
    have hdot : ∀ part ∈ parts, '.' ∉ part := fun part hpart hmem =>
      absurd (isNameChar_of_isIdentifier (hparts part hpart) '.' hmem) (by decide +kernel)
    rw [isQualified, List.splitOn_intercalate '.' hdot hne]
    exact List.all_eq_true.2 hparts

/-- The type that a name stands for.  The predeclared names come before all that is declared. -/
def ofName (name : String) : TypeExpr :=
  if name = "any" then .interface
  else if name ∈ predeclared then .basic name
  else .declared name

theorem nameShape_of_isQualifiedName {cs : List Char} (h : IsQualifiedName cs) (whole : List Char) :
    nameShape whole cs = ofName (String.ofList cs) := by
  have hqualified := isQualified_iff.2 h
  have hbrace : String.ofList cs ≠ "interface\x7b\x7d" := by
    intro heq
    have hmem : '\x7b' ∈ cs := by
      rw [← String.toList_ofList (l := cs), heq]
      simp
    exact absurd (isSpecial_of_isQualified hqualified '\x7b' hmem) (by decide)
  simp only [nameShape, ofName, hbrace, false_or, hqualified, ↓reduceIte]

theorem parse_of_padded_name {cs text whole : List Char} (h : trim cs = trim whole) (hwhole : Padded text whole)
    (hne : text ≠ []) (hblank : ∀ c ∈ text, Text.isBlank c = false) (hplain : ∀ c ∈ text, c ≠ '*' ∧ c ≠ '[') :
    parse cs = nameShape cs text := by
  have htrim : trim cs = text := by rw [h, hwhole.trim_eq, Text.trim_eq_self hblank]
  exact parse_name htrim hne hplain

theorem parse_of_padded_qualified {cs text whole : List Char} (h : trim cs = trim whole) (hwhole : Padded text whole)
    (hname : isQualified text = true) : parse cs = nameShape cs text :=
  parse_of_padded_name h hwhole (ne_nil_of_isQualified hname)
    (fun c hc => isBlank_of_isSpecial (isSpecial_of_isQualified hname c hc))
    fun c hc => ⟨(ne_of_isQualified hname c hc).1, (ne_of_isQualified hname c hc).2.1⟩

/-! ### Brackets -/

theorem append_of_splitBracket? {depth : Nat} {cs inner after : List Char}
    (h : splitBracket? depth cs = some (inner, after)) : cs = inner ++ ']' :: after := by
  fun_induction splitBracket? depth cs generalizing inner with
  | case1 => cases h
  | case2 =>
    cases h
    rfl
  | _ =>
    rename_i ih
    obtain ⟨⟨inner', after'⟩, hsplit, heq⟩ := Option.map_eq_some_iff.1 h
    cases heq
    rw [ih hsplit, List.cons_append]

theorem not_bracket_of_isBlank {c : Char} (h : Text.isBlank c = true) : c ≠ '[' ∧ c ≠ ']' := by
  refine ⟨?_, ?_⟩
  all_goals
    rintro rfl
    exact absurd h (by decide)

theorem Balanced.of_padded {text whole : List Char} (h : Balanced text) (hwhole : Padded text whole) :
    Balanced whole := by
  obtain ⟨before, after, hbefore, hafter, rfl⟩ := hwhole
  have hblank : ∀ {cs : List Char}, (∀ c ∈ cs, Text.isBlank c = true) → Balanced cs := fun hcs =>
    .plain fun c hc => not_bracket_of_isBlank (hcs c hc)
  exact ((hblank hbefore).append h).append (hblank hafter)

end TypeExpr

namespace TypeTable

open TypeExpr
open Text (Padded trim trimEnd)

variable {t u v : TypeTable} {e : TypeExpr} {declared : List String}

/-! ### Derivations -/

/-- The grammar of type expressions: the text is a type of the shape `e`, where the names of `t` are declared. -/
inductive Derives (t : TypeTable) : List Char → TypeExpr → Prop
  | pointer {rest whole : List Char} {elem : TypeExpr} (hwhole : Padded ('*' :: rest) whole)
    (helem : Derives t rest elem) : Derives t whole (.pointer elem)
  | slice {rest whole : List Char} {elem : TypeExpr} (hwhole : Padded ('[' :: ']' :: rest) whole)
    (helem : Derives t rest elem) : Derives t whole (.slice elem)
  | map {k v whole : List Char} {key value : TypeExpr}
    (hwhole : Padded ('m' :: 'a' :: 'p' :: '[' :: (k ++ ']' :: v)) whole) (hkey : Derives t k key)
    (hvalue : Derives t v value) : Derives t whole (.map key value)
  | array {digits length rest whole : List Char} {elem : TypeExpr} (hne : digits ≠ [])
    (hdigits : ∀ c ∈ digits, isLengthChar c = true) (hlength : Padded digits length)
    (hwhole : Padded ('[' :: (length ++ ']' :: rest)) whole) (helem : Derives t rest elem) :
    Derives t whole (.array elem)
  | interface {whole : List Char} (hwhole : Padded "interface\x7b\x7d".toList whole) : Derives t whole .interface
  | any {whole : List Char} (hwhole : Padded "any".toList whole) : Derives t whole .interface
  | predeclared {name : String} {whole : List Char} (hname : name ∈ TypeExpr.predeclared)
    (hwhole : Padded name.toList whole) : Derives t whole (.basic name)
  | name {cs whole : List Char} (hname : IsQualifiedName cs)
    (hknown : '.' ∈ cs ∨ (t.named? (String.ofList cs)).isSome = true) (hwhole : Padded cs whole) :
    Derives t whole (.ofName (String.ofList cs))

/-- A derived text closes its brackets. -/
theorem Derives.balanced {cs : List Char} (h : t.Derives cs e) : Balanced cs := by
  have hname : ∀ {cs : List Char}, isQualified cs = true → Balanced cs := fun hcs =>
    .plain fun c hc => (ne_of_isQualified hcs c hc).2
  induction h with
  | pointer hwhole _ ih =>
    have hstar : Balanced ['*'] := .plain (by simp)
    exact (hstar.append ih).of_padded hwhole
  | slice hwhole _ ih => exact (balanced_nil.bracket.append ih).of_padded hwhole
  | map hwhole _ _ ihk ihv =>
    have hmap : Balanced ['m', 'a', 'p'] := .plain (by simp)
    refine Balanced.of_padded ?_ hwhole
    simpa using hmap.append (ihk.bracket.append ihv)
  | array _ hdigits hlength hwhole _ ih =>
    have hlength' := (Balanced.plain fun c hc => not_bracket_of_isLengthChar (hdigits c hc)).of_padded hlength
    refine Balanced.of_padded ?_ hwhole
    simpa using hlength'.bracket.append ih
  | interface hwhole | any hwhole => exact (Balanced.plain (by simp)).of_padded hwhole
  | predeclared hmem hwhole => exact (hname (isQualified_of_mem_predeclared _ hmem)).of_padded hwhole
  | name hqualified _ hwhole => exact (hname (isQualified_iff.2 hqualified)).of_padded hwhole

/-- A derived text is read as the derivation says, also where there are more or fewer blanks around it. -/
theorem Derives.parse_eq {cs : List Char} (h : t.Derives cs e) {cs' : List Char} (htrim : trim cs' = trim cs) :
    TypeExpr.parse cs' = e := by
  induction h generalizing cs' with
  | @pointer rest whole elem hwhole _ ih =>
    have hstar : trim cs' = '*' :: trimEnd rest := by
      rw [htrim, hwhole.trim_eq, Text.trim_cons (by decide)]
    rw [parse_pointer hstar, ih (Text.trim_trimEnd rest)]
  | @slice rest whole elem hwhole _ ih =>
    have hopen : trim cs' = '[' :: ']' :: trimEnd rest := by
      rw [htrim, hwhole.trim_eq, Text.trim_cons (by decide)]
      exact congrArg ('[' :: ·) (Text.trimEnd_append_cons (by decide) [] rest)
    rw [parse_slice hopen, ih (Text.trim_trimEnd rest)]
  | @map k v whole key value hwhole hkey _ ihk ihv =>
    have hopen : trim cs' = 'm' :: 'a' :: 'p' :: '[' :: (k ++ ']' :: trimEnd v) := by
      rw [htrim, hwhole.trim_eq, Text.trim_cons (by decide)]
      exact congrArg ('m' :: ·) (Text.trimEnd_append_cons (by decide) ('a' :: 'p' :: '[' :: k) v)
    rw [parse_map hopen hkey.balanced.split, ihk rfl, ihv (Text.trim_trimEnd v)]
  | @array digits length rest whole elem hne hdigits hlength hwhole _ ih =>
    have hopen : trim cs' = '[' :: (length ++ ']' :: trimEnd rest) := by
      rw [htrim, hwhole.trim_eq, Text.trim_cons (by decide)]
      exact congrArg ('[' :: ·) (Text.trimEnd_append_cons (by decide) length rest)
    have hbalanced := (Balanced.plain fun c hc => not_bracket_of_isLengthChar (hdigits c hc)).of_padded hlength
    have htrimmed : trim length = digits :=
      hlength.trim_eq.trans (Text.trim_eq_self fun c hc => isBlank_of_isLengthChar (hdigits c hc))
    rw [parse_array hopen hbalanced.split (htrimmed ▸ ⟨hne, List.all_eq_true.2 hdigits⟩),
      ih (Text.trim_trimEnd rest)]
  | interface hwhole | any hwhole =>
    rw [parse_of_padded_name htrim hwhole (by simp) (by simp; decide) (by simp)]
    simp [nameShape]
  | predeclared hmem hwhole =>
    rw [parse_of_padded_qualified htrim hwhole (isQualified_of_mem_predeclared _ hmem)]
    exact nameShape_of_mem_predeclared hmem _
  | name hname _ hwhole =>
    rw [parse_of_padded_qualified htrim hwhole (isQualified_iff.2 hname)]
    exact nameShape_of_isQualifiedName hname _

/-- What is derived stays derived when more names are declared. -/
theorem Derives.mono {cs : List Char} (h : t.Derives cs e) (hgrow : t.GrowsTo u) : u.Derives cs e := by
  induction h with
  | pointer hwhole _ ih => exact .pointer hwhole ih
  | slice hwhole _ ih => exact .slice hwhole ih
  | map hwhole _ _ ihk ihv => exact .map hwhole ihk ihv
  | array hne hdigits hlength hwhole _ ih => exact .array hne hdigits hlength hwhole ih
  | interface hwhole => exact .interface hwhole
  | any hwhole => exact .any hwhole
  | predeclared hname hwhole => exact .predeclared hname hwhole
  | name hname hknown hwhole =>
    refine .name hname (hknown.imp_right fun hsome => ?_) hwhole
    have hhas := (Denotes.of_named? (Option.some_get hsome).symm).has.mono hgrow
    exact Option.isSome_iff_ne_none.2 fun hnone => named?_eq_none_iff.1 hnone hhas

/-- All derivations of a text give one shape. -/
theorem Derives.unique {cs : List Char} {e' : TypeExpr} (h : t.Derives cs e) (h' : t.Derives cs e') : e = e' :=
  (h.parse_eq rfl).symm.trans (h'.parse_eq rfl)

theorem Declares.known_declared_iff (h : t.Declares declared) {name : String} :
    (TypeExpr.declared name).Known declared ↔ '.' ∈ name.toList ∨ (t.named? name).isSome = true := by
  constructor
  · refine Or.imp_right fun hmem => Option.isSome_iff_ne_none.2 fun hnone => ?_
    exact named?_eq_none_iff.1 hnone (h.has name hmem)
  · rintro (hdot | hsome)
    · exact Or.inl hdot
    · exact h.only name (Denotes.of_named? (Option.some_get hsome).symm).has

/-- What is derived is known. -/
theorem Derives.known {cs : List Char} (h : t.Derives cs e) (hdeclares : t.Declares declared) :
    e.Known declared := by
  induction h with
  | pointer _ _ ih | slice _ _ ih | array _ _ _ _ _ ih => exact ih
  | map _ _ _ ihk ihv => exact ⟨ihk, ihv⟩
  | interface | any | predeclared => trivial
  | name _ hknown _ =>
    unfold ofName
    split
    · trivial
    · split
      · trivial
      · exact hdeclares.known_declared_iff.2 (by rwa [String.toList_ofList])

theorem derives_nameShape {whole : List Char} (hdeclares : t.Declares declared)
    (h : (nameShape whole (trim whole)).Known declared) : t.Derives whole (nameShape whole (trim whole)) := by
  have hwhole := Text.padded_trim whole
  have htext : ∀ {name : String}, String.ofList (trim whole) = name → Padded name.toList whole := by
    rintro _ rfl
    rwa [String.toList_ofList]
  by_cases hinterface : String.ofList (trim whole) = "interface\x7b\x7d" ∨ String.ofList (trim whole) = "any"
  · rw [nameShape, if_pos hinterface]
    rcases hinterface with hname | hname
    · exact .interface (htext hname)
    · exact .any (htext hname)
  · by_cases hpredeclared : String.ofList (trim whole) ∈ TypeExpr.predeclared
    · rw [nameShape, if_neg hinterface, if_pos hpredeclared]
      exact .predeclared hpredeclared (htext rfl)
    · by_cases hqualified : isQualified (trim whole) = true
      · have hshape : nameShape whole (trim whole) = .declared (String.ofList (trim whole)) := by
          rw [nameShape, if_neg hinterface, if_neg hpredeclared, if_pos hqualified]
        have hname := isQualified_iff.1 hqualified
        rw [hshape, hdeclares.known_declared_iff, String.toList_ofList] at h
        rw [nameShape_of_isQualifiedName hname]
        exact .name hname h hwhole
      · rw [nameShape, if_neg hinterface, if_neg hpredeclared, if_neg hqualified] at h
        exact h.elim

/-- What is read without a flaw and with known names only is derived. -/
theorem derives_parse {cs : List Char} (hdeclares : t.Declares declared)
    (h : (TypeExpr.parse cs).Known declared) : t.Derives cs (TypeExpr.parse cs) := by
  have hpadded : ∀ {text whole : List Char}, trim whole = text → Padded text whole := by
    rintro _ whole rfl
    exact Text.padded_trim whole
  fun_induction TypeExpr.parse cs with
  | case1 | case4 | case6 | case8 => exact h.elim
  | case2 _ _ htrim ih => exact .pointer (hpadded htrim) (ih h)
  | case3 _ _ htrim ih => exact .slice (hpadded htrim) (ih h)
  | case5 whole rest htrim key value hsplit ihk ihv =>
    rw [append_of_splitBracket? hsplit] at htrim
    exact .map (hpadded htrim) (ihk h.1) (ihv h.2)
  | case7 whole rest _ htrim length elem hsplit _ hlength ih =>
    rw [append_of_splitBracket? hsplit] at htrim
    exact .array hlength.1 (List.all_eq_true.1 hlength.2) (Text.padded_trim length) (hpadded htrim) (ih h)
  | case9 => exact derives_nameShape hdeclares h

theorem exists_derives_iff {cs : List Char} (hdeclares : t.Declares declared) :
    (∃ e, t.Derives cs e) ↔ (TypeExpr.parse cs).Known declared := by
  constructor
  · rintro ⟨e, he⟩
    rw [he.parse_eq rfl]
    exact he.known hdeclares
  · exact fun h => ⟨_, derives_parse hdeclares h⟩

/-! ### Reading -/

/-- The table `u` is `t` with types added, and the names that are new in it are qualified. -/
structure Gains (t u : TypeTable) : Prop extends Extends t u where
  named? : ∀ {name : String} {id : TypeId}, t.named? name = some id → u.named? name = some id
  dotted : ∀ {id : TypeId} {decl : NamedType}, u.get? id = some (.named decl) →
    t.get? id = some (.named decl) ∨ '.' ∈ decl.name.toList

namespace Gains

theorem refl (t : TypeTable) : t.Gains t := ⟨.refl t, fun h => h, fun h => Or.inl h⟩

theorem trans (h : t.Gains u) (h' : u.Gains v) : t.Gains v where
  toExtends := h.toExtends.trans h'.toExtends
  named? hname := h'.named? (h.named? hname)
  dotted hid := (h'.dotted hid).elim h.dotted Or.inr

theorem push {ty : Ty} (hnamed : ∀ decl, ty = .named decl →
    (¬ t.Has (.declared decl.name) ∧ decl = .blank decl.name) ∧ '.' ∈ decl.name.toList) :
    t.Gains (t.push ty).2 where
  toExtends := extends_push t fun decl hdecl => (hnamed decl hdecl).1
  named? h := by
    simp only [TypeTable.named?, TypeTable.push, Array.findIdx?_push] at h ⊢
    rw [h]
    rfl
  dotted hid := by
    rw [get?_push] at hid
    split at hid
    · cases hid
      exact Or.inr (hnamed _ rfl).2
    · exact Or.inl hid

theorem intern {ty : Ty} (hty : ∀ decl, ty ≠ .named decl) :
    t.Gains (t.intern ty).2 ∧ (t.intern ty).2.get? (t.intern ty).1 = some ty := by
  unfold TypeTable.intern
  split
  · rename_i id hfind
    exact ⟨refl t, get?_of_find? hfind⟩
  · exact ⟨push fun decl hdecl => absurd hdecl (hty decl), get?_push_size t ty⟩

theorem declare {name : String} (hnew : t.named? name = none) (hname : '.' ∈ name.toList) :
    t.Gains (t.declare name none).2 ∧ (t.declare name none).2.Denotes (.declared name) (t.declare name none).1 := by
  simp only [TypeTable.declare, hnew]
  refine ⟨push ?_, denotes_declared_iff.2 ⟨.blank name, get?_push_size t _, rfl⟩⟩
  rintro decl hdecl
  cases hdecl
  exact ⟨⟨named?_eq_none_iff.1 hnew, rfl⟩, hname⟩

theorem declares (h : t.Gains u) (hdeclares : t.Declares declared) : u.Declares declared where
  has name hname := (hdeclares.has name hname).mono h.growsTo
  only name hhas := by
    obtain ⟨id, hid⟩ := hhas
    obtain ⟨decl, hdecl, rfl⟩ := denotes_declared_iff.1 hid
    exact (h.dotted hdecl).elim (fun hold => hdeclares.only _ (Denotes.declared hold).has) Or.inl

end Gains

/-- How reading the shape `e` into the table `t` ends: well exactly if the shape is known, and otherwise too the
table has only gained types. -/
abbrev Resolves (declared : List String) (t : TypeTable) (e : TypeExpr)
    (m : EStateM TypeExprError TypeTable TypeId) : Prop :=
  Ensures (fun s => s = t) m (fun id u => e.Known declared ∧ t.Gains u ∧ u.Denotes e id) fun _ u =>
    ¬ e.Known declared ∧ t.Gains u

/-- A type without parts. -/
theorem resolves_intern {ty : Ty} (hty : ∀ decl, ty ≠ .named decl) (hknown : e.Known declared)
    (hshape : ∀ u : TypeTable, ∀ id, u.get? id = some ty → u.Denotes e id) :
    Resolves declared t e (modifyGet (·.intern ty)) := by
  refine Ensures.modifyGet ?_
  rintro _ rfl
  exact ⟨hknown, (Gains.intern hty).1, hshape _ _ (Gains.intern hty).2⟩

/-- A type with one part. -/
theorem resolves_elem {elem : TypeExpr} {ty : TypeId → Ty} (helem : Resolves declared t elem elem.resolve)
    (hty : ∀ a decl, ty a ≠ .named decl) (hknown : e.Known declared ↔ elem.Known declared)
    (hshape : ∀ u : TypeTable, ∀ a id, u.get? id = some (ty a) → u.Denotes elem a → u.Denotes e id) :
    Resolves declared t e (elem.resolve >>= fun a => modifyGet (·.intern (ty a))) := by
  rw [Resolves, hknown]
  refine Ensures.bind helem fun a => Ensures.modifyGet ?_
  rintro s ⟨hs, hgains, ha⟩
  have hintern := @Gains.intern s (ty a) (hty a)
  exact ⟨hs, hgains.trans hintern.1, hshape _ a _ hintern.2 (ha.mono hintern.1.growsTo)⟩

theorem resolves (e : TypeExpr) (hdeclares : t.Declares declared) : Resolves declared t e e.resolve := by
  induction e generalizing t with
  | pointer elem ih =>
    exact resolves_elem (ih hdeclares) nofun Iff.rfl fun u a id hid ha => .pointer hid ha
  | slice elem ih =>
    exact resolves_elem (ih hdeclares) nofun Iff.rfl fun u a id hid ha => .slice hid ha
  | array elem ih =>
    exact resolves_elem (ih hdeclares) nofun Iff.rfl fun u a id hid ha => .array hid ha
  | map key value ihk ihv =>
    have hkey : Ensures (fun s => s = t) key.resolve
        (fun k s => key.Known declared ∧ t.Gains s ∧ s.Denotes key k)
        fun _ u => ¬ (TypeExpr.map key value).Known declared ∧ t.Gains u :=
      Ensures.weaken (ihk hdeclares) (fun _ h => h) (fun _ _ h => h) fun _ _ h => ⟨mt And.left h.1, h.2⟩
    refine Ensures.bind hkey fun k s ⟨hknown, hts, hk⟩ => ?_
    -- the value is read into the table that the key has left
    have hvalue : Ensures (fun v => v = s) value.resolve
        (fun a u => value.Known declared ∧ s.Gains u ∧ u.Denotes value a)
        fun _ u => ¬ (TypeExpr.map key value).Known declared ∧ t.Gains u :=
      Ensures.weaken (ihv (hts.declares hdeclares)) (fun _ h => h) (fun _ _ h => h) fun _ _ h =>
        ⟨mt And.right h.1, hts.trans h.2⟩
    refine Ensures.bind hvalue (fun a => Ensures.modifyGet ?_) s rfl
    rintro u ⟨hknown', hsu, ha⟩
    have hintern := @Gains.intern u (.map k a) nofun
    refine ⟨⟨hknown, hknown'⟩, (hts.trans hsu).trans hintern.1, .map hintern.2 ?_ (ha.mono hintern.1.growsTo)⟩
    exact (hk.mono hsu.growsTo).mono hintern.1.growsTo
  | interface => exact resolves_intern nofun trivial fun u id hid => .interface hid
  | basic name => exact resolves_intern nofun trivial fun u id hid => .basic hid
  | declared name =>
    rintro s rfl
    rw [TypeExpr.resolve, get_bind]
    cases hn : s.named? name with
    | some id =>
      exact ⟨hdeclares.known_declared_iff.2 (Or.inr (by simp [hn])), .refl s, .of_named? hn⟩
    | none =>
      by_cases hname : '.' ∈ name.toList
      · simp only [hname, ↓reduceIte]
        exact ⟨Or.inl hname, Gains.declare hn hname⟩
      · simp only [hname, ↓reduceIte]
        refine ⟨fun hknown => ?_, .refl s⟩
        simpa [hname, hn] using hdeclares.known_declared_iff.1 hknown
  | malformed text flaw =>
    refine Ensures.throw ?_
    rintro s rfl
    exact ⟨not_false, .refl s⟩

/-- Reading accepts what the grammar derives, and nothing else.  All derivations of a text give one shape, and what
is returned has it.  However the reading ends, all types keep their indices and all names their types, and a name
that is new is qualified and has neither a definition nor methods. -/
theorem parse_exact (t : TypeTable) (text : String) :
    (∀ e e', t.Derives text.toList e → t.Derives text.toList e' → e = e') ∧
      ((∃ id u, TypeTable.parse text t = .ok id u) ↔ ∃ e, t.Derives text.toList e) ∧
      Ensures (fun s => s = t) (TypeTable.parse text)
        (fun id u => (∀ e, t.Derives text.toList e → u.Denotes e id) ∧ t.Gains u) fun _ u => t.Gains u := by
  obtain ⟨declared, hdeclares⟩ := exists_declares t
  have hresolves : Resolves declared t (TypeExpr.parse text.toList) (TypeTable.parse text) := resolves _ hdeclares
  refine ⟨fun e e' => Derives.unique, ?_, Ensures.weaken hresolves (fun _ h => h) ?_ fun _ _ h => h.2⟩
  · rw [exists_derives_iff hdeclares]
    constructor
    · rintro ⟨id, u, hrun⟩
      exact (Ensures.of_ok hresolves rfl hrun).1
    · intro hknown
      cases hrun : TypeTable.parse text t with
      | ok id u => exact ⟨id, u, rfl⟩
      | error err u => exact absurd hknown (Ensures.of_error hresolves rfl hrun).1
  · rintro id u ⟨-, hgains, hid⟩
    exact ⟨fun e he => he.parse_eq rfl ▸ hid, hgains⟩

/-- A map from arrays of any length to pointers to a foreign type, with blanks in it. -/
theorem parse_exact_map :
    ∃ e u, TypeTable.Derives {} "\tmap[ [ 3_ ] any]* pkg.T ".toList e ∧
      TypeTable.parse "\tmap[ [ 3_ ] any]* pkg.T " {} = .ok 4 u ∧ u.Denotes e 4 ∧ Gains {} u := by
  have hrun : TypeTable.parse "\tmap[ [ 3_ ] any]* pkg.T " {} =
      .ok 4 ⟨#[.interface, .array 0, .named (.blank "pkg.T"), .pointer 2, .map 1 3]⟩ := by decide +kernel
  obtain ⟨-, haccepts, hensures⟩ := parse_exact {} "\tmap[ [ 3_ ] any]* pkg.T "
  obtain ⟨e, he⟩ := haccepts.1 ⟨_, _, hrun⟩
  obtain ⟨hdenotes, hgains⟩ := Ensures.of_ok hensures rfl hrun
  exact ⟨e, _, he, hrun, hdenotes e he, hgains⟩

end TypeTable

end FluentChain
