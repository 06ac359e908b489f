import FluentChain.Dump.Merge
import FluentChain.Proofs.Related
import FluentChain.Proofs.Type.Reading

/-!
# Reading parts of dumps

The steps that read a type, a position, a field or a signature from its text.  They add types and files to a
program and leave all else alone, so what is known of a program they start from still holds of the one they end
with; `Adds` says when such a step succeeds, which shapes it adds, and what it has read.
-/

namespace FluentChain

/-! ### Shapes of signatures -/

/-- The shape of a text. -/
abbrev TypeExpr.read (text : String) : TypeExpr := .parse text.toList

/-- A signature with the shapes of its types. -/
structure SignatureShape where
  params : List TypeExpr
  variadic : Bool
  results : List TypeExpr
deriving DecidableEq, Repr

/-- The type of a symbol. -/
inductive TypeShape
  | plain (e : TypeExpr)
  | function (sig : SignatureShape)
deriving DecidableEq, Repr

/-- The shapes of parameters, and whether the last one is variadic. -/
def SignatureShape.ofParams : List String → List TypeExpr × Bool
  | [] => ([], false)
  | param :: rest =>
    match TypeExpr.splitVariadic param with
    | (text, true) => ([.slice (TypeExpr.read text)], true)
    | (text, false) => (TypeExpr.read text :: (ofParams rest).1, (ofParams rest).2)

/-- No parameter but the last is variadic. -/
def VariadicLast : List String → Prop
  | [] => True
  | param :: rest => if (TypeExpr.splitVariadic param).2 then rest = [] else VariadicLast rest

namespace SignatureShape

def ofTexts (paramTexts resultTexts : List String) : SignatureShape where
  params := (ofParams paramTexts).1
  variadic := (ofParams paramTexts).2
  results := resultTexts.map fun text => TypeExpr.read text

/-- The shapes of all types in a signature. -/
def exprs (sig : SignatureShape) : List TypeExpr := sig.params ++ sig.results

def text (sig : SignatureShape) : String :=
  "func(" ++ ", ".intercalate (sig.params.map TypeExpr.text) ++ ") ("
    ++ ", ".intercalate (sig.results.map TypeExpr.text) ++ ")"

end SignatureShape

namespace TypeShape

def exprs : TypeShape → List TypeExpr
  | .plain e => [e]
  | .function sig => sig.exprs

def text : TypeShape → String
  | .plain e => e.text
  | .function sig => sig.text

end TypeShape

namespace TypeTable

variable {t u : TypeTable} {id : TypeId}

/-- The function type `sig` has the shape `shape`. -/
structure Signs (t : TypeTable) (shape : SignatureShape) (sig : Signature) : Prop where
  params : List.Forall₂ t.Denotes shape.params sig.params
  variadic : sig.variadic = shape.variadic
  results : List.Forall₂ t.Denotes shape.results sig.results

/-- What a signature is stays so when the table grows. -/
theorem Signs.mono {shape : SignatureShape} {sig : Signature} (h : t.Signs shape sig) (hgrow : t.GrowsTo u) :
    u.Signs shape sig :=
  ⟨h.params.imp fun _ _ h => h.mono hgrow, h.variadic, h.results.imp fun _ _ h => h.mono hgrow⟩

/-- The type `id` has the shape `shape`. -/
inductive HasShape (t : TypeTable) : TypeShape → TypeId → Prop
  | plain {e : TypeExpr} {id : TypeId} (h : t.Denotes e id) : HasShape t (.plain e) id
  | function {shape : SignatureShape} {sig : Signature} {id : TypeId} (hid : t.get? id = some (.signature sig))
    (hsig : t.Signs shape sig) : HasShape t (.function shape) id

/-- What a type is stays so when the table grows. -/
theorem HasShape.mono {shape : TypeShape} (h : t.HasShape shape id) (hgrow : t.GrowsTo u) : u.HasShape shape id := by
  cases h with
  | plain h => exact .plain (h.mono hgrow)
  | function hid hsig => exact .function (hgrow.unnamed hid nofun) (hsig.mono hgrow)

/-- A type that is known to be something is in the table. -/
theorem HasShape.lt_size {shape : TypeShape} (h : t.HasShape shape id) : id < t.size := by
  cases h with
  | plain h => exact h.lt_size
  | function hid _ => exact lt_size_of_get? hid

private theorem map_display_eq (ht : t.WellFormed) {es : List TypeExpr} {ids : List TypeId}
    (h : List.Forall₂ t.Denotes es ids) (hlt : ∀ c ∈ ids, c < id) :
    (ids.map fun c => if c < id then t.display c else "") = es.map TypeExpr.text := by
  induction h with
  | nil => rfl
  | cons hd _ ih =>
    rw [List.map_cons, List.map_cons, ih fun c hc => hlt c (List.mem_cons_of_mem _ hc),
      if_pos (hlt _ List.mem_cons_self), hd.display_eq ht]

/-- The text of a type is the text of its shape. -/
theorem HasShape.display_eq (ht : t.WellFormed) {shape : TypeShape} (h : t.HasShape shape id) :
    t.display id = shape.text := by
  cases h with
  | plain h => exact h.display_eq ht
  | function hid hsig =>
    have hlt := ht.ordered hid
    rw [display]
    simp only [hid, TypeShape.text, SignatureShape.text]
    rw [map_display_eq ht hsig.params fun c hc => hlt c (List.mem_append_left _ hc),
      map_display_eq ht hsig.results fun c hc => hlt c (List.mem_append_right _ hc)]

end TypeTable

/-! ### Programs that grow -/

namespace Program

def fileNames (p : Program) : List String := p.files.toList.map (·.name)

/-- The position `pos` is the one that the text writes, which names its file. -/
def Places (p : Program) (text : String) (pos : Pos) : Prop :=
  ∃ name, WrittenPos.parse? text = some ⟨some name, pos.line, pos.col⟩ ∧ p.fileNames[pos.file]? = some name

/-- The program `q` is `p` with the types of some shapes, and some files, added. -/
structure Grown (declared : List String) (p : Program) (shapes : List TypeExpr) (q : Program) : Prop where
  types : p.types.Grown declared shapes q.types
  files : p.fileNames <+: q.fileNames
  nodup : q.fileNames.Nodup
  objects : q.objects = p.objects

/-- What holds of a program that names in `declared` are declared in. -/
structure Ready (declared : List String) (p : Program) : Prop where
  wellFormed : p.types.WellFormed
  declares : p.types.Declares declared
  nodup : p.fileNames.Nodup

variable {declared : List String} {p q r : Program} {shapes more : List TypeExpr}

theorem Grown.refl (h : p.Ready declared) : p.Grown declared [] p :=
  ⟨.refl h.wellFormed h.declares, List.prefix_refl _, h.nodup, rfl⟩

/-- Two steps add what each of them adds. -/
theorem Grown.trans (h : p.Grown declared shapes q) (h' : q.Grown declared more r) :
    p.Grown declared (shapes ++ more) r :=
  ⟨h.types.trans h'.types, h.files.trans h'.files, h'.nodup, h'.objects.trans h.objects⟩

theorem Grown.ready (h : p.Grown declared shapes q) : q.Ready declared :=
  ⟨h.types.wellFormed, h.types.declares, h.nodup⟩

theorem getElem?_fileNames (p : Program) (file : Nat) : p.fileNames[file]? = p.files[file]?.map (·.name) := by
  simp [fileNames]

/-- A file keeps its number when files are added. -/
theorem getElem?_fileNames_mono {file : Nat} {name : String} (h : p.fileNames[file]? = some name)
    (hfiles : p.fileNames <+: q.fileNames) : q.fileNames[file]? = some name := by
  obtain ⟨hlt, rfl⟩ := List.getElem?_eq_some_iff.1 h
  exact List.prefix_iff_getElem?.1 hfiles file hlt

/-- A text stands for the same position when files are added. -/
theorem Places.mono {text : String} {pos : Pos} (h : p.Places text pos) (hfiles : p.fileNames <+: q.fileNames) :
    q.Places text pos := by
  obtain ⟨name, hparse, hfile⟩ := h
  exact ⟨name, hparse, getElem?_fileNames_mono hfile hfiles⟩

end Program

/-- Whether a text is a position that names its file. -/
def IsPlace (text : String) : Prop := ∃ name line col, WrittenPos.parse? text = some ⟨some name, line, col⟩

namespace Build

variable {declared : List String} {p q : Program} {α β : Type}

/-- From `p`, the step `m` succeeds exactly if `good` holds, and then it adds the types of some shapes and returns
what `R` says. -/
def Adds (declared : List String) (p : Program) (m : Build α) (good : Prop) (shapes : List TypeExpr)
    (R : α → Program → Prop) : Prop :=
  p.Ready declared → Decides (fun q => q = p) m good fun a q => p.Grown declared shapes q ∧ R a q

namespace Adds

variable {m : Build α} {good good' : Prop} {shapes more : List TypeExpr} {R : α → Program → Prop}

/-- To give a value adds nothing. -/
theorem pure {a : α} (h : R a p) : Adds declared p (Pure.pure a) True [] R := by
  intro hp
  refine Decides.pure ?_
  rintro q rfl
  exact ⟨.refl hp, h⟩

/-- A step that fails need not say what it would have added. -/
theorem throw {e : LoadError} : Adds declared p (MonadExcept.throw e) False shapes R := fun _ => Decides.throw

/-- Two steps succeed if the first does and the second does behind it, and add what both add. -/
theorem bind {S : β → Program → Prop} {f : α → Build β} (hm : Adds declared p m good shapes R)
    (hf : ∀ a q, p.Grown declared shapes q → R a q → Adds declared q (f a) good' more S) :
    Adds declared p (m >>= f) (good ∧ good') (shapes ++ more) S := by
  intro hp
  refine Decides.bind (hm hp) fun _ a => Decides.of_forall fun q hq => ?_
  exact (hf a q hq.1 hq.2 hq.1.ready).weaken (fun _ h => h) fun b r hr => ⟨hq.1.trans hr.1, hr.2⟩

theorem map {S : β → Program → Prop} {f : α → β} (h : Adds declared p m good shapes R)
    (hS : ∀ a q, R a q → S (f a) q) : Adds declared p (f <$> m) good shapes S :=
  fun hp => Decides.map ((h hp).weaken (fun _ h => h) fun a q ha => ⟨ha.1, hS a q ha.2⟩)

/-- What a step gives may be known to be more than is needed. -/
theorem weaken {R' : α → Program → Prop} (h : Adds declared p m good shapes R) (hR : ∀ a q, R a q → R' a q) :
    Adds declared p m good shapes R' :=
  fun hp => (h hp).weaken (fun _ h => h) fun a q ha => ⟨ha.1, hR a q ha.2⟩

/-- When a step succeeds, and what it adds, may be said in other words. -/
theorem congr (h : Adds declared p m good shapes R) (hgood : good ↔ good') (hshapes : shapes = more) :
    Adds declared p m good' more R := by
  subst hshapes
  exact fun hp => (h hp).congr hgood

/-- Reads a list from the left. -/
theorem mapM {f : α → Build β} {ok : α → Prop} {shapesOf : α → List TypeExpr} {S : Program → α → β → Prop}
    (hmono : ∀ {p q more a b}, p.Grown declared more q → S p a b → S q a b) {l : List α}
    (h : ∀ a ∈ l, ∀ p, Adds declared p (f a) (ok a) (shapesOf a) fun b q => S q a b) (p : Program) :
    Adds declared p (l.mapM f) (∀ a ∈ l, ok a) (l.flatMap shapesOf) fun bs q => List.Forall₂ (S q) l bs := by
  induction l generalizing p with
  | nil => exact (pure (R := fun bs q => List.Forall₂ (S q) [] bs) .nil).congr (iff_of_true trivial (by simp)) rfl
  | cons a l ih =>
    rw [List.mapM_cons]
    refine (bind (h a (by simp) p) fun b q _ hb => bind (ih (fun c hc => h c (by simp [hc])) q)
      fun bs r hr hbs => pure (.cons (hmono hr hb) hbs)).congr ?_ ?_
    · rw [List.forall_mem_cons, and_true]
    · rw [List.append_nil, List.flatMap_cons]

end Adds

/-! ### The readers -/

/-- A step on the table adds what it adds to the table. -/
theorem adds_onTypes {step : TypeTable → α × TypeTable} {shapes : List TypeExpr} {R : α → TypeTable → Prop}
    (h : p.Ready declared →
      p.types.Grown declared shapes (step p.types).2 ∧ R (step p.types).1 (step p.types).2) :
    Adds declared p (onTypes step) True shapes fun a q => R a q.types := by
  intro hp
  refine Decides.modifyGet ?_
  rintro q rfl
  obtain ⟨hgrown, hR⟩ := h hp
  exact ⟨⟨hgrown, List.prefix_refl _, hp.nodup, rfl⟩, hR⟩

/-- To intern a type adds it where it is new, and gives the one that an expression denotes. -/
theorem adds_intern {ty : Ty} {e : TypeExpr} (hty : ty.IsShared) (hcomponents : ∀ c ∈ ty.components, c < p.types.size)
    (hshape : ∀ v, p.types.Extends v → ∀ id, v.get? id = some ty → v.Denotes e id) :
    Adds declared p (intern ty) True [e] fun id q => q.types.Denotes e id :=
  adds_onTypes (R := fun id t => t.Denotes e id) fun hp =>
    (TypeTable.Grown.refl hp.wellFormed hp.declares).intern hty hcomponents hshape

/-- To parse a type succeeds if its names are declared, adds the parts of the expression, and gives the type that it
denotes. -/
theorem adds_parseType (text : String) :
    Adds declared p (parseType text) ((TypeExpr.read text).Known declared)
      (TypeExpr.read text).parts fun id q => q.types.Denotes (TypeExpr.read text) id := by
  rintro hp q rfl
  have hread := TypeTable.decides_resolve (TypeExpr.read text) q.types [] q.types (.refl hp.wellFormed hp.declares)
  unfold parseType TypeTable.parse
  revert hread
  cases (TypeExpr.read text).resolve q.types with
  | ok id types => exact fun h => ⟨h.1, ⟨h.2.1, List.prefix_refl _, hp.nodup, rfl⟩, h.2.2⟩
  | error e types => exact fun h => h

/-- A file keeps its number, and a new one gets the next. -/
theorem run_file (name : String) (p : Program) :
    (∃ id, file name p = .ok id p ∧ p.fileNames[id]? = some name) ∨
      name ∉ p.fileNames ∧ file name p = .ok p.files.size { p with files := p.files.push ⟨name, []⟩ } := by
  cases hfind : p.files.findIdx? (·.name == name) with
  | some id =>
    have hrun : file name p = .ok id p := by
      show EStateM.Result.ok _ _ = _
      simp only [hfind]
    obtain ⟨hlt, hname, -⟩ := Array.findIdx?_eq_some_iff_getElem.1 hfind
    refine Or.inl ⟨id, hrun, ?_⟩
    simp [Program.fileNames, hlt, eq_of_beq hname]
  | none =>
    have hrun : file name p = .ok p.files.size { p with files := p.files.push ⟨name, []⟩ } := by
      show EStateM.Result.ok _ _ = _
      simp only [hfind]
    refine Or.inr ⟨fun hmem => ?_, hrun⟩
    obtain ⟨f, hf, hname⟩ := List.mem_map.1 hmem
    simpa [hname] using Array.findIdx?_eq_none_iff.1 hfind f (Array.mem_toList_iff.1 hf)

theorem fileNames_push (p : Program) (name : String) :
    ({ p with files := p.files.push ⟨name, []⟩ } : Program).fileNames = p.fileNames ++ [name] := by
  simp [Program.fileNames]

/-- A name that is new may be added to names that are different. -/
theorem nodup_fileNames_push {name : String} (h : p.fileNames.Nodup) (hnew : name ∉ p.fileNames) :
    ({ p with files := p.files.push ⟨name, []⟩ } : Program).fileNames.Nodup := by
  rw [fileNames_push]
  exact (List.perm_append_singleton name p.fileNames).nodup_iff.2 (List.nodup_cons.2 ⟨hnew, h⟩)

/-- A file that gets a declaration keeps its name. -/
theorem map_name_modify (files : List SourceFile) (file : FileId) (n : NodeId) :
    (files.modify file fun f => { f with decls := f.decls ++ [n] }).map (·.name) = files.map (·.name) := by
  refine List.ext_getElem? fun i => ?_
  rw [List.getElem?_map, List.getElem?_modify, List.getElem?_map]
  cases files[i]? with
  | none => rfl
  | some f => by_cases hi : file = i <;> simp [hi]

theorem fileNames_pushDecl (p : Program) (file : FileId) (n : NodeId) :
    ({ p with files := p.files.modify file fun f => { f with decls := f.decls ++ [n] } } : Program).fileNames =
      p.fileNames := by
  rw [Program.fileNames, Array.toList_modify, map_name_modify, ← Program.fileNames]

/-- Only that file gets it. -/
theorem exists_of_mem_pushDecl {p : Program} {file : FileId} {n : NodeId} {f : SourceFile}
    (hf : f ∈ p.files.modify file fun f => { f with decls := f.decls ++ [n] }) :
    ∃ (i : Nat) (g : SourceFile), p.files[i]? = some g ∧
      f = { g with decls := g.decls ++ if file = i then [n] else [] } := by
  obtain ⟨i, hi⟩ := Array.mem_iff_getElem?.1 hf
  rw [Array.getElem?_modify] at hi
  split at hi
  · rename_i hfile
    obtain ⟨g, hg, rfl⟩ := Option.map_eq_some_iff.1 hi
    exact ⟨i, g, hg, by rw [if_pos hfile]⟩
  · rename_i hfile
    exact ⟨i, f, hi, by rw [if_neg hfile, List.append_nil]⟩

/-- To register a file gives the number under which its name is listed. -/
theorem adds_file (name : String) :
    Adds declared p (file name) True [] fun id q => q.fileNames[id]? = some name := by
  intro hp
  rintro q rfl
  rcases run_file name q with ⟨id, hrun, hid⟩ | ⟨hnew, hrun⟩
  · rw [hrun]
    exact ⟨trivial, .refl hp, hid⟩
  · rw [hrun]
    refine ⟨trivial, ⟨.refl hp.wellFormed hp.declares, ?_, nodup_fileNames_push hp.nodup hnew, rfl⟩, ?_⟩
    · rw [fileNames_push]
      exact List.prefix_append _ _
    · simp [Program.fileNames]

/-- A position without a file to inherit is read if it is a place, and then it is that place. -/
theorem adds_position (text : String) :
    Adds declared p (position text none) (IsPlace text) [] fun pos q => q.Places text pos := by
  unfold position
  cases hparse : WrittenPos.parse? text with
  | none => exact Adds.throw.congr (iff_of_false not_false (by simp [IsPlace, hparse])) rfl
  | some w =>
    obtain ⟨_ | name, line, col⟩ := w
    · exact Adds.throw.congr (iff_of_false not_false (by simp [IsPlace, hparse])) rfl
    · refine (Adds.bind (adds_file name) fun id q _ hid => Adds.pure ⟨name, hparse, hid⟩).congr ?_ rfl
      exact iff_of_true ⟨trivial, trivial⟩ ⟨name, line, col, hparse⟩

theorem adds_position? (text : Option String) :
    Adds declared p (position? text) (∀ s ∈ text, IsPlace s) [] fun pos q => Option.Rel q.Places text pos := by
  cases text with
  | none =>
    have hnone : Adds declared p (pure none) True [] fun pos q => Option.Rel q.Places none pos := Adds.pure .none
    exact hnone.congr (iff_of_true trivial (by simp)) rfl
  | some s =>
    refine (Adds.bind (adds_position s) fun pos q _ hpos => Adds.pure (.some hpos)).congr ?_ rfl
    simp

/-- The field `g` is the one that a dump describes. -/
structure FieldOf (p : Program) (f : FieldDump) (g : Field) : Prop where
  name : g.name = f.name
  type : p.types.Denotes (TypeExpr.read f.type) g.type
  embedded : g.embedded = f.embedded
  tag : g.tag = f.tag
  pos : Option.Rel p.Places f.pos g.pos

/-- A field is what its dump says, also in a program that has grown. -/
theorem FieldOf.mono {f : FieldDump} {g : Field} (h : FieldOf p f g) (htypes : p.types.GrowsTo q.types)
    (hfiles : p.fileNames <+: q.fileNames) : FieldOf q f g :=
  ⟨h.name, h.type.mono htypes, h.embedded, h.tag, rel_imp h.pos fun _ _ hpos => hpos.mono hfiles⟩

/-- A field is read if its position is a place and its type is known. -/
theorem adds_field (f : FieldDump) :
    Adds declared p (field f) ((∀ s ∈ f.pos, IsPlace s) ∧ (TypeExpr.read f.type).Known declared)
      (TypeExpr.read f.type).parts fun g q => FieldOf q f g := by
  refine (Adds.bind (adds_position? f.pos) fun pos q _ hpos => Adds.bind (adds_parseType f.type) fun id r hr hid =>
    Adds.pure ⟨rfl, hid, rfl, rfl, rel_imp hpos fun _ _ hpos => hpos.mono hr.files⟩).congr ?_ ?_
  · rw [and_true]
  · rw [List.append_nil, List.nil_append]

theorem adds_fields (fields : List FieldDump) :
    Adds declared p (fields.mapM field)
      (∀ f ∈ fields, (∀ s ∈ f.pos, IsPlace s) ∧ (TypeExpr.read f.type).Known declared)
      (fields.flatMap fun f => (TypeExpr.read f.type).parts) fun gs q => List.Forall₂ (FieldOf q) fields gs :=
  Adds.mapM (fun hgrown hf => hf.mono hgrown.types.old.growsTo hgrown.files) (fun f _ _ => adds_field f) p

/-- Parameters are read if only the last of them is variadic and all are known; a variadic one stands for a slice. -/
theorem adds_params (owner : String) (texts : List String) :
    Adds declared p (params owner texts)
      (VariadicLast texts ∧ ∀ e ∈ (SignatureShape.ofParams texts).1, e.Known declared)
      ((SignatureShape.ofParams texts).1.flatMap TypeExpr.parts) fun r q =>
        List.Forall₂ q.types.Denotes (SignatureShape.ofParams texts).1 r.1 ∧
          r.2 = (SignatureShape.ofParams texts).2 := by
  induction texts generalizing p with
  | nil =>
    have hnil : Adds declared p (Pure.pure (([] : List TypeId), false)) True [] fun r q =>
        List.Forall₂ q.types.Denotes [] r.1 ∧ r.2 = false := Adds.pure ⟨.nil, rfl⟩
    exact hnil.congr (iff_of_true trivial ⟨trivial, by simp [SignatureShape.ofParams]⟩) rfl
  | cons param rest ih =>
    rw [params]
    rcases hsplit : TypeExpr.splitVariadic param with ⟨text, _ | _⟩
    · simp only [SignatureShape.ofParams, VariadicLast, hsplit, Bool.false_eq_true, ↓reduceIte]
      refine (Adds.bind (adds_parseType text) fun id q _ hid => Adds.bind (ih (p := q)) fun r q' hq' hr =>
        Adds.pure ⟨.cons (hid.mono hq'.types.old.growsTo) hr.1, hr.2⟩).congr ?_ ?_
      · rw [List.forall_mem_cons, and_true]
        exact and_left_comm
      · rw [List.append_nil, List.flatMap_cons]
    · simp only [SignatureShape.ofParams, VariadicLast, hsplit, ↓reduceIte]
      cases rest with
      | nil =>
        have hslice : ∀ id q, q.types.Denotes (.read text) id →
            Adds declared q (intern (.slice id)) True [.slice (.read text)] fun id q =>
              q.types.Denotes (.slice (.read text)) id := fun id q hid =>
          adds_intern trivial (by simp [Ty.components, hid.lt_size]) fun v hv a ha => .slice ha (hid.mono hv.growsTo)
        refine (Adds.bind (adds_parseType text) fun id q _ hid => Adds.bind (hslice id q hid) fun id' r _ hid' =>
          Adds.pure ⟨.cons hid' .nil, rfl⟩).congr ?_ ?_
        · simp [TypeExpr.Known]
        · simp [TypeExpr.parts]
      | cons => exact Adds.throw.congr (iff_of_false not_false (by simp)) rfl

theorem adds_results (texts : List String) :
    Adds declared p (texts.mapM parseType) (∀ e ∈ texts.map TypeExpr.read, e.Known declared)
      ((texts.map TypeExpr.read).flatMap TypeExpr.parts) fun ids q =>
        List.Forall₂ q.types.Denotes (texts.map TypeExpr.read) ids := by
  have hread : Adds declared p (texts.mapM parseType) (∀ text ∈ texts, (TypeExpr.read text).Known declared)
      (texts.flatMap fun text => (TypeExpr.read text).parts) fun ids q =>
        List.Forall₂ (fun text id => q.types.Denotes (.read text) id) texts ids :=
    Adds.mapM (fun hgrown h => h.mono hgrown.types.old.growsTo) (fun text _ p => adds_parseType text) p
  refine (hread.weaken fun ids q h => List.forall₂_map_left_iff.2 h).congr ?_ ?_
  · rw [List.forall_mem_map]
  · rw [List.flatMap_map]

private theorem lt_size_of_forall₂ {t : TypeTable} {es : List TypeExpr} {ids : List TypeId}
    (h : List.Forall₂ t.Denotes es ids) : ∀ c ∈ ids, c < t.size := by
  intro c hc
  obtain ⟨e, -, he⟩ := exists_of_mem_right h hc
  exact he.lt_size

/-- The signature of types that are known is added, and no type expression denotes it. -/
theorem adds_signature {shape : SignatureShape} {sig : Signature} (h : p.types.Signs shape sig) :
    Adds declared p (signature sig) True [] fun id q => q.types.HasShape (.function shape) id := by
  refine adds_onTypes (R := fun id t => t.HasShape (.function shape) id) fun hp => ?_
  have hcomponents : ∀ c ∈ sig.params ++ sig.results, c < p.types.size := by
    intro c hc
    exact (List.mem_append.1 hc).elim (lt_size_of_forall₂ h.params c) (lt_size_of_forall₂ h.results c)
  have hgrown := (TypeTable.Grown.refl hp.wellFormed hp.declares).push_shapeless (.signature sig) hcomponents
    (Or.inr ⟨sig, rfl⟩)
  exact ⟨hgrown, .function (TypeTable.get?_push_size _ _) (h.mono hgrown.old.growsTo)⟩

/-- The type of a function is read if its parameters and its results are. -/
theorem adds_signatureType (owner : String) (paramTexts resultTexts : List String) :
    Adds declared p (signatureType owner paramTexts resultTexts)
      (VariadicLast paramTexts ∧ ∀ e ∈ (SignatureShape.ofTexts paramTexts resultTexts).exprs, e.Known declared)
      ((SignatureShape.ofTexts paramTexts resultTexts).exprs.flatMap TypeExpr.parts) fun id q =>
        q.types.HasShape (.function (.ofTexts paramTexts resultTexts)) id := by
  unfold signatureType
  refine (Adds.bind (adds_params owner paramTexts) fun ⟨params, variadic⟩ q _ hparams =>
    Adds.bind (adds_results resultTexts) fun results r hr hresults => adds_signature
      ⟨hparams.1.imp fun _ _ h => h.mono hr.types.old.growsTo, hparams.2, hresults⟩).congr ?_ ?_
  · rw [and_true, and_assoc, SignatureShape.exprs, List.forall_mem_append]
    rfl
  · rw [List.append_nil, SignatureShape.exprs, List.flatMap_append]
    rfl

end Build

end FluentChain
