import FluentChain.Proofs.Build.Bounds
import FluentChain.Proofs.Syntax.Lowered

/-!
# Steps in range

Every step of building keeps a program well-formed and moves nothing in it, where it fails as well (`Safe`).  Given
numbers of the program it gives numbers of the program.  There is one lemma for each step; those for steps put
together go on from the program that the first step has led to.
-/

namespace FluentChain

/-- What is added at the end and changed there is added as it is changed. -/
theorem modify_push {γ : Type} (a : Array γ) (x : γ) (f : γ → γ) : (a.push x).modify a.size f = a.push (f x) := by
  refine Array.ext_getElem? fun i => ?_
  rw [Array.getElem?_modify, Array.getElem?_push, Array.getElem?_push]
  by_cases hi : i = a.size
  · simp [hi]
  · simp [hi, Ne.symm hi]

namespace Program

variable {placed : Bool} {p q : Program}

/-! ### One thing more -/

namespace WellFormed

variable (h : p.WellFormed placed)

include h

/-- A change to the files that keeps their names; all declarations are nodes. -/
theorem withFiles {files : Array SourceFile}
    (hnames : p.fileNames <+: ({ p with files } : Program).fileNames)
    (hdecls : ∀ n ∈ ({ p with files } : Program).decls, n < p.nodes.size) :
    ({ p with files } : Program).WellFormed placed ∧ p.LeadsTo { p with files } := by
  have hleads : p.LeadsTo { p with files } := ⟨⟨.refl _, hnames, List.prefix_refl _⟩, List.prefix_refl _⟩
  exact ⟨⟨h.table, fun hid => (h.types hid).mono hleads.le, fun obj hobj => (h.objects obj hobj).mono hleads.le,
    fun d hd => (h.nodes d hd).mono hleads.le, hdecls⟩, hleads⟩

/-- A new file has no declarations yet, so nothing in it is out of range. -/
theorem pushFile (name : String) :
    ({ p with files := p.files.push ⟨name, []⟩ } : Program).WellFormed placed ∧
      p.LeadsTo { p with files := p.files.push ⟨name, []⟩ } := by
  refine h.withFiles (by simp [fileNames]) fun n hn => h.decls n ?_
  simpa [Program.decls] using hn

/-- A node of the program may become a declaration of any file. -/
theorem pushDecl (file : FileId) {n : NodeId} (hn : n < p.nodes.size) :
    ({ p with files := p.files.modify file fun f => { f with decls := f.decls ++ [n] } } : Program).WellFormed placed ∧
      p.LeadsTo { p with files := p.files.modify file fun f => { f with decls := f.decls ++ [n] } } := by
  refine h.withFiles ?_ fun m hm => ?_
  · exact Build.fileNames_pushDecl p file n ▸ List.prefix_refl _
  · obtain ⟨f, hf, hm⟩ := List.mem_flatMap.1 hm
    obtain ⟨i, g, hg, rfl⟩ := Build.exists_of_mem_pushDecl (Array.mem_toList_iff.1 hf)
    rcases List.mem_append.1 hm with hm | hm
    · exact h.decls m (List.mem_flatMap.2 ⟨g, (Array.mem_of_getElem? hg).val, hm⟩)
    · split at hm
      · rw [List.mem_singleton.1 hm]
        exact hn
      · exact absurd hm List.not_mem_nil

/-- A node may be given any type of the program. -/
theorem modifyNode (n : NodeId) {type : TypeId} (htype : type < p.types.size) :
    ({ p with nodes := p.nodes.modify n fun d => { d with type := some type } } : Program).WellFormed placed ∧
      p.LeadsTo { p with nodes := p.nodes.modify n fun d => { d with type := some type } } := by
  have hsame : (p.nodes.modify n fun d => { d with type := some type }).toList.map (·.node) =
      p.nodes.toList.map (·.node) :=
    congrArg Prod.fst ((Build.bare_setType n type p.syntaxOf 0).of_ok ⟨rfl, Nat.zero_le _⟩ rfl).1
  have hleads : p.LeadsTo { p with nodes := p.nodes.modify n fun d => { d with type := some type } } :=
    ⟨⟨.refl _, List.prefix_refl _, List.prefix_refl _⟩, hsame ▸ List.prefix_refl _⟩
  refine ⟨⟨h.table, fun hid => (h.types hid).mono hleads.le, fun obj hobj => (h.objects obj hobj).mono hleads.le, ?_,
    fun m hm => Nat.lt_of_lt_of_le (h.decls m hm) hleads.nodes_size_le⟩, hleads⟩
  intro d hd
  obtain ⟨i, hi⟩ := Array.mem_iff_getElem?.1 hd
  rw [Array.getElem?_modify] at hi
  split at hi
  · obtain ⟨old, hold, rfl⟩ := Option.map_eq_some_iff.1 hi
    have hrange := (h.nodes old (Array.mem_of_getElem? hold)).mono hleads.le
    refine ⟨hrange.children, hrange.symbol, ?_, hrange.pos⟩
    rintro id hid
    cases hid
    exact htype
  · exact (h.nodes d (Array.mem_of_getElem? hi)).mono hleads.le

end WellFormed

end Program

namespace Build

variable {α β : Type} {placed : Bool} {p q : Program} {m : Build α} {R : α → Program → Prop}

/-- From a well-formed program `p` the step leads to a well-formed program that has all of `p`, where it fails as
well; and what it returns satisfies `R`. -/
def Safe (placed : Bool) (p : Program) (m : Build α) (R : α → Program → Prop) : Prop :=
  p.WellFormed placed → match m p with
    | .ok a q => (q.WellFormed placed ∧ p.LeadsTo q) ∧ R a q
    | .error _ q => q.WellFormed placed ∧ p.LeadsTo q

namespace Safe

/-- A safe step that succeeds leads to a well-formed program, and what it returns is as it says. -/
theorem of_ok (h : Safe placed p m R) (hp : p.WellFormed placed) {a : α} (hrun : m p = .ok a q) :
    (q.WellFormed placed ∧ p.LeadsTo q) ∧ R a q := by
  have hresult := h hp
  rwa [hrun] at hresult

/-- A safe step that fails leads to a well-formed program as well. -/
theorem of_error (h : Safe placed p m R) (hp : p.WellFormed placed) {e : LoadError} (hrun : m p = .error e q) :
    q.WellFormed placed ∧ p.LeadsTo q := by
  have hresult := h hp
  rwa [hrun] at hresult

/-- To give a value is safe. -/
theorem pure {a : α} (h : p.WellFormed placed → R a p) : Safe placed p (Pure.pure a) R :=
  fun hp => ⟨⟨hp, .refl p⟩, h hp⟩

theorem throw {e : LoadError} : Safe placed p (MonadExcept.throw e) R := fun hp => ⟨hp, .refl p⟩

/-- A change is safe if what it makes of a well-formed program is well-formed. -/
theorem modifyGet {f : Program → α × Program}
    (h : p.WellFormed placed → ((f p).2.WellFormed placed ∧ p.LeadsTo (f p).2) ∧ R (f p).1 (f p).2) :
    Safe placed p (MonadState.modifyGet f) R := h

theorem modify {f : Program → Program} (h : p.WellFormed placed → (f p).WellFormed placed ∧ p.LeadsTo (f p)) :
    Safe placed p (MonadStateOf.modifyGet fun s => ((), f s)) fun _ _ => True :=
  fun hp => ⟨h hp, trivial⟩

/-- The second step goes on from where the first has led to. -/
theorem bind {S : α → Program → Prop} {R : β → Program → Prop} {f : α → Build β} (hm : Safe placed p m S)
    (hf : ∀ a q, q.WellFormed placed → p.LeadsTo q → S a q → Safe placed q (f a) R) : Safe placed p (m >>= f) R := by
  intro hp
  cases hrun : m p with
  | ok a q =>
    obtain ⟨⟨hq, hleads⟩, hS⟩ := hm.of_ok hp hrun
    rw [bind_of_ok hrun]
    have hresult := hf a q hq hleads hS hq
    cases hnext : f a q <;> rw [hnext] at hresult
    · exact ⟨⟨hresult.1.1, hleads.trans hresult.1.2⟩, hresult.2⟩
    · exact ⟨hresult.1, hleads.trans hresult.2⟩
  | error e q =>
    rw [bind_of_error hrun]
    exact hm.of_error hp hrun

theorem get_bind {f : Program → Build α} (h : Safe placed p (f p) R) : Safe placed p (get >>= f) R := h

/-- What a safe step returns may be known to be more than is needed. -/
theorem weaken {R' : α → Program → Prop} (h : Safe placed p m R)
    (hR : ∀ a q, q.WellFormed placed → p.LeadsTo q → R a q → R' a q) : Safe placed p m R' := by
  intro hp
  have hresult := h hp
  cases hrun : m p <;> rw [hrun] at hresult
  · exact ⟨hresult.1, hR _ _ hresult.1.1 hresult.1.2 hresult.2⟩
  · exact hresult

theorem map {f : α → β} {R : β → Program → Prop} (h : Safe placed p m fun a q => R (f a) q) :
    Safe placed p (f <$> m) R := by
  rw [map_eq_pure_bind]
  exact bind h fun a q _ _ hR => pure fun _ => hR

/-- What is found for one element stays so while the rest is gone through. -/
theorem mapM {S : β → Program → Prop} {f : α → Build β} {l : List α}
    (hmono : ∀ b {q r : Program}, q.LeadsTo r → S b q → S b r)
    (h : ∀ a ∈ l, ∀ q, q.WellFormed placed → p.LeadsTo q → Safe placed q (f a) S) :
    Safe placed p (l.mapM f) fun bs q => ∀ b ∈ bs, S b q := by
  induction l generalizing p with
  | nil => exact pure fun _ => by simp
  | cons a l ih =>
    intro hp
    rw [List.mapM_cons]
    refine bind (h a (by simp) p hp (.refl p)) (fun b q _ hq hb => ?_) hp
    refine bind (ih fun a' ha' r hr hqr => h a' (by simp [ha']) r hr (hq.trans hqr)) fun bs r _ hr hbs => ?_
    refine pure fun _ b' hb' => ?_
    rcases List.mem_cons.1 hb' with rfl | hb'
    · exact hmono b' hr hb
    · exact hbs b' hb'

/-- A loop is safe if each round is safe in whatever program the rounds before it lead to. -/
theorem forM {f : α → Build PUnit} {l : List α}
    (h : ∀ a ∈ l, ∀ q, q.WellFormed placed → p.LeadsTo q → Safe placed q (f a) fun _ _ => True) :
    Safe placed p (l.forM f) fun _ _ => True := by
  induction l generalizing p with
  | nil => exact pure fun _ => trivial
  | cons a l ih =>
    intro hp
    refine bind (h a (by simp) p hp (.refl p)) (fun _ q _ hq _ => ?_) hp
    exact ih fun a' ha' r hr hqr => h a' (by simp [ha']) r hr (hq.trans hqr)

theorem option_mapM {S : β → Program → Prop} {f : α → Build β} {a : Option α}
    (h : ∀ b ∈ a, Safe placed p (f b) S) : Safe placed p (a.mapM f) fun b q => ∀ c ∈ b, S c q := by
  cases a with
  | none => exact pure fun _ => by simp
  | some a =>
    refine bind (h a rfl) fun b q _ _ hb => pure fun _ c hc => ?_
    cases hc
    exact hb

end Safe

/-! ### Files and positions -/

/-- A file that is registered is a file of the program. -/
theorem safe_file (name : String) :
    Safe placed p (file name) fun id q => q.FileInRange placed id := by
  refine Safe.modifyGet fun hp => ?_
  split
  · rename_i id hid
    refine ⟨⟨hp, .refl p⟩, fun line col n hn => ?_⟩
    obtain ⟨hlt, -⟩ := Array.findIdx?_eq_some_iff_getElem.1 hid
    cases placed
    · cases hn
    · cases hn
      exact hlt
  · refine ⟨hp.pushFile name, fun line col n hn => ?_⟩
    cases placed
    · cases hn
    · cases hn
      simp

/-- A position that is read stands in a file of the program, the one that it names or the one that it inherits. -/
theorem safe_position (text : String) {inherited : Option FileId}
    (h : ∀ file ∈ inherited, p.FileInRange placed file) :
    Safe placed p (position text inherited) fun pos q => pos.InRange (q.bounds placed) := by
  unfold position
  split
  · exact Safe.throw
  · exact Safe.bind (safe_file _) fun id q _ _ hid => Safe.pure fun _ => hid _ _
  · split
    · exact Safe.pure fun _ => h _ rfl _ _
    · exact Safe.throw

theorem safe_pushDecl (file : FileId) {n : NodeId} (hn : n < p.nodes.size) :
    Safe placed p (pushDecl file n) fun _ _ => True :=
  Safe.modify fun hp => hp.pushDecl file hn

/-! ### Types -/

theorem safe_onTypes {step : TypeTable → α × TypeTable} {R : α → TypeTable → Prop}
    (h : p.WellFormed placed → (({ p with types := (step p.types).2 } : Program).WellFormed placed ∧
      p.LeadsTo { p with types := (step p.types).2 }) ∧ R (step p.types).1 (step p.types).2) :
    Safe placed p (onTypes step) fun a q => R a q.types :=
  Safe.modifyGet h

/-- A type that is declared is in the table. -/
theorem safe_declareType (name : String) {pos : Option Pos} (hpos : ∀ place ∈ pos, place.InRange (p.bounds placed)) :
    Safe placed p (declareType name pos) fun id q => id < q.types.size :=
  safe_onTypes (R := fun id t => id < t.size) fun hp => hp.declareType name hpos

/-- A type whose parts are in the table may be interned. -/
theorem safe_intern {ty : Ty} (hshared : ty.IsShared) (hty : ∀ c ∈ ty.components, c < p.types.size) :
    Safe placed p (intern ty) fun id q => id < q.types.size :=
  safe_onTypes (R := fun id t => id < t.size) fun hp => hp.internType hshared hty

/-- A struct or a function, which is added anew each time. -/
theorem safe_push {ty : Ty} (hty : ty.InRange (p.bounds placed))
    (hnew : (∃ fields, ty = .struct fields) ∨ ∃ sig, ty = .signature sig) :
    Safe placed p (onTypes (·.push ty)) fun id q => id < q.types.size := by
  refine safe_onTypes (R := fun id t => id < t.size) fun hp => ⟨hp.pushType hty ?_ ?_, ?_⟩
  · rcases hnew with ⟨fields, rfl⟩ | ⟨sig, rfl⟩ <;> exact False.elim
  · rcases hnew with ⟨fields, rfl⟩ | ⟨sig, rfl⟩ <;> rintro decl ⟨⟩
  · exact TypeTable.lt_size_of_get? (TypeTable.get?_push_size p.types ty)

/-- A signature whose parts are in the table may be added. -/
theorem safe_signature {sig : Signature} (hsig : ∀ c ∈ sig.params ++ sig.results, c < p.types.size) :
    Safe placed p (signature sig) fun id q => id < q.types.size :=
  safe_push ⟨hsig, by simp [Ty.methodRefs], by simp [Ty.places]⟩ (Or.inr ⟨sig, rfl⟩)

/-- A step that reads a type expression, as a step on a program. -/
def reading (m : EStateM TypeExprError TypeTable α) : Build α := fun p =>
  match m p.types with
  | .ok a types => .ok a { p with types }
  | .error e types => .error (.badType e) { p with types }

/-- What is read in two steps may be read in one. -/
theorem reading_bind (m : EStateM TypeExprError TypeTable α) (f : α → EStateM TypeExprError TypeTable β) :
    reading (m >>= f) = reading m >>= fun a => reading (f a) := by
  funext p
  cases hrun : m p.types with
  | ok a t =>
    have hfirst : reading m p = .ok a { p with types := t } := by simp only [reading, hrun]
    rw [bind_of_ok hfirst]
    simp only [reading, bind_of_ok hrun]
  | error e t =>
    have hfirst : reading m p = .error (.badType e) { p with types := t } := by simp only [reading, hrun]
    rw [bind_of_error hfirst]
    simp only [reading, bind_of_error hrun]

/-- A type expression leads to a type of the table, by induction on the expression. -/
theorem safe_resolve (e : TypeExpr) : Safe placed p (reading e.resolve) fun id q => id < q.types.size := by
  induction e generalizing p with
  | pointer elem ih | slice elem ih | array elem ih =>
    rw [TypeExpr.resolve, reading_bind]
    exact Safe.bind ih fun id q _ _ hid => safe_intern trivial (by simpa [Ty.components] using hid)
  | map key value ihk ihv =>
    rw [TypeExpr.resolve, reading_bind]
    refine Safe.bind ihk fun k q _ _ hk => ?_
    rw [reading_bind]
    refine Safe.bind ihv fun v r _ hr hv => safe_intern trivial ?_
    simpa [Ty.components] using ⟨hr.types.lt_size hk, hv⟩
  | interface | basic => exact safe_intern trivial (by simp [Ty.components])
  | declared name =>
    intro hp
    simp only [reading, TypeExpr.resolve, get_bind]
    cases hn : p.types.named? name with
    | some id =>
      obtain ⟨decl, hid, -⟩ := TypeTable.get?_of_named? hn
      exact ⟨⟨hp, .refl p⟩, TypeTable.lt_size_of_get? hid⟩
    | none =>
      by_cases hname : '.' ∈ name.toList
      · simp only [hname, ↓reduceIte]
        exact safe_declareType name (by simp) hp
      · simp only [hname, ↓reduceIte]
        exact ⟨hp, .refl p⟩
  | malformed text flaw => exact Safe.throw

/-- To parse a type is to read the expression and then to resolve it. -/
theorem parseType_eq (text : String) : parseType text = reading (TypeExpr.parse text.toList).resolve := by
  funext p
  unfold parseType reading TypeTable.parse
  cases (TypeExpr.parse text.toList).resolve p.types <;> rfl

/-- A type that is parsed is in the table; an expression that fails behind some of its parts has added these. -/
theorem safe_parseType (text : String) : Safe placed p (parseType text) fun id q => id < q.types.size := by
  rw [parseType_eq]
  exact safe_resolve _

/-- A definition that is in the table may be given to any type, which fails where it is not to have one. -/
theorem safe_setUnderlying (id : TypeId) {underlying : TypeId} (h : underlying < p.types.size) :
    Safe placed p (setUnderlying id underlying) fun _ _ => True := by
  refine Safe.get_bind ?_
  dsimp only
  split
  · exact Safe.throw
  · rename_i decl hdecl
    split
    · exact Safe.throw
    · have hid := TypeTable.get?_of_decl? hdecl
      refine Safe.modify fun hp => hp.modifyDecl hid rfl ?_
      have hold := hp.types hid
      exact ⟨by simpa [Ty.typeRefs] using h, hold.methods, hold.places⟩

/-- A struct may be defined of fields that are in range. -/
theorem safe_defineStruct (id : TypeId) {fields : List Field}
    (htypes : ∀ f ∈ fields, f.type < p.types.size)
    (hplaces : ∀ f ∈ fields, ∀ pos ∈ f.pos, pos.InRange (p.bounds placed)) :
    Safe placed p (defineStruct id fields) fun _ _ => True := by
  have hstruct : (Ty.struct fields).InRange (p.bounds placed) := by
    refine ⟨?_, by simp [Ty.methodRefs], ?_⟩
    · rintro c hc
      obtain ⟨f, hf, rfl⟩ := List.mem_map.1 hc
      exact htypes f hf
    · rintro pos hpos
      obtain ⟨f, hf, hpos⟩ := List.mem_filterMap.1 hpos
      exact hplaces f hf pos hpos
  exact Safe.bind (safe_push hstruct (Or.inl ⟨fields, rfl⟩)) fun u q _ _ hu => safe_setUnderlying id hu

/-! ### Symbols -/

/-- A symbol in range may be declared. -/
theorem safe_object {obj : Object} (hobj : obj.InRange (p.bounds placed)) :
    Safe placed p (object obj) fun id q => id < q.objects.size := by
  intro hp
  rw [run_object]
  cases p.lookupObject? obj.key with
  | some _ => exact ⟨hp, .refl p⟩
  | none => exact ⟨hp.pushObject hobj, by simp⟩

/-- The owner of a method is a named type. -/
theorem get?_methodOwner? {t : TypeTable} {recv owner : TypeId} (h : t.methodOwner? recv = some owner) :
    ∃ decl, t.get? owner = some (.named decl) := by
  unfold TypeTable.methodOwner? at h
  split at h
  · cases h
    exact ⟨_, ‹_›⟩
  · split at h
    · rename_i hdecl
      cases h
      obtain ⟨decl, hdecl⟩ := Option.isSome_iff_exists.1 hdecl
      exact ⟨decl, TypeTable.get?_of_decl? hdecl⟩
    · cases h
  · cases h

/-- A method in range may be declared on any type of the table, which fails where that has no owner. -/
theorem safe_method {recv sig : TypeId} (name : String) (hrecv : recv < p.types.size) (hsig : sig < p.types.size) :
    Safe placed p (method recv name sig) fun id q => id < q.objects.size := by
  refine Safe.get_bind ?_
  dsimp only
  split
  · exact Safe.throw
  · rename_i owner howner
    obtain ⟨decl, hdecl⟩ := get?_methodOwner? howner
    refine Safe.bind (safe_object ⟨by simpa using hsig, by simpa using hrecv, by simp⟩) fun id q hq hleads hid => ?_
    obtain ⟨decl', hdecl', -⟩ := hleads.types.named hdecl
    refine Safe.bind (Safe.modify fun _ => hq.modifyDecl hdecl' rfl ?_) fun _ _ _ hr _ =>
      Safe.pure fun _ => hr.object_lt hid
    have hold := hq.types hdecl'
    refine ⟨hold.types, fun m hm => ?_, hold.places⟩
    rcases List.mem_append.1 hm with hm | hm
    · exact hold.methods m hm
    · rw [List.mem_singleton.1 hm]
      exact hid

/-! ### Syntax -/

/-- A node in range may be added. -/
theorem safe_addNode {node : Node} {pos : Pos} {type : Option TypeId}
    (h : p.WellFormed placed → (⟨node, pos, type⟩ : NodeData).InRange (p.bounds placed)) :
    Safe placed p (addNode node pos type) fun n q => n < q.nodes.size :=
  Safe.modifyGet fun hp => ⟨hp.pushNode (h hp), by simp⟩

/-- A node may be given any type of the table, also one that is not there. -/
theorem safe_setType (n : NodeId) {type : TypeId} (htype : type < p.types.size) :
    Safe placed p (setType n type) fun _ _ => True :=
  Safe.modify fun hp => hp.modifyNode n htype

theorem safe_ident (name : String) {obj : Option ObjId} (isDef : Bool) {pos : Pos}
    (hobj : ∀ o ∈ obj, o < p.objects.size) (hpos : pos.InRange (p.bounds placed)) :
    Safe placed p (ident name obj isDef pos) fun n q => n < q.nodes.size := by
  refine Safe.get_bind (safe_addNode fun hp => ⟨by simp [Node.children], hobj, fun id hid => ?_, hpos⟩)
  obtain ⟨o, -, ho⟩ := Option.bind_eq_some_iff.1 hid
  exact hp.objectType_lt ho

/-- The type of a selected field is in range. -/
theorem selectionType?_lt (hp : p.WellFormed placed) {x sel : NodeId} {id : TypeId}
    (h : selectionType? p x sel = some id) : id < p.types.size := by
  unfold selectionType? at h
  split at h
  · obtain ⟨base, -, hfield⟩ := Option.bind_eq_some_iff.1 h
    exact hp.selectWithin_lt hfield
  · cases h

/-- What a selector selects has a type of the table. -/
theorem safe_selector {x sel : NodeId} (hx : x < p.nodes.size) (hsel : sel < p.nodes.size) :
    Safe placed p (selector x sel) fun n q => n < q.nodes.size := by
  refine Safe.get_bind (safe_addNode fun hp => ⟨?_, by simp [Node.symbol?], fun id hid => ?_, hp.pos_inRange hx⟩)
  · simpa [Node.children] using ⟨hx, hsel⟩
  · cases htype : p.type? sel with
    | some type =>
      rw [htype] at hid
      exact hp.type_lt (htype.trans hid)
    | none =>
      rw [htype] at hid
      exact selectionType?_lt hp hid

/-- What a call gives has a type of the table. -/
theorem safe_call {callee : NodeId} {args : List NodeId} (spread : Bool) (hcallee : callee < p.nodes.size)
    (hargs : ∀ a ∈ args, a < p.nodes.size) : Safe placed p (call callee args spread) fun n q => n < q.nodes.size := by
  refine Safe.get_bind (safe_addNode fun hp => ⟨?_, by simp [Node.symbol?], fun id hid => ?_, hp.pos_inRange hcallee⟩)
  · simpa [Node.children] using ⟨hcallee, hargs⟩
  · obtain ⟨sig, hsig, hresult⟩ := Option.bind_eq_some_iff.1 hid
    obtain ⟨type, -, hsig⟩ := Option.bind_eq_some_iff.1 hsig
    exact hp.singleResult_lt hsig hresult

theorem safe_composite {type : Option TypeId} {elts : List NodeId} {pos : Pos} (htype : ∀ id ∈ type, id < p.types.size)
    (helts : ∀ e ∈ elts, e < p.nodes.size) (hpos : pos.InRange (p.bounds placed)) :
    Safe placed p (composite type elts pos) fun n q => n < q.nodes.size :=
  safe_addNode fun _ => ⟨helts, by simp [Node.symbol?], htype, hpos⟩

theorem safe_keyValue {key value : NodeId} (hkey : key < p.nodes.size) (hvalue : value < p.nodes.size) :
    Safe placed p (keyValue key value) fun n q => n < q.nodes.size :=
  Safe.get_bind (safe_addNode fun hp =>
    ⟨by simpa [Node.children] using ⟨hkey, hvalue⟩, by simp [Node.symbol?], by simp, hp.pos_inRange hkey⟩)

theorem safe_literal (kind : LiteralKind) (raw : String) {pos : Pos} (hpos : pos.InRange (p.bounds placed)) :
    Safe placed p (literal kind raw pos) fun n q => n < q.nodes.size := by
  refine Safe.bind (safe_intern trivial (by simp [Ty.components])) fun type q _ hq htype => safe_addNode fun _ => ?_
  exact ⟨by simp [Node.children], by simp [Node.symbol?], by simpa using htype, hpos.mono hq.le⟩

/-- The type of a unary expression is in the table: a pointer that is interned, the element of a pointer, or the type
itself. -/
theorem safe_unaryType (op : String) {type : TypeId} (htype : type < p.types.size) :
    Safe placed p (unaryType op type) fun id q => ∀ found ∈ id, found < q.types.size := by
  unfold unaryType
  split
  · refine Safe.bind (safe_intern trivial (by simpa [Ty.components] using htype)) fun id q _ _ hid =>
      Safe.pure fun _ => by simpa using hid
  · split
    · refine Safe.get_bind ?_
      split
      · rename_i elem helem
        refine Safe.pure fun hp found hfound => ?_
        cases hfound
        exact (hp.types helem).types elem (by simp [Ty.typeRefs, Ty.components])
      · exact Safe.pure fun _ => by simp
    · exact Safe.pure fun _ => by simpa using htype

theorem safe_unary (op : String) {x : NodeId} {pos : Pos} (hx : x < p.nodes.size)
    (hpos : pos.InRange (p.bounds placed)) : Safe placed p (unary op x pos) fun n q => n < q.nodes.size := by
  have hnode : ∀ type q, p.LeadsTo q → (∀ found ∈ type, found < q.types.size) →
      Safe placed q (addNode (.unary op x) pos type) fun n r => n < r.nodes.size := fun type q hq htype =>
    safe_addNode fun _ => ⟨by simpa [Node.children] using Nat.lt_of_lt_of_le hx hq.nodes_size_le,
      by simp [Node.symbol?], htype, hpos.mono hq.le⟩
  intro hp
  refine Safe.get_bind ?_ hp
  split
  · rename_i type htype
    exact Safe.bind (safe_unaryType op (hp.type_lt htype)) fun found q _ hq hfound => hnode found q hq hfound
  · exact hnode none p (.refl p) (by simp)

theorem safe_block {stmts : List NodeId} {pos : Pos} (hstmts : ∀ s ∈ stmts, s < p.nodes.size)
    (hpos : pos.InRange (p.bounds placed)) : Safe placed p (block stmts pos) fun n q => n < q.nodes.size :=
  safe_addNode fun _ => ⟨hstmts, by simp [Node.symbol?], by simp, hpos⟩

/-- The position of the first of some nodes is in range, and so is the very first position where there is a file. -/
theorem firstPos_inRange (hp : p.WellFormed placed) {ns : List NodeId} (hns : ∀ n ∈ ns, n < p.nodes.size)
    (hfirst : (default : Pos).InRange (p.bounds placed)) : (firstPos p ns).InRange (p.bounds placed) := by
  cases ns with
  | nil => exact hfirst
  | cons n ns => exact hp.pos_inRange (hns n (by simp))

/-- An assignment stands where its first child does, or at the very first position. -/
theorem safe_assign {lhs rhs : List NodeId} (define : Bool) (h : ∀ n ∈ lhs ++ rhs, n < p.nodes.size)
    (hfirst : (default : Pos).InRange (p.bounds placed)) :
    Safe placed p (assign lhs rhs define) fun n q => n < q.nodes.size :=
  Safe.get_bind (safe_addNode fun hp => ⟨h, by simp [Node.symbol?], by simp, firstPos_inRange hp h hfirst⟩)

theorem safe_valueDecl {names values : List NodeId} (h : ∀ n ∈ names ++ values, n < p.nodes.size)
    (hfirst : (default : Pos).InRange (p.bounds placed)) :
    Safe placed p (valueDecl names values) fun n q => n < q.nodes.size :=
  Safe.get_bind (safe_addNode fun hp => ⟨h, by simp [Node.symbol?], by simp, firstPos_inRange hp h hfirst⟩)

theorem safe_other (label : String) {children : List NodeId} {pos : Pos} (h : ∀ c ∈ children, c < p.nodes.size)
    (hpos : pos.InRange (p.bounds placed)) :
    Safe placed p (other label children pos) fun n q => n < q.nodes.size :=
  safe_addNode fun _ => ⟨h, by simp [Node.symbol?], by simp, hpos⟩

end Build

end FluentChain
