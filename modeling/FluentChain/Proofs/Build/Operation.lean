import Mathlib.Logic.Relation
import FluentChain.Proofs.Build.Safe

/-!
# Sequences of building steps

A program is built by operations, one after another, each of them on what has come about so far (`Program.LeadsBy`).
An operation is given numbers that the program has handed out (`Operation.Fits`); positions may be anything, and
an operation may fail.  Whatever is done, the program stays well-formed and keeps what it has (`LeadsBy.keeps`).
-/

namespace FluentChain

namespace Build

/-- A step that a program is built with, and what it is given. -/
inductive Operation
  | file (name : String)
  | pushDecl (file : FileId) (decl : NodeId)
  | position (text : String) (inherited : Option FileId)
  | declareType (name : String) (pos : Option Pos)
  | intern (ty : Ty)
  | parseType (text : String)
  | signature (sig : Signature)
  | setUnderlying (id underlying : TypeId)
  | defineStruct (id : TypeId) (fields : List Field)
  | object (key name : String) (kind : ObjectKind) (type : Option TypeId) (pos : Option Pos)
  | method (recv : TypeId) (name : String) (sig : TypeId)
  | setType (n : NodeId) (type : TypeId)
  | ident (name : String) (obj : Option ObjId) (isDef : Bool) (pos : Pos)
  | selector (x sel : NodeId)
  | call (callee : NodeId) (args : List NodeId) (spread : Bool)
  | composite (type : Option TypeId) (elts : List NodeId) (pos : Pos)
  | keyValue (key value : NodeId)
  | literal (kind : LiteralKind) (raw : String) (pos : Pos)
  | unary (op : String) (x : NodeId) (pos : Pos)
  | block (stmts : List NodeId) (pos : Pos)
  | assign (lhs rhs : List NodeId) (define : Bool)
  | valueDecl (names values : List NodeId)
  | other (label : String) (children : List NodeId) (pos : Pos)

/-- The program after a step, where it fails as well. -/
def stateAfter {α : Type} (m : Build α) (p : Program) : Program :=
  match m p with
  | .ok _ q | .error _ q => q

namespace Operation

/-- The program that an operation leads to. -/
def after : Operation → Program → Program
  | .file name => stateAfter (Build.file name)
  | .pushDecl id decl => stateAfter (Build.pushDecl id decl)
  | .position text inherited => stateAfter (Build.position text inherited)
  | .declareType name pos => stateAfter (Build.declareType name pos)
  | .intern ty => stateAfter (Build.intern ty)
  | .parseType text => stateAfter (Build.parseType text)
  | .signature sig => stateAfter (Build.signature sig)
  | .setUnderlying id underlying => stateAfter (Build.setUnderlying id underlying)
  | .defineStruct id fields => stateAfter (Build.defineStruct id fields)
  | .object key name kind type pos => stateAfter (Build.object ⟨key, name, kind, type, none, pos⟩)
  | .method recv name sig => stateAfter (Build.method recv name sig)
  | .setType n type => stateAfter (Build.setType n type)
  | .ident name obj isDef pos => stateAfter (Build.ident name obj isDef pos)
  | .selector x sel => stateAfter (Build.selector x sel)
  | .call callee args spread => stateAfter (Build.call callee args spread)
  | .composite type elts pos => stateAfter (Build.composite type elts pos)
  | .keyValue key value => stateAfter (Build.keyValue key value)
  | .literal kind raw pos => stateAfter (Build.literal kind raw pos)
  | .unary op x pos => stateAfter (Build.unary op x pos)
  | .block stmts pos => stateAfter (Build.block stmts pos)
  | .assign lhs rhs define => stateAfter (Build.assign lhs rhs define)
  | .valueDecl names values => stateAfter (Build.valueDecl names values)
  | .other label children pos => stateAfter (Build.other label children pos)

/-- The types, symbols and nodes that an operation is given are those of the program. -/
def Fits (p : Program) : Operation → Prop
  | .file _ | .position .. | .declareType .. | .parseType _ | .literal .. => True
  | .pushDecl _ decl => decl < p.nodes.size
  | .intern ty => ty.IsShared ∧ ∀ c ∈ ty.components, c < p.types.size
  | .signature sig => ∀ c ∈ sig.params ++ sig.results, c < p.types.size
  | .setUnderlying id underlying => id < p.types.size ∧ underlying < p.types.size
  | .defineStruct id fields => id < p.types.size ∧ ∀ f ∈ fields, f.type < p.types.size
  | .object _ _ _ type _ => ∀ id ∈ type, id < p.types.size
  | .method recv _ sig => recv < p.types.size ∧ sig < p.types.size
  | .setType n type => n < p.nodes.size ∧ type < p.types.size
  | .ident _ obj _ _ => ∀ o ∈ obj, o < p.objects.size
  | .selector x sel => x < p.nodes.size ∧ sel < p.nodes.size
  | .call callee args _ => callee < p.nodes.size ∧ ∀ a ∈ args, a < p.nodes.size
  | .composite type elts _ => (∀ id ∈ type, id < p.types.size) ∧ ∀ e ∈ elts, e < p.nodes.size
  | .keyValue key value => key < p.nodes.size ∧ value < p.nodes.size
  | .unary _ x _ => x < p.nodes.size
  | .block stmts _ => ∀ s ∈ stmts, s < p.nodes.size
  | .assign lhs rhs _ => ∀ n ∈ lhs ++ rhs, n < p.nodes.size
  | .valueDecl names values => ∀ n ∈ names ++ values, n < p.nodes.size
  | .other _ children _ => ∀ c ∈ children, c < p.nodes.size

/-- The program after some operations, done one after another. -/
def afterAll (ops : List Operation) (p : Program) : Program := ops.foldl (fun p op => op.after p) p

/-- Each operation is given numbers of the program that it finds. -/
def FitAll : List Operation → Program → Prop
  | [], _ => True
  | op :: ops, p => op.Fits p ∧ FitAll ops (op.after p)

instance decidableIsShared : (ty : Ty) → Decidable ty.IsShared
  | .named _ | .struct _ | .signature _ => .isFalse id
  | .basic _ | .pointer _ | .slice _ | .array _ | .map _ _ | .interface => .isTrue trivial

instance decidableFits (p : Program) : (op : Operation) → Decidable (op.Fits p)
  | .file _ | .position .. | .declareType .. | .parseType _ | .literal .. => .isTrue trivial
  | .pushDecl _ decl => inferInstanceAs (Decidable (decl < p.nodes.size))
  | .intern ty => inferInstanceAs (Decidable (ty.IsShared ∧ ∀ c ∈ ty.components, c < p.types.size))
  | .signature sig => inferInstanceAs (Decidable (∀ c ∈ sig.params ++ sig.results, c < p.types.size))
  | .setUnderlying id underlying => inferInstanceAs (Decidable (id < p.types.size ∧ underlying < p.types.size))
  | .defineStruct id fields => inferInstanceAs (Decidable (id < p.types.size ∧ ∀ f ∈ fields, f.type < p.types.size))
  | .object _ _ _ type _ => inferInstanceAs (Decidable (∀ id ∈ type, id < p.types.size))
  | .method recv _ sig => inferInstanceAs (Decidable (recv < p.types.size ∧ sig < p.types.size))
  | .setType n type => inferInstanceAs (Decidable (n < p.nodes.size ∧ type < p.types.size))
  | .ident _ obj _ _ => inferInstanceAs (Decidable (∀ o ∈ obj, o < p.objects.size))
  | .selector x sel => inferInstanceAs (Decidable (x < p.nodes.size ∧ sel < p.nodes.size))
  | .call callee args _ => inferInstanceAs (Decidable (callee < p.nodes.size ∧ ∀ a ∈ args, a < p.nodes.size))
  | .composite type elts _ =>
    inferInstanceAs (Decidable ((∀ id ∈ type, id < p.types.size) ∧ ∀ e ∈ elts, e < p.nodes.size))
  | .keyValue key value => inferInstanceAs (Decidable (key < p.nodes.size ∧ value < p.nodes.size))
  | .unary _ x _ => inferInstanceAs (Decidable (x < p.nodes.size))
  | .block stmts _ => inferInstanceAs (Decidable (∀ s ∈ stmts, s < p.nodes.size))
  | .assign lhs rhs _ => inferInstanceAs (Decidable (∀ n ∈ lhs ++ rhs, n < p.nodes.size))
  | .valueDecl names values => inferInstanceAs (Decidable (∀ n ∈ names ++ values, n < p.nodes.size))
  | .other _ children _ => inferInstanceAs (Decidable (∀ c ∈ children, c < p.nodes.size))

instance decidableFitAll : (ops : List Operation) → (p : Program) → Decidable (FitAll ops p)
  | [], _ => .isTrue trivial
  | op :: ops, p =>
    have := decidableFitAll ops (op.after p)
    inferInstanceAs (Decidable (op.Fits p ∧ FitAll ops (op.after p)))

end Operation

variable {α : Type} {p q : Program}

theorem Safe.stateAfter {placed : Bool} {m : Build α} {R : α → Program → Prop} (h : Safe placed p m R)
    (hp : p.WellFormed placed) :
    (Build.stateAfter m p).WellFormed placed ∧ p.LeadsTo (Build.stateAfter m p) := by
  unfold Build.stateAfter
  cases hrun : m p with
  | ok a q => exact (h.of_ok hp hrun).1
  | error e q => exact h.of_error hp hrun

/-- Where files are not counted every position is in range. -/
theorem inRange_anywhere (pos : Pos) : pos.InRange (p.bounds false) := by
  rintro n ⟨⟩

/-- An operation keeps a program well-formed and moves nothing in it. -/
theorem Operation.keeps {op : Operation} (h : op.Fits p) (hp : p.WellFormed false) :
    (op.after p).WellFormed false ∧ p.LeadsTo (op.after p) := by
  cases op with
  | file name => exact (safe_file name).stateAfter hp
  | pushDecl file decl => exact (safe_pushDecl file h).stateAfter hp
  | position text inherited => exact (safe_position text fun _ _ _ _ => inRange_anywhere _).stateAfter hp
  | declareType name pos => exact (safe_declareType name fun _ _ => inRange_anywhere _).stateAfter hp
  | intern ty => exact (safe_intern h.1 h.2).stateAfter hp
  | parseType text => exact (safe_parseType text).stateAfter hp
  | signature sig => exact (safe_signature h).stateAfter hp
  | setUnderlying id underlying => exact (safe_setUnderlying id h.2).stateAfter hp
  | defineStruct id fields => exact (safe_defineStruct id h.2 fun _ _ _ _ => inRange_anywhere _).stateAfter hp
  | object key name kind type pos =>
    have hobj : (⟨key, name, kind, type, none, pos⟩ : Object).InRange (p.bounds false) :=
      ⟨h, by simp, fun _ _ => inRange_anywhere _⟩
    exact (safe_object hobj).stateAfter hp
  | method recv name sig => exact (safe_method name h.1 h.2).stateAfter hp
  | setType n type => exact (safe_setType n h.2).stateAfter hp
  | ident name obj isDef pos => exact (safe_ident name isDef h (inRange_anywhere pos)).stateAfter hp
  | selector x sel => exact (safe_selector h.1 h.2).stateAfter hp
  | call callee args spread => exact (safe_call spread h.1 h.2).stateAfter hp
  | composite type elts pos => exact (safe_composite h.1 h.2 (inRange_anywhere pos)).stateAfter hp
  | keyValue key value => exact (safe_keyValue h.1 h.2).stateAfter hp
  | literal kind raw pos => exact (safe_literal kind raw (inRange_anywhere pos)).stateAfter hp
  | unary op x pos => exact (safe_unary op h (inRange_anywhere pos)).stateAfter hp
  | block stmts pos => exact (safe_block h (inRange_anywhere pos)).stateAfter hp
  | assign lhs rhs define => exact (safe_assign define h (inRange_anywhere _)).stateAfter hp
  | valueDecl names values => exact (safe_valueDecl h (inRange_anywhere _)).stateAfter hp
  | other label children pos => exact (safe_other label h (inRange_anywhere pos)).stateAfter hp

end Build

namespace Program

variable {p q : Program}

/-- Operations lead from one program to the other, each given numbers of the program that it finds. -/
def LeadsBy : Program → Program → Prop :=
  Relation.ReflTransGen fun p q => ∃ op : Build.Operation, op.Fits p ∧ q = op.after p

/-- The program is built by operations from nothing. -/
def Built (p : Program) : Prop := LeadsBy {} p

theorem LeadsBy.step (op : Build.Operation) (h : op.Fits p) : p.LeadsBy (op.after p) :=
  Relation.ReflTransGen.single ⟨op, h, rfl⟩

/-- What is led to is what some operations lead to, each given numbers of the program that it finds. -/
theorem leadsBy_iff : p.LeadsBy q ↔ ∃ ops, Build.Operation.FitAll ops p ∧ Build.Operation.afterAll ops p = q := by
  constructor
  · intro h
    induction h using Relation.ReflTransGen.head_induction_on with
    | refl => exact ⟨[], trivial, rfl⟩
    | head hstep _ ih =>
      obtain ⟨op, hop, rfl⟩ := hstep
      obtain ⟨ops, hops, hlast⟩ := ih
      exact ⟨op :: ops, ⟨hop, hops⟩, hlast⟩
  · rintro ⟨ops, hops, rfl⟩
    induction ops generalizing p with
    | nil => exact Relation.ReflTransGen.refl
    | cons op ops ih => exact (LeadsBy.step op hops.1).trans (ih hops.2)

theorem LeadsBy.keeps (h : p.LeadsBy q) (hp : p.WellFormed false) : q.WellFormed false ∧ p.LeadsTo q := by
  induction h with
  | refl => exact ⟨hp, .refl p⟩
  | tail _ hstep ih =>
    obtain ⟨op, hfits, rfl⟩ := hstep
    obtain ⟨hq, hleads⟩ := op.keeps hfits ih.1
    exact ⟨hq, ih.2.trans hleads⟩

theorem Built.wellFormed (h : p.Built) : p.WellFormed false := (h.keeps .empty).1

end Program

/-! ### A small program -/

/-- A list node that points to the next one and has a method on the pointer and one on itself.  Five operations fail:
a type expression behind a pointer that it added, two second definitions, a method whose key is taken, and a method
of a struct. -/
def Build.Operation.listNode : List Build.Operation :=
  [.declareType "Node" none, .parseType "map[*Node]missing", .defineStruct 0 [⟨"Next", 1, false, none, none⟩],
    .setUnderlying 0 1, .defineStruct 0 [], .declareType "Node" (some ⟨0, 1, 6⟩), .signature ⟨[], false, [1]⟩,
    .method 1 "Last" 4, .object "(Node).Next" "Next" .func (some 4) none, .method 0 "Next" 4, .method 2 "Next" 4,
    .method 0 "Last" 4]

def Program.listNode : Program := Build.Operation.afterAll Build.Operation.listNode {}

end FluentChain
