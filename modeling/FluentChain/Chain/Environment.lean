import FluentChain.Chain.Context

/-!
# Environments

The contexts of the variables that are visible at a place in a program.  An environment is a stack of scopes;
a binding goes into the innermost one, and a lookup takes the innermost binding it finds.  A variable bound to
the untracked context counts as unbound, also where an outer scope binds it.
-/

namespace FluentChain

/-- The bindings made in one block, latest first. -/
abbrev Scope := List (ObjId × ChainContext)

structure Environment where
  inner : Scope := []
  outer : List Scope := []
deriving DecidableEq, Repr

namespace Environment

/-- An environment with a new innermost scope. -/
def child (env : Environment) : Environment := ⟨[], env.inner :: env.outer⟩

/-- The innermost binding of a variable. -/
def binding? (env : Environment) (obj : ObjId) : Option ChainContext :=
  (env.inner :: env.outer).findSome? fun scope => scope.lookup obj

def lookup? (env : Environment) (obj : ObjId) : Option ChainContext :=
  (env.binding? obj).filter (· ≠ .untracked)

def bind (env : Environment) (obj : ObjId) (ctx : ChainContext) : Environment :=
  { env with inner := (obj, ctx) :: env.inner }

theorem binding?_child (env : Environment) (obj : ObjId) : env.child.binding? obj = env.binding? obj := rfl

theorem binding?_bind_self (env : Environment) (obj : ObjId) (ctx : ChainContext) :
    (env.bind obj ctx).binding? obj = some ctx := by
  simp [binding?, bind]

theorem binding?_bind_of_ne (env : Environment) {obj other : ObjId} (h : other ≠ obj) (ctx : ChainContext) :
    (env.bind obj ctx).binding? other = env.binding? other := by
  have hne : (other == obj) = false := beq_eq_false_iff_ne.2 h
  simp only [binding?, bind, List.findSome?_cons, List.lookup_cons, hne]

end Environment

end FluentChain
