import FluentChain.Proofs.Build.Operation
import FluentChain.Proofs.Type.Text

/-!
# Types and their texts

A type that is read from a text has a text of its own, which all that is built later leaves as it is and reads as
the same type.  So two types read at any time are one type exactly if their texts are equal
(`Program.Built.same_type_iff`), which is so exactly if they were read from texts of one shape; and a shape forgets
nothing but the lengths of arrays.
-/

namespace FluentChain

namespace Build

variable {p q : Program} {text : String} {id : TypeId}

theorem parseType_eq_ok_iff :
    parseType text p = .ok id q ↔ ∃ types, TypeTable.parse text p.types = .ok id types ∧ q = { p with types } := by
  unfold parseType
  cases TypeTable.parse text p.types with
  | ok found types => simp [eq_comm]
  | error e types => simp

end Build

namespace Program

variable {p q : Program} {text : String} {id : TypeId}

/-- Reading a type is an operation like any other. -/
theorem LeadsBy.of_parseType (h : Build.parseType text p = .ok id q) : p.LeadsBy q := by
  have hafter : (Build.Operation.parseType text).after p = q := by
    simp only [Build.Operation.after, Build.stateAfter, h]
  exact hafter ▸ .step (.parseType text) trivial

theorem WellFormed.reads (hp : p.WellFormed false) (h : Build.parseType text p = .ok id q) :
    p.types.Reads (TypeExpr.parse text.toList) id q.types := by
  obtain ⟨types, hrun, rfl⟩ := Build.parseType_eq_ok_iff.1 h
  exact TypeTable.reads_of_parse hp.table hrun

/-- The text of a type that was read is kept, and is read as the type again, which changes nothing. -/
theorem LeadsBy.parse_display {u : Program} (h : u.LeadsBy q) (hu : u.WellFormed false) {t : TypeTable}
    {e : TypeExpr} (hreads : t.Reads e id u.types) :
    q.types.display id = e.text ∧ Build.parseType (q.types.display id) q = .ok id q := by
  obtain ⟨hq, hleads⟩ := h.keeps hu
  obtain ⟨htext, hparse⟩ := hreads.parse_display hq.table hleads.types
  exact ⟨htext, Build.parseType_eq_ok_iff.2 ⟨q.types, hparse, rfl⟩⟩

/-- However a program was built, and whatever is done to it later: a type that is read from a text keeps its text,
and its text is read as the type again and adds nothing.  Of two types that are read one after the other, with
anything done between and after, both are the same exactly if their texts are equal, exactly if what they were read
from has the same shape; and arrays of the same elements are the same whatever their lengths. -/
theorem Built.same_type_iff {p₁ : Program} (hp : p.Built) (hread : Build.parseType text p = .ok id p₁) :
    (∀ q, p₁.LeadsBy q → q.types.display id = p₁.types.display id ∧
      Build.parseType (q.types.display id) q = .ok id q) ∧
    ∀ q text' id' q₁, p₁.LeadsBy q → Build.parseType text' q = .ok id' q₁ → ∀ r, q₁.LeadsBy r →
      (id = id' ↔ r.types.display id = r.types.display id') ∧
      (id = id' ↔ TypeExpr.parse text.toList = TypeExpr.parse text'.toList) ∧
      ∀ n n' elem : List Char, text.toList = '[' :: (n ++ ']' :: elem) → text'.toList = '[' :: (n' ++ ']' :: elem) →
        n ≠ [] → n.all TypeExpr.isLengthChar = true → n' ≠ [] → n'.all TypeExpr.isLengthChar = true → id = id' := by
  have hp₁ : p₁.WellFormed false := ((LeadsBy.of_parseType hread).keeps hp.wellFormed).1
  have hfirst := hp.wellFormed.reads hread
  refine ⟨fun q hq => ?_, fun q text' id' q₁ hq hread' r hr => ?_⟩
  · obtain ⟨htext, hparse⟩ := hq.parse_display hp₁ hfirst
    exact ⟨htext.trans (LeadsBy.parse_display .refl hp₁ hfirst).1.symm, hparse⟩
  have hq' := (hq.keeps hp₁).1
  have hsecond := hq'.reads hread'
  have hq₁ : q₁.WellFormed false := ((LeadsBy.of_parseType hread').keeps hq').1
  have hp₁r : p₁.LeadsBy r := hq.trans ((LeadsBy.of_parseType hread').trans hr)
  -- in the last program both types have the shapes of the texts that they were read from
  have hr' := hr.keeps hq₁
  have hid := hfirst.denotes.mono (hp₁r.keeps hp₁).2.types
  have hid' := hsecond.denotes.mono hr'.2.types
  have hshape : id = id' ↔ TypeExpr.parse text.toList = TypeExpr.parse text'.toList := by
    refine ⟨?_, fun heq => hid.id_unique hr'.1.table (heq ▸ hid')⟩
    rintro rfl
    exact hid.expr_unique hid'
  refine ⟨⟨fun heq => heq ▸ rfl, fun heq => hshape.2 ?_⟩, hshape, ?_⟩
  · rw [(hp₁r.parse_display hp₁ hfirst).1, (hr.parse_display hq₁ hsecond).1] at heq
    rw [← TypeExpr.parse_text hfirst.written, heq, TypeExpr.parse_text hsecond.written]
  · rintro n n' elem htext htext' hne hn hne' hn'
    rw [hshape, htext, htext', TypeExpr.parse_array_length hne hn, TypeExpr.parse_array_length hne' hn']

/-- Arrays of a foreign type. -/
theorem Built.same_type_iff_foreign_array : ∃ p₁, Build.parseType "[3]pkg.T" {} = .ok 1 p₁ ∧
    (∀ q, p₁.LeadsBy q → q.types.display 1 = "[_]pkg.T" ∧ Build.parseType "[_]pkg.T" q = .ok 1 q) ∧
    ∀ q id q₁, p₁.LeadsBy q → Build.parseType "[4]pkg.T" q = .ok id q₁ → 1 = id := by
  have hread : Build.parseType "[3]pkg.T" {} =
      .ok 1 { types := ⟨#[.named (.blank "pkg.T"), .array 0]⟩ } := by
    decide +kernel
  obtain ⟨hkept, hsame⟩ := Built.same_type_iff .refl hread
  have htext : ({ types := ⟨#[.named (.blank "pkg.T"), .array 0]⟩ } : Program).types.display 1 = "[_]pkg.T" := by
    decide +kernel
  refine ⟨_, hread, fun q hq => ?_, fun q id q₁ hq hread' => ?_⟩
  · obtain ⟨hdisplay, hparse⟩ := hkept q hq
    rw [hdisplay, htext] at hparse
    exact ⟨hdisplay.trans htext, hparse⟩
  · exact (hsame q _ id q₁ hq hread' q₁ .refl).2.2 ['3'] ['4'] "pkg.T".toList (by decide +kernel) (by decide +kernel)
      (by decide) (by decide) (by decide) (by decide)

end Program

end FluentChain
