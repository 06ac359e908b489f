import FluentChain.Proofs.Record.Flattened
import FluentChain.Proofs.Record.Tag
import FluentChain.Proofs.Text.Padded

/-!
# Aliases in struct tags

The value of a tag entry is a list of attributes with semicolons between them, written with blanks in any places
(`Tag.Attribute.Listed`).  Reading it gives the attributes as they were written, names in lower case
(`Attribute.Listed.attributes_eq`), and the first of the configured name is the alias of the field.  In the table of
its record the field stands under its alias, and so not under its own name (`FieldTable.found_by_alias`).
-/

namespace FluentChain

namespace Text

/-- The lower-case forms of the ASCII capitals. -/
def asciiRun : CaseRun := ⟨0x41, 0x5A, 1, 0x61⟩

/-- An ASCII character has the lower-case form that it has in ASCII. -/
theorem lowerChar_of_ascii {c : Char} (h : c.toNat < 128) : lowerChar c = [c.toLower] := by
  have hsplit : caseRuns = asciiRun :: caseRuns.tail := rfl
  have hfirst : ∀ r ∈ caseRuns.tail, 128 ≤ r.first := by decide +kernel
  have hnone : caseRuns.tail.find? (·.covers c.toNat) = none := by
    refine List.find?_eq_none.2 fun r hr hcovers => ?_
    have hle : r.first ≤ c.toNat := by
      rw [CaseRun.covers, Bool.and_assoc, Bool.and_eq_true] at hcovers
      exact of_decide_eq_true hcovers.1
    exact absurd (hfirst r hr) (by omega)
  have hdotted : c ≠ '\u0130' := by
    rintro rfl
    exact absurd h (by decide)
  have hall : ∀ code < 128, (if asciiRun.covers code then Char.ofNat (asciiRun.image + (code - asciiRun.first))
      else Char.ofNat code) = (Char.ofNat code).toLower := by
    decide +kernel
  have hc := hall c.toNat h
  rw [Char.ofNat_toNat] at hc
  rw [lowerChar, if_neg hdotted, hsplit, List.find?_cons, hnone, ← hc]
  cases asciiRun.covers c.toNat <;> rfl

theorem lowerFrom_of_ascii {cs : List Char} (h : ∀ c ∈ cs, c.toNat < 128) (before : List Char) :
    lowerFrom before cs = cs.map Char.toLower := by
  induction cs generalizing before with
  | nil => rfl
  | cons c cs ih =>
    have hc : c.toNat < 128 := h c List.mem_cons_self
    have hsigma : c ≠ '\u03A3' := by
      rintro rfl
      exact absurd hc (by decide)
    rw [lowerFrom, if_neg hsigma, lowerChar_of_ascii hc, ih fun d hd => h d (List.mem_cons_of_mem c hd)]
    rfl

theorem lowercase_of_ascii {cs : List Char} (h : ∀ c ∈ cs, c.toNat < 128) : lowercase cs = cs.map Char.toLower :=
  lowerFrom_of_ascii h []

end Text

namespace Tag

open Text

variable {c : Char} {cs part before after text whole : List Char} {parts : List (List Char)}

/-! ### Attributes -/

/-- An attribute as it is written: a name, and a value behind a colon or none. -/
structure Attribute where
  name : List Char
  value : Option (List Char)
deriving DecidableEq, Repr

namespace Attribute

/-- The name is an ASCII text that is not blank, and neither the name nor the value runs into what comes next. -/
structure Writable (a : Attribute) : Prop where
  ascii : ∀ c ∈ a.name, c.toNat < 128
  notBlank : ∃ c ∈ a.name, isBlank c = false
  name : ':' ∉ a.name ∧ ';' ∉ a.name
  value : ∀ v ∈ a.value, ';' ∉ v

/-- The text writes the attribute, with blanks around its name and its value. -/
inductive Renders : Attribute → List Char → Prop
  | flag {name part : List Char} (hname : Padded name part) : Renders ⟨name, none⟩ part
  | valued {name value before after : List Char} (hname : Padded name before) (hvalue : Padded value after) :
    Renders ⟨name, some value⟩ (before ++ ':' :: after)

/-- The parts write the attributes one after another, with blank parts in any places between them. -/
inductive Listed : List Attribute → List (List Char) → Prop
  | nil : Listed [] []
  | blank {as : List Attribute} {part : List Char} {parts : List (List Char)} (hpart : ∀ c ∈ part, isBlank c = true)
    (h : Listed as parts) : Listed as (part :: parts)
  | cons {a : Attribute} {as : List Attribute} {part : List Char} {parts : List (List Char)} (ha : a.Renders part)
    (h : Listed as parts) : Listed (a :: as) (part :: parts)

/-- The value without the blanks around it, which is empty if there is none. -/
def valueText (a : Attribute) : String := String.ofList (trim (a.value.getD []))

/-- The name without the blanks around it, in lower case. -/
def key (a : Attribute) : List Char := (trim a.name).map Char.toLower

end Attribute

/-- The value of the first of some attributes that has a name, in whatever case. -/
def aliasAmong? (as : List Attribute) (name : String) : Option String :=
  (as.find? fun a => a.key = lowercase name.toList).map (·.valueText)

/-! ### Reading attributes -/

theorem splitColon?_eq_some (h : ':' ∉ before) : splitColon? (before ++ ':' :: after) = some (before, after) := by
  rw [splitColon?, dropWhile_ne_append h, takeWhile_ne_append h]

theorem splitColon?_eq_none (h : ':' ∉ cs) : splitColon? cs = none := by
  rw [splitColon?, dropWhile_ne_eq_nil h]

namespace Attribute

variable {a : Attribute} {as : List Attribute}

theorem Writable.lowercase_trim (h : a.Writable) (hname : Padded a.name part) : lowercase (trim part) = a.key := by
  rw [hname.trim_eq, lowercase_of_ascii fun c hc => h.ascii c ((padded_trim a.name).mem hc)]
  rfl

/-- A part that writes an attribute is read as the attribute. -/
theorem Writable.read (h : a.Writable) (hpart : a.Renders part) :
    readAttribute part = (String.ofList a.key, a.valueText) := by
  have hcolon : isBlank ':' = false := by decide
  cases hpart with
  | flag hname =>
    rw [readAttribute, splitColon?_eq_none (hname.not_mem hcolon h.name.1), h.lowercase_trim hname]
    rfl
  | valued hname hvalue =>
    rw [readAttribute, splitColon?_eq_some (hname.not_mem hcolon h.name.1)]
    dsimp only
    rw [h.lowercase_trim hname, hvalue.trim_eq]
    rfl

theorem Writable.trim_ne_nil (h : a.Writable) (hpart : a.Renders part) : trim part ≠ [] := by
  obtain ⟨c, hc, hblank⟩ := h.notBlank
  have hmem : c ∈ part := by
    cases hpart with
    | flag hname => exact hname.mem hc
    | valued hname _ => exact List.mem_append_left _ (hname.mem hc)
  rw [Ne, trim_eq_nil_iff]
  intro hall
  rw [hall c hmem] at hblank
  cases hblank

theorem Writable.semicolon_not_mem (h : a.Writable) (hpart : a.Renders part) : ';' ∉ part := by
  have hsemicolon : isBlank ';' = false := by decide
  cases hpart with
  | flag hname => exact hname.not_mem hsemicolon h.name.2
  | valued hname hvalue =>
    have hbefore := hname.not_mem hsemicolon h.name.2
    have hafter := hvalue.not_mem hsemicolon (h.value _ rfl)
    simp [hbefore, hafter]

theorem Listed.semicolon_not_mem (h : Listed as parts) (has : ∀ a ∈ as, a.Writable) : ∀ part ∈ parts, ';' ∉ part := by
  induction h with
  | nil => exact nofun
  | blank hpart _ ih =>
    refine List.forall_mem_cons.2 ⟨fun hmem => ?_, ih has⟩
    exact absurd (hpart ';' hmem) (by decide)
  | cons ha _ ih =>
    obtain ⟨hfirst, hrest⟩ := List.forall_mem_cons.1 has
    exact List.forall_mem_cons.2 ⟨hfirst.semicolon_not_mem ha, ih hrest⟩

theorem Listed.read (h : Listed as parts) (has : ∀ a ∈ as, a.Writable) :
    (parts.filter fun part => !(trim part).isEmpty).map readAttribute =
      as.map fun a => (String.ofList a.key, a.valueText) := by
  induction h with
  | nil => rfl
  | blank hpart _ ih => rw [List.filter_cons_of_neg (by simp [trim_eq_nil_iff.2 hpart]), ih has]
  | cons ha _ ih =>
    obtain ⟨hfirst, hrest⟩ := List.forall_mem_cons.1 has
    rw [List.filter_cons_of_pos (by simp [hfirst.trim_ne_nil ha]), List.map_cons, List.map_cons, hfirst.read ha,
      ih hrest]

/-- The attributes of a value are those that were written, in their order. -/
theorem Listed.attributes_eq (h : Listed as parts) (has : ∀ a ∈ as, a.Writable) :
    attributes (String.ofList ([';'].intercalate parts)) = as.map fun a => (String.ofList a.key, a.valueText) := by
  unfold attributes
  rw [String.toList_ofList]
  by_cases hnil : parts = []
  · subst hnil
    cases h
    rfl
  · rw [List.splitOn_intercalate ';' (h.semicolon_not_mem has) hnil, h.read has]

theorem lookup_keys (as : List Attribute) (name : List Char) :
    (as.map fun a => (String.ofList a.key, a.valueText)).lookup (String.ofList name) =
      (as.find? fun a => a.key = name).map (·.valueText) := by
  induction as with
  | nil => rfl
  | cons a as ih =>
    rw [List.map_cons, List.lookup_cons, List.find?_cons, ih]
    by_cases hkey : a.key = name
    · simp [hkey]
    · have hne : (String.ofList name == String.ofList a.key) = false := by
        rw [beq_eq_false_iff_ne, Ne, String.ofList_inj]
        exact fun heq => hkey heq.symm
      simp [hkey, hne]

theorem Listed.findAttribute?_eq (h : Listed as parts) (has : ∀ a ∈ as, a.Writable) (name : String) :
    findAttribute? (String.ofList ([';'].intercalate parts)) name = aliasAmong? as name := by
  rw [findAttribute?, h.attributes_eq has, lookup_keys, aliasAmong?]

end Attribute

/-! ### Stored values -/

/-- The tag stores a value under a key: the entry with the key is the first of this name, and the entries in front of it
are well-formed.  What follows may be anything. -/
inductive Stores (key value : List Char) : List Char → Prop
  | here {spaces body after : List Char} (hspaces : ∀ c ∈ spaces, c = ' ') (hne : key ≠ [])
    (hkey : ∀ c ∈ key, IsNameChar c) (hvalue : Quoted.Literal body value) :
    Stores key value (spaces ++ (key ++ ':' :: '"' :: (body ++ '"' :: after)))
  | later {spaces name body other after : List Char} (hspaces : ∀ c ∈ spaces, c = ' ') (hne : name ≠ [])
    (hname : ∀ c ∈ name, IsNameChar c) (hother : name ≠ key) (hvalue : Quoted.Literal body other)
    (hafter : Stores key value after) : Stores key value (spaces ++ (name ++ ':' :: '"' :: (body ++ '"' :: after)))

theorem Stores.lookup?_eq {key value : List Char} (h : Stores key value cs) :
    lookup? cs (String.ofList key) = some (String.ofList value) := by
  induction h with
  | here hspaces hne hkey hvalue =>
    rw [lookup?_entry hspaces hne hkey hvalue.split, if_pos rfl, hvalue.decode, Option.map_some]
  | later hspaces hne hname hother hvalue _ ih =>
    rw [lookup?_entry hspaces hne hname hvalue.split, if_neg (mt String.ofList_inj.1 hother), ih]

end Tag

/-! ### Fields under their aliases -/

namespace FieldTable

open Tag (Attribute Stores aliasAmong?)

variable {types : TypeTable} {tag : TagConfig} {field : Field} {text : String} {as : List Attribute}
variable {parts : List (List Char)}

theorem keyOf_of_stores {value : String} (htext : field.tag = some text)
    (hstored : Stores tag.key.toList value.toList text.toList) :
    keyOf tag field = (Tag.findAttribute? value tag.aliasName).getD field.name := by
  have hlookup := hstored.lookup?_eq
  rw [String.ofList_toList, String.ofList_toList] at hlookup
  rw [keyOf, htext]
  simp only [Option.bind_eq_bind, Option.bind_some, hlookup]

/-- The attributes of a field are read as they were written, and its key is the first of those with the configured name,
in whatever case, or the name of the field if there is none.  In the table of a record the field stands under its key;
if that is not its name, its name finds another field that has it as key, or nothing. -/
theorem found_by_alias (types : TypeTable) (tag : TagConfig) {id : TypeId} {fields : List Field}
    (hid : types.structFields? id = some fields) (hfield : field ∈ types.promoted maxEmbedDepth fields)
    (htext : field.tag = some text) (hstored : Stores tag.key.toList ([';'].intercalate parts) text.toList)
    (hlisted : Attribute.Listed as parts) (has : ∀ a ∈ as, a.Writable) :
    Tag.attributes (String.ofList ([';'].intercalate parts)) =
      as.map (fun a => (String.ofList a.key, a.valueText)) ∧
    keyOf tag field = (aliasAmong? as tag.aliasName).getD field.name ∧
    ∀ ids table, (((FieldTableCache.fresh tag).after types ids).resolve types id).1 = .ok table →
      table.get? (keyOf tag field) = some (recordField types tag field) ∧
      (keyOf tag field ≠ field.name → table.get? field.name ≠ some (recordField types tag field)) ∧
      (table.get? field.name = none ↔ ∀ other ∈ types.promoted maxEmbedDepth fields, keyOf tag other ≠ field.name) := by
  refine ⟨hlisted.attributes_eq has, ?_, fun ids table htable => ?_⟩
  · rw [← hlisted.findAttribute?_eq has]
    exact keyOf_of_stores htext (by rwa [String.toList_ofList])
  rw [((FieldTableCache.faithful_fresh types tag).after ids).resolve_fst id] at htable
  obtain ⟨hfields, hnodup⟩ := fields_of_ofType hid htable
  have hget : ∀ {key found}, table.get? key = some found ↔ found ∈ flattened types tag fields ∧ found.key = key := by
    intro key found
    rw [← hfields]
    exact get?_eq_some_iff hnodup
  refine ⟨hget.2 ⟨List.mem_map_of_mem hfield, rfl⟩, fun hne hfound => hne (hget.1 hfound).2, ?_⟩
  rw [Option.eq_none_iff_forall_ne_some]
  constructor
  · intro hnone other hother hkey
    exact hnone _ (hget.2 ⟨List.mem_map_of_mem hother, hkey⟩)
  · intro hkeys found hfound
    obtain ⟨hmem, hkey⟩ := hget.1 hfound
    obtain ⟨other, hother, rfl⟩ := List.mem_map.1 hmem
    exact hkeys other hother hkey

end FieldTable

/-! ### A field whose name is the alias of another -/

/-- The attributes of a field of a town: a flag, its alias, and a second alias that does not count. -/
def Tag.Attribute.town : List Tag.Attribute :=
  [⟨"unique".toList, none⟩, ⟨"NAME".toList, some " City: Hall".toList⟩, ⟨"name".toList, some "Other".toList⟩]

/-- The attributes of the field, as they are written. -/
def Tag.townParts : List (List Char) :=
  [" unique ".toList, [], "\tNAME : City: Hall".toList, "name:Other".toList]

/-- The zip of a town, its tag an entry under another key and then the attributes. -/
def Field.zip : Field :=
  ⟨"Zip", 2, false, some "json:\"Zip;name:No\" db:\" unique ;;\\tNAME : City: Hall;name:Other\"", none⟩

/-- A field whose alias is the name of the zip. -/
def Field.zipped : Field := ⟨"Name", 2, false, some "db:\"name:Zip\"", none⟩

/-- A town has a zip under the alias `City: Hall`, and a name under the alias `Zip`. -/
def TypeTable.towns : TypeTable where
  entries := #[.named ⟨"Town", none, some 1, []⟩, .struct [.zip, .zipped], .basic "string"]

theorem Tag.Attribute.listed_town : Listed town townParts := by
  have hunique : Text.Padded "unique".toList " unique ".toList := ⟨[' '], [' '], by simp; decide, by simp; decide, rfl⟩
  have hname : Text.Padded "NAME".toList "\tNAME ".toList := ⟨['\t'], [' '], by simp; decide, by simp; decide, rfl⟩
  have halias : Renders ⟨"NAME".toList, some " City: Hall".toList⟩ "\tNAME : City: Hall".toList :=
    .valued hname (.refl _)
  have hother : Renders ⟨"name".toList, some "Other".toList⟩ "name:Other".toList :=
    .valued (.refl "name".toList) (.refl "Other".toList)
  exact .cons (.flag hunique) (.blank nofun (.cons halias (.cons hother .nil)))

theorem Tag.Attribute.writable_town : ∀ a ∈ town, a.Writable := by
  intro a ha
  simp only [town, List.mem_cons, List.not_mem_nil, or_false] at ha
  rcases ha with rfl | rfl | rfl
  · exact ⟨by simp, ⟨'u', by simp, by decide⟩, by simp, nofun⟩
  · exact ⟨by simp, ⟨'N', by simp, by decide⟩, by simp, by simp⟩
  · exact ⟨by simp, ⟨'n', by simp, by decide⟩, by simp, by simp⟩

/-- The attributes are stored behind an entry that has another key. -/
theorem Tag.stores_town : Stores "db".toList ([';'].intercalate townParts)
    "json:\"Zip;name:No\" db:\" unique ;;\\tNAME : City: Hall;name:Other\"".toList := by
  have hkeys : (∀ c ∈ "json".toList, IsNameChar c) ∧ ∀ c ∈ "db".toList, IsNameChar c := by
    simp [IsNameChar]
  have hjson : Text.Quoted.Literal "Zip;name:No".toList "Zip;name:No".toList :=
    Text.Quoted.decode_eq_some_iff.1 (by decide)
  have hdb : Text.Quoted.Literal " unique ;;\\tNAME : City: Hall;name:Other".toList ([';'].intercalate townParts) :=
    Text.Quoted.decode_eq_some_iff.1 (by decide)
  have hstored := @Stores.here "db".toList _ [' '] _ [] (by simp) (by simp) hkeys.2 hdb
  exact @Stores.later _ _ [] "json".toList _ _ _ (by simp) (by simp) hkeys.1 (by decide) hjson hstored

/-- The zip is found under its first alias, and its name finds the other field. -/
theorem FieldTable.found_by_alias_town :
    Field.zip ∈ TypeTable.towns.promoted maxEmbedDepth [.zip, .zipped] ∧
    Tag.attributes " unique ;;\tNAME : City: Hall;name:Other" =
      [("unique", ""), ("name", "City: Hall"), ("name", "Other")] ∧
    ∃ table, (((FieldTableCache.fresh ⟨"db", "Name"⟩).after .towns [2, 1]).resolve .towns 0).1 = .ok table ∧
      table.get? "City: Hall" = some (recordField .towns ⟨"db", "Name"⟩ .zip) ∧
      table.get? "Zip" ≠ some (recordField .towns ⟨"db", "Name"⟩ .zip) ∧ table.get? "Zip" ≠ none := by
  have hzip : Field.zip ∈ TypeTable.towns.promoted maxEmbedDepth [.zip, .zipped] := by decide +kernel
  have hfields : TypeTable.towns.structFields? 0 = some [.zip, .zipped] := rfl
  obtain ⟨hattributes, hkey, hfound⟩ := found_by_alias .towns ⟨"db", "Name"⟩ hfields hzip rfl Tag.stores_town
    Tag.Attribute.listed_town Tag.Attribute.writable_town
  have halias : keyOf ⟨"db", "Name"⟩ .zip = "City: Hall" := hkey.trans (by decide +kernel)
  have hother : keyOf ⟨"db", "Name"⟩ .zipped = "Zip" := by decide +kernel
  have hbuilt : ∃ table,
      (((FieldTableCache.fresh ⟨"db", "Name"⟩).after .towns [2, 1]).resolve .towns 0).1 = .ok table :=
    ⟨⟨[recordField .towns ⟨"db", "Name"⟩ .zip, recordField .towns ⟨"db", "Name"⟩ .zipped]⟩, by decide +kernel⟩
  obtain ⟨table, htable⟩ := hbuilt
  obtain ⟨hget, hname, hnone⟩ := hfound [2, 1] table htable
  refine ⟨hzip, ?_, table, htable, by rwa [halias] at hget, hname (by rw [halias]; decide), fun h => ?_⟩
  · have htext : String.ofList ([';'].intercalate Tag.townParts) = " unique ;;\tNAME : City: Hall;name:Other" := by
      decide +kernel
    rw [← htext, hattributes]
    decide +kernel
  · exact hnone.1 h _ (by decide +kernel) hother

end FluentChain
