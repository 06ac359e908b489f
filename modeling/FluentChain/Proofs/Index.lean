import Mathlib.Data.List.AList

/-!
# Indexes

A list of things that are searched for by a key is kept with an index, which maps each key to the place of what has it.
The index is in step with the list if it finds just what is there (`Index.Tracks`).  What is added has to be entered in
the index too, and its key must not be taken (`Index.Tracks.push`); what is changed must keep its key.  As long as this
is so, to look a key up is to search the list for it (`Index.Tracks.lookup_eq_findIdx?`).
-/

namespace FluentChain

/-- A map from keys to places. -/
abbrev Index (κ : Type) : Type := AList fun _ : κ => Nat

namespace Index

variable {α κ : Type} [DecidableEq κ] {index : Index κ} {keyOf : α → Option κ} {items : Array α} {key : κ} {a : α}
  {i j : Nat}

/-- The index has the keys of the items, each with the place of the item that has it, and no other keys. -/
def Tracks (index : Index κ) (keyOf : α → Option κ) (items : Array α) : Prop :=
  ∀ (key : κ) (i : Nat), index.lookup key = some i ↔ items[i]?.bind keyOf = some key

theorem tracks_empty (keyOf : α → Option κ) : (∅ : Index κ).Tracks keyOf #[] := by
  intro key i
  simp

namespace Tracks

/-- No two items share a key. -/
theorem unique (h : index.Tracks keyOf items) (hi : items[i]?.bind keyOf = some key)
    (hj : items[j]?.bind keyOf = some key) : i = j :=
  Option.some.inj (((h key i).2 hi).symm.trans ((h key j).2 hj))

theorem keyOf_ne (h : index.Tracks keyOf items) (hnew : index.lookup key = none) (ha : a ∈ items) :
    keyOf a ≠ some key := by
  intro hkey
  obtain ⟨i, hi⟩ := Array.getElem?_of_mem ha
  have hfound : index.lookup key = some i := (h key i).2 (by rw [hi, Option.bind_some, hkey])
  rw [hnew] at hfound
  cases hfound

/-- Where nothing changes its key and nothing with a key comes or goes, the index stays as it is. -/
theorem of_keys {others : Array α} (h : index.Tracks keyOf items)
    (hkeys : ∀ i : Nat, others[i]?.bind keyOf = items[i]?.bind keyOf) : index.Tracks keyOf others := by
  intro key i
  rw [hkeys]
  exact h key i

/-- What has no key is not entered. -/
theorem push_keyless (h : index.Tracks keyOf items) (ha : keyOf a = none) : index.Tracks keyOf (items.push a) := by
  refine h.of_keys fun i => ?_
  rw [Array.getElem?_push]
  split
  · rename_i hi
    rw [hi, Option.bind_some, ha, Array.getElem?_eq_none (Nat.le_refl _), Option.bind_none]
  · rfl

/-- What has a new key is entered with its place. -/
theorem push (h : index.Tracks keyOf items) (hnew : index.lookup key = none) (ha : keyOf a = some key) :
    Tracks (index.insert key items.size) keyOf (items.push a) := by
  intro key' i
  have hend : items[items.size]?.bind keyOf = none := by
    rw [Array.getElem?_eq_none (Nat.le_refl _), Option.bind_none]
  rw [Array.getElem?_push]
  by_cases hkey : key' = key
  · rw [hkey, AList.lookup_insert]
    constructor
    · rintro ⟨⟩
      rw [if_pos rfl, Option.bind_some, ha]
    · intro hi
      split at hi
      · rename_i hlast
        rw [hlast]
      · -- an item before it with this key would be in the index
        rw [(h key i).2 hi] at hnew
        cases hnew
  · rw [AList.lookup_insert_ne hkey, h key' i]
    split
    · rename_i hlast
      rw [hlast, hend, Option.bind_some, ha]
      exact iff_of_false nofun fun hsame => hkey (Option.some.inj hsame).symm
    · exact Iff.rfl

/-- What is changed keeps its key. -/
theorem modify (h : index.Tracks keyOf items) (i : Nat) {f : α → α} (hf : ∀ a, keyOf (f a) = keyOf a) :
    index.Tracks keyOf (items.modify i f) := by
  refine h.of_keys fun j => ?_
  rw [Array.getElem?_modify]
  split
  · rw [Option.bind_map]
    exact congrArg _ (funext hf)
  · rfl

/-! ### Searches -/

section

variable {found : α → Bool} (h : index.Tracks keyOf items) (hfound : ∀ a, found a = true ↔ keyOf a = some key)

include h hfound

theorem eq_false_of_lookup_eq_none (hnew : index.lookup key = none) (ha : a ∈ items) : found a = false :=
  Bool.eq_false_iff.2 fun hhere => h.keyOf_ne hnew ha ((hfound a).1 hhere)

/-- The item that a key leads to is the first one that has the key. -/
theorem first_of_lookup_eq_some (hi : index.lookup key = some i) :
    ∃ hlt : i < items.size, found items[i] = true ∧ ∀ (j : Nat) (hj : j < i), found items[j] = false := by
  have hkey := (h key i).1 hi
  obtain ⟨a, hitem, ha⟩ := Option.bind_eq_some_iff.1 hkey
  obtain ⟨hlt, rfl⟩ := Array.getElem?_eq_some_iff.1 hitem
  refine ⟨hlt, (hfound _).2 ha, fun j hj => Bool.eq_false_iff.2 fun hhere => ?_⟩
  have hother : items[j]?.bind keyOf = some key := by
    rw [Array.getElem?_eq_getElem (Nat.lt_trans hj hlt)]
    exact (hfound _).1 hhere
  exact Nat.ne_of_lt hj (h.unique hother hkey)

/-- To look a key up is to search for the place of the item that has it. -/
theorem lookup_eq_findIdx? : index.lookup key = items.findIdx? found := by
  cases hlookup : index.lookup key with
  | none =>
    exact (Array.findIdx?_eq_none_iff.2 fun a ha => h.eq_false_of_lookup_eq_none hfound hlookup ha).symm
  | some i =>
    obtain ⟨hlt, hhere, hbefore⟩ := h.first_of_lookup_eq_some hfound hlookup
    refine (Array.findIdx?_eq_some_iff_getElem.2 ⟨hlt, hhere, fun j hj => ?_⟩).symm
    exact Bool.eq_false_iff.1 (hbefore j hj)

/-- To go where a key leads to is to search for the item that has it. -/
theorem getElem?_lookup_eq_find? : ((index.lookup key).bind fun i => items[i]?) = items.find? found := by
  cases hlookup : index.lookup key with
  | none =>
    refine (Array.find?_eq_none.2 fun a ha => ?_).symm
    exact Bool.eq_false_iff.1 (h.eq_false_of_lookup_eq_none hfound hlookup ha)
  | some i =>
    obtain ⟨hlt, hhere, hbefore⟩ := h.first_of_lookup_eq_some hfound hlookup
    rw [Option.bind_some, Array.getElem?_eq_getElem hlt]
    refine (Array.find?_eq_some_iff_getElem.2 ⟨hhere, i, hlt, rfl, fun j hj => ?_⟩).symm
    rw [hbefore j hj]
    rfl

end

end Tracks

end Index

end FluentChain
