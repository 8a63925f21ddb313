import SchemaHealth.Json.Parser
import SchemaHealth.Proofs.Decimal.Scaled
import SchemaHealth.Proofs.DictionaryKeys

/-!
# The numbers of JSON values fit

A value is well-formed when its numbers fit: whole numbers take up 64 bits and doubles are finite.
The values that are read from texts are (`wellFormed_of_parse?`), since the numerals are
(`Decimal.fits_of_value?`) and the canonical form has no other numbers (`WellFormed.canonical`).
-/

namespace SchemaHealth

open Decimal (Number)

namespace Json

/-- A value whose numbers fit, at any depth. -/
inductive WellFormed : Json → Prop
  | null : WellFormed .null
  | bool (b : Bool) : WellFormed (.bool b)
  | number {n : Number} (fits : n.Fits) : WellFormed (.number n)
  | string (s : String) : WellFormed (.string s)
  | array {items : List Json} (each : ∀ item ∈ items, WellFormed item) : WellFormed (.array items)
  | object {members : List (String × Json)} (each : ∀ member ∈ members, WellFormed member.2) :
    WellFormed (.object members)

theorem canonicalItems_eq (items : List Json) : canonicalItems items = items.map canonical := by
  induction items with
  | nil => rfl
  | cons item rest ih => rw [canonicalItems, ih, List.map_cons]

theorem canonicalMembers_eq (members : List (String × Json)) :
    canonicalMembers members = members.map fun member => (member.1, member.2.canonical) := by
  induction members with
  | nil => rfl
  | cons member rest ih => rw [canonicalMembers, ih, List.map_cons]

/-- The canonical form of a well-formed value is well-formed. -/
theorem WellFormed.canonical {value : Json} (formed : value.WellFormed) :
    value.canonical.WellFormed := by
  induction formed with
  | null => exact .null
  | bool b => exact .bool b
  | number fits => exact .number fits
  | string s => exact .string s
  | array each ih =>
    rw [Json.canonical, canonicalItems_eq]
    apply WellFormed.array
    intro item mem
    obtain ⟨original, listed, rfl⟩ := List.mem_map.1 mem
    exact ih original listed
  | object each ih =>
    rw [Json.canonical, canonicalMembers_eq]
    apply WellFormed.object
    intro member mem
    obtain ⟨original, listed, rfl⟩ := List.mem_map.1 (Dictionary.mem_of_mem_ofList mem)
    exact ih original listed

mutual

/-- What is read from a JSON text is well-formed. -/
theorem wellFormed_of_value? {levels : Nat} :
    ∀ {tree : Tree} {value : Json}, tree.value? levels = some value → value.WellFormed
  | .null, _, read => by
    cases read
    exact .null
  | .bool b, _, read => by
    cases read
    exact .bool b
  | .number n, _, read => by
    obtain ⟨number, valued, rfl⟩ := Option.map_eq_some_iff.1 read
    exact .number (Decimal.fits_of_value? valued)
  | .string s, _, read => by
    obtain ⟨text, _, rfl⟩ := Option.map_eq_some_iff.1 read
    exact .string text
  | .array items, _, read => by
    rw [Tree.value?] at read
    split at read
    next => cases read
    next =>
      obtain ⟨values, valued, rfl⟩ := Option.map_eq_some_iff.1 read
      exact .array (wellFormed_of_itemValues? valued)
  | .object members, _, read => by
    rw [Tree.value?] at read
    split at read
    next => cases read
    next =>
      obtain ⟨values, valued, rfl⟩ := Option.map_eq_some_iff.1 read
      exact .object (wellFormed_of_memberValues? valued)

theorem wellFormed_of_itemValues? {levels : Nat} :
    ∀ {items : List Tree} {values : List Json}, Tree.itemValues? levels items = some values →
      ∀ value ∈ values, value.WellFormed
  | [], _, read => by
    cases read
    exact nofun
  | item :: rest, _, read => by
    simp only [Tree.itemValues?, Option.bind_eq_bind, Option.bind_eq_some_iff] at read
    obtain ⟨first, firstValued, others, othersValued, same⟩ := read
    cases same
    exact List.forall_mem_cons.2
      ⟨wellFormed_of_value? firstValued, wellFormed_of_itemValues? othersValued⟩

theorem wellFormed_of_memberValues? {levels : Nat} :
    ∀ {members : List (Option String × Tree)} {values : List (String × Json)},
      Tree.memberValues? levels members = some values → ∀ value ∈ values, value.2.WellFormed
  | [], _, read => by
    cases read
    exact nofun
  | member :: rest, _, read => by
    simp only [Tree.memberValues?, Option.bind_eq_bind, Option.bind_eq_some_iff] at read
    obtain ⟨key, keyed, first, firstValued, others, othersValued, same⟩ := read
    cases same
    exact List.forall_mem_cons.2
      ⟨wellFormed_of_value? firstValued, wellFormed_of_memberValues? othersValued⟩

end

/-- The numbers of a value that is read from a text fit. -/
theorem wellFormed_of_parse? {text : String} {value : Json} (read : parse? text = some value) :
    value.WellFormed := by
  simp only [parse?, Option.bind_eq_bind, Option.bind_eq_some_iff] at read
  obtain ⟨tree, _, original, valued, same⟩ := read
  cases same
  exact (wellFormed_of_value? valued).canonical

end Json

end SchemaHealth
