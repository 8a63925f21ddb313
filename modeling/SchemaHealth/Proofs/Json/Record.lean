import SchemaHealth.Json.Record
import SchemaHealth.Proofs.Json.WellFormed

/-!
# Written members are read back

The last member under a key counts, so the members of an object are looked up from its end
(`member?_append`). A field that was written under its name is read back, also when it is absent
(`required?_eq`, `optional?_eq`). A double that is read from a well-formed value is finite
(`isFinite_of_double?`).
-/

namespace SchemaHealth

namespace Json

@[simp] theorem member?_nil (key : String) : member? [] key = none := rfl

/-- A later member stands before an earlier one of its name. -/
@[simp] theorem member?_append (first second : List (String × Json)) (key : String) :
    member? (first ++ second) key = (member? second key).or (member? first key) := by
  unfold member?
  rw [List.reverse_append, List.find?_append, Option.map_or]

@[simp] theorem member?_cons (name : String) (value : Json) (rest : List (String × Json))
    (key : String) :
    member? ((name, value) :: rest) key
      = (member? rest key).or (if name = key then some value else none) := by
  have single : member? [(name, value)] key = if name = key then some value else none := by
    by_cases same : name = key <;> simp [member?, same]
  rw [← List.singleton_append, member?_append, single]

variable {α : Type} {fields : List (String × Json)} {name : String} {encode : α → Json}
  {decode? : Json → Option α}

@[simp] theorem member?_optionalMember (value : Option α) (key : String) :
    member? (optionalMember name encode value) key
      = if name = key then value.map encode else none := by
  cases value with
  | none => simp [optionalMember]
  | some a => simp [optionalMember]

/-- What is found under a name is the value of a member. -/
theorem exists_mem_of_member? {value : Json} (found : member? fields name = some value) :
    ∃ member ∈ fields, member.2 = value := by
  obtain ⟨member, first, same⟩ := Option.map_eq_some_iff.1 found
  exact ⟨member, List.mem_reverse.1 (List.mem_of_find?_eq_some first), same⟩

/-- A field that was written is read back. -/
theorem required?_eq {a : α} (found : member? fields name = some (encode a))
    (reads : decode? (encode a) = some a) : required? fields name decode? = some a := by
  simp [required?, found, reads]

/-- A field that was written if it was present is read back, and is absent otherwise. -/
theorem optional?_eq {value : Option α} (found : member? fields name = value.map encode)
    (reads : ∀ a, decode? (encode a) = some a) (present : ∀ a, encode a ≠ .null) :
    optional? fields name decode? = some value := by
  cases value with
  | none => simp [optional?, found]
  | some a => simp [optional?, found, reads, present]

/-- A word survives writing and reading. -/
theorem word?_word (n : UInt64) : word? (word n) = some n := by
  have fits : n.toNat ≤ Decimal.largestWord := Nat.le_of_lt_succ n.toNat_lt
  simp [word, nat, word?, fits]

/-- A finite double survives writing and reading. -/
theorem double?_real {x : Float} (finite : x.isFinite) : double? (real x) = some x := by
  simp [real, double?, finite]

/-- A dictionary survives writing and reading. -/
theorem dictionary?_dictionary (d : Dictionary String Json) :
    dictionary? (dictionary id d) = some d := by
  simp [dictionary, dictionary?]

/-- A list is read back if every item is. -/
theorem list?_list (reads : ∀ a, decode? (encode a) = some a) (items : List α) :
    list? decode? (list encode items) = some items := by
  change (items.map encode).mapM decode? = some items
  induction items with
  | nil => rfl
  | cons a rest ih => simp [reads, ih]

theorem required?_string {s : String} (found : member? fields name = some (.string s)) :
    required? fields name string? = some s :=
  required?_eq found rfl

theorem optional?_string {s : Option String} (found : member? fields name = s.map .string) :
    optional? fields name string? = some s :=
  optional?_eq found (fun _ => rfl) nofun

theorem optional?_word {n : Option UInt64} (found : member? fields name = n.map word) :
    optional? fields name word? = some n :=
  optional?_eq found word?_word nofun

/-- The fields of a well-formed record are well-formed. -/
theorem WellFormed.of_record? {value : Json} {names : List String} (formed : value.WellFormed)
    (fieldsOf : value.record? names = some fields) : ∀ field ∈ fields, field.2.WellFormed := by
  cases formed with
  | null => cases fieldsOf
  | bool => cases fieldsOf
  | number => cases fieldsOf
  | string => cases fieldsOf
  | object each =>
    cases fieldsOf
    exact each
  | array each =>
    rw [record?] at fieldsOf
    split at fieldsOf
    · cases fieldsOf
      intro field mem
      exact each field.2 (List.of_mem_zip mem).2
    · cases fieldsOf

/-- A double that is read from a well-formed value is finite. -/
theorem isFinite_of_double? {value : Json} {x : Float} (formed : value.WellFormed)
    (read : double? value = some x) : x.isFinite := by
  cases formed with
  | null => cases read
  | bool => cases read
  | string => cases read
  | array => cases read
  | object => cases read
  | @number n fits =>
    cases n with
    | real =>
      cases read
      exact fits
    | int n =>
      cases read
      have small : n.natAbs ≤ Decimal.largestWord := by
        obtain ⟨low, high⟩ := fits
        simp only [Decimal.signLimit, Decimal.largestWord] at *
        omega
      have finite := Decimal.isFinite_ofNat small
      split
      · exact Decimal.isFinite_neg finite
      · exact finite

/-- A double that is read from a well-formed value is finite. -/
theorem isFinite_of_required? {x : Float} (formed : ∀ field ∈ fields, field.2.WellFormed)
    (read : required? fields name double? = some x) : x.isFinite := by
  obtain ⟨value, found, decoded⟩ := Option.bind_eq_some_iff.1 read
  obtain ⟨field, mem, same⟩ := exists_mem_of_member? found
  exact isFinite_of_double? (same ▸ formed field mem) decoded

end Json

end SchemaHealth
