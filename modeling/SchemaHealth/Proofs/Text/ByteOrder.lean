import SchemaHealth.Schema.Name
import Mathlib.Data.List.Lex
import Mathlib.Data.String.Basic

/-!
# The order of texts by their bytes

Texts are compared by their characters, and a text is stored as the bytes of its characters. A
character with a greater code has greater bytes, so both orders are the same (`bytesLt_iff`,
`bytesLe_iff`).
-/

namespace SchemaHealth

/-- The bytes of a text as numbers. -/
def byteValues (text : String) : List Nat := text.toByteArray.data.toList.map UInt8.toNat

/-- A text comes before another one in the order of bytes. -/
def BytesLt (a b : String) : Prop := List.Lex (· < ·) (byteValues a) (byteValues b)

/-- A text does not come after another one in the order of bytes. -/
def BytesLe (a b : String) : Prop := ¬ List.Lex (· < ·) (byteValues b) (byteValues a)

/-- The bytes of a character as numbers. -/
def charBytes (c : Char) : List Nat := (String.utf8EncodeChar c).map UInt8.toNat

theorem byteValues_eq (text : String) : byteValues text = text.toList.flatMap charBytes := by
  rw [byteValues, ← String.utf8Encode_toList, List.utf8Encode, List.data_toByteArray,
    List.map_flatMap]
  rfl

/-- One to four bytes, the first of which says how many they are. -/
theorem charBytes_eq (c : Char) : charBytes c =
    if c.toNat ≤ 127 then [c.toNat]
    else if c.toNat ≤ 2047 then [c.toNat / 64 + 192, c.toNat % 64 + 128]
    else if c.toNat ≤ 65535 then
      [c.toNat / 4096 + 224, c.toNat / 64 % 64 + 128, c.toNat % 64 + 128]
    else
      [c.toNat / 262144 + 240, c.toNat / 4096 % 64 + 128, c.toNat / 64 % 64 + 128,
        c.toNat % 64 + 128] := by
  have bound : c.toNat < 1114112 := by
    rcases c.valid with low | ⟨_, high⟩
    · exact Nat.lt_trans low (by decide)
    · exact high
  have code : c.val.toNat = c.toNat := rfl
  simp only [charBytes, String.utf8EncodeChar, code]
  split_ifs
  all_goals
    simp only [List.map_cons, List.map_nil, UInt8.toNat_ofNat', List.cons.injEq, and_true]
    omega

/-- Every character takes at least one byte. -/
theorem charBytes_ne_nil (c : Char) : charBytes c ≠ [] := by
  rw [charBytes_eq]
  split_ifs <;> exact List.cons_ne_nil _ _

/-- Whatever follows, a character with a smaller code has smaller bytes. -/
theorem lex_charBytes_append {c d : Char} (before : c < d) (xs ys : List Nat) :
    List.Lex (· < ·) (charBytes c ++ xs) (charBytes d ++ ys) := by
  have code : c.toNat < d.toNat := UInt32.lt_iff_toNat_lt.1 before
  rw [charBytes_eq, charBytes_eq]
  -- more bytes start with a greater one, and as many bytes are the digits of the code to base 64
  split_ifs
  all_goals
    simp only [List.cons_append, List.cons_lex_cons_iff]
    omega

/-- Greater characters have greater bytes. -/
theorem lex_flatMap_charBytes {cs ds : List Char} (before : List.Lex (· < ·) cs ds) :
    List.Lex (· < ·) (cs.flatMap charBytes) (ds.flatMap charBytes) := by
  induction before with
  | @nil d ds =>
      rw [List.flatMap_nil, List.flatMap_cons]
      cases bytes : charBytes d with
      | nil => exact absurd bytes (charBytes_ne_nil d)
      | cons b bs => exact .nil
  | cons _ ih => exact List.Lex.append_left _ ih _
  | rel before => exact lex_charBytes_append before _ _

variable {a b : String}

/-- Texts in order have their bytes in order. -/
theorem bytesLt_of_lt (before : a < b) : BytesLt a b := by
  rw [BytesLt, byteValues_eq, byteValues_eq]
  exact lex_flatMap_charBytes before

/-- Texts are in the same order by their characters and by their bytes. -/
theorem bytesLt_iff : BytesLt a b ↔ a < b := by
  refine ⟨fun bytes => ?_, bytesLt_of_lt⟩
  rcases lt_trichotomy a b with before | rfl | after
  · exact before
  · exact absurd bytes (lt_irrefl (α := List Nat) _)
  · exact absurd bytes (lt_asymm (α := List Nat) (bytesLt_of_lt after))

/-- Lists of texts are in the same order by characters and by bytes. -/
theorem lex_bytesLt_iff {xs ys : List String} : List.Lex BytesLt xs ys ↔ xs < ys := by
  have same : BytesLt = fun a b : String => a < b := by
    funext a b
    exact propext bytesLt_iff
  rw [same]
  exact Iff.rfl

/-- The order of the bytes of two texts is the order of their characters. -/
theorem bytesLe_iff : BytesLe a b ↔ a ≤ b := by
  have reversed : BytesLe a b ↔ ¬ BytesLt b a := Iff.rfl
  rw [reversed, bytesLt_iff, not_lt]

/-- So are names. -/
theorem Name.bytesLe_of_le {m n : Name} (le : m.text ≤ n.text) : BytesLe m.text n.text :=
  bytesLe_iff.2 le

end SchemaHealth
