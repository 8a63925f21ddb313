import SchemaHealth.Proofs.Schema.Reading
import SchemaHealth.Schema.Grammar

/-!
# Readers go forward

What a reader leaves of a text is a later part of it (`Advances`). All readers of the grammar go
forward, as all ways to put readers together keep this. So a reader that some part of the grammar
comes to is tried at a place of the whole text, and what is true of the values that it finds at the
places of a text is true of what the whole reading makes of them (`Finds`).
-/

namespace SchemaHealth.Schema

namespace Reader
variable {α β : Type}

/-- What a reader leaves of a text is a later part of it. -/
class Advances (r : Reader α) : Prop where
  suffix : ∀ {c : Cursor} {a : α} {d : Cursor}, (r c).result = some (a, d) → d.rest <:+ c.rest

namespace Advances

/-- Going on leaves an end of the text. -/
theorem rest_drop_suffix (n : Nat) (c : Cursor) : (c.drop n).rest <:+ c.rest := by
  rw [Cursor.rest_drop]
  exact List.drop_suffix n c.rest

instance (a : α) : Advances (pure a : Reader α) where
  suffix result := by cases result; exact List.suffix_refl _

protected theorem bind {r : Reader α} {f : α → Reader β} (first : Advances r)
    (next : ∀ a, Advances (f a)) : Advances (r >>= f) where
  suffix result := by
    rw [result_bind] at result
    obtain ⟨⟨a, d⟩, result, result'⟩ := Option.bind_eq_some_iff.1 result
    exact ((next a).suffix result').trans (first.suffix result)

instance {r : Reader α} {f : α → Reader β} [first : Advances r] [next : ∀ a, Advances (f a)] :
    Advances (r >>= f) := first.bind next

instance {r s : Reader α} [left : Advances r] [right : Advances s] : Advances (r <|> s) where
  suffix result := by
    rw [result_orElse] at result
    rcases Option.or_eq_some_iff.1 result with result | ⟨-, result⟩
    · exact left.suffix result
    · exact right.suffix result

protected theorem rule {r : Reader α} (reads : Advances r) : Advances (rule r) where
  suffix result := by
    rw [result_rule] at result
    exact (reads.suffix result).trans (rest_drop_suffix _ _)

instance {r : Reader α} [reads : Advances r] : Advances (rule r) := .rule reads

instance (read? : List Char → Option (α × List Char)) : Advances (lexeme read?) where
  suffix {c a d} result := by
    rw [result_lexeme] at result
    obtain ⟨⟨a, rest⟩, -, made⟩ := Option.map_eq_some_iff.1 result
    cases made
    exact (rest_drop_suffix _ _).trans (rest_drop_suffix _ _)

instance (text : String) : Advances (literal text) where
  suffix {c a d} result := by
    rw [result_literal] at result
    obtain ⟨rest, -, made⟩ := Option.map_eq_some_iff.1 result
    cases made
    exact (rest_drop_suffix _ _).trans (rest_drop_suffix _ _)

instance : Advances here where
  suffix result := by cases result; exact List.suffix_refl _

instance (fault : Fault) : Advances (note fault) where
  suffix result := by cases result; exact List.suffix_refl _

instance {r : Reader α} {f : α → β} [Advances r] : Advances (f <$> r) :=
  inferInstanceAs (Advances (r >>= fun a => pure (f a)))

instance {r : Reader α} [Advances r] : Advances (discard r) :=
  inferInstanceAs (Advances (r >>= fun _ => pure ()))

instance {r : Reader α} [Advances r] : Advances (optional r) :=
  inferInstanceAs (Advances ((some <$> r) <|> pure none))

instance upTo {r : Reader α} [Advances r] : (n : Nat) → Advances (r.upTo n)
  | 0 => inferInstanceAs (Advances (pure []))
  | n + 1 =>
    have := upTo (r := r) n
    inferInstanceAs (Advances ((do let a ← r; let more ← r.upTo n; return a :: more) <|> pure []))

instance {r : Reader α} [Advances r] : Advances r.many where
  suffix {c _ _} result := (upTo (r := r) (c.rest.length + 1)).suffix result

instance {r : Reader α} [Advances r] : Advances r.many1 :=
  inferInstanceAs (Advances (do let a ← r; let more ← r.many; return a :: more))

instance {r : Reader α} [Advances r] (separator : String) : Advances (separated separator r) :=
  inferInstanceAs (Advances (do
    let a ← r
    let more ← (do literal separator; r).many
    return a :: more))

instance : Advances finish := by
  refine .rule ⟨fun {c _ _} result => ?_⟩
  have ended : (if c.rest.isEmpty then some ((), c) else none) = some _ := result
  split at ended
  · cases ended
    exact List.suffix_refl _
  · cases ended

end Advances

end Reader


open Reader

/-! ## Lexemes, literals and directives -/

instance : Advances name := by unfold name; infer_instance
instance : Advances string := by unfold string; infer_instance
instance : Advances typeRef := by unfold typeRef; infer_instance
instance : Advances enumName := by unfold enumName; infer_instance

instance : Advances number := by
  unfold number
  refine .bind inferInstance fun position => .bind inferInstance fun numeral => ?_
  split
  · infer_instance
  · infer_instance

instance : Advances boolean := by unfold boolean; infer_instance

instance advances_literalWithin : (n : Nat) → Advances (literalWithin n)
  | 0 => ⟨nofun⟩
  | n + 1 => by
    have := advances_literalWithin n
    unfold literalWithin
    infer_instance

instance : Advances literalValue where
  suffix {c _ _} result := (advances_literalWithin (c.rest.length + 1)).suffix result

instance : Advances argument := by unfold argument; infer_instance
instance : Advances arguments := by unfold arguments; infer_instance
instance : Advances directive := by unfold directive; infer_instance
instance : Advances directives := by unfold directives; infer_instance
instance : Advances anyDirectives := by unfold anyDirectives; infer_instance

/-! ## Fields and contents -/


instance : Advances inputValue :=
  .rule <| .bind inferInstance fun _ => .bind inferInstance fun _ => .bind inferInstance fun _ =>
    .bind inferInstance fun _ => .bind inferInstance fun _ => inferInstance

instance : Advances argumentDefinitions := by unfold argumentDefinitions; infer_instance
instance : Advances fieldDefinition := by unfold fieldDefinition; infer_instance
instance : Advances fieldDefinitions := by unfold fieldDefinitions; infer_instance
instance : Advances inputFields := by unfold inputFields; infer_instance
instance : Advances enumValues := by unfold enumValues; infer_instance
instance : Advances unionMembers := by unfold unionMembers; infer_instance
instance : Advances interfaces := by unfold interfaces; infer_instance
instance : Advances extend := by unfold extend; infer_instance

instance {α : Type} {contents : Reader α} [Advances contents] :
    Advances (anyContents contents) := by
  unfold anyContents
  infer_instance

instance {α : Type} {contents : Reader α} [Advances contents] :
    Advances (someContents contents) := by
  unfold someContents
  infer_instance

/-! ## Definitions -/

instance {α : Type} {keyword : String} {body : Option α → TypeBody}
    {defined extended : Reader (List Directive × Option α)} [Advances defined] [Advances extended] :
    Advances (definition keyword body defined extended) := by
  unfold definition
  infer_instance

instance : Advances scalarType := by unfold scalarType; infer_instance
instance : Advances objectType := by unfold objectType; infer_instance
instance : Advances interfaceType := by unfold interfaceType; infer_instance
instance : Advances unionType := by unfold unionType; infer_instance
instance : Advances enumType := by unfold enumType; infer_instance
instance : Advances inputObjectType := by unfold inputObjectType; infer_instance
instance : Advances typeDefinition := by unfold typeDefinition; infer_instance
instance : Advances root := by unfold root; infer_instance
instance : Advances rootDefinition := by unfold rootDefinition; infer_instance

instance (position : Position) (isExtension : Bool) :
    Advances (schemaRoots position isExtension) := by
  unfold schemaRoots
  refine .bind inferInstance fun _ => .bind inferInstance fun _ => ?_
  refine .bind inferInstance fun roots => .bind inferInstance fun _ => ?_
  have last : Advances (if !isExtension && roots.all fun r => r.1 ≠ .query then
      note ⟨.missingQueryRoot, position⟩ else pure ()) := by
    split
    · infer_instance
    · infer_instance
  dsimp only
  split
  · exact .bind inferInstance fun _ => last
  · exact last

instance : Advances schemaDefinition := by unfold schemaDefinition; infer_instance

instance : Advances directiveDefinition :=
  .rule <| .bind inferInstance fun _ => .bind inferInstance fun _ => .bind inferInstance fun _ =>
    .bind inferInstance fun _ => .bind inferInstance fun _ => .bind inferInstance fun _ =>
    .bind inferInstance fun _ => inferInstance

instance : Advances systemDefinition := by unfold systemDefinition; infer_instance

end SchemaHealth.Schema
