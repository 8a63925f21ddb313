/-!
# Entries in order of first appearance

A list of entries for keys in which a repeated key keeps its first place and takes its last value.
-/

namespace SchemaHealth

variable {κ α : Type} [DecidableEq κ]

/-- The entries with `key` set to `value`, at the end if the key is new. -/
def setEntry (entries : List (κ × α)) (key : κ) (value : α) : List (κ × α) :=
  if entries.any fun entry => entry.1 = key then
    entries.map fun entry => if entry.1 = key then (key, value) else entry
  else entries ++ [(key, value)]

/-- The value under a key. -/
def valueAt? (entries : List (κ × α)) (key : κ) : Option α :=
  (entries.find? fun entry => entry.1 = key).map (·.2)

/-- One entry for each key: the last value at the first place. -/
def settled (entries : List (κ × α)) : List (κ × α) :=
  entries.foldl (fun done entry => setEntry done entry.1 entry.2) []

theorem settled_append_singleton (entries : List (κ × α)) (key : κ) (value : α) :
    settled (entries ++ [(key, value)]) = setEntry (settled entries) key value := by
  simp [settled]

end SchemaHealth
