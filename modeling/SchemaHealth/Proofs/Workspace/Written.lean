import SchemaHealth.Proofs.DictionaryKeys
import SchemaHealth.Workspace.Basic
import Mathlib.Tactic.SplitIfs

/-!
# Files that have been written

When a text was written, all other files are as they were (`Workspace.changesOnly_of_write`) and
reading the path gives the text back (`Workspace.read_of_write`), unless the path leads to the
device that keeps nothing (`Workspace.Discards`). A file takes away no folder that was there, so the
path leads to the same place as before (`Workspace.walk_of_isFolder`).
-/

namespace SchemaHealth.Workspace

/-- Where nothing happened nothing has changed. -/
theorem changes_self (w : Workspace) : w.changes w = [] := by
  refine List.filterMap_eq_nil_iff.2 fun key _ => ?_
  cases w.text? key with
  | none => rfl
  | some text => exact if_pos rfl

variable {w written : Workspace} {path text : String} {parts found : List (List Char)}

/-- A path leads to the device that keeps nothing of what is written to it. -/
def Discards (w : Workspace) (path : String) : Prop :=
  ∃ parts, w.resolveNew path = .ok parts ∧ joinParts parts = emptyDevice

/-- A workspace is as an earlier one but for the file that a path leads to. -/
structure ChangesOnly (w written : Workspace) (path : String) : Prop where
  files : ∃ parts, w.resolve path = .ok parts ∧
    ∀ key, key ≠ joinParts parts → written.files.get? key = w.files.get? key
  folder : written.folder = w.folder
  folders : written.folders = w.folders
  input : written.input = w.input

/-! ## Ways to a file -/

/-- What can be reached can still be reached where there are more folders. -/
theorem walk_of_isFolder (more : ∀ parts, w.isFolder parts = true → written.isFolder parts = true)
    {reached : List (List Char)} (arrives : w.walk reached parts = .ok found) :
    written.walk reached parts = .ok found := by
  induction parts generalizing reached with
  | nil => exact arrives
  | cons part rest ih =>
      rw [walk] at arrives ⊢
      dsimp only at arrives ⊢
      split_ifs at arrives with stays up top long goes
      · rw [if_pos stays]
        exact ih arrives
      · rw [if_neg stays, if_pos up, if_pos top]
        exact ih arrives
      · rw [if_neg stays, if_pos up, if_neg top]
        exact ih arrives
      · have goes : rest.isEmpty || written.isFolder (reached ++ [part]) := by
          rw [Bool.or_eq_true] at goes ⊢
          exact goes.imp_right (more _)
        rw [if_neg stays, if_neg up, if_neg long, if_pos goes]
        exact ih arrives

/-- A path that can be written leads to the same place when it is read. -/
theorem resolve_of_resolveNew (new : w.resolveNew path = .ok parts) :
    w.resolve path = .ok parts := by
  unfold resolveNew at new
  unfold resolve
  cases length : checkLength path with
  | error e =>
      rw [length] at new
      cases new
  | ok _ =>
      rw [length] at new
      simp only [bind, Except.bind] at new ⊢
      split at new
      · split at new
        · cases new
        · cases new
      · exact new

/-- A path still leads where it led when no folder is lost. -/
theorem resolve_of_isFolder
    (more : ∀ parts, w.isFolder parts = true → written.isFolder parts = true)
    (arrives : w.resolve path = .ok found) : written.resolve path = .ok found := by
  unfold resolve at arrives ⊢
  cases length : checkLength path with
  | error e =>
      rw [length] at arrives
      cases arrives
  | ok _ =>
      rw [length] at arrives
      exact walk_of_isFolder more arrives

/-! ## Folders after a file was written -/

section Insert

variable {content : Except FileError String}

/-- The workspace with a file under a key. -/
def putFile (w : Workspace) (key : String) (content : Except FileError String) : Workspace :=
  { w with files := w.files.insert key content }

/-- A folder only leads up, is listed, or has a file in it. -/
theorem isFolder_iff : w.isFolder parts = true ↔
    (∀ part ∈ parts, (leadsUp part || part.isEmpty) = true) ∨ joinParts parts ∈ w.folders ∨
      ∃ key ∈ w.files.keys, (joinParts parts ++ "/").toList <+: key.toList := by
  simp only [isFolder, Bool.or_eq_true, List.all_eq_true, List.any_eq_true, or_assoc,
    List.isPrefixOf_iff_prefix, List.contains_iff_mem]

/-- A file adds the folders that it lies in. -/
theorem isFolder_putFile_iff {key : String} : (w.putFile key content).isFolder parts = true ↔
    w.isFolder parts = true ∨ (joinParts parts ++ "/").toList <+: key.toList := by
  have keys (other : String) : other ∈ (w.putFile key content).files.keys
      ↔ other = key ∨ other ∈ w.files.keys := Dictionary.mem_keys_insert
  rw [isFolder_iff, isFolder_iff]
  simp only [keys, or_and_right, exists_or, exists_eq_left]
  rw [or_comm (b := ∃ other, other ∈ w.files.keys ∧ _), ← or_assoc, ← or_assoc, ← or_assoc]
  exact Iff.rfl

/-- A file does not lie in itself. -/
theorem isFolder_putFile_self (noFolder : w.isFolder parts = false) :
    (w.putFile (joinParts parts) content).isFolder parts = false := by
  rw [← Bool.not_eq_true, isFolder_putFile_iff, noFolder]
  rintro (yes | inside)
  · cases yes
  · have longer := inside.length_le
    rw [String.toList_append, List.length_append] at longer
    exact absurd longer (Nat.not_succ_le_self _)

end Insert

/-! ## What is written -/

/-- What is written goes to the place that the path leads to, or nowhere. -/
theorem cases_of_write (wrote : w.write path text = .ok written) :
    ∃ parts, w.resolveNew path = .ok parts ∧ w.isFolder parts = false ∧
      (joinParts parts = emptyDevice ∧ written = w ∨
        written = w.putFile (joinParts parts) (.ok text)) := by
  unfold write at wrote
  cases new : w.resolveNew path with
  | error e =>
      rw [new] at wrote
      cases wrote
  | ok parts =>
      rw [new] at wrote
      simp only [bind, Except.bind] at wrote
      split_ifs at wrote with isFolder device
      · cases wrote
        exact ⟨parts, rfl, Bool.eq_false_iff.2 isFolder, .inl ⟨device, rfl⟩⟩
      · cases wrote
        exact ⟨parts, rfl, Bool.eq_false_iff.2 isFolder, .inr rfl⟩

/-- A file can be written where its path leads to no folder. -/
theorem exists_write_of_resolveNew (new : w.resolveNew path = .ok parts)
    (noFolder : w.isFolder parts = false) (text : String) :
    ∃ written, w.write path text = .ok written := by
  unfold write
  simp only [new, bind, Except.bind, noFolder, Bool.false_eq_true, if_false]
  split_ifs
  · exact ⟨_, rfl⟩
  · exact ⟨_, rfl⟩

/-- Writing a file changes nothing else. -/
theorem changesOnly_of_write (wrote : w.write path text = .ok written) :
    w.ChangesOnly written path := by
  obtain ⟨parts, new, -, ⟨-, rfl⟩ | rfl⟩ := cases_of_write wrote
  · exact ⟨⟨parts, resolve_of_resolveNew new, fun _ _ => rfl⟩, rfl, rfl, rfl⟩
  · refine ⟨⟨parts, resolve_of_resolveNew new, fun key ne => ?_⟩, rfl, rfl, rfl⟩
    rw [putFile, Dictionary.get?_insert, if_neg ne.symm]

/-- A text is there once it was written. -/
theorem read_of_write (wrote : w.write path text = .ok written) (keeps : ¬ w.Discards path) :
    written.read path = .ok text := by
  obtain ⟨parts, new, noFolder, ⟨device, -⟩ | rfl⟩ := cases_of_write wrote
  · exact absurd ⟨parts, new, device⟩ keeps
  · have more (parts' : List (List Char)) (isFolder : w.isFolder parts' = true) :
        (w.putFile (joinParts parts) (.ok text)).isFolder parts' = true :=
      isFolder_putFile_iff.2 (.inl isFolder)
    have kept : (w.putFile (joinParts parts) (.ok text)).files.get? (joinParts parts)
        = some (.ok text) := by
      rw [putFile, Dictionary.get?_insert, if_pos rfl]
    simp only [read, resolve_of_isFolder more (resolve_of_resolveNew new), bind, Except.bind,
      isFolder_putFile_self noFolder, kept, Bool.false_eq_true, if_false]

end SchemaHealth.Workspace
