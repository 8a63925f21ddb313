import SchemaHealth.Dictionary
import SchemaHealth.Workspace.FileError
import SchemaHealth.Text.Layout

/-!
# The folder that commands work in

A `Workspace` is a folder with its files and the text waiting on the standard input. Files are
stored under their paths from the folder, in the form that `resolve` gives: no empty parts but one
that stands for the root, no parts that stay in place, and steps up at the start only. A folder
below the workspace is there when it holds a file.

A path may have 4095 bytes and a name in it 255. The length of a path is looked at first; that of a
name is looked at when the folders before it have been found.
-/

namespace SchemaHealth

/-- A folder with its files. -/
structure Workspace where
  /-- The path of the folder itself. -/
  folder : String
  /-- The text of each file, or why it cannot be read. -/
  files : Dictionary String (Except FileError String)
  /-- Folders that are there although they may hold no file. -/
  folders : List String
  /-- The text waiting on the standard input, or why there is none. -/
  input : Except FileError String

namespace Workspace

/-- Folders that every system has. -/
def systemFolders : List String :=
  ["/bin", "/dev", "/etc", "/home", "/proc", "/tmp", "/usr", "/var"]

/-- The file that stays empty whatever is written to it. -/
def emptyDevice : String := "/dev/null"

/-- The file that holds the text waiting on the standard input. -/
def inputDevice : String := "/dev/stdin"

/-- The workspace with some files and a text waiting on the standard input. -/
def ofFiles (folder : String) (files : List (String × String)) (input : String) : Workspace where
  folder
  files := .ofList ((emptyDevice, .ok "") :: (inputDevice, .ok input) ::
    files.map fun file => (file.1, .ok file.2))
  folders := systemFolders
  input := .ok input

/-- The stored form of a path given by its parts. -/
def joinParts (parts : List (List Char)) : String :=
  Text.joined "/" (parts.map String.ofList)

/-- The parts of a path between the slashes. -/
def splitParts : List Char → List (List Char)
  | [] => [[]]
  | c :: cs =>
    if c = '/' then [] :: splitParts cs
    else
      match splitParts cs with
      | [] => [[c]]
      | part :: parts => (c :: part) :: parts

/-- Whether a part of a path leads out of the folder that it stands in. -/
def leadsUp (part : List Char) : Bool := part == ['.', '.']

/-- Whether parts of a path in stored form name a folder. -/
def isFolder (w : Workspace) (parts : List (List Char)) : Bool :=
  parts.all (fun part => leadsUp part || part.isEmpty) ||
    w.folders.contains (joinParts parts) ||
    w.files.keys.any fun key => (joinParts parts ++ "/").toList.isPrefixOf key.toList

/-- Whether parts of a path in stored form name a file. -/
def isFile (w : Workspace) (parts : List (List Char)) : Bool :=
  (w.files.get? (joinParts parts)).isSome

/-- The most bytes that a name in a path may have. -/
def nameLimit : Nat := 255

/-- The most bytes that a path may have. -/
def pathLimit : Nat := 4095

/-- Walks down a path from a folder that was reached, given by its parts. Every part but the last
has to name a folder, and so has the last if another slash follows it. -/
def walk (w : Workspace) (reached : List (List Char)) :
    List (List Char) → Except FileError (List (List Char))
  | [] => .ok reached
  | part :: rest =>
    if part.isEmpty || part == ['.'] then w.walk reached rest
    else if leadsUp part then
      if reached.all leadsUp then w.walk (reached ++ [part]) rest
      else w.walk reached.dropLast rest
    else if nameLimit < (String.ofList part).utf8ByteSize then .error .nameTooLong
    else
      let next := reached ++ [part]
      if rest.isEmpty || w.isFolder next then w.walk next rest
      else if w.isFile next then .error .notFolder
      else .error .noSuchFile

/-- Where a path starts, as parts in stored form, and the parts that lead on from there. -/
def route (path : List Char) : List (List Char) × List (List Char) :=
  match path with
  | '/' :: cs => ([[]], splitParts cs)
  | cs => ([], splitParts cs)

/-- No path is empty or too long. -/
def checkLength (path : String) : Except FileError Unit :=
  if path.isEmpty then .error .noSuchFile
  else if pathLimit < path.utf8ByteSize then .error .nameTooLong
  else .ok ()

/-- The parts of a path in stored form. -/
def resolve (w : Workspace) (path : String) : Except FileError (List (List Char)) := do
  checkLength path
  let (start, parts) := route path.toList
  w.walk start parts

/-- The parts of a path to be written, in stored form. A path that ends in a slash names a folder,
whether there is one or not; only the folders before its last name are looked at. -/
def resolveNew (w : Workspace) (path : String) : Except FileError (List (List Char)) := do
  checkLength path
  let (start, parts) := route path.toList
  if parts.getLast? = some [] then
    let named := (parts.reverse.dropWhile List.isEmpty).reverse
    let _ ← w.walk start (named.dropLast ++ [[]])
    .error .isFolder
  else w.walk start parts

/-- The stored form of a path all of whose parts before the last are taken for folders. -/
def storedForm (path : String) : String :=
  let (start, parts) := route path.toList
  joinParts (parts.foldl (fun reached part =>
    if part.isEmpty || part == ['.'] then reached
    else if leadsUp part && !reached.all leadsUp then reached.dropLast
    else reached ++ [part]) start)

/-- Whether a path names a file or a folder. -/
def contains (w : Workspace) (path : String) : Bool :=
  match w.resolve path with
  | .ok parts => w.isFolder parts || w.isFile parts
  | .error _ => false

/-- The text of a file. -/
def read (w : Workspace) (path : String) : Except FileError String := do
  let parts ← w.resolve path
  if w.isFolder parts then .error .isFolder
  else
    match w.files.get? (joinParts parts) with
    | some content => content
    | none => .error .noSuchFile

/-- The workspace with a file written, in place of the one that was there. -/
def write (w : Workspace) (path text : String) : Except FileError Workspace := do
  let parts ← w.resolveNew path
  if w.isFolder parts then .error .isFolder
  else if joinParts parts = emptyDevice then .ok w
  else .ok { w with files := w.files.insert (joinParts parts) (.ok text) }

/-- Whether a stored path stays in the folder of the workspace. -/
def isInside (key : String) : Bool :=
  match splitParts key.toList with
  | first :: _ => !(first.isEmpty || leadsUp first)
  | [] => false

/-- The text of the file with a stored path. -/
def text? (w : Workspace) (key : String) : Option String :=
  (w.files.get? key).bind Except.toOption

/-- The files, wherever they are, that are new or changed since an earlier state, with their
texts. -/
def changes (w before : Workspace) : List (String × String) :=
  w.files.keys.filterMap fun key =>
    match w.text? key with
    | some text => if before.text? key = some text then none else some (key, text)
    | none => none

end Workspace

end SchemaHealth
