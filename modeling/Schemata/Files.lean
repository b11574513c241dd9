import Schemata.Error

/-!
# Files

A store of text files below one root, with a working directory. Paths are kept the way they were
written, apart from empty and dot parts; two dots go up only when the path is followed, so that a
path through a directory that is not there leads nowhere. Every file has the time at which it was
written last.
-/

namespace Schemata

/-- A path as it is written. -/
structure Path where
  /-- Whether it starts at the root. -/
  isAbsolute : Bool := false
  /-- Its parts. -/
  parts : List String
  deriving DecidableEq, Inhabited

namespace Path

/-- The pieces of a text between slashes. -/
def pieces : List Char → List (List Char)
  | [] => [[]]
  | c :: rest =>
    if c = '/' then [] :: pieces rest
    else
      match pieces rest with
      | piece :: more => (c :: piece) :: more
      | [] => [[c]]

/-- The path that a text spells. -/
def ofText (s : String) : Path :=
  { isAbsolute := s.toList.head? == some '/'
    parts := ((pieces s.toList).map String.ofList).filter fun p ↦ p ≠ "" && p ≠ "." }

/-- The path as text. -/
def text (p : Path) : String :=
  let joined := Text.joinWith "/" p.parts
  if p.isAbsolute then "/" ++ joined else if joined.isEmpty then "." else joined

/-- The last part. -/
def name (p : Path) : String := p.parts.getLast?.getD ""

/-- What the name ends in, from its last point on; a name that begins or ends with that point has no
such ending. -/
def suffix (p : Path) : String :=
  let cs := p.name.toList
  let ending := (cs.reverse.takeWhile (· ≠ '.')).reverse
  if ending.isEmpty || ending.length + 1 ≥ cs.length then "" else "." ++ String.ofList ending

/-- The path without its last part. -/
def parent (p : Path) : Path := { p with parts := p.parts.dropLast }

/-- A path as it is written from the root. -/
def fromRoot (p : Path) (here : List String) : Path :=
  if p.isAbsolute then p else { isAbsolute := true, parts := here ++ p.parts }

end Path

/-- A text as it is read: every way to end a line is a line feed. -/
def plainLines : List Char → List Char
  | '\r' :: '\n' :: rest => '\n' :: plainLines rest
  | '\r' :: rest => '\n' :: plainLines rest
  | c :: rest => c :: plainLines rest
  | [] => []

/-- A place in a store: the names on the way from the root. -/
abbrev Location := List String

/-- A text file. -/
structure File where
  /-- What it holds. -/
  content : String
  /-- When it was written. -/
  modified : Int
  deriving DecidableEq, Inhabited

/-- A store of files. -/
structure FileStore where
  /-- The files by location. -/
  files : List (Location × File) := []
  /-- The directories that were made without a file in them. -/
  folders : List Location := []
  /-- The working directory. -/
  here : Location := []
  /-- The latest time at which anything was written. -/
  newest : Int := 0
  deriving DecidableEq, Inhabited

namespace FileStore

variable (store : FileStore)

/-- The file at a location. -/
def fileAt? (l : Location) : Option File := (store.files.find? (·.1 == l)).map (·.2)

/-- Whether a location is a directory. -/
def isFolder (l : Location) : Bool :=
  l.isPrefixOf store.here || store.folders.any (l.isPrefixOf ·) ||
    store.files.any fun (f, _) ↦ l.isPrefixOf f && l != f

/-- Follows the parts of a path from a location. -/
def follow (l : Location) : List String → Option Location
  | [] => some l
  | part :: parts =>
    if !store.isFolder l then none
    else follow (if part == ".." then l.dropLast else l ++ [part]) parts

/-- The location that a path leads to. -/
def locate? (p : Path) : Option Location :=
  store.follow (if p.isAbsolute then [] else store.here) p.parts

/-- Whether something is at the end of a path. -/
def isThere (p : Path) : Bool :=
  match store.locate? p with
  | some l => (store.fileAt? l).isSome || store.isFolder l
  | none => false

/-- The file at the end of a path. -/
def file (p : Path) : Except Error File :=
  match store.locate? p with
  | none => .error (.badPath "FileNotFoundError")
  | some l =>
    match store.fileAt? l with
    | some f => .ok f
    | none =>
      .error (.badPath (if store.isFolder l then "IsADirectoryError" else "FileNotFoundError"))

/-- The text of the file at the end of a path. -/
def text (p : Path) : Except Error String :=
  (store.file p).map fun f ↦ String.ofList (plainLines f.content.toList)

/-- The store after a file was written; without a time it is newer than all others. -/
def write (l : Location) (content : String) (modified : Option Int) : FileStore :=
  let time := modified.getD (store.newest + 1)
  { store with
    files := (l, ⟨content, time⟩) :: store.files.filter (·.1 != l)
    newest := max store.newest time }

/-- The location of a path whose directories need not be there. -/
def place (p : Path) : Location :=
  p.parts.foldl (fun l part ↦ if part == ".." then l.dropLast else l ++ [part])
    (if p.isAbsolute then [] else store.here)

/-- The store with a directory made and entered. -/
def enter (p : Path) : FileStore :=
  let l := store.place p
  { store with folders := l :: store.folders, here := l }

/-! ## Making what is not there -/

/-- The store with the directories made that follow a location; a file in their way is an error. -/
def makeFolders (store : FileStore) (l : Location) : List String → Except Error FileStore
  | [] => .ok store
  | part :: parts =>
    let next := if part == ".." then l.dropLast else l ++ [part]
    if (store.fileAt? next).isSome then
      .error (.badPath (if parts.isEmpty then "FileExistsError" else "NotADirectoryError"))
    else if store.isFolder next then store.makeFolders next parts
    else FileStore.makeFolders { store with folders := next :: store.folders } next parts

/-- The store with the directories of a path made, and the location that the path leads to. -/
def prepare (store : FileStore) (p : Path) : Except Error (FileStore × Location) := do
  let store ← store.makeFolders (if p.isAbsolute then [] else store.here) p.parent.parts
  match store.locate? p with
  | none => throw (.badPath "FileNotFoundError")
  | some l => if store.isFolder l then throw (.badPath "IsADirectoryError") else return (store, l)

/-- The store with a file at the end of a path that holds a text, in directories that are made. -/
def put (store : FileStore) (p : Path) (content : String) : Except Error FileStore := do
  let (store, l) ← store.prepare p
  return store.write l content none

/-- The store with a file at the end of a path, and its location; what is there stays. -/
def keep (store : FileStore) (p : Path) : Except Error (FileStore × Location) := do
  let (store, l) ← store.prepare p
  return (if (store.fileAt? l).isSome then store else store.write l "" none, l)

end FileStore

end Schemata
