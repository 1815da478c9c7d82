/-!
# A store of files

Directories and files by path, as far as reading and writing whole files can tell.
The store is a value: writing gives a new one. The empty path of names is the
directory that relative paths start from.

A path is resolved name by name. An empty name and a single dot stay where they
are, two dots go up, and every name but the last has to be a directory.
-/

namespace Sexpr

/-- Why a file can be neither read nor written. -/
inductive FileError where
  | notFound
  | notDirectory
  | isDirectory
  /-- The bytes of the file are not UTF-8. -/
  | notText
  /-- Anything else that a system may report, in its words. -/
  | other (text : String)
deriving DecidableEq

/-- The error in words. -/
def FileError.message : FileError → String
  | notFound => "No such file or directory (os error 2)"
  | notDirectory => "Not a directory (os error 20)"
  | isDirectory => "Is a directory (os error 21)"
  | notText => "stream did not contain valid UTF-8"
  | other text => text

/-- The text of a file's bytes. -/
def FileError.textOf (bytes : ByteArray) : Except FileError String :=
  match String.fromUTF8? bytes with
  | some text => .ok text
  | none => .error .notText

/-- What a path can lead to. -/
inductive FileEntry where
  | directory
  | file (bytes : ByteArray)

/-- The entries by the names that lead to them, the latest first. -/
structure FileStore where
  entries : List (List String × FileEntry)

namespace FileStore

/-- A store with an empty directory to start from. -/
def empty : FileStore :=
  { entries := [] }

/-- The entry that these names lead to. -/
def entry? (s : FileStore) (names : List String) : Option FileEntry :=
  if names = [] then some .directory else s.entries.lookup names

/-- The store with another entry in this place. -/
def put (s : FileStore) (names : List String) (entry : FileEntry) : FileStore :=
  { entries := (names, entry) :: s.entries }

/-- Whether a name leads to a directory without being the name of one. -/
def isStep (name : String) : Bool :=
  name == "" || name == "." || name == ".."

/-- Goes down from a directory through names that have to be directories. -/
def descend (s : FileStore) (place : List String) : List String → Except FileError (List String)
  | [] => .ok place
  | name :: names =>
    if name = "" ∨ name = "." then descend s place names
    else if name = ".." then descend s place.dropLast names
    else
      match s.entry? (place ++ [name]) with
      | none => .error .notFound
      | some (.file _) => .error .notDirectory
      | some .directory => descend s (place ++ [name]) names

/-- The place of the last name of a path, below a directory that exists. A path
that ends in a step is the path of a directory. -/
def locate (s : FileStore) (names : List String) : Except FileError (List String) :=
  match names.getLast? with
  | none => .error .notFound
  | some last =>
    match s.descend [] names.dropLast with
    | .error e => .error e
    | .ok place => if isStep last then .error .isDirectory else .ok (place ++ [last])

/-- The bytes of the file at a path. -/
def readBytes (s : FileStore) (path : String) : Except FileError ByteArray :=
  if path = "" then .error .notFound
  else
    match s.locate (path.splitOn "/") with
    | .error e => .error e
    | .ok names =>
      match s.entry? names with
      | none => .error .notFound
      | some .directory => .error .isDirectory
      | some (.file bytes) => .ok bytes

/-- The text of the file at a path. -/
def readText (s : FileStore) (path : String) : Except FileError String :=
  match s.readBytes path with
  | .error e => .error e
  | .ok bytes => FileError.textOf bytes

/-- The place of a file to be written. A slash at the end of the path asks for a
directory whether there is one or not. -/
def locateNew (s : FileStore) (path : String) : Except FileError (List String) :=
  let names := path.splitOn "/"
  let bare := (names.reverse.dropWhile (· == "")).reverse
  if path = "" then .error .notFound
  else
    match s.locate bare with
    | .error e => if bare = [] then .error .isDirectory else .error e
    | .ok place =>
      if names.getLast? = some "" then .error .isDirectory
      else
        match s.entry? place with
        | some .directory => .error .isDirectory
        | _ => .ok place

/-- Writes a whole file, in place of one that was there before. -/
def writeBytes (s : FileStore) (path : String) (bytes : ByteArray) :
    Except FileError FileStore :=
  match s.locateNew path with
  | .error e => .error e
  | .ok place => .ok (s.put place (.file bytes))

end FileStore

end Sexpr
