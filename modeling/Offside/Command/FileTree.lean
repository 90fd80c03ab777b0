/-!
# Files

A small file system held in memory, on which a run can be tried out. It has a root, a working
directory to which paths are relative, and the devices that every system has. Reading and writing
fail as they would on disk:

* `FileTree.resolve` — where a path leads, through directories that all have to be there;
* `FileTree.read` — the contents at a path;
* `FileTree.place` — where a file can be written.
-/

namespace Offside

/-- A refusal of the system: its description and its number. -/
structure Refusal where
  description : String
  number : Nat
  deriving DecidableEq

namespace Refusal

/-- There is nothing at the path. -/
def notFound : Refusal := ⟨"No such file or directory", 2⟩

/-- Something on the way is not a directory. -/
def notADirectory : Refusal := ⟨"Not a directory", 20⟩

/-- The path leads to a directory. -/
def isADirectory : Refusal := ⟨"Is a directory", 21⟩

/-- There is no room. -/
def noSpace : Refusal := ⟨"No space left on device", 28⟩

/-- The path or a name in it is too long. -/
def nameTooLong : Refusal := ⟨"File name too long", 36⟩

/-- The wording. -/
def text (r : Refusal) : String :=
  r.description ++ " (os error " ++ toString r.number ++ ")"

end Refusal

/-- What stands for something else than a file on disk. -/
inductive Device where
  /-- Holds nothing and takes everything. -/
  | null
  /-- Has no room for anything. -/
  | full
  | standardInput
  | standardOutput
  | standardError
  deriving DecidableEq

/-- What there is at a place. -/
inductive Node where
  | directory
  | file (contents : ByteArray)
  | device (device : Device)

/-- The names on the way from the root to a place. -/
abbrev Place := List String

/-- What there is at every place other than the root, and the working directory. -/
structure FileTree where
  nodes : List (Place × Node)
  here : Place

/-- What a path leads to: a directory, or a name in a directory. The name may be marked as that of
a directory by a slash behind it. -/
inductive Target where
  | directory
  | entry (parent : Place) (name : String) (slash : Bool)

namespace FileTree

/-- The directories and devices of every system. -/
def usual : List (Place × Node) :=
  (["bin", "dev", "etc", "home", "lib", "mnt", "opt", "proc", "root", "run", "sbin", "srv", "sys",
      "tmp", "usr", "var"].map fun name => ([name], .directory)) ++
    [(["dev", "null"], .device .null), (["dev", "full"], .device .full),
      (["dev", "stdin"], .device .standardInput), (["dev", "stdout"], .device .standardOutput),
      (["dev", "stderr"], .device .standardError)]

/-- What there is at a place. -/
def node? (t : FileTree) (place : Place) : Option Node :=
  if place.isEmpty then some .directory else t.nodes.lookup place

/-- The length in bytes from which on a path is too long. -/
def pathLimit : Nat := 4096

/-- The length in bytes up to which a name is not too long. -/
def nameLimit : Nat := 255

/-- What there is under a name in a directory. -/
def entry (t : FileTree) (parent : Place) (name : String) : Except Refusal Node :=
  if nameLimit < name.utf8ByteSize then .error .nameTooLong
  else
    match t.node? (parent ++ [name]) with
    | some node => .ok node
    | none => .error .notFound

/-- Go from a directory along some names, which must all lead to directories. The directory above
the root is the root. -/
def walk (t : FileTree) (start : Place) : List String → Except Refusal Place
  | [] => .ok start
  | name :: names =>
    if name == "." then walk t start names
    -- dropping the last of no names leaves the root
    else if name == ".." then walk t start.dropLast names
    else
      match t.entry start name with
      | .ok .directory => walk t (start ++ [name]) names
      | .ok _ => .error .notADirectory
      | .error refusal => .error refusal

/-- **Where a path leads.** Several slashes count as one. -/
def resolve (t : FileTree) (path : String) : Except Refusal Target := do
  if pathLimit ≤ path.utf8ByteSize then .error .nameTooLong
  else
    let first := if path.startsWith "/" then [] else t.here
    -- no names are left of an empty path and of one with slashes only
    let names := (path.splitOn "/").filter fun name => !name.isEmpty
    match names.getLast? with
    | none => .ok .directory
    | some last =>
      let parent ← t.walk first names.dropLast
      -- these two name directories, and need not be looked up
      if last == "." || last == ".." then .ok .directory
      else .ok (.entry parent last (path.endsWith "/"))

/-- The contents at a path. `stdin` is what the standard input holds. -/
def read (t : FileTree) (stdin : ByteArray) (path : String) : Except Refusal ByteArray := do
  match ← t.resolve path with
  | .directory => .error .isADirectory
  | .entry parent name slash =>
    match ← t.entry parent name with
    | .directory => .error .isADirectory
    | .file contents => if slash then .error .notADirectory else .ok contents
    | .device device =>
      if slash then .error .notADirectory
      else .ok (if device = .standardInput then stdin else .empty)

/-- The place at which a file can be written, if there is one. A name with a slash behind it is
taken for a directory, whatever there is under it. -/
def place (t : FileTree) (path : String) : Except Refusal Place := do
  match ← t.resolve path with
  | .directory => .error .isADirectory
  | .entry parent name slash =>
    if slash then .error .isADirectory
    else
      match t.entry parent name with
      | .ok .directory => .error .isADirectory
      -- it could be opened, but would not take a single byte
      | .ok (.device .full) => .error .noSpace
      | .ok _ => .ok (parent ++ [name])
      | .error refusal =>
        -- a file that is not there yet is created
        if refusal = .notFound then .ok (parent ++ [name]) else .error refusal

/-- The tree with new contents at a place. -/
def put (t : FileTree) (place : Place) (contents : ByteArray) : FileTree :=
  { t with nodes := (place, .file contents) :: t.nodes.filter fun node => node.1 != place }

/-- The contents of the file at a place. -/
def contents? (t : FileTree) (place : Place) : Option ByteArray :=
  match t.node? place with
  | some (.file contents) => some contents
  | _ => none

/-- The files below the working directory that are new in a later tree or have other contents
there, with their names relative to that directory. -/
def changes (before after : FileTree) : List (String × ByteArray) :=
  after.nodes.filterMap fun (place, node) =>
    match node with
    | .file contents =>
      -- only what is below the working directory is looked at
      if before.here.isPrefixOf place && before.contents? place != some contents then
        some (String.intercalate "/" (place.drop before.here.length), contents)
      else none
    | _ => none

end FileTree

end Offside
