import ByteMachine.IoError

/-!
# File trees

The files below a working directory as a value, with the rules by which a path
leads to one of them. Names are taken from left to right: each but the last has
to lead to a directory, and so has the last if a slash follows it. Nothing is
known of the surroundings of the working directory but that they are
directories.

A tree stands in for the file system where a command is tried on files that are
given as values. Reports are proved for any way to read a file, so nothing rests
on it.
-/

namespace ByteMachine

inductive FileTree.Entry
  | file (content : ByteArray)
  | directory

/-- Entries with the names that lead to them from the working directory. -/
structure FileTree where
  entries : List (List String × FileTree.Entry)

namespace FileTree

/-- The names between the slashes of a path. -/
def names (path : String) : List String :=
  path.splitOn "/"

def ofFiles (files : List (String × Entry)) : FileTree :=
  ⟨files.map fun (path, entry) => (names path, entry)⟩

def find? (tree : FileTree) (names : List String) : Option Entry :=
  tree.entries.lookup names

/-- The longest name, in bytes of UTF-8. -/
def maxNameSize : Nat := 255

/-- The longest path, in bytes of UTF-8. -/
def maxPathSize : Nat := 4095

/-- What `names` lead to from `directory`, or from outside of the tree if there
is none. -/
def follow (tree : FileTree) (directory : Option (List String)) :
    (names : List String) → Except IoError Entry
  | [] => .ok .directory
  | "" :: rest => tree.follow directory rest
  | "." :: rest => tree.follow directory rest
  | ".." :: rest =>
    match directory with
    | some (_ :: _) => tree.follow (directory.map List.dropLast) rest
    | _ => tree.follow none rest
  | name :: rest =>
    if maxNameSize < name.utf8ByteSize then .error (.ofErrno .nameTooLong)
    else
      let path := directory.map (· ++ [name])
      match path.bind tree.find? with
      | some .directory => tree.follow path rest
      | some (.file content) =>
        if rest.isEmpty then .ok (.file content) else .error (.ofErrno .notADirectory)
      | none => .error (.ofErrno .noSuchFile)

/-- The content of the file at `path`. -/
def read (tree : FileTree) (path : String) : Except IoError ByteArray :=
  if path.toList.contains '\x00' then .error .nulInName
  else if path.isEmpty then .error (.ofErrno .noSuchFile)
  else if maxPathSize < path.utf8ByteSize then .error (.ofErrno .nameTooLong)
  else
    let names := names path
    let start := if names.head? = some "" then none else some []
    match tree.follow start names with
    | .ok (.file content) => .ok content
    | .ok .directory => .error (.ofErrno .isADirectory)
    | .error error => .error error

end FileTree

end ByteMachine
