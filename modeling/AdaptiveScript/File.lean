/-!
# Files

All that is asked of files is to give a text for a path or a reason why there is none
(`Files`).  One way to answer is by a tree of directories with texts in them.  A path is a list
of names between slashes.  It is followed name by name, from the root if it starts with a
slash and from the working directory otherwise, and the first name that cannot be followed
decides why the path cannot be read.

The empty name and a single dot stay where they are, two dots go up, and the root is above
itself.  All three need a directory to stand in, so a slash after a text is refused.
-/

namespace AdaptiveScript

/-- What can be read by a path. -/
structure Files where
  /-- The text that a path leads to, or why there is none. -/
  read : String → Except String String

/-- What a name stands for. -/
inductive File where
  | text (content : String)
  | directory (entries : List (String × File))

/-- Why a path cannot be read. -/
inductive FileFault where
  /-- A name that no entry has. -/
  | notFound
  /-- A text on the way to a name. -/
  | notDirectory
  /-- The path leads to a directory. -/
  | isDirectory
  /-- A name or a path that is too long. -/
  | nameTooLong
  /-- A path with a null character. -/
  | nullCharacter
  deriving DecidableEq, Repr

namespace FileFault

/-- The wording of a fault. -/
def message : FileFault → String
  | .notFound => "No such file or directory (os error 2)"
  | .notDirectory => "Not a directory (os error 20)"
  | .isDirectory => "Is a directory (os error 21)"
  | .nameTooLong => "File name too long (os error 36)"
  | .nullCharacter => "file name contained an unexpected NUL byte"

end FileFault

namespace File

/-- The longest name of an entry, in bytes. -/
def longestName : Nat := 255

/-- The longest path, in bytes. -/
def longestPath : Nat := 4095

/-- A directory of empty directories and of other entries. -/
def folder (names : List String) (others : List (String × File)) : File :=
  .directory (others ++ names.map fun name => (name, .directory []))

/-- Follow names from a file.  The directories above it are given from the nearest on. -/
def walk : List File → File → List String → Except FileFault File
  | _, here, [] => .ok here
  | _, .text _, _ :: _ => .error .notDirectory
  | above, .directory entries, name :: rest =>
    if name = "" ∨ name = "." then walk above (.directory entries) rest
    else if name = ".." then
      match above with
      | [] => walk [] (.directory entries) rest
      | parent :: above => walk above parent rest
    else if longestName < name.utf8ByteSize then .error .nameTooLong
    else
      match entries.lookup name with
      | none => .error .notFound
      | some next => walk (.directory entries :: above) next rest

end File

/-- A tree of files. -/
structure FileTree where
  /-- The directory that paths with a leading slash start from. -/
  root : File
  /-- The names from the root to the directory that all other paths start from. -/
  working : List String

namespace FileTree

/-- The names of a path, from the root on. -/
def names (tree : FileTree) (path : String) : List String :=
  let parts := (path.toList.splitOn '/').map String.ofList
  if path.toList.head? = some '/' then parts else tree.working ++ parts

/-- The text that a path leads to. -/
def read (tree : FileTree) (path : String) : Except FileFault String :=
  if path.toList.contains '\x00' then .error .nullCharacter
  else if path = "" then .error .notFound
  else if File.longestPath < path.utf8ByteSize then .error .nameTooLong
  else
    match File.walk [] tree.root (tree.names path) with
    | .error fault => .error fault
    | .ok (.directory _) => .error .isDirectory
    | .ok (.text content) => .ok content

/-- The files of a tree. -/
def files (tree : FileTree) : Files where
  read path := (tree.read path).mapError FileFault.message

end FileTree

/-- The directories of the usual hierarchy, with the file that is always empty and the list of
accounts. -/
def Files.standard : Files :=
  FileTree.files {
    root := File.folder
      ["bin", "boot", "home", "lib", "media", "mnt", "opt", "proc", "root", "run", "sbin", "srv",
        "sys", "tmp"]
      [("dev", File.folder ["fd", "pts", "shm"] [("null", .text "")]),
        ("etc", File.folder [] [("passwd", .text "root:x:0:0:root:/root:/bin/bash\n")]),
        ("usr", File.folder ["bin", "include", "lib", "local", "sbin", "share", "src"] []),
        ("var", File.folder ["cache", "lib", "log", "spool", "tmp"] [])]
    working := ["home"] }

end AdaptiveScript
