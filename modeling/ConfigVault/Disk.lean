import ConfigVault.Text.Utf8

/-!
# Files

What the program sees of files: a disk answers a path with the octets of a file, or says why there
are none (`Disk`).  A directory whose files are all known is such a disk (`Disk.ofFiles`); paths
are looked up from it step by step, and nothing is known outside of it.
-/

namespace ConfigVault

/-- Why a file cannot be read. -/
inductive FileFault where
  | missing
  | notDirectory
  | isDirectory
  | nameTooLong
  /-- No path contains the null character. -/
  | nullInPath
  /-- The octets are no text. -/
  | notText
  /-- Any other reason, in the words of the system. -/
  | other (reason : String)
  deriving DecidableEq, Repr

/-- The message of a fault. -/
def FileFault.message : FileFault → String
  | .missing => "No such file or directory (os error 2)"
  | .notDirectory => "Not a directory (os error 20)"
  | .isDirectory => "Is a directory (os error 21)"
  | .nameTooLong => "File name too long (os error 36)"
  | .nullInPath => "file name contained an unexpected NUL byte"
  | .notText => "stream did not contain valid UTF-8"
  | .other reason => reason

/-- A source of files. -/
structure Disk where
  read : String → Except FileFault (List UInt8)

namespace Disk

/-- The text of octets. -/
def textOf (bytes : List UInt8) : Except FileFault String :=
  match Text.Utf8.decodeString? bytes with
  | some s => .ok s
  | none => .error .notText

/-- The text of a file. -/
def readText (d : Disk) (path : String) : Except FileFault String := do
  textOf (← d.read path)

/-! ## Paths -/

/-- A component of a path that leads nowhere. -/
def isIdle (component : List Char) : Bool :=
  component.isEmpty || component == ['.']

/-- The components without those at the end that lead nowhere. -/
def trimEnd (components : List (List Char)) : List (List Char) :=
  (components.reverse.dropWhile isIdle).reverse

/-- The beginning of a path that is no component to go back from: the root, or the point of the
current directory. -/
def headOf (cs : List Char) : List Char :=
  match cs with
  | '/' :: _ => ['/']
  | ['.'] => ['.']
  | '.' :: '/' :: _ => ['.']
  | _ => []

/-- The directory of a file. -/
def directoryOf (path : String) : String :=
  let head := headOf path.toList
  let components := trimEnd ((path.toList.drop head.length).splitOn '/')
  if components.isEmpty then ""
  else String.ofList (head ++ List.intercalate ['/'] (trimEnd components.dropLast))

/-- A path that may be relative to a directory. -/
def pathIn (directory path : String) : String :=
  if path.toList.head? == some '/' || directory.isEmpty then path
  else if directory.toList.getLast? == some '/' then directory ++ path
  else directory ++ "/" ++ path

/-! ## A directory -/

/-- The names in a path. -/
def namesOf (path : String) : List String :=
  ((path.toList.splitOn '/').filter fun n => !n.isEmpty).map String.ofList

/-- Where a lookup stands. -/
inductive Position where
  /-- A directory, by the names that lead to it, last first. -/
  | directory (names : List String)
  | file (bytes : List UInt8)
  /-- A directory of which nothing is known. -/
  | outside

/-- Files by the names that lead to them. -/
abbrev Tree := List (List String × List UInt8)

/-- The greatest length of a name, in octets. -/
def maxNameLength : Nat := 255

/-- The greatest length of a path, in octets. -/
def maxPathLength : Nat := 4095

/-- Follows a name. -/
def enter (tree : Tree) (name : String) : Position → Except FileFault Position
  | .file _ => .error .notDirectory
  | .outside =>
    if name == "." || name == ".." then .ok .outside else .error .missing
  | .directory names =>
    if name == "." then .ok (.directory names)
    else if name == ".." then
      match names with
      | [] => .ok .outside
      | _ :: names => .ok (.directory names)
    else if maxNameLength < name.utf8ByteSize then .error .nameTooLong
    else
      let path := (name :: names).reverse
      match tree.lookup path with
      | some bytes => .ok (.file bytes)
      | none =>
        if tree.any fun f => path.isPrefixOf f.1 then .ok (.directory (name :: names))
        else .error .missing

/-- Looks up a path. -/
def lookUp (tree : Tree) (path : String) : Except FileFault (List UInt8) := do
  if path.toList.contains '\x00' then throw .nullInPath
  if path.isEmpty then throw .missing
  if maxPathLength < path.utf8ByteSize then throw .nameTooLong
  let root := if path.toList.head? == some '/' then .outside else .directory []
  match ← (namesOf path).foldlM (fun p name => enter tree name p) root with
  | .file bytes =>
    if path.toList.getLast? == some '/' then throw .notDirectory else pure bytes
  | _ => throw .isDirectory

/-- The directory with these files. -/
def ofFiles (files : List (String × List UInt8)) : Disk :=
  let tree := files.map fun f => (namesOf f.1, f.2)
  ⟨lookUp tree⟩

end Disk

end ConfigVault
