/-!
# Files by name

The shell opens a file by a path. A `Folder` is a working directory that holds files and no further
folders; a path is resolved in it one name after the other, and what lies outside of it is empty.
-/

namespace VectorCalc.Shell

/-- Why a file cannot be opened. -/
inductive OpenFault where
  | missing
  | isFolder
  | notFolder
  | nameTooLong
  /-- Any other reason, worded by the surroundings. -/
  | stated (text : String)
deriving DecidableEq

/-- The words for a reason. -/
def OpenFault.text : OpenFault → String
  | .missing => "No such file or directory"
  | .isFolder => "Is a directory"
  | .notFolder => "Not a directory"
  | .nameTooLong => "File name too long"
  | .stated text => text

/-- A folder of files, each with its name and its bytes. Of two with one name the first counts. -/
structure Folder where
  files : List (String × List UInt8)

namespace Folder

/-- A folder without files. -/
def empty : Folder := ⟨[]⟩

/-- Write a file, in place of a file of the same name. -/
def write (f : Folder) (name : String) (bytes : List UInt8) : Folder :=
  ⟨(name, bytes) :: f.files⟩

/-- The most bytes of a name in a path. -/
def nameLimit : Nat := 255

/-- The most bytes of a path. -/
def pathLimit : Nat := 4095

/-- The names of a path, where `/` stands between two names. -/
def namesOf (path : List Char) : List String :=
  let step (c : Char) : List (List Char) → List (List Char)
    | [] => if c = '/' then [[], []] else [[c]]
    | n :: ns => if c = '/' then [] :: n :: ns else (c :: n) :: ns
  (path.foldr step []).map String.ofList

/-- Follow names from the folder, or from outside of it. -/
def follow (f : Folder) : Bool → List String → Except OpenFault (List UInt8)
  | _, [] => .error .isFolder
  | inside, name :: rest =>
    if name = "" ∨ name = "." then follow f inside rest
    else if name = ".." then follow f false rest
    else if nameLimit < name.utf8ByteSize then .error .nameTooLong
    else
      match if inside then f.files.lookup name else none with
      | none => .error .missing
      | some bytes => if rest.isEmpty then .ok bytes else .error .notFolder

/-- The bytes of the file that a path leads to. -/
def read (f : Folder) (path : String) : Except OpenFault (List UInt8) :=
  if path = "" then .error .missing
  else if pathLimit < path.utf8ByteSize then .error .nameTooLong
  else f.follow (path.toList.head? ≠ some '/') (namesOf path.toList)

end Folder

end VectorCalc.Shell
