import Treewalk.Source.Decoding

/-!
# Folders

A folder holds files under their names; a name with slashes stands for a file in a folder inside.
Reading follows a path name by name from the folder, or from the root if the path starts with a
slash. What lies above the folder is not known, except that there are folders. Only folders can be
entered, and only files can be read.
-/

namespace Treewalk

set_option autoImplicit false

structure Folder where
  files : List (String × List UInt8)
deriving Inhabited

namespace Folder

/-- The pieces of a path between its slashes; a slash at one end gives an empty piece there. -/
def pieces : List Char → List (List Char)
  | [] => [[]]
  | char :: rest =>
      if char = '/' then [] :: pieces rest
      else
        match pieces rest with
        | [] => [[char]]
        | first :: others => (char :: first) :: others

def names (path : String) : List String :=
  (pieces path.toList).map String.ofList

def mostNameBytes : Nat := 255

def mostPathBytes : Nat := 4095

/-- Where a path has led: above the folder, or to the names that were followed inside it. -/
inductive Spot where
  | above
  | below (trail : List String)
deriving DecidableEq, Inhabited

namespace Spot

def outer : Spot → Spot
  | above => above
  | below [] => above
  | below trail => below trail.dropLast

end Spot

def file? (folder : Folder) : Spot → Option (List UInt8)
  | .above => none
  | .below trail =>
      (folder.files.find? fun file => names file.1 == trail).map Prod.snd

def holds (folder : Folder) (trail : List String) : Bool :=
  folder.files.any fun file => (names file.1).take trail.length == trail

def follow (folder : Folder) (spot : Spot) (name : String) : Except Fault Spot :=
  if (folder.file? spot).isSome then .error .notFolder
  else if name.isEmpty || name = "." then .ok spot
  else if name = ".." then .ok spot.outer
  else if mostNameBytes < name.utf8ByteSize then .error .nameTooLong
  else
    match spot with
    | .above => .error .notFound
    | .below trail =>
        if folder.holds (trail ++ [name]) then .ok (.below (trail ++ [name]))
        else .error .notFound

def find (folder : Folder) (path : String) : Except Fault Spot :=
  if path.isEmpty then .error .notFound
  else if mostPathBytes < path.utf8ByteSize then .error .nameTooLong
  else
    let start := if path.toList.head? = some '/' then Spot.above else .below []
    (names path).foldlM folder.follow start

def read (folder : Folder) (path : String) : Except Fault (List UInt8) :=
  match folder.find path with
  | .error fault => .error fault
  | .ok spot =>
      match folder.file? spot with
      | some bytes => .ok bytes
      | none => .error .isFolder

end Folder

end Treewalk
