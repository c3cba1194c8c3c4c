import Offside.Text.Quoted
import Offside.Text.Utf8

/-!
# Folders

Sources are read from files that are found by a path. The model: a folder is a flat list of files; a path
is followed from it part by part, where a part may stay in place, leave the folder, or name a file, and
nothing is known outside the folder. `Folder.read` gives the bytes that a path leads to, or what it leads
to instead.
-/

namespace Offside.Source

/-- Why no bytes can be read. -/
inductive Obstacle where
  /-- The path leads nowhere. -/
  | missing
  /-- The path leads to a directory. -/
  | directory
  /-- The path goes on after a file. -/
  | notDirectory
  /-- The path or a part of it is too long. -/
  | tooLong
  /-- The path has a null character in it. -/
  | nullCharacter
  deriving DecidableEq, Repr

/-- The wording of an obstacle on a path. -/
def Obstacle.message (path : List Char) : Obstacle → String
  | .missing => "[Errno 2] No such file or directory: " ++ Text.quote path
  | .directory => "[Errno 21] Is a directory: " ++ Text.quote path
  | .notDirectory => "[Errno 20] Not a directory: " ++ Text.quote path
  | .tooLong => "[Errno 36] File name too long: " ++ Text.quote path
  | .nullCharacter => "embedded null byte"

/-- A way to read the bytes that a path leads to. -/
abbrev Files := List Char → Except Obstacle (List UInt8)

/-- Something is there, if only a directory. -/
def Files.exists (files : Files) (path : List Char) : Bool :=
  match files path with
  | .ok _ | .error .directory => true
  | .error _ => false

/-- A directory with files and nothing else in it. -/
structure Folder where
  files : List (List Char × List UInt8)

/-- Where a path has led so far. -/
inductive Spot where
  | inside
  /-- A directory outside the folder. -/
  | outside
  | file (bytes : List UInt8)

/-- The most bytes that a part of a path may have. -/
def longestPart : Nat := 255

/-- The most bytes that a path may have. -/
def longestPath : Nat := 4095

/-- The parts of a path, between its slashes. -/
def parts (path : List Char) : List (List Char) :=
  path.foldr (fun c rest =>
    match c, rest with
    | '/', _ => [] :: rest
    | _, [] => [[c]]
    | _, part :: others => (c :: part) :: others) [[]]

/-- Follows one part of a path. -/
def Folder.follow (folder : Folder) (spot : Spot) (part : List Char) : Except Obstacle Spot :=
  match spot with
  | .file _ => .error .notDirectory
  | .inside | .outside =>
    if part = [] ∨ part = ['.'] then .ok spot
    else if part = ['.', '.'] then .ok .outside
    else if longestPart < (Text.Utf8.encode part).length then .error .tooLong
    else
      match spot, folder.files.lookup part with
      | .inside, some bytes => .ok (.file bytes)
      | _, _ => .error .missing

/-- Follows the parts of a path. -/
def Folder.followAll (folder : Folder) (spot : Spot) : List (List Char) → Except Obstacle Spot
  | [] => .ok spot
  | part :: rest => do folder.followAll (← folder.follow spot part) rest

/-- The bytes that a path leads to. -/
def Folder.read (folder : Folder) : Files := fun path => do
  if '\x00' ∈ path then .error .nullCharacter
  else if path = [] then .error .missing
  else if longestPath < (Text.Utf8.encode path).length then .error .tooLong
  else
    match ← folder.followAll (if path.head? = some '/' then .outside else .inside) (parts path) with
    | .file bytes => .ok bytes
    | .inside | .outside => .error .directory

end Offside.Source
