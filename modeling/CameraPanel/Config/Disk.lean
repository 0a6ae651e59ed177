/-!
# Files

The files of the options lie in a tree of folders.  A path goes from folder to folder by name, and two points go back to
the folder around the present one.  Empty parts of a path and single points go nowhere.  A path that starts with a
slash, or that leaves the tree, finds nothing.
-/

namespace CameraPanel.Config

/-- The parts of a path that go somewhere. -/
def pathParts (path : String) : List String := (path.splitOn "/").filter fun part => part ≠ "" ∧ part ≠ "."

/-- The path of a file in a directory. -/
def filePath (directory name : String) : String :=
  (if directory.startsWith "/" then "/" else "") ++ "/".intercalate (pathParts directory ++ [name])

/-- The text of a file by its path; `none` if there is no such file. -/
abbrev Disk := String → Option String

inductive FileTree where
  | file (text : String)
  | folder (entries : List (String × FileTree))

namespace FileTree

/-- What the parts of a path lead to; `around` are the folders around the present one, the innermost first. -/
def walk? : List String → (around : List FileTree) → FileTree → Option FileTree
  | [], _, t => some t
  | _ :: _, _, file _ => none
  | part :: path, around, folder entries =>
    if part = ".." then
      match around with
      | outer :: around => walk? path around outer
      | [] => none
    else
      match entries.lookup part with
      | some inner => walk? path (folder entries :: around) inner
      | none => none

/-- The disk whose working directory is a tree. -/
def disk (t : FileTree) : Disk := fun path =>
  if path.startsWith "/" then none
  else
    match walk? (pathParts path) [] t with
    | some (file text) => some text
    | _ => none

end FileTree

end CameraPanel.Config
