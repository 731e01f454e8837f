import CallPatch.Text.Utf8
/-!
# Paths of copies

A copy of what was transformed lies in a file named after the owner, whose slashes
separate folders. The path is put behind that of the dump directory, unless it opens
with a slash: then it stands alone.

A path is followed part by part, from the root if it opens with a slash and from the
working directory if not. An empty part and a single dot lead nowhere, two dots lead
back to the folder above, and any other part leads on. The root is above itself.
-/

namespace CallPatch.Dump

/-- What every file name ends in. -/
def suffix : String := ".vpa"

/-- The path of the copy for an owner, relative to the dump directory if it does not open with a
slash. -/
def pathOf (owner : String) : String :=
  owner ++ suffix

/-- Whether a path opens with a slash. -/
def isRooted (path : String) : Bool :=
  path.toList.head? = some '/'

/-- The path of the copy for an owner below a dump directory. A path that opens with a slash stands
alone. -/
def fileFor (dir owner : String) : String :=
  if isRooted (pathOf owner) || dir = "" then pathOf owner
  else if dir.toList.getLast? = some '/' then dir ++ pathOf owner
  else dir ++ "/" ++ pathOf owner

/-! ## Parts -/

/-- The parts of a path between its slashes. -/
def parts (path : String) : List String :=
  (path.toList.splitOn '/').map String.ofList

/-- A part of a path that leads somewhere: an empty one and a single dot do not. -/
def moves (part : String) : Bool :=
  part ≠ "" && part ≠ "."

/-- The parts of a path that lead somewhere. -/
def steps (path : String) : List String :=
  (parts path).filter moves

/-- The path of the folder that holds the file of a path. -/
def folderOf (path : String) : String :=
  "/".intercalate ((parts path).dropLast.reverse.dropWhile fun part => !moves part).reverse

/-- A name that a file system takes: at most 255 bytes. -/
def isName (name : String) : Bool :=
  (Utf8.ofString name).length ≤ 255

/-- A path that a file system takes: at most 4095 bytes, and no zero character. -/
def isPath (path : String) : Bool :=
  (Utf8.ofString path).length ≤ 4095 && !path.toList.contains '\x00'

/-! ## Places

A place is given by the names that lead there from the root. -/

/-- Where a part leads. -/
def step (here : List String) (part : String) : List String :=
  if part = ".." then here.dropLast else here ++ [part]

/-- Where parts lead, one after the other. -/
def follow (here parts : List String) : List String :=
  parts.foldl step here

/-- Where a path starts. -/
def start (working : List String) (path : String) : List String :=
  if isRooted path then [] else working

/-- Where a path leads. -/
def locate (working : List String) (path : String) : List String :=
  follow (start working path) (steps path)

end CallPatch.Dump
