import CallPatch.Dump.Path
import CallPatch.Table
import CallPatch.Text.Order
/-!
# Dumps — copies of what was transformed

An agent may keep a copy of every artifact it transforms. The folders on the way are made
as needed, and a file that is there is replaced. A copy that cannot be written is dropped
without a word: where a folder is needed and a file stands, or the other way round, and
where a name or a path is too long. Folders made before that stay. Nothing keeps a path in
the dump directory: where it leads out of there, it is outside that the copy lies.
-/

namespace CallPatch.Dump

/-- The folders and files that copies can meet, each at its place, and the place of the working
directory. -/
structure Disk where
  working : List String
  folders : List (List String)
  files : Table (List String) Bytes
  deriving DecidableEq, Repr

/-- The files of a directory, each by its path from there. -/
structure Directory where
  files : List (String × Bytes)
  deriving DecidableEq, Repr

namespace Disk

/-- No folders and no files, seen from the root. -/
def empty : Disk :=
  { working := [], folders := [], files := [] }

/-- What the file at a place holds, if there is one. -/
def file? (d : Disk) (place : List String) : Option Bytes :=
  Table.get? place d.files

/-- Whether a folder is there: it was made, or the working directory is it or lies in it. -/
def isFolder (d : Disk) (place : List String) : Bool :=
  place.isPrefixOf d.working || d.folders.contains place

/-- Where a path leads. -/
def locate (d : Disk) (path : String) : List String :=
  Dump.locate d.working path

/-- Goes on by parts and makes the folders they lead to, until a name is too long or a file stands
there. Tells whether it came to the end. -/
def enter (d : Disk) (here : List String) : List String → Disk × Bool
  | [] => (d, true)
  | part :: rest =>
    if !isName part || (d.file? (step here part)).isSome then (d, false)
    else enter { d with folders := d.folders.insert (step here part) } (step here part) rest

/-- Puts a file at a place, unless a folder is there. -/
def put (d : Disk) (place : List String) (bytes : Bytes) : Disk :=
  if d.isFolder place then d else { d with files := Table.put place bytes d.files }

/-- Makes the folders on the way to the file of a path. -/
def makeFolders (d : Disk) (path : String) : Disk × Bool :=
  if isPath (folderOf path) then d.enter (start d.working path) (steps path).dropLast
  else (d, false)

/-- Writes the copy for an owner. -/
def write (d : Disk) (dir owner : String) (bytes : Bytes) : Disk :=
  let path := fileFor dir owner
  let opened := d.makeFolders path
  if opened.2 && isPath path && (steps path).getLast?.all isName then
    opened.1.put (d.locate path) bytes
  else opened.1

/-- The files below a place. -/
def below (d : Disk) (place : List String) : Directory :=
  { files := d.files.filterMap fun (file, bytes) =>
      if place.isPrefixOf file && file ≠ place then
        some ("/".intercalate (file.drop place.length), bytes)
      else none }

end Disk

namespace Directory

/-- No files. -/
def empty : Directory :=
  { files := [] }

/-- The files in the order of their paths. -/
def listing (d : Directory) : List (String × Bytes) :=
  d.files.mergeSort fun a b => Text.le a.1 b.1

end Directory

end CallPatch.Dump
