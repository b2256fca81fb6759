import PluralForms.Store
import PluralForms.Text.Split

/-!
# Folders

A folder that holds files and other folders, as far as a program that reads rule files can see it.
A path is followed name by name from the folder on: every name but the last has to be that of a
folder, even where the path turns back.

* `Folder.locate` - where a path leads, or why it leads nowhere;
* `Folder.write`, `Folder.makeFolder`, `Folder.remove` - what changes the folder;
* `Folder.files` - the texts of its files, by their paths.
-/

namespace PluralForms

/-- What stands at a place. -/
inductive Entry
  | file (bytes : ByteArray)
  | folder

/-- A place, by the names on the way down to it: from the folder, or from somewhere outside. -/
structure Location where
  outside : Bool
  names : List String
  deriving DecidableEq, Repr

/-- One name further. No name, or a point, stays; two points go up. -/
def Location.step (here : Location) (name : String) : Location :=
  if name = "" ∨ name = "." then here
  else if name = ".." then
    if here.names = [] then ⟨true, []⟩ else { here with names := here.names.dropLast }
  else { here with names := here.names ++ [name] }

/-- Where a path begins: in the folder, or outside of it if it begins with a slash. -/
def Location.start (path : String) : Location := ⟨path.toList.head? == some '/', []⟩

/-- The names of a path, between its slashes. -/
def pathNames (path : String) : List String :=
  (Text.splitOn ['/'] path.toList).map String.ofList

/-- What stands at which place below the folder. -/
structure Folder where
  entries : List (List String × Entry)

namespace Folder

def empty : Folder := ⟨[]⟩

/-- What stands at a place. Outside of the folder there are folders, but nothing is known in
them. -/
def entry? (f : Folder) (here : Location) : Option Entry :=
  if here.names = [] then some .folder
  else if here.outside then none
  else (f.entries.find? (·.1 == here.names)).map (·.2)

/-- Nothing stands at a place any more. -/
def erase (f : Folder) (here : Location) : Folder := ⟨f.entries.filter (·.1 ≠ here.names)⟩

/-- Put an entry at a place, instead of what stands there. Outside of the folder nothing is put. -/
def put (f : Folder) (here : Location) (entry : Entry) : Folder :=
  if here.outside then f else ⟨(here.names, entry) :: (f.erase here).entries⟩

/-- Follow names from a place on. The last one may be missing. -/
def follow (f : Folder) : Location → List String → Except ReadError Location
  | here, [] => .ok here
  | here, name :: names =>
    match f.entry? here with
    | none => .error .notFound
    | some (.file _) => .error .notDirectory
    | some .folder => follow f (here.step name) names

/-- Where a path leads. -/
def locate (f : Folder) (path : String) : Except ReadError Location :=
  f.follow (.start path) (pathNames path)

/-- Follow names from a place on, and make the folders that are missing. A file, and what lies
outside, ends the way. -/
def makeWay : Folder → Location → List String → Option (Folder × Location)
  | f, here, [] => some (f, here)
  | f, here, name :: names =>
    let next := here.step name
    match f.entry? next with
    | some .folder => makeWay f next names
    | some (.file _) => none
    | none => if next.outside then none else makeWay (f.put next .folder) next names

/-- Make a folder, and those above it. -/
def makeFolder (f : Folder) (path : String) : Folder :=
  match makeWay f (.start path) (pathNames path) with
  | some (made, _) => made
  | none => f

/-- Write a file, in place of a file that stands there but not of a folder, and make the folders
above it. -/
def write (f : Folder) (path : String) (bytes : ByteArray) : Folder :=
  let names := pathNames path
  match makeWay f (.start path) names.dropLast with
  | none => f
  | some (made, here) =>
    let place := here.step (names.getLastD "")
    match made.entry? place with
    | some .folder => f
    | _ => made.put place (.file bytes)

/-- Remove a file; a folder stays. -/
def remove (f : Folder) (path : String) : Folder :=
  match f.locate path with
  | .error _ => f
  | .ok place =>
    match f.entry? place with
    | some (.file _) => f.erase place
    | _ => f

/-- The text of bytes. -/
def textOfBytes (bytes : ByteArray) : Except ReadError String :=
  match String.fromUTF8? bytes with
  | some text => .ok text
  | none => .error .notText

/-- The text of the file at the end of a path. -/
def files (f : Folder) : Files := fun path => do
  match f.entry? (← f.locate path) with
  | none => .error .notFound
  | some .folder => .error .isDirectory
  | some (.file bytes) => textOfBytes bytes

end Folder

end PluralForms
