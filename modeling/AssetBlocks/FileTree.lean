import AssetBlocks.Path

/-! Files and directories. A path is walked part by part, and every part but the last
has to be a directory; writing never makes one. -/
namespace AssetBlocks

inductive FileError
  | notFound
  | notDirectory
  | isDirectory
  | nameTooLong
  | notText
  /-- Anything else that the system reports. -/
  | other (message : String)
deriving DecidableEq, Repr

def FileError.message : FileError → String
  | notFound => "No such file or directory (os error 2)"
  | notDirectory => "Not a directory (os error 20)"
  | isDirectory => "Is a directory (os error 21)"
  | nameTooLong => "File name too long (os error 36)"
  | notText => "stream did not contain valid UTF-8"
  | other message => message

inductive Entry
  | file (content : ByteArray)
  | directory

namespace Entry

instance : DecidableEq Entry
  | file a, file b => decidable_of_iff (a.data = b.data) (by rw [file.injEq, ByteArray.ext_iff])
  | file _, directory => isFalse nofun
  | directory, file _ => isFalse nofun
  | directory, directory => isTrue rfl

def isFile : Entry → Bool
  | file _ => true
  | directory => false

def text : Entry → Except FileError String
  | file content =>
    match String.fromUTF8? content with
    | some s => .ok s
    | none => .error .notText
  | directory => .error .isDirectory

end Entry

abbrev Location := List String

/-- What is at which location, the latest entry for a location first. -/
structure FileTree where
  entries : List (Location × Entry)

namespace FileTree

def empty : FileTree := ⟨[]⟩

def get? (t : FileTree) : Location → Option Entry
  | [] => some .directory
  | here => t.entries.lookup here

def set (t : FileTree) (here : Location) (entry : Entry) : FileTree :=
  ⟨(here, entry) :: t.entries⟩

theorem get?_set_self (t : FileTree) {here : Location} (entry : Entry) (ne : here ≠ []) :
    (t.set here entry).get? here = some entry := by
  cases here with
  | nil => exact absurd rfl ne
  | cons name rest => simp [get?, set]

theorem get?_set_of_ne (t : FileTree) {here there : Location} (entry : Entry)
    (ne : there ≠ here) : (t.set here entry).get? there = t.get? there := by
  cases there with
  | nil => rfl
  | cons name rest => simp [get?, set, List.lookup_cons, beq_eq_false_iff_ne.mpr ne]

def maxName : Nat := 255

def maxPath : Nat := 4096

def enter (t : FileTree) (here : Location) (part : String) : Except FileError (Location × Entry) :=
  if part = "" ∨ part = "." then .ok (here, .directory)
  else if part = ".." then .ok (here.dropLast, .directory)
  else if maxName < part.utf8ByteSize then .error .nameTooLong
  else match t.get? (here ++ [part]) with
    | some entry => .ok (here ++ [part], entry)
    | none => .error .notFound

def walk (t : FileTree) : Location → Entry → List String → Except FileError (Location × Entry)
  | here, entry, [] => .ok (here, entry)
  | _, .file _, _ :: _ => .error .notDirectory
  | here, .directory, part :: rest =>
    match t.enter here part with
    | .ok (there, entry) => t.walk there entry rest
    | .error e => .error e

def partsOf (cwd p : Path) : List String :=
  (Path.parts (cwd.join p.text).text.toList).map String.ofList

/-- What a path, taken from the directory `cwd`, leads to. -/
def find (t : FileTree) (cwd p : Path) : Except FileError (Location × Entry) :=
  if p.text = "" then .error .notFound
  else if maxPath ≤ p.text.utf8ByteSize then .error .nameTooLong
  else t.walk [] .directory (partsOf cwd p)

def look (t : FileTree) (cwd p : Path) : Except FileError Entry :=
  (t.find cwd p).map Prod.snd

/-- The last part of a path that is not empty and whether slashes follow it; the parts
before it. -/
def splitLast (parts : List String) : Option (List String × String × Bool) :=
  match parts.reverse.dropWhile (· == "") with
  | [] => none
  | last :: before => some (before.reverse, last, before.length + 1 < parts.length)

/-- Puts text into a file, new or not, of a directory that is there. -/
def write (t : FileTree) (cwd p : Path) (text : String) : Except FileError FileTree :=
  if p.text = "" then .error .notFound
  else if maxPath ≤ p.text.utf8ByteSize then .error .nameTooLong
  else match splitLast (partsOf cwd p) with
    | none => .error .isDirectory
    | some (before, last, slashed) =>
      match t.walk [] .directory before with
      | .error e => .error e
      | .ok (_, .file _) => .error .notDirectory
      | .ok (here, .directory) =>
        if last = "." ∨ last = ".." ∨ slashed = true then .error .isDirectory
        else if maxName < last.utf8ByteSize then .error .nameTooLong
        else match t.get? (here ++ [last]) with
          | some .directory => .error .isDirectory
          | _ => .ok (t.set (here ++ [last]) (.file text.toUTF8))

/-- Makes the directories of a location that are not there, from the root on. -/
def ensure (t : FileTree) : Location → Location → FileTree
  | _, [] => t
  | here, name :: rest =>
    match t.get? (here ++ [name]) with
    | some _ => t.ensure (here ++ [name]) rest
    | none => (t.set (here ++ [name]) .directory).ensure (here ++ [name]) rest

/-- Puts an entry at a location, with the directories that lead to it. -/
def place (t : FileTree) (here : Location) (entry : Entry) : FileTree :=
  (t.ensure [] here.dropLast).set here entry

end FileTree
end AssetBlocks
