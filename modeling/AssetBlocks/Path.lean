/-! Paths as text. Nothing is looked up: joining, the parent and the last name are
functions of the text alone, and the parent of a path is an opening part of it. -/
namespace AssetBlocks

structure Path where
  text : String
deriving DecidableEq, Repr, Inhabited

namespace Path

def isAbsolute (p : Path) : Bool := p.text.toList.head? == some '/'

def needsSlash (p : Path) : Bool :=
  !p.text.isEmpty && p.text.toList.getLast? != some '/'

def join (base : Path) (part : String) : Path :=
  -- an absolute part replaces the base
  if Path.isAbsolute ⟨part⟩ then ⟨part⟩
  else if base.needsSlash then ⟨base.text ++ "/" ++ part⟩
  else ⟨base.text ++ part⟩

def relative (reference : String) : String :=
  String.ofList (reference.toList.dropWhile (· == '/'))

/-- What a path is made of: a dot counts only where the path begins with it, and
empty parts do not count at all. -/
inductive Component
  | root
  | here
  | up
  | name (text : String)
deriving DecidableEq, Repr

/-- The root slash or the leading dot, and the rest of the path. -/
def splitLead : List Char → List Char × List Char
  | '/' :: rest => (['/'], rest)
  | ['.'] => (['.'], [])
  | '.' :: '/' :: rest => (['.'], '/' :: rest)
  | cs => ([], cs)

def parts : List Char → List (List Char)
  | [] => [[]]
  | c :: cs =>
    if c = '/' then [] :: parts cs
    else match parts cs with
      | [] => [[c]]
      | first :: rest => (c :: first) :: rest

def bodyComponent (part : List Char) : Option Component :=
  if part = [] ∨ part = ['.'] then none
  else if part = ['.', '.'] then some .up
  else some (.name (String.ofList part))

def leadComponent : List Char → List Component
  | ['/'] => [.root]
  | ['.'] => [.here]
  | _ => []

def components (p : Path) : List Component :=
  let (lead, body) := splitLead p.text.toList
  leadComponent lead ++ (parts body).filterMap bodyComponent

/-- Drops the slashes and lone dots that a reversed text begins with. -/
def dropEmptyParts : List Char → List Char
  | '/' :: rest => dropEmptyParts rest
  | '.' :: '/' :: rest => dropEmptyParts rest
  | ['.'] => []
  | cs => cs

/-- The last part that counts, if the path has one behind its lead. -/
def lastPart? (p : Path) : Option (List Char) :=
  match dropEmptyParts (splitLead p.text.toList).2.reverse with
  | [] => none
  | cs => some (cs.takeWhile (· != '/')).reverse

def parent? (p : Path) : Option Path :=
  let (lead, body) := splitLead p.text.toList
  match dropEmptyParts body.reverse with
  | [] => if lead = ['.'] then some ⟨""⟩ else none
  | cs => some ⟨String.ofList (lead ++ (dropEmptyParts (cs.dropWhile (· != '/'))).reverse)⟩

def fileName? (p : Path) : Option String :=
  match p.lastPart? with
  | some part => if part = ['.', '.'] then none else some (String.ofList part)
  | none => none

/-- The path, its parent, the parent of that, up to the first without one. -/
def ancestorsUpTo : Nat → Path → List Path
  | 0, p => [p]
  | n + 1, p =>
    match p.parent? with
    | some q => p :: ancestorsUpTo n q
    | none => [p]

def ancestors (p : Path) : List Path := ancestorsUpTo p.text.length p

end Path
end AssetBlocks
