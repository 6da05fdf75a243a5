import AssetBlocks.Text.Blank

/-! Directives are comments that name a tag: begin tags, with a kind and arguments,
and end tags. -/
namespace AssetBlocks
open Text

/-- What the tag of a directive may be: not empty, and without white space and colon. -/
def isTag (s : String) : Bool := !s.isEmpty && s.toList.all fun c => !isBlank c && c != ':'

structure Tag where
  name : String
  valid : isTag name = true
deriving DecidableEq

namespace Tag

def ofString? (s : String) : Option Tag := if h : isTag s = true then some ⟨s, h⟩ else none

theorem ofString?_isSome {s : String} : (ofString? s).isSome = isTag s := by
  by_cases h : isTag s = true <;> simp [ofString?, h]

end Tag

structure BeginTag where
  /-- The spaces and tabs before the tag, if nothing else is before it on its line. -/
  indent : String
  kind : String
  args : Option String
  /-- A self-closing tag is a block of its own, without contents. -/
  selfClosing : Bool
deriving DecidableEq, Repr

inductive Directive
  | opening (tag : BeginTag)
  | closing
deriving DecidableEq, Repr

end AssetBlocks
