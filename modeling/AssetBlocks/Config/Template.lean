import AssetBlocks.Text.Word

/-! Values with references to variables. A value is taken apart once; what takes the
place of a reference is not looked at again. -/
namespace AssetBlocks.Config
open Text

inductive Piece
  | literal (c : Char)
  /-- A variable and what stands for it where it is not set. -/
  | reference (name : String) (fallback : Option String)
deriving DecidableEq, Repr

abbrev Template := List Piece

namespace Template

/-- The name and the fallback behind the first mark between them. -/
def splitFallback : List Char → List Char × Option (List Char)
  | [] => ([], none)
  | ':' :: '-' :: rest => ([], some rest)
  | c :: rest => (c :: (splitFallback rest).1, (splitFallback rest).2)

def braced (body : List Char) : Piece :=
  match splitFallback body with
  | ([], some _) => .reference (String.ofList body) none
  | (name, fallback) => .reference (String.ofList name) (fallback.map String.ofList)

def ofChars : List Char → Template
  | [] => []
  | '$' :: '$' :: rest => .literal '$' :: ofChars rest
  | '$' :: '\x7b' :: rest =>
    if rest.contains '\x7d' then
      braced (rest.takeWhile (· != '\x7d')) ::
        ofChars ((rest.dropWhile (· != '\x7d')).drop 1)
    else .literal '$' :: .literal '\x7b' :: ofChars rest
  | '$' :: c :: rest =>
    if isWordChar c then
      .reference (String.ofList (c :: rest.takeWhile isWordChar)) none ::
        ofChars (rest.dropWhile isWordChar)
    else .literal '$' :: ofChars (c :: rest)
  | c :: rest => .literal c :: ofChars rest
termination_by cs => cs.length
decreasing_by
  all_goals
    have closing := (List.dropWhile_suffix (l := rest) (· != '\x7d')).length_le
    have word := (List.dropWhile_suffix (l := rest) isWordChar).length_le
    simp only [List.length_drop, List.length_cons]
    omega

def ofString (value : String) : Template := ofChars value.toList

def names (t : Template) : List String :=
  t.filterMap fun
    | .literal _ => none
    | .reference name _ => some name

end Template

/-- What stands in the place of a piece; the name of a variable that is not set, where
there is nothing else to stand for it. -/
def Piece.fill (value? : String → Option String) : Piece → Except String (List Char)
  | .literal c => .ok [c]
  | .reference name fallback =>
    match value? name <|> fallback with
    | some s => .ok s.toList
    | none => .error name

def Template.fill (value? : String → Option String) : Template → Except String (List Char)
  | [] => .ok []
  | piece :: rest =>
    match piece.fill value? with
    | .error name => .error name
    | .ok cs =>
      match fill value? rest with
      | .error name => .error name
      | .ok more => .ok (cs ++ more)

end AssetBlocks.Config
