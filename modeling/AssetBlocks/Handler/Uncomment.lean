import AssetBlocks.Handler.Basic
import AssetBlocks.Text.Blank
import AssetBlocks.Text.Pattern

/-! Markup that is kept in a comment until the document is built: the block becomes
its contents without the comment markers at their two ends. -/
namespace AssetBlocks.Uncomment
open Text

/-- A marker goes if only white space is before it. -/
def dropMarker (marker cs : List Char) : List Char :=
  match after? marker (cs.dropWhile isBlank) with
  | some rest => cs.takeWhile isBlank ++ rest
  | none => cs

def dropOpening (cs : List Char) : List Char := dropMarker ['<', '!', '-', '-'] cs

def dropClosing (cs : List Char) : List Char := (dropMarker ['>', '-', '-'] cs.reverse).reverse

def process (block : Block) : Replacement :=
  match block.contents with
  | none => .empty
  | some contents => .text (String.ofList (dropClosing (dropOpening contents.toList)))

end AssetBlocks.Uncomment
