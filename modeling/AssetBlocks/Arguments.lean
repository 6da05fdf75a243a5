import AssetBlocks.Text.Blank

/-! Arguments of a directive: the runs of characters between spaces and tabs. A
limit leaves what follows the last token but one in one piece. -/
namespace AssetBlocks.Arguments
open Text

/-- The first run and what follows the gap behind it. -/
def splitFirst (cs : List Char) : List Char × List Char :=
  (cs.takeWhile (!isGap ·), (cs.dropWhile (!isGap ·)).dropWhile isGap)

theorem splitFirst_length {c : Char} {cs : List Char} (h : isGap c = false) :
    (splitFirst (c :: cs)).2.length < (c :: cs).length := by
  have inner := (List.dropWhile_suffix (l := cs) (!isGap ·)).length_le
  have outer := (List.dropWhile_suffix (l := cs.dropWhile (!isGap ·)) isGap).length_le
  simp only [splitFirst, List.dropWhile_cons, h, Bool.not_false, if_true, List.length_cons]
  omega

/-- The tokens of a text without a gap at its ends. At most `limit` of them, the
last one with all that is left; a limit of zero is none at all. -/
def tokens (limit : Nat) : List Char → List (List Char)
  | [] => []
  | c :: cs =>
    if limit = 1 then [c :: cs]
    else if h : isGap c = true then tokens limit cs
    else
      let rest := (splitFirst (c :: cs)).2
      (splitFirst (c :: cs)).1 :: tokens (limit - 1) rest
termination_by cs => cs.length
decreasing_by
  · simp
  · exact splitFirst_length (by simpa using h)

/-- A limit of one keeps the text as it is; otherwise the gaps at the ends go. -/
def split (args : String) (limit : Nat) : List String :=
  if limit = 1 then [args]
  else (tokens limit (trim isGap args.toList)).map String.ofList

/-- The first token and the trimmed remainder, both empty if there is no token. -/
def next (cs : List Char) : List Char × List Char :=
  match tokens 2 (trim isGap cs) with
  | [first, rest] => (first, rest)
  | [first] => (first, [])
  | _ => ([], [])

end AssetBlocks.Arguments
