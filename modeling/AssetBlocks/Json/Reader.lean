import AssetBlocks.Json.Numeral

/-! Reading JSON. The first fault of a text is found from left to right; containers
nest to a fixed depth, which is what the reading recurses on. -/
namespace AssetBlocks.Json
open Text

def isJsonBlank (c : Char) : Bool := c == ' ' || c == '\n' || c == '\t' || c == '\r'

def skipBlank (cs : List Char) : List Char := cs.dropWhile isJsonBlank

def hexValue? (c : Char) : Option Nat :=
  if '0' ≤ c ∧ c ≤ '9' then some (c.toNat - '0'.toNat)
  else if 'a' ≤ c ∧ c ≤ 'f' then some (c.toNat - 'a'.toNat + 10)
  else if 'A' ≤ c ∧ c ≤ 'F' then some (c.toNat - 'A'.toNat + 10)
  else none

def hex4 (cs : List Char) : Reading Nat :=
  -- bytes, not characters: two wide ones are an invalid escape, not the end of the text
  if byteLength cs < 4 then halt .endInText []
  else match cs with
    | a :: b :: c :: d :: rest =>
      match hexValue? a, hexValue? b, hexValue? c, hexValue? d with
      | some a, some b, some c, some d => .ok (((a * 16 + b) * 16 + c) * 16 + d, rest)
      | _, _, _, _ => .error ⟨.invalidEscape, cs, 4⟩
    | _ => .error ⟨.invalidEscape, cs, 4⟩

def trailing (high : Nat) (cs : List Char) : Reading Char :=
  match cs with
  | [] => halt .endInText []
  | ['\\'] => halt .endInText []
  | '\\' :: 'u' :: rest =>
    match hex4 rest with
    | .error e => .error e
    | .ok (low, rest) =>
      if 0xDC00 ≤ low ∧ low ≤ 0xDFFF then
        .ok (Char.ofNat (0x10000 + (high - 0xD800) * 0x400 + (low - 0xDC00)), rest)
      else .error ⟨.loneSurrogate, rest, 0⟩
  | '\\' :: c :: rest => halt .endOfHexEscape (c :: rest)
  | _ => halt .endOfHexEscape cs

/-- The code unit behind a `u`, with its partner if it is a leading surrogate. -/
def unicodeEscape (cs : List Char) : Reading Char :=
  match hex4 cs with
  | .error e => .error e
  | .ok (unit, rest) =>
    if 0xDC00 ≤ unit ∧ unit ≤ 0xDFFF then .error ⟨.loneSurrogate, rest, 0⟩
    else if 0xD800 ≤ unit ∧ unit ≤ 0xDBFF then trailing unit rest
    else .ok (Char.ofNat unit, rest)

def escape (cs : List Char) : Reading Char :=
  match cs with
  | [] => halt .endInText []
  | '"' :: rest => .ok ('"', rest)
  | '\\' :: rest => .ok ('\\', rest)
  | '/' :: rest => .ok ('/', rest)
  | 'b' :: rest => .ok ('\x08', rest)
  | 'f' :: rest => .ok ('\x0c', rest)
  | 'n' :: rest => .ok ('\n', rest)
  | 'r' :: rest => .ok ('\r', rest)
  | 't' :: rest => .ok ('\t', rest)
  | 'u' :: rest => unicodeEscape rest
  | _ => halt .invalidEscape cs

theorem hex4_length {cs rest : List Char} {n : Nat} (ok : hex4 cs = .ok (n, rest)) :
    rest.length ≤ cs.length := by
  unfold hex4 halt at ok
  repeat' split at ok
  all_goals simp at ok
  obtain ⟨_, rfl⟩ := ok
  simp only [List.length_cons]
  omega

theorem trailing_length {cs rest : List Char} {n : Nat} {c : Char}
    (ok : trailing n cs = .ok (c, rest)) : rest.length ≤ cs.length := by
  unfold trailing halt at ok
  split at ok
  all_goals try simp at ok
  split at ok
  · simp at ok
  · next read =>
    split at ok
    · simp only [Except.ok.injEq, Prod.mk.injEq] at ok
      have := hex4_length read
      simp only [List.length_cons, ← ok.2]
      omega
    · simp at ok

theorem unicodeEscape_length {cs rest : List Char} {c : Char}
    (ok : unicodeEscape cs = .ok (c, rest)) : rest.length ≤ cs.length := by
  unfold unicodeEscape at ok
  split at ok
  · simp at ok
  · next read =>
    have short := hex4_length read
    split at ok
    · simp at ok
    · split at ok
      · exact Nat.le_trans (trailing_length ok) short
      · simp only [Except.ok.injEq, Prod.mk.injEq] at ok
        exact ok.2 ▸ short

theorem escape_length {cs rest : List Char} {c : Char} (ok : escape cs = .ok (c, rest)) :
    rest.length ≤ cs.length := by
  unfold escape halt at ok
  split at ok
  case h_10 => exact Nat.le_succ_of_le (unicodeEscape_length ok)
  all_goals simp at ok
  all_goals obtain ⟨_, rfl⟩ := ok; simp

def chars : List Char → Reading (List Char)
  | [] => halt .endInText []
  | '"' :: rest => .ok ([], rest)
  | '\\' :: rest =>
    match _read : escape rest with
    | .error e => .error e
    | .ok (c, after) =>
      match chars after with
      | .error e => .error e
      | .ok (more, after) => .ok (c :: more, after)
  | c :: rest =>
    if c.toNat < 0x20 then halt .controlCharacter (c :: rest)
    else match chars rest with
      | .error e => .error e
      | .ok (more, after) => .ok (c :: more, after)
termination_by cs => cs.length
decreasing_by
  · exact Nat.lt_succ_of_le (escape_length _read)
  · simp

def textLiteral (cs : List Char) : Reading String :=
  match chars cs with
  | .error e => .error e
  | .ok (cs, rest) => .ok (String.ofList cs, rest)

/-- What is left of a word once its first letter has told it from the others. -/
def word (value : Json) : List Char → List Char → Reading Json
  | [], cs => .ok (value, cs)
  | _ :: _, [] => halt .endInValue []
  | w :: ws, c :: cs => if w = c then word value ws cs else halt .expectedWord (c :: cs)

def items (item : List Char → Reading Json) : Nat → Bool → List Char → Reading (List Json)
  | 0, _, cs => halt .endInList cs
  | fuel + 1, first, cs =>
    let next (cs : List Char) : Reading (List Json) :=
      match item cs with
      | .error e => .error e
      | .ok (value, cs) =>
        match items item fuel false cs with
        | .error e => .error e
        | .ok (more, cs) => .ok (value :: more, cs)
    match skipBlank cs with
    | [] => halt .endInList []
    | ']' :: rest => .ok ([], rest)
    | c :: rest =>
      if first then next (c :: rest)
      else if c = ',' then
        match skipBlank rest with
        | [] => halt .endInValue []
        | ']' :: rest => halt .trailingComma (']' :: rest)
        | cs => next cs
      else halt .expectedListCommaOrEnd (c :: rest)

def colon (cs : List Char) : Reading Unit :=
  match skipBlank cs with
  | [] => halt .endInObject []
  | ':' :: rest => .ok ((), rest)
  | cs => halt .expectedColon cs

def field (item : List Char → Reading Json) (cs : List Char) : Reading (String × Json) :=
  match textLiteral cs with
  | .error e => .error e
  | .ok (key, cs) =>
    match colon cs with
    | .error e => .error e
    | .ok ((), cs) =>
      match item cs with
      | .error e => .error e
      | .ok (value, cs) => .ok ((key, value), cs)

def members (item : List Char → Reading Json) :
    Nat → Bool → List Char → Reading (List (String × Json))
  | 0, _, cs => halt .endInObject cs
  | fuel + 1, first, cs =>
    let next (cs : List Char) : Reading (List (String × Json)) :=
      match field item cs with
      | .error e => .error e
      | .ok (field, cs) =>
        match members item fuel false cs with
        | .error e => .error e
        | .ok (more, cs) => .ok (field :: more, cs)
    match skipBlank cs with
    | [] => halt .endInObject []
    | '\x7d' :: rest => .ok ([], rest)
    | c :: rest =>
      if first then if c = '"' then next rest else halt .keyMustBeText (c :: rest)
      else if c = ',' then
        match skipBlank rest with
        | [] => halt .endInValue []
        | '"' :: rest => next rest
        | '\x7d' :: rest => halt .trailingComma ('\x7d' :: rest)
        | cs => halt .keyMustBeText cs
      else halt .expectedObjectCommaOrEnd (c :: rest)

/-- A value whose containers, if they may be nested at all, hold values read by
`nested`. -/
def valueWith (nested : Option (List Char → Reading Json)) (cs : List Char) : Reading Json :=
  match skipBlank cs with
  | [] => halt .endInValue []
  | 'n' :: rest => word .null ['u', 'l', 'l'] rest
  | 't' :: rest => word (.bool true) ['r', 'u', 'e'] rest
  | 'f' :: rest => word (.bool false) ['a', 'l', 's', 'e'] rest
  | '-' :: rest => numeral true rest
  | '"' :: rest =>
    match textLiteral rest with
    | .error e => .error e
    | .ok (s, rest) => .ok (.text s, rest)
  | '[' :: rest =>
    match nested with
    | none => halt .tooDeep ('[' :: rest)
    | some item =>
      match items item (rest.length + 1) true rest with
      | .error e => .error e
      | .ok (values, rest) => .ok (.list values, rest)
  | '\x7b' :: rest =>
    match nested with
    | none => halt .tooDeep ('\x7b' :: rest)
    | some item =>
      match members item (rest.length + 1) true rest with
      | .error e => .error e
      | .ok (fields, rest) => .ok (.object (Fields.ofList fields), rest)
  | c :: rest => if c.isDigit then numeral false (c :: rest) else halt .expectedValue (c :: rest)

def value : Nat → List Char → Reading Json
  | 0 => valueWith none
  | depth + 1 => valueWith (some (value depth))

/-- The greatest number of containers around a value, itself included. -/
def maxDepth : Nat := 127

def read (cs : List Char) : Except Error Json :=
  match value maxDepth cs with
  | .error h => .error (h.locate cs)
  | .ok (v, rest) =>
    match skipBlank rest with
    | [] => .ok v
    | rest => .error (Halt.locate ⟨.trailingCharacters, rest, 1⟩ cs)

end AssetBlocks.Json
