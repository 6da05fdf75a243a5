import AssetBlocks.Text.Blank
import AssetBlocks.Text.CaseFold
import AssetBlocks.Text.Pattern

/-! Elements of HTML with their attributes. Only start tags with attributes count, and
of these only the attributes in double quotes, with a space before them and a value
that is not empty. -/
namespace AssetBlocks
open Text

structure Element where
  html : String
  /-- Each name once, in lower case, with the last of its values. -/
  attributes : List (String × String)
deriving DecidableEq, Repr

namespace Element

/-- A letter in either case and whatever folds to one, a digit, the underscore or the
hyphen. -/
def isNameChar (c : Char) : Bool :=
  c.isDigit || c == '_' || c == '-' || (97 ≤ foldCode c.toNat && foldCode c.toNat ≤ 122)

def attributeAt? : List Char → Option ((List Char × List Char) × List Char)
  | ' ' :: cs =>
    let name := cs.takeWhile isNameChar
    match cs.dropWhile isNameChar with
    | '=' :: '"' :: quoted =>
      let value := quoted.takeWhile (· != '"')
      match quoted.dropWhile (· != '"') with
      | '"' :: rest => if name = [] ∨ value = [] then none else some ((name, value), rest)
      | _ => none
    | _ => none
  | _ => none

/-- A name without regard to case, letter for letter. -/
def afterAlike? : List Char → List Char → Option (List Char)
  | [], cs => some cs
  | _ :: _, [] => none
  | w :: ws, c :: cs => if alike w c then afterAlike? ws cs else none

def tagEnd? : List Char → Option (List Char)
  | '/' :: '>' :: rest => some rest
  | '>' :: rest => some rest
  | _ => none

/-- The fewest characters of one line, one at least, that an end of a tag follows. -/
def tagBody? : List Char → Option (List Char × List Char)
  | [] => none
  | c :: cs =>
    if c = '\n' then none
    else match tagEnd? cs with
      | some rest => some ([c], rest)
      | none =>
        match tagBody? cs with
        | some (body, rest) => some (c :: body, rest)
        | none => none

/-- A start tag: what stands behind its name, with the space that must be there. -/
def tagAt? (name : List Char) : List Char → Option (List Char × List Char)
  | '<' :: cs =>
    match afterAlike? name cs with
    | some (' ' :: inner) =>
      match tagBody? inner with
      | some (body, rest) => some (' ' :: body, rest)
      | none => none
    | _ => none
  | _ => none

theorem attributeAt?_split {cs rest : List Char} {a : List Char × List Char}
    (found : attributeAt? cs = some (a, rest)) : ∃ used, used ≠ [] ∧ cs = used ++ rest := by
  unfold attributeAt? at found
  split at found
  · next inner =>
    simp only at found
    split at found
    · next quoted named =>
      split at found
      · next closed =>
        split at found
        · simp at found
        · simp only [Option.some.injEq, Prod.mk.injEq] at found
          obtain ⟨_, rfl⟩ := found
          obtain ⟨before, same⟩ := List.dropWhile_suffix (l := inner) isNameChar
          obtain ⟨value, split⟩ := List.dropWhile_suffix (l := quoted) (· != '"')
          refine ⟨' ' :: before ++ ['=', '"'] ++ value ++ ['"'], by simp, ?_⟩
          rw [closed] at split
          rw [named, ← split] at same
          simp [← same]
      · simp at found
    · simp at found
  · simp at found

theorem afterAlike?_suffix {name cs rest : List Char}
    (found : afterAlike? name cs = some rest) : rest <:+ cs := by
  induction name generalizing cs with
  | nil => simp only [afterAlike?, Option.some.injEq] at found; simp [found]
  | cons w ws ih =>
    cases cs with
    | nil => simp [afterAlike?] at found
    | cons c cs =>
      rw [afterAlike?] at found
      split at found
      · exact (ih found).trans (List.suffix_cons c cs)
      · simp at found

theorem tagEnd?_suffix {cs rest : List Char} (found : tagEnd? cs = some rest) : rest <:+ cs := by
  unfold tagEnd? at found
  split at found <;> simp only [Option.some.injEq, reduceCtorEq] at found <;> subst found
  · exact List.suffix_append ['/', '>'] _
  · exact List.suffix_append ['>'] _

theorem tagBody?_suffix {cs body rest : List Char} (found : tagBody? cs = some (body, rest)) :
    rest <:+ cs := by
  induction cs generalizing body with
  | nil => simp [tagBody?] at found
  | cons c cs ih =>
    rw [tagBody?] at found
    split at found
    · simp at found
    · split at found
      · next ended =>
        simp only [Option.some.injEq, Prod.mk.injEq] at found
        exact found.2 ▸ (tagEnd?_suffix ended).trans (List.suffix_cons c cs)
      · split at found
        · next later =>
          simp only [Option.some.injEq, Prod.mk.injEq] at found
          obtain ⟨_, rfl⟩ := found
          exact (ih later).trans (List.suffix_cons c cs)
        · simp at found

theorem tagAt?_split {name cs rest body : List Char} (found : tagAt? name cs = some (body, rest)) :
    ∃ used, used ≠ [] ∧ cs = used ++ rest := by
  unfold tagAt? at found
  split at found
  · next inner =>
    split at found
    · next named =>
      split at found
      · next ended =>
        simp only [Option.some.injEq, Prod.mk.injEq] at found
        obtain ⟨_, rfl⟩ := found
        obtain ⟨used, same⟩ := (tagBody?_suffix ended).trans
          ((List.suffix_cons ' ' _).trans (afterAlike?_suffix named))
        exact ⟨'<' :: used, by simp, by simp [← same]⟩
      · simp at found
    · simp at found
  · simp at found

def attributePattern : Pattern (List Char × List Char) where
  at? := fun _ => attributeAt?
  consumes := attributeAt?_split

def tagPattern (name : List Char) : Pattern (List Char) where
  at? := fun _ => tagAt? name
  consumes := tagAt?_split

def put (name value : String) : List (String × String) → List (String × String)
  | [] => [(name, value)]
  | (n, v) :: rest => if n = name then (name, value) :: rest else (n, v) :: put name value rest

/-- The attributes in the text behind the name of a tag. -/
def attributesOf (body : List Char) : List (String × String) :=
  (attributePattern.all true body).1.foldl (fun all found =>
    put (String.ofList (found.value.1.map Char.toLower)) (String.ofList found.value.2) all) []

/-- The elements of one name, whatever case it is written in, in their order. -/
def extract (name html : String) : List Element :=
  ((tagPattern name.toList).all true html.toList).1.map fun found =>
    ⟨String.ofList found.text, attributesOf found.value⟩

def attribute? (e : Element) (name : String) : Option String := e.attributes.lookup name

end Element
end AssetBlocks
