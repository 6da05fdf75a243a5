import AssetBlocks.Proofs.Occurrence
import AssetBlocks.Proofs.Parts
import AssetBlocks.Proofs.Steps

/-! What the built-in handlers put in place of a block. It is made of fixed texts, in which
no directive begins or ends, and of parts of the arguments and the contents of the block; so
where these are free of directives, the replacement is too. -/
namespace AssetBlocks
open Text Directive

section Free
variable {tag : List Char}

/-- Text between fixed texts, of which the first holds no mark of a comment and the second
none of its dashes. -/
theorem free_between (before behind : String) {text : String} (mark : '!' ∉ before.toList)
    (last : before.toList.getLast? ≠ some '<') (mark' : '!' ∉ behind.toList)
    (dash : '-' ∉ behind.toList) (first : behind.toList.head? ≠ some '>')
    (free : Free tag text.toList) : Free tag (before ++ text ++ behind).toList := by
  rw [String.toList_append, String.toList_append]
  refine .append (.append (.of_mark mark) free ?_) (.of_mark mark') ?_
  · exact Crosses.not_of_mark mark last
  · exact Crosses.not_of_dash dash first

theorem free_scriptTag {src : String} (free : Free tag src.toList) :
    Free tag (scriptTag src).toList :=
  free_between "<script src=\"" "\"></script>"
    (by decide) (by decide) (by decide) (by decide) (by decide) free

theorem free_linkTag {href : String} (free : Free tag href.toList) :
    Free tag (Stylesheets.linkTag href).toList :=
  free_between ("<link rel=\"stylesheet\" type=\"" ++ "text/css" ++ "\" href=\"") "\">"
    (by decide) (by decide) (by decide) (by decide) (by decide) free

theorem free_blank_append {blank cs : List Char} (blanks : ∀ c ∈ blank, isBlank c = true)
    (free : Free tag cs) : Free tag (blank ++ cs) := by
  have mark : '!' ∉ blank := fun inside => absurd (blanks _ inside) (by decide)
  refine .append (.of_mark mark) free (Crosses.not_of_mark mark ?_)
  intro last
  exact absurd (blanks _ (List.mem_of_getLast? last)) (by decide)

theorem free_append_blank {blank cs : List Char} (blanks : ∀ c ∈ blank, isBlank c = true)
    (free : Free tag cs) : Free tag (cs ++ blank) := by
  have mark : '!' ∉ blank := fun inside => absurd (blanks _ inside) (by decide)
  have dash : '-' ∉ blank := fun inside => absurd (blanks _ inside) (by decide)
  refine .append free (.of_mark mark) (Crosses.not_of_dash dash ?_)
  intro first
  exact absurd (blanks _ (List.mem_of_head? first)) (by decide)

theorem free_lines (unbroken : '\n' ∉ tag) {indent : String} {lines : List String}
    (gaps : ∀ c ∈ indent.toList, isGap c = true) (free : ∀ line ∈ lines, Free tag line.toList) :
    Free tag (Replacement.render indent (.lines lines)).toList := by
  simp only [Replacement.render]
  induction lines with
  | nil => exact .nil
  | cons line lines ih =>
    have first := free line (by simp)
    cases lines with
    | nil => simpa using first
    | cons next lines =>
      have rest := ih fun other inside => free other (by simp [inside])
      have parts : (String.intercalate ("\n" ++ indent) (line :: next :: lines)).toList =
          line.toList ++ (('\n' :: indent.toList) ++
            (String.intercalate ("\n" ++ indent) (next :: lines)).toList) := by
        rw [String.intercalate_cons_cons]
        simp
      have blanks : ∀ c ∈ '\n' :: indent.toList, isBlank c = true := by
        intro c inside
        rcases List.mem_cons.mp inside with rfl | inside
        · decide
        · exact isBlank_of_isGap (gaps c inside)
      rw [parts]
      refine .append first (free_blank_append blanks rest) ?_
      exact Crosses.not_of_newline_behind unbroken (Or.inr rfl)

theorem free_dropOpening {cs : List Char} (free : Free tag cs) :
    Free tag (Uncomment.dropOpening cs) := by
  unfold Uncomment.dropOpening Uncomment.dropMarker
  split
  · next rest opened =>
    have within : rest <:+: cs := by
      have behind : rest <:+ cs.dropWhile isBlank := by
        rw [after?_eq_some.mp opened]
        exact List.suffix_append _ _
      exact (behind.trans (List.dropWhile_suffix _)).isInfix
    exact free_blank_append (fun c inside => List.mem_takeWhile_imp inside) (free.mono within)
  · exact free

theorem free_dropClosing {cs : List Char} (free : Free tag cs) :
    Free tag (Uncomment.dropClosing cs) := by
  unfold Uncomment.dropClosing Uncomment.dropMarker
  split
  · next rest closed =>
    have within : rest.reverse <:+: cs := by
      have behind : rest <:+ cs.reverse.dropWhile isBlank := by
        rw [after?_eq_some.mp closed]
        exact List.suffix_append _ _
      have whole := (behind.trans (List.dropWhile_suffix _)).isInfix
      rwa [← List.reverse_infix, List.reverse_reverse] at whole
    rw [List.reverse_append]
    refine free_append_blank ?_ (free.mono within)
    exact fun c inside => List.mem_takeWhile_imp (List.mem_reverse.mp inside)
  · rwa [List.reverse_reverse]

end Free

/-- A block without a directive in its arguments and contents. -/
structure Block.Clean (tag : List Char) (b : Block) : Prop where
  args : Free tag (b.args.getD "").toList
  contents : Free tag (b.contents.getD "").toList

section makes
variable {tag : List Char} {b : Block} {ctx : Context} {dest : Destination} {e : Element}

def AllFree (tag : List Char) (texts : List String) : Prop := ∀ text ∈ texts, Free tag text.toList

theorem destinationArgument_makes (clean : b.Clean tag) :
    (destinationArgument b ctx).Makes fun dest => Free tag dest.short.toList := by
  unfold destinationArgument
  split
  · intro a made
    cases made
  · next short others same =>
    refine Log.makes_bind fun _ => Log.makes_pure ?_
    have first : short ∈ Arguments.split (b.args.getD "") 0 := by simp [same]
    exact clean.args.mono (Arguments.split_within first)

theorem addTag_makes {text : String} (free : Free tag text.toList) :
    (Elements.addTag text).Makes (AllFree tag) := by
  refine Log.makes_bind fun _ => Log.makes_pure ?_
  intro other inside
  rwa [List.mem_singleton.mp inside]

theorem AllFree.nil : AllFree tag [] := by
  intro text inside
  cases inside

theorem AllFree.append {first second : List String} (free : AllFree tag first)
    (free' : AllFree tag second) : AllFree tag (first ++ second) := by
  intro text inside
  rcases List.mem_append.mp inside with inside | inside
  · exact free text inside
  · exact free' text inside

theorem startModule_makes {main : String} (free : Free tag main.toList)
    (attributes : ∀ key value, e.attribute? key = some value → Free tag value.toList) :
    (Scripts.startModule ctx e main).Makes (AllFree tag) := by
  have dest : Free tag ((e.attribute? "data-dest").getD main).toList := by
    cases has : e.attribute? "data-dest" with
    | none => exact free
    | some value => exact attributes _ _ has
  refine (addTag_makes (free_scriptTag dest)).bind fun tags fine => ?_
  exact Log.makes_bind fun _ => Log.makes_pure fine

theorem scripts_one_makes (free : Free tag dest.short.toList)
    (attributes : ∀ key value, e.attribute? key = some value → Free tag value.toList)
    (started : Bool) : (Scripts.one ctx dest started e).Makes (AllFree tag) := by
  refine Log.makes_bind fun _ => ?_
  split
  · exact Log.makes_bind fun _ => Log.makes_pure .nil
  · refine Log.makes_bind fun isFile => ?_
    split
    · have bundle := addTag_makes (free_scriptTag free)
      refine Log.makes_either (Log.makes_pure .nil) bundle fun bundleTags fine => ?_
      refine Log.makes_bind fun _ => ?_
      split
      · exact (Log.makes_pure .nil).bind fun _ fine' => Log.makes_pure (fine.append fine')
      · next main has =>
        have module : (Scripts.startModule ctx e main).Makes (AllFree tag) :=
          startModule_makes (attributes _ _ has) attributes
        exact module.bind fun _ fine' => Log.makes_pure (fine.append fine')
    · exact Log.makes_bind fun _ => Log.makes_pure .nil

theorem stylesheets_one_makes (free : Free tag dest.short.toList) (started : Bool) :
    (Stylesheets.one ctx dest started e).Makes (AllFree tag) := by
  refine Log.makes_bind fun _ => ?_
  split
  · exact Log.makes_bind fun _ => Log.makes_pure .nil
  · refine Log.makes_bind fun isFile => ?_
    split
    · have compiled := addTag_makes (free_linkTag free)
      refine Log.makes_either (Log.makes_pure .nil) compiled fun tags fine => ?_
      exact Log.makes_bind fun _ => Log.makes_pure fine
    · exact Log.makes_bind fun _ => Log.makes_pure .nil

theorem all_makes {one : Bool → Element → Trace HandlerError (List String)}
    {elements : List Element}
    (each : ∀ e ∈ elements, ∀ started, (one started e).Makes (AllFree tag)) (started : Bool) :
    (Elements.all one started elements).Makes (AllFree tag) := by
  induction elements generalizing started with
  | nil => exact Log.makes_pure .nil
  | cons e elements ih =>
    refine (each e (by simp) started).bind fun _ fine => ?_
    refine (ih (fun other inside => each other (by simp [inside])) _).bind fun _ fine' => ?_
    exact Log.makes_pure (fine.append fine')

theorem elements_makes {name : String}
    {one : Context → Destination → Bool → Element → Trace HandlerError (List String)}
    (unbroken : '\n' ∉ tag) (clean : b.Clean tag) (gaps : ∀ c ∈ b.indent.toList, isGap c = true)
    (each : ∀ dest : Destination, Free tag dest.short.toList → ∀ e ∈ Elements.inside name b,
      ∀ started, (one ctx dest started e).Makes (AllFree tag)) :
    (Elements.process name one b ctx).Makes fun made =>
      Free tag (made.render b.indent).toList := by
  refine (destinationArgument_makes clean).bind fun dest free => ?_
  refine (all_makes (each dest free) false).bind fun tags fine => ?_
  exact Log.makes_pure (free_lines unbroken gaps fine)

theorem scripts_makes (unbroken : '\n' ∉ tag) (clean : b.Clean tag)
    (gaps : ∀ c ∈ b.indent.toList, isGap c = true) :
    (Scripts.process b ctx).Makes fun made => Free tag (made.render b.indent).toList := by
  refine elements_makes unbroken clean gaps fun dest free e inside => scripts_one_makes free ?_
  intro key value has
  exact clean.contents.mono (Element.attribute?_within inside has)

theorem stylesheets_makes (unbroken : '\n' ∉ tag) (clean : b.Clean tag)
    (gaps : ∀ c ∈ b.indent.toList, isGap c = true) :
    (Stylesheets.process b ctx).Makes fun made => Free tag (made.render b.indent).toList :=
  elements_makes unbroken clean gaps fun _ free _ _ => stylesheets_one_makes free

theorem module_destination_makes {args : ModuleArguments} (main : Free tag args.main.toList)
    (given : ∀ dest ∈ args.dest, Free tag dest.toList) :
    (Modules.destination args ctx).Makes fun dest => Free tag dest.short.toList := by
  unfold Modules.destination
  split
  · next text has => exact Log.makes_bind fun _ => Log.makes_pure (given text has)
  · refine Log.makes_pure ?_
    change Free tag (args.main ++ ".js").toList
    rw [String.toList_append]
    exact .append main (.of_mark (by decide)) (Crosses.not_of_dash (by decide) (by decide))

theorem modules_makes (clean : b.Clean tag) :
    (Modules.process b ctx).Makes fun made => Free tag (made.render b.indent).toList := by
  have single {dest : Destination} (free : Free tag dest.short.toList) :
      Free tag (Replacement.render b.indent (.lines [scriptTag dest.short])).toList := by
    simpa [Replacement.render] using free_scriptTag free
  have parsed : (Trace.ofExcept (ModuleArguments.parse b.args)).Makes fun args =>
      Free tag args.main.toList ∧ ∀ dest ∈ args.dest, Free tag dest.toList := by
    intro args made
    obtain ⟨main, dest⟩ := ModuleArguments.parse_within made
    exact ⟨clean.args.mono main, fun text has => clean.args.mono (dest text has)⟩
  refine parsed.bind fun args fine => Log.makes_bind fun _ => ?_
  refine (module_destination_makes fine.1 fine.2).bind fun dest free => ?_
  refine Log.makes_bind fun target => ?_
  dsimp only
  split
  · refine Log.makes_bind fun _ => Log.makes_bind fun _ => Log.makes_bind fun _ => ?_
    exact Log.makes_pure (single free)
  · exact Log.makes_bind fun _ => Log.makes_bind fun _ => Log.makes_pure (single free)

theorem uncomment_makes (clean : b.Clean tag) :
    Free tag ((Uncomment.process b).render b.indent).toList := by
  unfold Uncomment.process
  split
  · exact .nil
  · next contents has =>
    have free := clean.contents
    rw [has] at free
    simp only [Replacement.render, String.toList_ofList]
    exact free_dropClosing (free_dropOpening free)

end makes

/-- A kind that is served at all is served by one of the built-in handlers. -/
def Registry.Builtin (r : Registry) : Prop :=
  ∀ kind h, r.get? kind = some h → ∃ name, Handler.builtin? name = some h

theorem Registry.withBuiltins_builtin : Registry.withBuiltins.Builtin :=
  fun kind _ found => ⟨kind, found⟩

theorem Registry.Builtin.alias? {r added : Registry} {kind name : String} (builtin : r.Builtin)
    (made : r.alias? kind name = some added) : added.Builtin := by
  obtain ⟨h, known, rfl⟩ := Option.map_eq_some_iff.mp made
  intro other h' found
  by_cases same : other = kind
  · subst same
    rw [get?_insert_self] at found
    obtain rfl := Option.some.inj found
    exact ⟨name, known⟩
  · rw [get?_insert_of_ne r h same] at found
    exact builtin other h' found

/-- No built-in handler puts a directive together from a block that has none in it. -/
theorem Handler.builtin_makes {tag : List Char} {h : Handler} {name : String} {b : Block}
    (unbroken : '\n' ∉ tag) (builtin : Handler.builtin? name = some h) (clean : b.Clean tag)
    (gaps : ∀ c ∈ b.indent.toList, isGap c = true) (ctx : Context) :
    (h.process b ctx).Makes fun made => Free tag (made.render b.indent).toList := by
  rcases Handler.builtin?_cases builtin with rfl | rfl | rfl | rfl
  · exact Log.makes_pure (uncomment_makes clean)
  · exact scripts_makes unbroken clean gaps
  · exact stylesheets_makes unbroken clean gaps
  · exact modules_makes clean

namespace Processor
variable {p : Processor} {tag : BeginTag} {contents : Option String}

/-- What a block becomes has a directive in it only if its arguments or its contents have. -/
theorem Becomes.free {text : String} (becomes : p.Becomes tag contents text)
    (builtin : p.registry.Builtin) (gaps : ∀ c ∈ tag.indent.toList, isGap c = true)
    (args : Free p.tag.name.toList (tag.args.getD "").toList)
    (inside : Free p.tag.name.toList (contents.getD "").toList) :
    Free p.tag.name.toList text.toList := by
  unfold Becomes handling? at becomes
  cases found : p.registry.get? tag.kind with
  | none =>
    simp only [found, Option.map_none] at becomes
    subst becomes
    exact .nil
  | some handler =>
    simp only [found, Option.map_some] at becomes
    obtain ⟨made, ended, rfl⟩ := becomes
    obtain ⟨name, known⟩ := builtin tag.kind handler found
    exact Handler.builtin_makes (b := ⟨tag.kind, tag.args, contents, tag.indent⟩)
      p.tag.newline_notMem known ⟨args, inside⟩ gaps p.context made ended

end Processor
end AssetBlocks
