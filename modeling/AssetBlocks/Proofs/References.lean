import AssetBlocks.Proofs.Work
import Mathlib.Data.List.Forall2

/-! References in documents. A reference is put behind a directory without the slashes in
front of it, so it never replaces the directory, and blocks that differ in such slashes only
lead to the same paths and ask for the same files. -/
namespace AssetBlocks

namespace Path

/-- The directory with a text behind it, and a slash between them where there is none at the
end of the directory. The text begins with no slash. -/
structure Below (base : Path) (r : String) (p : Path) : Prop where
  text : p.text = base.text ++
    (if base.text = "" ∨ base.text.toList.getLast? = some '/' then "" else "/") ++ r
  relative : r.toList.head? ≠ some '/'

theorem relative_head (reference : String) : (relative reference).toList.head? ≠ some '/' := by
  intro first
  have kept := List.head?_dropWhile_not (· == '/') reference.toList
  rw [relative, String.toList_ofList] at first
  rw [first] at kept
  simp at kept

theorem below_join (base : Path) (reference : String) :
    Below base (relative reference) (base.join (relative reference)) := by
  have plain : Path.isAbsolute ⟨relative reference⟩ = false := by
    simpa [isAbsolute] using relative_head reference
  refine ⟨?_, relative_head reference⟩
  have slash : base.needsSlash = true ↔
      ¬ (base.text = "" ∨ base.text.toList.getLast? = some '/') := by
    simp [needsSlash]
  unfold join
  rw [plain, if_neg Bool.false_ne_true]
  by_cases closed : base.text = "" ∨ base.text.toList.getLast? = some '/'
  · rw [if_neg (fun needed => slash.mp needed closed), if_pos closed, String.append_empty]
  · rw [if_pos (slash.mpr closed), if_neg closed]

theorem Below.unique {base p : Path} {r r' : String} (first : Below base r p)
    (second : Below base r' p) : r = r' :=
  (String.append_right_inj _).mp (first.text.symm.trans second.text)

theorem relative_slashes (n : Nat) (reference : String) :
    relative (String.ofList (List.replicate n '/') ++ reference) = relative reference := by
  rw [relative, String.toList_append, String.toList_ofList, List.dropWhile_append_of_pos, relative]
  intro c inside
  simp [List.eq_of_mem_replicate inside]

/-- References that are one text but for the slashes in front of it. -/
def Alike (first second : String) : Prop :=
  ∃ n k rest, first = String.ofList (List.replicate n '/') ++ rest ∧
    second = String.ofList (List.replicate k '/') ++ rest

theorem Alike.relative {first second : String} (alike : Alike first second) :
    relative first = relative second := by
  obtain ⟨n, k, rest, rfl, rfl⟩ := alike
  rw [relative_slashes, relative_slashes]

theorem Alike.append {first second : String} (alike : Alike first second) (behind : String) :
    Alike (first ++ behind) (second ++ behind) := by
  obtain ⟨n, k, rest, rfl, rfl⟩ := alike
  exact ⟨n, k, rest ++ behind, String.append_assoc .., String.append_assoc ..⟩

end Path

theorem Context.destination_alike (ctx : Context) {first second : String}
    (alike : Path.Alike first second) :
    (ctx.destination first).full = (ctx.destination second).full := by
  simp only [destination, Destination.resolve, alike.relative]

def Element.referring : List String := ["src", "href", "data-main", "data-dest"]

/-- Elements with the same attributes, but for slashes in front of references. -/
structure Element.Alike (e e' : Element) : Prop where
  references : ∀ name ∈ referring, Option.Rel Path.Alike (e.attribute? name) (e'.attribute? name)
  others : ∀ name, name ∉ referring → e.attribute? name = e'.attribute? name

/-- Arguments of module bundles with the same module and destination, but for slashes in
front of them, or ones that cannot be read. -/
def ModuleArguments.Alike : Except HandlerError ModuleArguments →
    Except HandlerError ModuleArguments → Prop
  | .ok args, .ok args' =>
    Path.Alike args.main args'.main ∧ Option.Rel Path.Alike args.dest args'.dest
  | .error _, .error _ => True
  | _, _ => False

/-- Blocks with the same destination and the same elements of a name, but for slashes in front
of references. -/
structure Elements.Alike (name : String) (b b' : Block) : Prop where
  dest : Option.Rel Path.Alike (Arguments.split (b.args.getD "") 0).head?
    (Arguments.split (b'.args.getD "") 0).head?
  elements : List.Forall₂ Element.Alike (inside name b) (inside name b')

/-- Blocks that are the same to a handler, but for slashes in front of references. -/
def Handler.Alike : Handler → Block → Block → Prop
  | scripts, b, b' => Elements.Alike "script" b b'
  | stylesheets, b, b' => Elements.Alike "link" b b'
  | modules, b, b' =>
    ModuleArguments.Alike (ModuleArguments.parse b.args) (ModuleArguments.parse b'.args)
  | uncomment, _, _ => True
  | custom .., b, b' => b = b'

def Trace.leads {ε α : Type} (t : Trace ε α) : List Path :=
  (t.events.filterMap Report.instruction?).map Instruction.dest

section alike
variable {ctx : Context} {e e' : Element} {dest dest' : Destination}

theorem Path.map_relative {given given' : Option String} (rel : Option.Rel Alike given given') :
    given.map Path.relative = given'.map Path.relative := by
  cases rel with
  | some alike => rw [Option.map_some, Option.map_some, alike.relative]
  | none => rfl

theorem Path.relative_getD (given : Option String) (reference : String) :
    Path.relative (given.getD reference) =
      (given.map Path.relative).getD (Path.relative reference) := by
  cases given <;> rfl

theorem flatMap_alike {α β : Type} {R : α → α → Prop} {f g : α → List β} {es es' : List α}
    (related : List.Forall₂ R es es') (same : ∀ e e', R e e' → f e = g e') :
    es.flatMap f = es'.flatMap g := by
  induction related with
  | nil => rfl
  | cons first _ ih => rw [List.flatMap_cons, List.flatMap_cons, same _ _ first, ih]

theorem Context.map_assetPath (ctx : Context) (given : Option String) :
    given.map ctx.assetPath = (given.map Path.relative).map ctx.sourceDir.join := by
  rw [Option.map_map]
  rfl

theorem Scripts.questions_alike (alike : e.Alike e') : questions ctx e = questions ctx e' := by
  rw [questions, questions, ctx.map_assetPath, ctx.map_assetPath,
    Path.map_relative (alike.references "src" (by decide))]

theorem Scripts.accepted_alike (ctx : Context) (alike : e.Alike e') :
    (accepted? ctx e).isSome = (accepted? ctx e').isSome := by
  have found (e : Element) : (accepted? ctx e).isSome =
      ((e.attribute? "src").map Path.relative).any fun r => ctx.isFile (ctx.sourceDir.join r) := by
    unfold accepted? Context.assetPath
    cases e.attribute? "src" with
    | none => rfl
    | some src => simp [Option.filter, apply_ite]
  rw [found, found, Path.map_relative (alike.references "src" (by decide))]

theorem Scripts.moduleWork_alike (alike : e.Alike e') :
    (moduleWork ctx e).map Instruction.dest = (moduleWork ctx e').map Instruction.dest := by
  have leads (e : Element) : (moduleWork ctx e).map Instruction.dest =
      ((e.attribute? "data-main").map Path.relative).elim [] fun main =>
        List.replicate 2
          (ctx.baseDir.join (((e.attribute? "data-dest").map Path.relative).getD main)) := by
    unfold moduleWork
    cases e.attribute? "data-main" with
    | none => rfl
    | some main =>
      simp only [Modules.work, List.map_cons, List.map_nil, moduleDestination,
        Context.destination, Destination.resolve, Path.relative_getD, Option.map_some]
      rfl
  rw [leads, leads, Path.map_relative (alike.references "data-main" (by decide)),
    Path.map_relative (alike.references "data-dest" (by decide))]

theorem Scripts.work_alike (alike : e.Alike e') (same : dest.full = dest'.full) :
    (work ctx dest e).map Instruction.dest = (work ctx dest' e').map Instruction.dest := by
  have leads (dest : Destination) (e : Element) : (work ctx dest e).map Instruction.dest =
      if (accepted? ctx e).isSome then dest.full :: (moduleWork ctx e).map Instruction.dest
      else [] := by
    unfold work
    cases accepted? ctx e <;> rfl
  rw [leads, leads, accepted_alike ctx alike, moduleWork_alike alike, same]

theorem Stylesheets.reference_alike (alike : e.Alike e') :
    (reference? e).map Path.relative = (reference? e').map Path.relative := by
  have parts (e : Element) : (reference? e).map Path.relative =
      ((e.attribute? "href").map Path.relative).filter fun _ =>
        (e.attribute? "rel").isSome && e.attribute? "type" == some styleType := by
    unfold reference? reference
    cases e.attribute? "href" with
    | none => rfl
    | some href =>
      cases e.attribute? "rel" with
      | none => rfl
      | some rel =>
        cases e.attribute? "type" with
        | none => rfl
        | some type =>
          by_cases style : type = styleType <;> simp [style, Option.filter, Except.toOption]
  rw [parts, parts, Path.map_relative (alike.references "href" (by decide)),
    alike.others "rel" (by decide), alike.others "type" (by decide)]

theorem Stylesheets.questions_alike (alike : e.Alike e') :
    questions ctx e = questions ctx e' := by
  rw [questions, questions, ctx.map_assetPath, ctx.map_assetPath, reference_alike alike]

theorem Stylesheets.work_alike (alike : e.Alike e') (same : dest.full = dest'.full) :
    (work ctx dest e).map Instruction.dest = (work ctx dest' e').map Instruction.dest := by
  have leads (dest : Destination) (e : Element) : (work ctx dest e).map Instruction.dest =
      if ((reference? e).map Path.relative).any fun r => ctx.isFile (ctx.sourceDir.join r)
      then [dest.full] else [] := by
    unfold work accepted? Context.assetPath
    cases reference? e with
    | none => rfl
    | some href =>
      simp only [Option.filter, Option.map_some, Option.any_some]
      split <;> rfl
  rw [leads, leads, reference_alike alike, same]

theorem Trace.Does.leads_eq {ε α : Type} {t : Trace ε α} {asked : List Path}
    {work : List Instruction} {a : α} (does : t.Does asked work a) :
    t.leads = work.map Instruction.dest := by
  rw [Trace.leads, does.work]

variable {b b' : Block}

theorem Elements.Deeds.process_alike
    {one : Context → Destination → Bool → Element → Trace HandlerError (List String)}
    (deeds : Deeds one) {name : String} (alike : Elements.Alike name b b')
    (asks : ∀ e e', e.Alike e' → deeds.questions ctx e = deeds.questions ctx e')
    (leads : ∀ (dest dest' : Destination) e e', dest.full = dest'.full → e.Alike e' →
      (deeds.work ctx dest e).map Instruction.dest =
        (deeds.work ctx dest' e').map Instruction.dest) :
    (process name one b ctx).leads = (process name one b' ctx).leads ∧
      (process name one b ctx).asked = (process name one b' ctx).asked := by
  obtain ⟨words, elements⟩ := alike
  cases given : Arguments.split (b.args.getD "") 0 <;>
    cases given' : Arguments.split (b'.args.getD "") 0 <;> rw [given, given'] at words
  · rw [process_fails given ctx, process_fails given' ctx]
    exact ⟨rfl, rfl⟩
  · cases words
  · cases words
  · cases words with
    | some same =>
      have does := deeds.process_does name given ctx
      have does' := deeds.process_does name given' ctx
      rw [does.leads_eq, does'.leads_eq, does.asked, does'.asked, List.map_flatMap,
        List.map_flatMap]
      exact ⟨flatMap_alike elements fun e e' => leads _ _ e e' (ctx.destination_alike same),
        flatMap_alike elements asks⟩

theorem modules_alike (alike : Handler.modules.Alike b b') :
    (Modules.process b ctx).leads = (Modules.process b' ctx).leads ∧
      (Modules.process b ctx).asked = (Modules.process b' ctx).asked := by
  simp only [Handler.Alike] at alike
  cases parsed : ModuleArguments.parse b.args <;>
    cases parsed' : ModuleArguments.parse b'.args <;> rw [parsed, parsed'] at alike
  · rw [Modules.process_fails parsed ctx, Modules.process_fails parsed' ctx]
    exact ⟨rfl, rfl⟩
  · exact alike.elim
  · exact alike.elim
  · next args args' =>
    obtain ⟨main, dest⟩ := alike
    have does := Modules.process_does parsed ctx
    have does' := Modules.process_does parsed' ctx
    have same : (Modules.given args ctx).full = (Modules.given args' ctx).full := by
      simp only [Modules.given, Context.destination, Destination.resolve, Path.relative_getD,
        Path.map_relative dest, (main.append ".js").relative]
    rw [does.leads_eq, does'.leads_eq, does.asked, does'.asked]
    simp only [Modules.work, List.map_cons, List.map_nil, same, and_self]

/-- Slashes in front of references change no path that a handler leads to or asks for. -/
theorem Handler.process_alike {h : Handler} (alike : h.Alike b b') :
    (h.process b ctx).leads = (h.process b' ctx).leads ∧
      (h.process b ctx).asked = (h.process b' ctx).asked := by
  cases h with
  | uncomment => exact ⟨rfl, rfl⟩
  | scripts =>
    exact Scripts.deeds.process_alike alike (fun _ _ => Scripts.questions_alike)
      fun _ _ _ _ same one => Scripts.work_alike one same
  | stylesheets =>
    exact Stylesheets.deeds.process_alike alike (fun _ _ => Stylesheets.questions_alike)
      fun _ _ _ _ same one => Stylesheets.work_alike one same
  | modules => exact modules_alike alike
  | custom name process =>
    obtain rfl : b = b' := alike
    exact ⟨rfl, rfl⟩

end alike

end AssetBlocks
