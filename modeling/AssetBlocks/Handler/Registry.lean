import AssetBlocks.Handler.Scripts
import AssetBlocks.Handler.Stylesheets
import AssetBlocks.Handler.Uncomment

/-! The handlers and the kinds of blocks that they serve. -/
namespace AssetBlocks

inductive Handler
  | uncomment
  | scripts
  | stylesheets
  | modules
  /-- A handler of the caller, with the name that it goes by. What it does depends on its block
  and its context alone: nothing is kept from one call to the next. -/
  | custom (name : String) (process : Block → Context → Trace HandlerError Replacement)

namespace Handler

def process (h : Handler) (block : Block) (ctx : Context) : Trace HandlerError Replacement :=
  match h with
  | uncomment => pure (Uncomment.process block)
  | scripts => Scripts.process block ctx
  | stylesheets => Stylesheets.process block ctx
  | modules => Modules.process block ctx
  | custom _ process => process block ctx

def builtins : List (String × Handler) :=
  [("uncomment", uncomment), ("js", scripts), ("less", stylesheets), ("requirejs", modules)]

/-- The names that a configuration may use and that messages list, in this order. -/
def builtinNames : List String := ["uncomment", "js", "less", "requirejs"]

def builtin? (name : String) : Option Handler := builtins.lookup name

theorem map_fst_builtins : builtins.map Prod.fst = builtinNames := rfl

theorem builtin?_isSome {name : String} : (builtin? name).isSome = builtinNames.contains name := by
  simp only [builtin?, ← map_fst_builtins, builtins, List.lookup_cons, List.lookup_nil, List.map,
    List.contains_cons]
  repeat' split
  all_goals simp_all

theorem builtin?_cases {name : String} {h : Handler} (known : builtin? name = some h) :
    h = uncomment ∨ h = scripts ∨ h = stylesheets ∨ h = modules := by
  obtain ⟨before, after, same, _⟩ := List.lookup_eq_some_iff.mp known
  have inside : (name, h) ∈ builtins := by
    rw [same]
    simp
  simp only [builtins, List.mem_cons, Prod.mk.injEq, List.not_mem_nil, or_false] at inside
  exact inside.imp And.right (Or.imp And.right (Or.imp And.right And.right))

end Handler

/-- Which handler serves a kind. The latest entry for a kind is the one that counts. -/
structure Registry where
  entries : List (String × Handler)

namespace Registry

def empty : Registry := ⟨[]⟩

def insert (r : Registry) (kind : String) (h : Handler) : Registry := ⟨(kind, h) :: r.entries⟩

/-- A handler of the caller serves the kind that it is named after. -/
def register (r : Registry) (name : String)
    (process : Block → Context → Trace HandlerError Replacement) : Registry :=
  r.insert name (.custom name process)

def get? (r : Registry) (kind : String) : Option Handler := r.entries.lookup kind

def contains (r : Registry) (kind : String) : Bool := (r.get? kind).isSome

def withBuiltins : Registry := ⟨Handler.builtins⟩

def alias? (r : Registry) (kind builtin : String) : Option Registry :=
  (Handler.builtin? builtin).map (r.insert kind)

@[simp] theorem get?_insert_self (r : Registry) (kind : String) (h : Handler) :
    (r.insert kind h).get? kind = some h := by simp [get?, insert]

theorem get?_insert_of_ne (r : Registry) {kind other : String} (h : Handler) (ne : other ≠ kind) :
    (r.insert kind h).get? other = r.get? other := by
  simp [get?, insert, List.lookup_cons, beq_eq_false_iff_ne.mpr ne]

end Registry
end AssetBlocks
