import AssetBlocks.Event

/-! Computations that report something and ask for files. A failure ends the computation
and keeps what was reported before it. -/
namespace AssetBlocks

/-- What was reported, which paths were asked for, in order, and how it ended. -/
structure Log (ρ ε α : Type) where
  events : List ρ
  asked : List Path
  outcome : Except ε α

namespace Log
variable {ρ ε α β : Type}

def ok (a : α) : Log ρ ε α := ⟨[], [], .ok a⟩

def fail (e : ε) : Log ρ ε α := ⟨[], [], .error e⟩

def andThen (first : Log ρ ε α) (next : α → Log ρ ε β) : Log ρ ε β :=
  match first.outcome with
  | .error e => ⟨first.events, first.asked, .error e⟩
  | .ok a => ⟨first.events ++ (next a).events, first.asked ++ (next a).asked, (next a).outcome⟩

instance : Monad (Log ρ ε) where
  pure := ok
  bind := andThen

def emit (event : ρ) : Log ρ ε Unit := ⟨[event], [], .ok ()⟩

/-- The same computation with its reports and its failure put into other words. -/
def map {σ δ : Type} (f : ρ → σ) (g : ε → δ) (t : Log ρ ε α) : Log σ δ α :=
  ⟨t.events.map f, t.asked, t.outcome.mapError g⟩

theorem pure_bind (a : α) (next : α → Log ρ ε β) : (pure a >>= next) = next a := rfl

theorem bind_assoc {γ : Type} (t : Log ρ ε α) (f : α → Log ρ ε β) (g : β → Log ρ ε γ) :
    (t >>= f >>= g) = (t >>= fun a => f a >>= g) := by
  obtain ⟨events, asked, outcome⟩ := t
  cases outcome with
  | error => rfl
  | ok a => cases h : (f a).outcome <;> simp [bind, andThen, h]

theorem emit_bind (event : ρ) (next : Unit → Log ρ ε α) :
    (emit event >>= next) = ⟨event :: (next ()).events, (next ()).asked, (next ()).outcome⟩ := rfl

theorem bind_of_ok {t : Log ρ ε α} {a : α} (h : t.outcome = .ok a) (next : α → Log ρ ε β) :
    (t >>= next) =
      ⟨t.events ++ (next a).events, t.asked ++ (next a).asked, (next a).outcome⟩ := by
  simp only [bind, andThen, h]

theorem bind_of_error {t : Log ρ ε α} {e : ε} (h : t.outcome = .error e) (next : α → Log ρ ε β) :
    (t >>= next) = ⟨t.events, t.asked, .error e⟩ := by
  simp only [bind, andThen, h]

/-- What the computation makes, if it makes something, is as it is said to be. -/
def Makes (t : Log ρ ε α) (post : α → Prop) : Prop := ∀ a, t.outcome = .ok a → post a

theorem makes_pure {post : α → Prop} {a : α} (holds : post a) :
    (pure a : Log ρ ε α).Makes post := by
  intro a' made
  obtain rfl := Except.ok.inj made
  exact holds

theorem Makes.bind {t : Log ρ ε α} {next : α → Log ρ ε β} {mid : α → Prop} {post : β → Prop}
    (first : t.Makes mid) (second : ∀ a, mid a → (next a).Makes post) :
    (t >>= next).Makes post := by
  intro b made
  cases ended : t.outcome with
  | error e =>
    rw [bind_of_error ended] at made
    cases made
  | ok a =>
    rw [bind_of_ok ended] at made
    exact second a (first a ended) b made

theorem makes_bind {t : Log ρ ε α} {next : α → Log ρ ε β} {post : β → Prop}
    (second : ∀ a, (next a).Makes post) : (t >>= next).Makes post := by
  have any : t.Makes fun _ => True := fun _ _ => trivial
  exact any.bind fun a _ => second a

theorem makes_either {c : Prop} [Decidable c] {t u : Log ρ ε α} {next : α → Log ρ ε β}
    {mid : α → Prop} {post : β → Prop} (first : t.Makes mid) (other : u.Makes mid)
    (second : ∀ a, mid a → (next a).Makes post) :
    (if c then t >>= next else u >>= next).Makes post := by
  split
  · exact first.bind second
  · exact other.bind second

end Log

abbrev Trace (ε : Type) := Log Report ε

namespace Trace
variable {ε α : Type}

def fail (e : ε) : Trace ε α := Log.fail e

def ofExcept (outcome : Except ε α) : Trace ε α := ⟨[], [], outcome⟩

def notice (message : String) : Trace ε Unit := Log.emit (.notice false message)

/-- A message that matters only where all is shown. -/
def verbose (message : String) : Trace ε Unit := Log.emit (.notice true message)

/-- A problem that does not stop the work. -/
def warn (message : String) : Trace ε Unit := Log.emit (.warning message)

def instruct (i : Instruction) : Trace ε Unit := Log.emit (.instruction i)

def ask (isFile : Path → Bool) (p : Path) : Trace ε Bool := ⟨[], [p], .ok (isFile p)⟩

end Trace
end AssetBlocks
