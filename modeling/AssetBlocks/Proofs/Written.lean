import AssetBlocks.Command.Perform

/-! What is left behind when effects have been carried out. Text that was written to a path is
read from it again, and the messages that stand there are those of the effects in their order. -/
namespace AssetBlocks

theorem Entry.text_file (text : String) : (file text.toUTF8).text = .ok text := by
  have valid : text.toUTF8.IsValidUTF8 := text.isValidUTF8
  rw [Entry.text, String.fromUTF8?, dif_pos valid]
  rfl

namespace FileTree
variable {t written : FileTree} {cwd p : Path} {text : String} {here there target : Location}
  {entry : Entry} {parts before : List String} {part last : String}

theorem walk_append (t : FileTree) (here : Location) (entry : Entry) (first more : List String) :
    t.walk here entry (first ++ more) =
      (t.walk here entry first).bind fun found => t.walk found.1 found.2 more := by
  induction first generalizing here entry with
  | nil => rfl
  | cons part first ih =>
    cases entry with
    | file content => rfl
    | directory =>
      rw [List.cons_append, walk, walk]
      cases t.enter here part with
      | error e => rfl
      | ok next => exact ih next.1 next.2

theorem enter_set (absent : t.get? target ≠ some .directory)
    (entered : t.enter here part = .ok (there, .directory)) (new : Entry) :
    (t.set target new).enter here part = .ok (there, .directory) := by
  unfold enter at entered ⊢
  split
  · next blank => rwa [if_pos blank] at entered
  · next named =>
    rw [if_neg named] at entered
    split
    · next up => rwa [if_pos up] at entered
    · next down =>
      rw [if_neg down] at entered
      split
      · next long => rwa [if_pos long] at entered
      · next fits =>
        rw [if_neg fits] at entered
        cases found : t.get? (here ++ [part]) with
        | none =>
          rw [found] at entered
          cases entered
        | some entry =>
          rw [found] at entered
          obtain ⟨rfl, rfl⟩ := Prod.mk.inj (Except.ok.inj entered)
          have other : here ++ [part] ≠ target := fun same => absent (same ▸ found)
          rw [get?_set_of_ne t new other, found]

/-- A walk that ends in a directory has been in directories only, so nothing is different for
it where something else has changed. -/
theorem walk_set (absent : t.get? target ≠ some .directory)
    (found : t.walk here entry parts = .ok (there, .directory)) (new : Entry) :
    (t.set target new).walk here entry parts = .ok (there, .directory) := by
  induction parts generalizing here entry with
  | nil => exact found
  | cons part rest ih =>
    cases entry with
    | file content => cases found
    | directory =>
      rw [walk] at found ⊢
      cases entered : t.enter here part with
      | error e =>
        rw [entered] at found
        cases found
      | ok next =>
        obtain ⟨next, _ | _⟩ := next
        · rw [entered] at found
          cases rest <;> cases found
        · rw [entered] at found
          rw [enter_set absent entered new]
          exact ih found

theorem splitLast_eq (split : splitLast parts = some (before, last, false)) :
    parts = before ++ [last] ∧ last ≠ "" := by
  unfold splitLast at split
  cases left : parts.reverse.dropWhile (· == "") with
  | nil =>
    rw [left] at split
    cases split
  | cons final rest =>
    rw [left] at split
    simp only [Option.some.injEq, Prod.mk.injEq, decide_eq_false_iff_not] at split
    obtain ⟨rfl, rfl, whole⟩ := split
    have suffix := List.dropWhile_suffix (l := parts.reverse) (· == "")
    have kept := List.head?_dropWhile_not (· == "") parts.reverse
    rw [left] at suffix kept
    have same : final :: rest = parts.reverse := by
      refine suffix.eq_of_length_le ?_
      rw [List.length_reverse, List.length_cons]
      exact Nat.le_of_not_lt whole
    refine ⟨?_, by simpa using kept⟩
    rw [← List.reverse_reverse parts, ← same, List.reverse_cons]

theorem look_write (ok : t.write cwd p text = .ok written) :
    written.look cwd p = .ok (.file text.toUTF8) := by
  unfold write at ok
  split at ok
  · cases ok
  next full =>
  split at ok
  · cases ok
  next short =>
  split at ok
  · cases ok
  next before last slashed split =>
  split at ok
  · cases ok
  · cases ok
  next here found =>
  split at ok
  · cases ok
  next plain =>
  split at ok
  · cases ok
  next fits =>
  split at ok
  · cases ok
  next absent =>
  obtain rfl := Except.ok.inj ok
  simp only [not_or, Bool.not_eq_true] at plain
  obtain ⟨dot, up, rfl⟩ := plain
  obtain ⟨whole, named⟩ := splitLast_eq split
  have entered : (t.set (here ++ [last]) (.file text.toUTF8)).enter here last =
      .ok (here ++ [last], .file text.toUTF8) := by
    rw [enter, if_neg (not_or.mpr ⟨named, dot⟩), if_neg up, if_neg fits,
      get?_set_self t _ (by simp)]
  unfold look find
  rw [if_neg full, if_neg short, whole, walk_append, walk_set absent found]
  simp only [Except.bind, walk, entered]
  rfl

theorem readText_of_look (found : t.look cwd p = .ok (.file text.toUTF8))
    (environment : Environment) : (t.surroundings cwd environment).readText p = .ok text := by
  change (t.look cwd p).bind Entry.text = .ok text
  rw [found]
  exact Entry.text_file text

end FileTree

namespace Session
variable {cwd : Path} {s left : Session}

theorem perform_messages (cwd : Path) (s : Session) (messages : List String) :
    s.perform cwd (messages.map .line) = ({ s with lines := s.lines ++ messages }, none) := by
  induction messages generalizing s with
  | nil => simp [perform]
  | cons message messages ih => simp [perform, say, ih]

theorem perform_lines (cwd : Path) (s : Session) (effects : List Command.Effect) :
    ∃ more, (s.perform cwd effects).1.lines = s.lines ++ more ∧
      ∀ line ∈ more, Command.Effect.line line ∈ effects := by
  induction effects generalizing s with
  | nil => exact ⟨[], (List.append_nil _).symm, fun _ inside => absurd inside List.not_mem_nil⟩
  | cons effect effects ih =>
    have behind (next : Session) (same : next.lines = s.lines) :
        ∃ more, (next.perform cwd effects).1.lines = s.lines ++ more ∧
          ∀ line ∈ more, Command.Effect.line line ∈ effect :: effects := by
      obtain ⟨more, lines, of⟩ := ih next
      exact ⟨more, same ▸ lines, fun line inside => List.mem_cons_of_mem _ (of line inside)⟩
    cases effect with
    | line text =>
      obtain ⟨more, lines, of⟩ := ih (s.say text)
      refine ⟨text :: more, ?_, fun line inside => ?_⟩
      · rw [perform, lines, say, List.append_assoc]
        rfl
      · rcases List.mem_cons.mp inside with rfl | inside
        · exact List.mem_cons_self
        · exact List.mem_cons_of_mem _ (of line inside)
    | print text => exact behind _ rfl
    | write path text =>
      rw [perform]
      cases s.tree.write cwd path text with
      | ok tree => exact behind _ rfl
      | error e => exact ⟨[], (List.append_nil _).symm, fun _ inside => absurd inside List.not_mem_nil⟩

theorem perform_said {first : List Command.Effect} {said : String}
    (done : s.perform cwd (first ++ [.line said]) = (left, none)) :
    left.lines.getLast? = some said := by
  rw [perform_append] at done
  generalize s.perform cwd first = after at done
  obtain ⟨between, _ | e⟩ := after
  · obtain ⟨rfl, _⟩ := Prod.mk.inj done
    exact List.getLast?_concat
  · cases done

theorem perform_wrote {first : List Command.Effect} {path : Path} {text said : String}
    (done : s.perform cwd (first ++ [.write path text, .line said]) = (left, none)) :
    left.tree.look cwd path = .ok (.file text.toUTF8) := by
  rw [perform_append] at done
  generalize s.perform cwd first = after at done
  obtain ⟨between, _ | e⟩ := after
  · simp only [perform] at done
    cases written : between.tree.write cwd path text with
    | error e =>
      rw [written] at done
      cases done
    | ok tree =>
      rw [written] at done
      obtain ⟨rfl, _⟩ := Prod.mk.inj done
      exact FileTree.look_write written
  · cases done

end Session

namespace Command.Plan
variable {cwd : Path} {s : Session} {failure : Option Failure}

theorem perform_messages (cwd : Path) (s : Session) (messages : List String)
    (effects : List Effect) : perform ⟨messages.map .line ++ effects, failure⟩ cwd s =
      perform ⟨effects, failure⟩ cwd { s with lines := s.lines ++ messages } := by
  rw [perform, perform, Session.perform_append, Session.perform_messages]

theorem perform_lines (p : Plan) (cwd : Path) (s : Session) :
    ∃ more, (p.perform cwd s).1.lines = s.lines ++ more ∧
      ∀ line ∈ more, Effect.line line ∈ p.effects ∨ ∃ failure : Failure, line = failure.line := by
  obtain ⟨more, lines, of⟩ := Session.perform_lines cwd s p.effects
  unfold perform
  generalize s.perform cwd p.effects = after at lines
  have ended (failure : Failure) : ∃ added,
      (after.1.say failure.line).lines = s.lines ++ added ∧
        ∀ line ∈ added, Effect.line line ∈ p.effects ∨
          ∃ failure : Failure, line = failure.line := by
    refine ⟨more ++ [failure.line], ?_, fun line inside => ?_⟩
    · rw [Session.say, lines, List.append_assoc]
    · rcases List.mem_append.mp inside with inside | inside
      · exact Or.inl (of line inside)
      · exact Or.inr ⟨failure, List.mem_singleton.mp inside⟩
  obtain ⟨left, _ | e⟩ := after
  · cases p.failure with
    | none => exact ⟨more, lines, fun line inside => Or.inl (of line inside)⟩
    | some failure => exact ended failure
  · exact ended (.file e)

theorem perform_zero {p : Plan} (done : (p.perform cwd s).2 = 0) :
    s.perform cwd p.effects = ((p.perform cwd s).1, none) := by
  unfold perform at done ⊢
  split at done
  · cases done
  · cases done
  · next same _ => exact same

end Command.Plan
end AssetBlocks
