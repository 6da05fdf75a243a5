import AssetBlocks.Proofs.Resolution

/-! How a document fails. Blocks are completed by their end tags, or by themselves if they
are self-closing; the first block in that order whose handler fails decides. Only where
there is none does an unpaired begin tag matter, and then it is the last one. -/
namespace AssetBlocks.Processor
open Text Pairing

variable {p : Processor}

/-- The last of these directives completes a block, which has this tag and contents. -/
inductive Completes (p : Processor) (upto : List (Match Directive)) :
    BeginTag → Option String → Prop
  | single {earlier : List (Match Directive)} {m : Match Directive} {tag : BeginTag}
      (split : upto = earlier ++ [m]) (value : m.value = .opening tag)
      (alone : tag.selfClosing = true) : Completes p upto tag none
  | block {earlier inner : List (Match Directive)} {m close : Match Directive} {tag : BeginTag}
      {contents : String} (split : upto = earlier ++ m :: inner ++ [close])
      (value : m.value = .opening tag) (paired : Paired m inner close)
      (inside : Rewritten p inner contents) :
      Completes p upto tag (some (contents ++ String.ofList close.before))

def FailsAt (p : Processor) (upto : List (Match Directive)) (kind : String) (e : HandlerError) :
    Prop :=
  ∃ tag contents, Completes p upto tag contents ∧ p.Fails tag contents e ∧ kind = tag.kind

def FirstFailure (p : Processor) (ms : List (Match Directive)) (kind : String)
    (e : HandlerError) : Prop :=
  ∃ upto, upto <+: ms ∧ FailsAt p upto kind e ∧
    ∀ earlier, earlier <+: upto → earlier ≠ upto → ∀ kind' e', ¬ FailsAt p earlier kind' e'

theorem Completes.of_last {earlier : List (Match Directive)} {m : Match Directive} {tag : BeginTag}
    {contents : Option String} (h : Completes p (earlier ++ [m]) tag contents) :
    (m.value = .opening tag ∧ tag.selfClosing = true ∧ contents = none) ∨
    ∃ outer first inner result, earlier = outer ++ first :: inner ∧ first.value = .opening tag ∧
      Paired first inner m ∧ Rewritten p inner result ∧
      contents = some (result ++ String.ofList m.before) := by
  cases h with
  | single split value alone =>
    obtain ⟨_, same⟩ := List.append_inj' split rfl
    obtain rfl := List.singleton_inj.mp same
    exact Or.inl ⟨value, alone, rfl⟩
  | block split value paired inside =>
    obtain ⟨before, same⟩ := List.append_inj' split rfl
    obtain rfl := List.singleton_inj.mp same
    exact Or.inr ⟨_, _, _, _, before, value, paired, inside, rfl⟩

theorem Completes.unique {upto : List (Match Directive)} {tag tag' : BeginTag}
    {contents contents' : Option String} (h : Completes p upto tag contents)
    (h' : Completes p upto tag' contents') : tag = tag' ∧ contents = contents' := by
  cases h with
  | single split value alone =>
    subst split
    rcases h'.of_last with ⟨value', _, rfl⟩ | ⟨_, _, _, _, _, _, paired, _⟩
    · cases value.symm.trans value'
      exact ⟨rfl, rfl⟩
    · cases value.symm.trans (value_of_closes paired.closes)
  | block split value paired inside =>
    subst split
    rcases h'.of_last with ⟨value', _, _⟩ | ⟨_, _, _, _, before, value', paired', inside', rfl⟩
    · cases value'.symm.trans (value_of_closes paired.closes)
    · obtain ⟨o, _, level⟩ := paired_iff.mp paired
      obtain ⟨o', _, level'⟩ := paired_iff.mp paired'
      obtain ⟨_, rfl, rfl⟩ := level.begin_unique level' o o' before
      cases value.symm.trans value'
      rw [inside.unique inside']
      exact ⟨rfl, rfl⟩

theorem FirstFailure.unique {ms : List (Match Directive)} {kind kind' : String}
    {e e' : HandlerError} (h : FirstFailure p ms kind e) (h' : FirstFailure p ms kind' e') :
    kind = kind' ∧ e = e' := by
  obtain ⟨upto, within, fails, first⟩ := h
  obtain ⟨upto', within', fails', first'⟩ := h'
  have same : upto = upto' := by
    rcases List.prefix_or_prefix_of_prefix within within' with shorter | shorter
    · by_contra other
      exact first' upto shorter other kind e fails
    · by_contra other
      exact first upto' shorter (Ne.symm other) kind' e' fails'
  subst same
  obtain ⟨tag, contents, completes, failed, rfl⟩ := fails
  obtain ⟨tag', contents', completes', failed', rfl⟩ := fails'
  obtain ⟨rfl, rfl⟩ := completes.unique completes'
  exact ⟨rfl, failed.unique failed'⟩

theorem Follows.completes {done : List (Match Directive)} {s : State} {m : Match Directive}
    {top : Open} {rest : List Open} (h : Follows p done s) (value : m.value = .closing)
    (inside : s.stack = top :: rest) :
    Completes p (done ++ [m]) top.tag (some (top.contents ++ String.ofList m.before)) := by
  have frames := h.frames
  rw [inside] at frames
  obtain ⟨outer, first, inner, contents, rfl, _, value', opened, level, rewritten, made⟩ :=
    frames.of_inside
  have paired := paired_iff.mpr ⟨opened, closes_of_value value, level⟩
  have completes : Completes p (outer ++ first :: inner ++ [m]) _ _ :=
    .block rfl value' paired rewritten
  rw [made]
  simpa using completes

theorem Follows.becomes {done : List (Match Directive)} {s s' : State} {m : Match Directive}
    {events : List Event} {tag : BeginTag} {contents : Option String} (h : Follows p done s)
    (move : Move p s m events (.ok s')) (completes : Completes p (done ++ [m]) tag contents) :
    ∃ text, p.Becomes tag contents text := by
  cases move with
  | opened value more =>
    rcases completes.of_last with ⟨value', alone, _⟩ | ⟨_, _, _, _, _, _, paired, _⟩
    · cases value.symm.trans value'
      cases more.symm.trans alone
    · cases value.symm.trans (value_of_closes paired.closes)
  | single value alone becomes =>
    obtain ⟨rfl, rfl⟩ := completes.unique (.single rfl value alone)
    exact ⟨_, becomes⟩
  | stray value outside =>
    have frames := h.frames
    rw [outside] at frames
    obtain ⟨_, _, closed, _⟩ := frames.of_outside
    rcases completes.of_last with ⟨value', _, _⟩ | ⟨_, _, _, _, rfl, _, paired, _⟩
    · cases value.symm.trans value'
    · obtain ⟨o, _, level⟩ := paired_iff.mp paired
      exact absurd level (closed.not_level o)
  | closed value inside becomes =>
    obtain ⟨rfl, rfl⟩ := completes.unique (h.completes value inside)
    exact ⟨_, becomes⟩

theorem Follows.failsAt {done : List (Match Directive)} {s : State} {m : Match Directive}
    {events : List Event} {e : DocumentError} (h : Follows p done s)
    (move : Move p s m events (.error e)) :
    ∃ kind source, e = .handler kind source ∧ FailsAt p (done ++ [m]) kind source := by
  cases move with
  | singleFailed value alone fails =>
    exact ⟨_, _, rfl, _, _, .single rfl value alone, fails, rfl⟩
  | closeFailed value inside fails =>
    exact ⟨_, _, rfl, _, _, h.completes value inside, fails, rfl⟩

theorem Reaches.not_failsAt {done : List (Match Directive)} {events : List Event} {s : State}
    (h : Reaches p done events s) :
    ∀ upto, upto <+: done → ∀ kind e, ¬ FailsAt p upto kind e := by
  induction h with
  | start =>
    rintro upto within kind e ⟨tag, contents, completes, _⟩
    rw [List.prefix_nil.mp within] at completes
    cases completes with
    | single split => simp at split
    | block split => simp at split
  | @step done _ _ _ _ m before move ih =>
    rintro upto within kind e fails
    rcases List.prefix_concat_iff.mp within with rfl | shorter
    · obtain ⟨tag, contents, completes, failed, _⟩ := fails
      obtain ⟨text, becomes⟩ := before.follows.becomes move completes
      exact becomes.not_fails failed
    · exact ih upto shorter kind e fails

theorem lineFeeds_covered {ms : List (Match Directive)} (unbroken : ∀ m ∈ ms, '\n' ∉ m.text) :
    lineFeeds (covered ms) = linesBefore ms := by
  induction ms with
  | nil => rfl
  | cons m ms ih =>
    have text : lineFeeds m.text = 0 := List.count_eq_zero.mpr (unbroken m (by simp))
    rw [covered_cons, lineFeeds_append, lineFeeds_append, text,
      ih fun n inside => unbroken n (by simp [inside])]
    simp [linesBefore, lineFeeds_append]

/-- The marker of an unpaired begin tag is behind its indent, and on the line that the
directives before it lead to. -/
theorem unpaired_place {tag : Tag} {document : String} {earlier later : List (Match Directive)}
    {m : Match Directive} (split : (tag.scan document).1 = earlier ++ m :: later)
    (unpaired : Unpaired m later) :
    ∃ t behind, m.value = .opening t ∧
      document.toList = covered earlier ++ m.before ++ t.indent.toList ++
        (['<', '!', '-', '-'] ++ behind) ∧
      (covered earlier ++ m.before ++ t.indent.toList).count '\n' =
        linesBefore earlier + lineFeeds m.before := by
  cases value : m.value with
  | closing => exact absurd unpaired.1 (by simp [opens, value])
  | opening t =>
    obtain ⟨_, _, _, gaps, _, _, _, text, _⟩ := Tag.scan_opening split value
    have whole := tag.scan_covered document
    rw [split, covered_append, covered_cons] at whole
    simp only [List.append_assoc] at whole text
    rw [text] at whole
    have indent : lineFeeds t.indent.toList = 0 :=
      List.count_eq_zero.mpr fun inside => Directive.ne_newline_of_isGap (gaps _ inside) rfl
    have lines : lineFeeds (covered earlier) = linesBefore earlier :=
      lineFeeds_covered fun n inside => Tag.scan_inline (by rw [split]; simp [inside])
    refine ⟨t, _, rfl, by simpa only [List.append_assoc] using whole, ?_⟩
    change lineFeeds _ = _
    rw [lineFeeds_append, lineFeeds_append, lines, indent, Nat.add_zero]

end AssetBlocks.Processor
