import PageMarkup.Proofs.Messages
import PageMarkup.Proofs.OpenElements

/-!
# Problems of a document

A token may be faulty, and it may not fit to the tokens before it. The fault is reported first,
whatever the token then does to the draft. `Draft.Reports` lists what else it can report. All of it is
about a token, its whole range or all but the last byte, which may be one that was read long before: a
start tag is kept with its range until its end tag should have come.
-/

namespace PageMarkup

def Fault.all : List Fault :=
  [.blankBeforeTagName, .unexpectedInTag, .closingBracketExpected, .endTagNameExpected,
    .closingQuoteExpected]

theorem Fault.mem_all (f : Fault) : f ∈ all := by
  cases f <;> decide

/-- The messages that are about a token alone. -/
def Fault.messages : List String :=
  all.map message

theorem ProblemKind.message_mem_iff {kind : ProblemKind} :
    kind.message ∈ Fault.messages ↔ ∃ f, kind = .token f := by
  constructor
  · intro h
    obtain ⟨f, -, hf⟩ := List.mem_map.mp h
    exact ⟨f, eq_of_message hf.symm⟩
  · rintro ⟨f, rfl⟩
    exact List.mem_map_of_mem f.mem_all

def Placed.problem? (p : Placed) : Option Problem :=
  p.token.fault.map fun f => ⟨.token f, p.offset, p.stop⟩

def Placed.openTag (p : Placed) : OpenTag :=
  ⟨(String.ofList p.lexeme).toLower, p.offset, p.stop⟩

def problemsUnless (ok : Bool) (q : Problem) : List Problem :=
  if ok then [] else [q]

theorem mem_problemsUnless {ok : Bool} {q q' : Problem} :
    q' ∈ problemsUnless ok q ↔ ok = false ∧ q' = q := by
  cases ok <;> simp [problemsUnless]

-- ---------------------------------------------------------------------------
-- What a token reports
-- ---------------------------------------------------------------------------

namespace Draft

/-- What a token can report beside its own fault when some start tags wait for their end tags, and
those that wait after it. -/
inductive Reports (p : Placed) : List OpenTag → List Problem → List OpenTag → Prop
  | nothing : Reports p tags [] tags
  | ended (kind : p.kind = .tagClose ∨ p.kind = .tagSelfClose) : Reports p tags [] tags.tail
  | tagName (kind : p.kind = .tagName) : Reports p tags
      (problemsUnless (isValidTagName p.lexeme) ⟨.tagNameCharacters, p.offset, p.stop⟩) (p.openTag :: tags)
  | unopened (kind : p.kind = .endTagName) :
    Reports p [] [⟨.startTagMissing p.openTag.name, p.offset, p.stop⟩] []
  | settled (kind : p.kind = .endTagName) : Reports p (tag :: tags)
      (problemsUnless (tag.name = p.openTag.name) ⟨.endTagMissing tag.name, tag.start, tag.stop⟩) tags
  | attributeName (kind : p.kind = .attributeName) : Reports p tags
      (problemsUnless (isValidAttributeName p.lexeme)
        ⟨.attributeName (String.ofList p.lexeme), p.offset, p.stop - 1⟩) tags
  | attributeValue (kind : p.kind = .attributeValue) : Reports p tags
      (problemsUnless (isDoubleQuoted p.lexeme) ⟨.valueNotQuoted, p.offset, p.stop - 1⟩) tags

variable {d : Draft} {p : Placed}

theorem problems_expect (d : Draft) (ok : Bool) (kind : ProblemKind) (start stop : Nat) :
    (d.expect ok kind start stop).problems = d.problems ++ problemsUnless ok ⟨kind, start, stop⟩ := by
  cases ok <;> simp [expect, report, problemsUnless]

theorem openTags_expect (d : Draft) (ok : Bool) (kind : ProblemKind) (start stop : Nat) :
    (d.expect ok kind start stop).openTags = d.openTags := by
  cases ok <;> rfl

theorem problems_note (d : Draft) (p : Placed) :
    (d.note p).problems = d.problems ++ p.problem?.toList := by
  unfold note Placed.problem?
  split
  · next f hf => simp [report, hf]
  · next hf => simp [hf]

theorem openTags_note (d : Draft) (p : Placed) : (d.note p).openTags = d.openTags := by
  unfold note
  split <;> rfl

theorem settle_reports (d : Draft) (hkind : p.kind = .endTagName) :
    ∃ more, (d.settle p.openTag.name p.offset p.stop).problems = d.problems ++ more ∧
      Reports p d.openTags more (d.settle p.openTag.name p.offset p.stop).openTags := by
  unfold settle
  split
  · next htags => exact ⟨_, rfl, htags ▸ .unopened hkind⟩
  · next tag rest htags =>
    rw [problems_expect, openTags_expect, htags]
    exact ⟨_, rfl, .settled hkind⟩

theorem nameEndTag_reports (text : Text) (d : Draft) (hkind : p.kind = .endTagName) :
    ∃ more, (d.nameEndTag text p.lexeme p.offset p.stop).problems = d.problems ++ more ∧
      Reports p d.openTags more (d.nameEndTag text p.lexeme p.offset p.stop).openTags := by
  unfold nameEndTag
  simp only
  split
  · exact ⟨[], (List.append_nil _).symm, .nothing⟩
  · exact settle_reports _ hkind

/-- Whatever a token does, its fault is reported, and then what it finds wrong. -/
theorem accept_reports (text : Text) (d : Draft) (p : Placed) :
    ∃ more, (d.accept text p).problems = d.problems ++ p.problem?.toList ++ more ∧
      Reports p d.openTags more (d.accept text p).openTags := by
  rw [← problems_note, ← openTags_note d p]
  unfold accept
  generalize d.note p = d
  cases hkind : p.kind with
  | tagName =>
    simp only [nameElement, problems_expect, openTags_expect]
    exact ⟨_, rfl, .tagName hkind⟩
  | tagClose =>
    simp only [closeStartTag]
    split
    · exact ⟨[], by simp [problems_leave], .ended (.inl hkind)⟩
    · exact ⟨[], (List.append_nil _).symm, .nothing⟩
  | tagSelfClose => exact ⟨[], by simp [selfClose, problems_leave], .ended (.inr hkind)⟩
  | endTagName => exact nameEndTag_reports text d hkind
  | endTagClose =>
    simp only [problems_leave, openTags_leave]
    exact ⟨[], (List.append_nil _).symm, .nothing⟩
  | attributeName =>
    simp only [addAttribute, problems_expect, openTags_expect]
    exact ⟨_, rfl, .attributeName hkind⟩
  | attributeValue =>
    simp only [addValue, problems_expect, openTags_expect]
    exact ⟨_, rfl, .attributeValue hkind⟩
  | content =>
    rcases d.addText_cases p.lexeme with heq | ⟨runs, heq⟩
    · simp only [heq]
      exact ⟨[], (List.append_nil _).symm, .nothing⟩
    · simp only [heq]
      exact ⟨[], (List.append_nil _).symm, .nothing⟩
  | _ => exact ⟨[], (List.append_nil _).symm, .nothing⟩

end Draft

-- ---------------------------------------------------------------------------
-- All tokens
-- ---------------------------------------------------------------------------

/-- What can be wrong with a text whose tokens are in order, and where. A range that does not take in
the last byte of a token ends at `stop`, one byte before it. -/
inductive Structural (text : Text) : Problem → Prop
  | tagName (t : Placed) (mem : t ∈ tokens text) (kind : t.kind = .tagName)
      (bad : isValidTagName t.lexeme = false) : Structural text ⟨.tagNameCharacters, t.offset, t.stop⟩
  | startTagMissing (t : Placed) (mem : t ∈ tokens text) (kind : t.kind = .endTagName) :
    Structural text ⟨.startTagMissing t.openTag.name, t.offset, t.stop⟩
  | endTagMissing (t : Placed) (mem : t ∈ tokens text) (kind : t.kind = .tagName) :
    Structural text ⟨.endTagMissing t.openTag.name, t.offset, t.stop⟩
  | neverEnded (t : Placed) (mem : t ∈ tokens text) (kind : t.kind = .tagName) (stop : Nat)
      (last : stop + 1 = t.stop) : Structural text ⟨.endTagMissing t.openTag.name, t.offset, stop⟩
  | attributeName (t : Placed) (mem : t ∈ tokens text) (kind : t.kind = .attributeName)
      (bad : isValidAttributeName t.lexeme = false) (stop : Nat) (last : stop + 1 = t.stop) :
    Structural text ⟨.attributeName (String.ofList t.lexeme), t.offset, stop⟩
  | attributeValue (t : Placed) (mem : t ∈ tokens text) (kind : t.kind = .attributeValue)
      (bad : isDoubleQuoted t.lexeme = false) (stop : Nat) (last : stop + 1 = t.stop) :
    Structural text ⟨.valueNotQuoted, t.offset, stop⟩

/-- What has been reported after the tokens `done`, and what may still be. -/
structure Reported (text : Text) (done : List Placed) (d : Draft) : Prop where
  faults : d.problems.filter (·.message ∈ Fault.messages) = done.filterMap Placed.problem?
  problems : ∀ q ∈ d.problems, (∃ t ∈ done, t.problem? = some q) ∨ Structural text q
  openTags : ∀ tag ∈ d.openTags, ∃ t ∈ tokens text, t.kind = .tagName ∧ tag = t.openTag

section
variable {text : Text} {done todo : List Placed} {p t : Placed} {d : Draft} {q : Problem}
  {tags tags' : List OpenTag} {more : List Problem}

theorem offset_lt_stop (h : t ∈ tokens text) : t.offset < t.stop :=
  Nat.lt_add_of_pos_right (size_pos_of_mem_tokens h)

theorem stop_sub_one_add_one (h : t ∈ tokens text) : t.stop - 1 + 1 = t.stop :=
  Nat.sub_add_cancel (Nat.one_le_of_lt (offset_lt_stop h))

theorem Structural.not_token (h : Structural text q) : q.message ∉ Fault.messages := by
  intro hmem
  obtain ⟨f, hf⟩ := ProblemKind.message_mem_iff.mp hmem
  cases h <;> cases hf

theorem Structural.ordered (h : Structural text q) : q.start ≤ q.stop ∧ q.stop ≤ text.size := by
  cases h with
  | tagName t mem | startTagMissing t mem | endTagMissing t mem =>
    exact ⟨Nat.le_of_lt (offset_lt_stop mem), stop_le_of_mem_tokens mem⟩
  | neverEnded t mem _ stop last | attributeName t mem _ _ stop last | attributeValue t mem _ _ stop last =>
    have hlt := offset_lt_stop mem
    have hle := stop_le_of_mem_tokens mem
    constructor <;> simp only <;> omega

theorem Draft.Reports.structural (h : Draft.Reports p tags more tags') (hp : p ∈ tokens text)
    (htags : ∀ tag ∈ tags, ∃ t ∈ tokens text, t.kind = .tagName ∧ tag = t.openTag) :
    ∀ q ∈ more, Structural text q := by
  intro q hq
  cases h with
  | nothing | ended => cases hq
  | tagName kind =>
    obtain ⟨hbad, rfl⟩ := mem_problemsUnless.mp hq
    exact .tagName p hp kind hbad
  | unopened kind =>
    obtain rfl := List.mem_singleton.mp hq
    exact .startTagMissing p hp kind
  | settled kind =>
    obtain ⟨-, rfl⟩ := mem_problemsUnless.mp hq
    obtain ⟨t, ht, htkind, rfl⟩ := htags _ List.mem_cons_self
    exact .endTagMissing t ht htkind
  | attributeName kind =>
    obtain ⟨hbad, rfl⟩ := mem_problemsUnless.mp hq
    exact .attributeName p hp kind hbad _ (stop_sub_one_add_one hp)
  | attributeValue kind =>
    obtain ⟨hbad, rfl⟩ := mem_problemsUnless.mp hq
    exact .attributeValue p hp kind hbad _ (stop_sub_one_add_one hp)

theorem Draft.Reports.openTags (h : Draft.Reports p tags more tags') (hp : p ∈ tokens text)
    (htags : ∀ tag ∈ tags, ∃ t ∈ tokens text, t.kind = .tagName ∧ tag = t.openTag) :
    ∀ tag ∈ tags', ∃ t ∈ tokens text, t.kind = .tagName ∧ tag = t.openTag := by
  cases h with
  | nothing | attributeName | attributeValue => exact htags
  | ended => exact fun tag htag => htags tag (List.mem_of_mem_tail htag)
  | tagName kind => exact List.forall_mem_cons.mpr ⟨⟨p, hp, kind, rfl⟩, htags⟩
  | unopened => exact htags
  | settled => exact (List.forall_mem_cons.mp htags).2

theorem filter_structural (h : ∀ q ∈ more, Structural text q) :
    more.filter (·.message ∈ Fault.messages) = [] := by
  refine List.filter_eq_nil_iff.mpr fun q hq => ?_
  simpa using (h q hq).not_token

theorem filter_problem? (p : Placed) :
    p.problem?.toList.filter (·.message ∈ Fault.messages) = p.problem?.toList := by
  refine List.filter_eq_self.mpr fun q hq => ?_
  obtain ⟨f, -, rfl⟩ := Option.map_eq_some_iff.mp (Option.mem_toList.mp hq)
  exact decide_eq_true (ProblemKind.message_mem_iff.mpr ⟨f, rfl⟩)

theorem Reported.accept (h : Reported text done d) (hp : p ∈ tokens text) :
    Reported text (done ++ [p]) (d.accept text p) := by
  obtain ⟨more, hproblems, hreports⟩ := d.accept_reports text p
  have hmore := hreports.structural hp h.openTags
  refine ⟨?_, ?_, hreports.openTags hp h.openTags⟩
  · rw [hproblems, List.filter_append, List.filter_append, h.faults, filter_problem?,
      filter_structural hmore, List.append_nil, List.filterMap_append]
    rfl
  · intro q hq
    rw [hproblems, List.mem_append, List.mem_append] at hq
    rcases hq with (hq | hq) | hq
    · refine (h.problems q hq).imp_left ?_
      rintro ⟨t, ht, htq⟩
      exact ⟨t, List.mem_append_left _ ht, htq⟩
    · exact .inl ⟨p, by simp, Option.mem_toList.mp hq⟩
    · exact .inr (hmore q hq)

theorem Reported.after (h : tokens text = done ++ todo) : Reported text done (Draft.after text done) := by
  refine Draft.after_induction (motive := fun done => Reported text done (Draft.after text done)) ?_ ?_ h
  · exact ⟨rfl, List.forall_mem_nil _, List.forall_mem_nil _⟩
  · intro done p todo htokens _ h
    rw [Draft.after_concat]
    exact h.accept (by simp [htokens])

-- ---------------------------------------------------------------------------
-- Whole documents
-- ---------------------------------------------------------------------------

def OpenTag.problem (tag : OpenTag) : Problem :=
  ⟨.endTagMissing tag.name, tag.start, tag.stop - 1⟩

theorem problems_parse (text : Text) :
    (Document.parse text).problems = (Draft.after text (tokens text)).problems ++
      (Draft.after text (tokens text)).openTags.reverse.map OpenTag.problem :=
  rfl

theorem Reported.unended (h : Reported text (tokens text) d) :
    ∀ q ∈ d.openTags.reverse.map OpenTag.problem, Structural text q := by
  intro q hq
  obtain ⟨tag, htag, rfl⟩ := List.mem_map.mp hq
  obtain ⟨t, ht, hkind, rfl⟩ := h.openTags tag (List.mem_reverse.mp htag)
  exact .neverEnded t ht hkind _ (stop_sub_one_add_one ht)

theorem parse_reported (hq : q ∈ (Document.parse text).problems) :
    (∃ t ∈ tokens text, t.problem? = some q) ∨ Structural text q := by
  have h := Reported.after (List.append_nil (tokens text)).symm
  rcases List.mem_append.mp hq with hq | hq
  · exact h.problems q hq
  · exact .inr (h.unended q hq)

theorem Placed.problem?_ordered (ht : t ∈ tokens text) (hq : t.problem? = some q) :
    q.start ≤ q.stop ∧ q.stop ≤ text.size := by
  obtain ⟨f, -, rfl⟩ := Option.map_eq_some_iff.mp hq
  exact ⟨Nat.le_of_lt (offset_lt_stop ht), stop_le_of_mem_tokens ht⟩

theorem problems_ordered (hq : q ∈ (Document.parse text).problems) :
    q.start ≤ q.stop ∧ q.stop ≤ text.size := by
  rcases parse_reported hq with ⟨t, ht, htq⟩ | hstructural
  · exact Placed.problem?_ordered ht htq
  · exact hstructural.ordered

end

/-- Among the problems of a document, those with the message of a faulty token are the faults of its
tokens, each once, in order and with the range of the token. Every other problem is about a token as
well, and the range of each runs forward inside the text. -/
theorem parse_problems (text : Text) :
    (Document.parse text).problems.filter (·.message ∈ Fault.messages) =
      (tokens text).filterMap Placed.problem? ∧
    ∀ q ∈ (Document.parse text).problems, q.start ≤ q.stop ∧ q.stop ≤ text.size ∧
      ((∃ t ∈ tokens text, t.problem? = some q) ∨ Structural text q) := by
  refine ⟨?_, fun q hq => ?_⟩
  · have h := Reported.after (List.append_nil (tokens text)).symm
    rw [problems_parse, List.filter_append, h.faults, filter_structural h.unended, List.append_nil]
  · obtain ⟨hstart, hstop⟩ := problems_ordered hq
    exact ⟨hstart, hstop, parse_reported hq⟩

end PageMarkup
