import PageMarkup.Proofs.EndTags
import PageMarkup.Proofs.Extents

/-!
# Documents without problems

Whether an element is closed is decided by the tree, while problems come from the tokens and from a
list of the start tags that wait for their end tag. As long as nothing is reported the list has the
names of the open elements, so both come to the same end; `elements_complete_iff` says what can go
wrong unnoticed nevertheless. A start tag without a name is not on the list, an end tag without a
name takes nothing off it, and an end tag takes its element off although the text may end before
its bracket.
-/

namespace PageMarkup

open ScanState (Reads ReadsInTag)

-- ---------------------------------------------------------------------------
-- Problems are never withdrawn
-- ---------------------------------------------------------------------------

namespace Draft

section
variable {text : Text} {d : Draft} {p : Placed} {done todo : List Placed}

theorem problems_expect_eq_nil {ok : Bool} (h : (d.expect ok kind start stop).problems = []) :
    ok = true ∧ d.expect ok kind start stop = d := by
  unfold expect at h ⊢
  split at h
  · next hok => exact ⟨hok, if_pos hok⟩
  · simp [report] at h

theorem problems_note_eq_nil (h : (d.note p).problems = []) :
    d.problems = [] ∧ p.token.fault = none ∧ d.note p = d := by
  unfold note at h ⊢
  split at h
  · simp [report] at h
  · next hfault =>
    rw [hfault]
    exact ⟨h, rfl, rfl⟩

theorem problems_settle_eq_nil (h : (d.settle name start stop).problems = []) :
    ∃ tag rest, d.openTags = tag :: rest ∧ tag.name = name ∧
      d.settle name start stop = { d with openTags := rest } := by
  unfold settle at h ⊢
  split at h
  · simp [report] at h
  · next tag rest hopen =>
    obtain ⟨hname, heq⟩ := problems_expect_eq_nil h
    rw [hopen]
    exact ⟨tag, rest, rfl, of_decide_eq_true hname, heq⟩

theorem problems_nameEndTag (h : (d.nameEndTag text lexeme start stop).problems = []) :
    d.problems = [] := by
  unfold nameEndTag at h
  simp only at h
  split at h
  · exact h
  · obtain ⟨_, _, -, -, heq⟩ := problems_settle_eq_nil h
    rw [heq] at h
    exact h

theorem problems_accept_eq_nil (h : (d.accept text p).problems = []) :
    d.problems = [] ∧ p.token.fault = none ∧ d.note p = d := by
  refine problems_note_eq_nil ?_
  unfold accept at h
  cases hkind : p.kind <;> simp only [hkind] at h
  case tagName =>
    rw [nameElement] at h
    rwa [(problems_expect_eq_nil h).2] at h
  case tagClose =>
    rw [closeStartTag] at h
    split at h
    · rwa [problems_leave] at h
    · exact h
  case tagSelfClose => rwa [selfClose, problems_leave] at h
  case endTagName => exact problems_nameEndTag h
  case endTagClose => rwa [problems_leave] at h
  case attributeName =>
    rw [addAttribute] at h
    rwa [(problems_expect_eq_nil h).2] at h
  case attributeValue =>
    rw [addValue] at h
    rwa [(problems_expect_eq_nil h).2] at h
  case content =>
    rcases (d.note p).addText_cases p.lexeme with heq | ⟨runs, heq⟩ <;> rwa [heq] at h
  all_goals exact h

theorem problems_after_eq_nil (h : (after text (tokens text)).problems = [])
    (htokens : tokens text = done ++ todo) : (after text done).problems = [] := by
  refine after_backward (motive := fun done => (after text done).problems = []) h ?_ htokens
  intro done p todo _ hnext
  rw [after_concat] at hnext
  exact (problems_accept_eq_nil hnext).1

theorem problems_finish_eq_nil (h : (d.finish text).problems = []) : d.problems = [] ∧ d.openTags = [] := by
  simpa [finish] using h

end

end Draft

/-- A token in a place where none of its kind belongs. -/
inductive ScanState.Refuses : ScanState → TokenKind → Prop
  | blankBeforeName : Refuses .afterTagOpen .blank
  | blankBeforeEndName : Refuses .afterEndTagOpen .blank
  | unknownEndName : Refuses .afterEndTagOpen .unknown
  | unknownInEndTag : Refuses .endTag .unknown

namespace Token

theorem nextEndTag_fault (h : (nextEndTag c cs).token.kind = .unknown) :
    (nextEndTag c cs).token.fault ≠ none := by
  revert h
  unfold nextEndTag
  repeat' split
  all_goals simp [Step.run]

theorem nextTagName_fault (h : (nextTagName c cs).token.kind = .blank) :
    (nextTagName c cs).token.fault ≠ none := by
  revert h
  unfold nextTagName
  split
  · simp [Step.run]
  · split
    · simp [Step.run]
    · next hc =>
      intro h
      exact absurd h (nextInTag_kind {} (Bool.of_not_eq_true hc))

theorem nextEndTagName_fault (h : (nextEndTagName c cs).token.kind = .blank ∨
      (nextEndTagName c cs).token.kind = .unknown) : (nextEndTagName c cs).token.fault ≠ none := by
  revert h
  unfold nextEndTagName
  repeat' split
  · simp [Step.run]
  · simp [Step.run]
  · next hblank hclose =>
    rw [nextEndTag, if_neg hblank, if_pos hclose]
    simp
  · simp [Step.run]

theorem fault_of_refuses {state : ScanState} (h : state.Refuses (next state c cs).token.kind) :
    (next state c cs).token.fault ≠ none := by
  generalize hk : (next state c cs).token.kind = kind at h
  cases h with
  | blankBeforeName => exact nextTagName_fault hk
  | blankBeforeEndName => exact nextEndTagName_fault (.inl hk)
  | unknownEndName => exact nextEndTagName_fault (.inr hk)
  | unknownInEndTag => exact nextEndTag_fault hk

end Token

-- ---------------------------------------------------------------------------
-- Open elements and start tags that wait
-- ---------------------------------------------------------------------------

def Element.Complete (e : Element) : Prop :=
  e.tag.isSome = true ∧ e.closed = true

def Awaited (e : Element) (above : List Element) (openTags : List OpenTag) : Prop :=
  openTags.map (fun t => some t.name) = (openElements e above).map fun x => x.tag.map String.toLower

/-- All that is open waits for its end tag, and what is not open is complete. -/
structure Counted (e : Element) (above : List Element) (openTags : List OpenTag) : Prop where
  awaited : Awaited e above openTags
  finished : Finished Element.Complete e above

inductive Opening : Element → List Element → List OpenTag → Prop
  | mk (children : e.children = []) (counted : Counted parent above openTags) :
      Opening e (parent :: above) openTags

inductive Closing : Element → List Element → List OpenTag → Prop
  | mk (complete : e.Complete) (finished : Finished Element.Complete e (parent :: above))
      (awaited : Awaited parent above openTags) : Closing e (parent :: above) openTags

section
variable {e e' parent child : Element} {above : List Element} {openTags : List OpenTag} {tag : OpenTag}
  {d : Draft}

theorem Awaited.congr (h : Awaited e above openTags) (htag : e'.tag = e.tag) :
    Awaited e' above openTags := by
  cases above with
  | nil => exact h
  | cons parent above =>
    rw [Awaited, openElements, List.map_cons] at h ⊢
    rwa [htag]

theorem awaited_cons : Awaited e (parent :: above) openTags ↔
    ∃ tag rest, openTags = tag :: rest ∧ some tag.name = e.tag.map String.toLower ∧
      Awaited parent above rest :=
  List.map_eq_cons_iff

theorem Counted.replace (h : Counted e above openTags) (htag : e'.tag = e.tag)
    (hchildren : e'.children = e.children) : Counted e' above openTags :=
  ⟨h.awaited.congr htag, h.finished.congr hchildren⟩

theorem Counted.above_eq_nil (h : Counted e above []) : above = [] := by
  cases above with
  | nil => rfl
  | cons parent above =>
    obtain ⟨_, _, hnil, -⟩ := awaited_cons.mp h.awaited
    cases hnil

theorem Counted.leave (h : Counted d.current d.above d.openTags) (stop : Nat) :
    Counted (d.leave ({ · with stop, closed := true })).current
      (d.leave ({ · with stop, closed := true })).above d.openTags.tail := by
  obtain ⟨current, above, count, endTagOpen, openTags, problems⟩ := d
  cases above with
  | nil =>
    obtain rfl : openTags = [] := by simpa [Awaited, openElements] using h.awaited
    exact h
  | cons parent above =>
    obtain ⟨tag, rest, rfl, hname, hrest⟩ := awaited_cons.mp h.awaited
    refine ⟨hrest.congr rfl, h.finished.push ⟨?_, rfl⟩ rfl⟩
    exact Option.isSome_map.symm.trans (Option.isSome_of_eq_some hname.symm)

theorem Closing.leave (h : Closing d.current d.above d.openTags) (stop : Nat) :
    Counted (d.leave ({ · with stop })).current (d.leave ({ · with stop })).above
      (d.leave ({ · with stop })).openTags := by
  obtain ⟨current, above, count, endTagOpen, openTags, problems⟩ := d
  cases h with
  | mk complete finished awaited => exact ⟨awaited.congr rfl, finished.push complete rfl⟩

theorem Element.hasName_of_map_toLower (h : some name = e.tag.map String.toLower) :
    e.hasName name = true := by
  obtain ⟨tag, htag, rfl⟩ := Option.map_eq_some_iff.mp h.symm
  simp [hasName, htag, string_toLower_toLower]

/-- An end tag that goes unreported is that of the innermost open element, or of a void one. -/
theorem Counted.nameEndTag (h : Counted d.current d.above d.openTags)
    (hclean : (d.nameEndTag text lexeme start stop).problems = []) :
    Closing (d.nameEndTag text lexeme start stop).current (d.nameEndTag text lexeme start stop).above
      (d.nameEndTag text lexeme start stop).openTags := by
  revert hclean
  obtain ⟨current, above, count, endTagOpen, openTags, problems⟩ := d
  unfold Draft.nameEndTag
  simp only
  split
  · next child hvoid =>
    intro _
    have hchildren := Draft.voidBefore?_eq_some hvoid
    have hall := h.finished.1
    rw [hchildren] at hall
    obtain ⟨-, hchild, -⟩ := allIn_concat.mp hall
    exact .mk hchild (h.finished.pop hchildren rfl) (h.awaited.congr rfl)
  · generalize hclosed : closeUpTo _ _ current above = r
    intro hclean
    obtain ⟨tag, rest, hopen, hname, heq⟩ := Draft.problems_settle_eq_nil hclean
    rw [heq]
    cases above with
    | nil => cases h.awaited.symm.trans (congrArg (List.map _) hopen)
    | cons parent above =>
      obtain ⟨tag', rest', hopen', hnamed, hrest⟩ := awaited_cons.mp h.awaited
      obtain ⟨rfl, rfl⟩ := List.cons.inj (hopen.symm.trans hopen')
      rw [closeUpTo, if_pos (Element.hasName_of_map_toLower (hname ▸ hnamed))] at hclosed
      subst hclosed
      refine .mk ⟨?_, rfl⟩ (h.finished.congr rfl) hrest
      exact Option.isSome_map.symm.trans (Option.isSome_of_eq_some hnamed.symm)

end

-- ---------------------------------------------------------------------------
-- What goes unnoticed
-- ---------------------------------------------------------------------------

/-- Every start tag has a name, and so has every end tag inside an element. -/
structure Named (text : Text) : Prop where
  startTags : ∀ before p rest, tokens text = before ++ p :: rest → p.kind = .tagOpen →
    rest.head?.map Placed.kind = some .tagName
  endTags : ∀ before p q rest, tokens text = before ++ p :: q :: rest → p.kind = .endTagOpen →
    q.kind = .endTagClose → (Draft.after text before).above = []

/-- Moreover the text does not end in an end tag. -/
structure Unbroken (text : Text) : Prop extends Named text where
  lastTag : finalState .content (tokens text) ≠ .endTag

/-- What is known after the tokens `done`, which lead to `state`, if nothing has been reported. -/
def Balanced (text : Text) (done : List Placed) (state : ScanState) (d : Draft) : Prop :=
  match state with
  | .afterTagOpen =>
    (∃ init o, done = init ++ [o] ∧ o.kind = .tagOpen) ∧ Opening d.current d.above d.openTags
  | .afterEndTagOpen =>
    (∃ init o, done = init ++ [o] ∧ o.kind = .endTagOpen ∧ d.above = (Draft.after text init).above) ∧
      Counted d.current d.above d.openTags
  | .endTag => Closing d.current d.above d.openTags
  | _ => Counted d.current d.above d.openTags

section
variable {text : Text} {done todo : List Placed} {p : Placed} {d : Draft}

theorem Balanced.bodyState (h : Counted d.current d.above d.openTags) (raw : RawText) :
    Balanced text done (Token.bodyState raw) d := by
  cases raw <;> exact h

theorem Counted.closeStartTag (h : Counted d.current d.above d.openTags) (stop : Nat) :
    Counted (d.closeStartTag stop).current (d.closeStartTag stop).above (d.closeStartTag stop).openTags := by
  unfold Draft.closeStartTag
  split
  · exact h.leave stop
  · exact h.replace rfl rfl

theorem Counted.acceptInTag (h : Counted d.current d.above d.openTags)
    (hreads : ReadsInTag context p.kind p.state) (hclean : (d.accept text p).problems = []) :
    Balanced text done p.state (d.accept text p) := by
  obtain ⟨-, -, hnote⟩ := Draft.problems_accept_eq_nil hclean
  generalize hk : p.kind = kind at hreads
  generalize hs : p.state = after at hreads
  simp only [Draft.accept, hk, hnote] at hclean ⊢
  cases hreads with
  | blank | unexpected => exact h
  | attributeName =>
    simp only [Draft.addAttribute] at hclean ⊢
    rw [(Draft.problems_expect_eq_nil hclean).2]
    exact h.replace rfl rfl
  | selfClose => exact h.leave p.stop
  | close => exact .bodyState (h.closeStartTag p.stop) _

theorem Balanced.accept (hnamed : Named text) (h : Balanced text done state (Draft.after text done))
    (htokens : tokens text = done ++ p :: todo) (hreads : Reads state p.kind p.state)
    (hclean : ((Draft.after text done).accept text p).problems = []) (hrefuses : ¬ state.Refuses p.kind) :
    Balanced text (done ++ [p]) p.state ((Draft.after text done).accept text p) := by
  have hwhole := hclean
  obtain ⟨-, -, hnote⟩ := Draft.problems_accept_eq_nil hclean
  generalize hk : p.kind = kind at hreads hrefuses
  generalize hs : p.state = after at hreads
  simp only [Draft.accept, hk, hnote] at hclean ⊢
  cases hreads with
  | tag hin | valueless hin | missingValue _ hin =>
    subst hk hs
    have hstep : Balanced text (done ++ [p]) p.state ((Draft.after text done).accept text p) :=
      h.acceptInTag hin hwhole
    simpa only [Draft.accept, hnote] using hstep
  | nameless hin =>
    obtain ⟨⟨init, o, rfl, ho⟩, -⟩ := h
    have hname := hnamed.startTags init o (p :: todo) (by simpa using htokens) ho
    simp only [List.head?_cons, Option.map_some, hk, Option.some.injEq] at hname
    subst hname
    cases hin
  | blankBeforeName => exact absurd .blankBeforeName hrefuses
  | blankBeforeEndName => exact absurd .blankBeforeEndName hrefuses
  | unknownEndName => exact absurd .unknownEndName hrefuses
  | unknownInEndTag => exact absurd .unknownInEndTag hrefuses
  | content | style | styleToEnd =>
    rcases (Draft.after text done).addText_cases p.lexeme with heq | ⟨runs, heq⟩
    · simp only [heq]
      exact h
    · simp only [heq]
      exact h.replace rfl rfl
  | commentOpen | doctypeOpen | comment | commentClose | doctype | doctypeClose | script | scriptToEnd
  | blankAfterName | assign | blankBeforeValue | blankInEndTag => exact h
  | tagOpen => exact ⟨⟨done, p, rfl, hk⟩, .mk rfl h⟩
  | tagName =>
    obtain ⟨-, hopening⟩ := h
    simp only [Draft.nameElement] at hclean ⊢
    rw [(Draft.problems_expect_eq_nil hclean).2]
    generalize (Draft.after text done).above = above at hopening
    cases hopening with
    | mk children counted =>
      exact ⟨awaited_cons.mpr ⟨_, _, rfl, rfl, counted.awaited⟩, counted.finished.opened children⟩
  | value =>
    simp only [Draft.addValue] at hclean ⊢
    rw [(Draft.problems_expect_eq_nil hclean).2]
    exact h.replace rfl rfl
  | endTagOpen | scriptEnd | styleEnd => exact ⟨⟨done, p, rfl, hk, rfl⟩, h⟩
  | endTagName => exact h.2.nameEndTag hclean
  | endTagClose => exact h.leave p.stop
  | namelessClose =>
    obtain ⟨⟨init, o, rfl, ho, habove⟩, hcounted⟩ := h
    have hnil := habove.trans (hnamed.endTags init o p todo (by simpa using htokens) ho hk)
    simp only [Draft.leave, hnil]
    exact hcounted

/-- Where nothing is reported every token is in its place. -/
theorem not_refuses (hclean : (Draft.after text (tokens text)).problems = [])
    (htokens : tokens text = done ++ p :: todo) : ¬ (finalState .content done).Refuses p.kind := by
  intro hrefuses
  have hnext : tokens text = (done ++ [p]) ++ todo := by simpa using htokens
  have hproblems := Draft.problems_after_eq_nil hclean hnext
  rw [Draft.after_concat] at hproblems
  obtain ⟨-, hfault, -⟩ := Draft.problems_accept_eq_nil hproblems
  obtain ⟨c, tail, htoken, -⟩ := exists_next_of_scan htokens
  rw [Placed.kind, htoken] at hrefuses
  exact Token.fault_of_refuses hrefuses (htoken ▸ hfault)

theorem Balanced.after (hnamed : Named text) (hclean : (Draft.after text (tokens text)).problems = []) :
    Balanced text (tokens text) (finalState .content (tokens text)) (Draft.after text (tokens text)) := by
  refine Draft.after_induction (motive := fun done =>
    Balanced text done (finalState .content done) (Draft.after text done)) ?_ ?_
    (List.append_nil (tokens text)).symm
  · exact ⟨rfl, allIn_nil, List.forall_mem_nil _⟩
  · intro done p todo htokens hreads h
    have hnext : tokens text = (done ++ [p]) ++ todo := by simpa using htokens
    have hproblems := Draft.problems_after_eq_nil hclean hnext
    rw [finalState_concat, Draft.after_concat]
    rw [Draft.after_concat] at hproblems
    exact h.accept hnamed htokens hreads hproblems (not_refuses hclean htokens)

theorem Balanced.counted (h : Balanced text (tokens text) (finalState .content (tokens text)) d)
    (hunbroken : Unbroken text) : Counted d.current d.above d.openTags := by
  have hlast := hunbroken.lastTag
  generalize finalState .content (tokens text) = state at h hlast
  cases state with
  | endTag => exact absurd rfl hlast
  | afterTagOpen =>
    obtain ⟨⟨init, o, htokens, ho⟩, -⟩ := h
    cases hunbroken.startTags init o [] htokens ho
  | afterEndTagOpen => exact h.2
  | _ => exact h

/-- Nothing is left open at the end, and so nothing is left incomplete. -/
theorem Unbroken.complete (h : Unbroken text) (hclean : (Document.parse text).problems = []) :
    AllIn Element.Complete (Document.parse text).roots := by
  obtain ⟨hproblems, hopen⟩ := Draft.problems_finish_eq_nil hclean
  have hcounted := (Balanced.after h.toNamed hproblems).counted h
  rw [Draft.after, hopen] at hcounted
  have habove := hcounted.above_eq_nil
  rw [Document.roots, Document.parse, Draft.finish, habove]
  exact hcounted.finished.1

end

-- ---------------------------------------------------------------------------
-- What is not closed when it is handed over is never closed
-- ---------------------------------------------------------------------------

def AllClosed (e : Element) (above : List Element) : Prop :=
  Finished (fun x => x.closed = true) e above

section
variable {text : Text} {done todo : List Placed} {p : Placed} {d : Draft} {e : Element}
  {above : List Element}

theorem AllClosed.of_closeUpTo (name : String) (stop : Nat)
    (h : AllClosed (closeUpTo name stop e above).1 (closeUpTo name stop e above).2) :
    AllClosed e above := by
  fun_induction closeUpTo name stop e above with
  | case1 => exact h
  | case2 => exact h
  | case3 e parent above _ ih => exact (finished_push.mp (ih h)).2.congr rfl

theorem AllClosed.of_endTagStep (h : AllClosed e above) (hstep : d.EndTagStep text name start e above) :
    AllClosed d.current d.above := by
  cases hstep with
  | absorbed void =>
    obtain ⟨-, -, -, hclosed, -, -⟩ := Draft.of_voidBefore? void
    rw [← Element.push_dropLast (Draft.voidBefore?_eq_some void)]
    exact finished_push.mpr ⟨hclosed, h.congr rfl⟩
  | found void closed =>
    refine .of_closeUpTo name start ?_
    rw [closed]
    exact h.congr rfl
  | lost void closed =>
    refine .of_closeUpTo name start ?_
    rw [closed]
    exact h

theorem AllClosed.of_accept (h : AllClosed (d.accept text p).current (d.accept text p).above) :
    AllClosed d.current d.above := by
  have hstep := d.accept_step text p
  generalize (d.accept text p).current = e, (d.accept text p).above = above at hstep h
  cases hstep with
  | stay children => exact h.congr children.symm
  | begin => exact h.outer
  | leave outer children =>
    rw [outer]
    exact (finished_push.mp h).2.congr children.symm
  | endTagName kind step => exact h.of_endTagStep step

theorem AllClosed.of_after
    (h : AllClosed (Draft.after text (tokens text)).current (Draft.after text (tokens text)).above)
    (htokens : tokens text = done ++ todo) :
    AllClosed (Draft.after text done).current (Draft.after text done).above := by
  refine Draft.after_backward (motive := fun done =>
    AllClosed (Draft.after text done).current (Draft.after text done).above) h ?_ htokens
  intro done p todo _ hnext
  rw [Draft.after_concat] at hnext
  exact hnext.of_accept

theorem allClosed_of_closeAll (h : AllIn (fun x => x.closed = true) (closeAll stop e above).children) :
    above = [] ∧ AllClosed e above := by
  fun_induction closeAll stop e above with
  | case1 => exact ⟨rfl, h, List.forall_mem_nil _⟩
  | case2 e parent above ih => cases (finished_push.mp (ih h).2).1

end

-- ---------------------------------------------------------------------------
-- Complete documents
-- ---------------------------------------------------------------------------

section
variable {text : Text} {before rest : List Placed} {p q : Placed}

/-- A name that belongs to a `<` follows it directly, unless there is something to report. -/
theorem head?_of_tagName (hclean : (Draft.after text (tokens text)).problems = [])
    (htokens : tokens text = before ++ p :: rest) (hp : p.kind = .tagOpen)
    (hq : q ∈ rest.takeWhile (·.kind ≠ .tagOpen)) (hkind : q.kind = .tagName) :
    rest.head?.map Placed.kind = some .tagName := by
  obtain ⟨front, back, hfront⟩ := List.append_of_mem hq
  have hrest : rest = front ++ q :: (back ++ rest.dropWhile (·.kind ≠ .tagOpen)) := by
    rw [← List.cons_append, ← List.append_assoc, ← hfront, List.takeWhile_append_dropWhile]
  have hother : ∀ m ∈ front, m.kind ≠ .tagOpen := by
    intro m hm
    have hmem : m ∈ rest.takeWhile (·.kind ≠ .tagOpen) := hfront ▸ List.mem_append_left _ hm
    simpa using List.all_eq_true.mp List.all_takeWhile m hmem
  generalize back ++ rest.dropWhile (·.kind ≠ .tagOpen) = tail at hrest
  subst hrest
  cases front with
  | nil => simp [hkind]
  | cons m front =>
    -- Only a blank can stand in between, and that is reported.
    have hname : tokens text = (before ++ p :: m :: front) ++ q :: tail := by simpa using htokens
    have hblank : tokens text = (before ++ [p]) ++ m :: (front ++ q :: tail) := by simpa using htokens
    have hbefore : q.kind.predecessor? = some (.tagOpen, .blank) := by rw [hkind]; rfl
    have hstate := (reads_of_scan hname).1.predecessor? hbefore
    obtain ⟨init, o, gap, hgap, ho, hblanks⟩ := exists_predecessor rfl hname hstate
    obtain ⟨-, -, rfl⟩ := last_unique hgap (P := (·.kind ≠ .tagOpen)) (by simp [hp]) (by simp [ho]) hother
      (fun g hg => by simp [hblanks g hg])
    have hrefuses := not_refuses hclean hblank
    have hreads := (reads_of_scan htokens).1
    rw [hp] at hreads
    rw [finalState_concat, hreads.of_tagOpen, hblanks m (by simp)] at hrefuses
    exact absurd .blankBeforeName hrefuses

theorem startTags_named (hclean : (Draft.after text (tokens text)).problems = [])
    (hall : ∀ e ∈ (Document.parse text).elements, e.tag.isSome = true)
    (htokens : tokens text = before ++ p :: rest) (hp : p.kind = .tagOpen) :
    rest.head?.map Placed.kind = some .tagName := by
  obtain ⟨e, he, htag⟩ := exists_element_of_tagOpen htokens hp
  have hsome := hall e he
  have hread : e.tag = _ := congrArg StartTag.tag htag
  rw [hread, StartTag.foldl_read_tag, Option.or_none, Option.isSome_map] at hsome
  obtain ⟨q, hq⟩ := Option.isSome_iff_exists.mp hsome
  obtain ⟨hmem, hkind⟩ := List.mem_filter.mp (List.mem_of_getLast? hq)
  exact head?_of_tagName hclean htokens hp hmem (of_decide_eq_true hkind)

theorem endTags_named (hclean : (Draft.after text (tokens text)).problems = [])
    (hall : AllClosed (Draft.after text (tokens text)).current (Draft.after text (tokens text)).above)
    (htokens : tokens text = before ++ p :: q :: rest) (hp : p.kind = .endTagOpen)
    (hq : q.kind = .endTagClose) : (Draft.after text before).above = [] := by
  have hresting : Resting text (Draft.after text before).current (Draft.after text before).above := by
    have htracked := Tracked.after htokens
    have hbracket : p.kind.bracket? = some ['<', '/'] := by rw [hp]; rfl
    rcases (reads_of_scan htokens).1.state_of_bracket hbracket with hstate | hstate | hstate
    all_goals
      rw [hstate] at htracked
      exact htracked
  have hnext : tokens text = (before ++ [p] ++ [q]) ++ rest := by simpa using htokens
  have hclosed := hall.of_after hnext
  have hproblems := Draft.problems_after_eq_nil hclean hnext
  rw [Draft.after_concat, Draft.after_concat] at hclosed hproblems
  obtain ⟨hproblems, -, hnoted⟩ := Draft.problems_accept_eq_nil hproblems
  obtain ⟨-, -, hnote⟩ := Draft.problems_accept_eq_nil hproblems
  rw [Draft.accept, hnoted, hq, Draft.accept, hnote, hp] at hclosed
  generalize Draft.after text before = d at hresting hclosed
  obtain ⟨current, above⟩ := d
  cases above with
  | nil => rfl
  | cons parent above =>
    obtain ⟨hwaiting, -⟩ := List.forall_mem_cons.mp hresting.waiting
    cases hwaiting.closed.symm.trans (finished_push.mp hclosed).1

end

/-- A document without problems is complete, every element named and closed, exactly if no tag is
without a name where it would need one and the text does not end in an end tag. -/
theorem elements_complete_iff (text : Text) (h : (Document.parse text).problems = []) :
    (∀ e ∈ (Document.parse text).elements, e.tag.isSome = true ∧ e.closed = true) ↔ Unbroken text := by
  refine ⟨fun hall => ?_, fun hunbroken => hunbroken.complete h⟩
  obtain ⟨hclean, -⟩ := Draft.problems_finish_eq_nil h
  obtain ⟨habove, hclosed⟩ := allClosed_of_closeAll fun e he => (hall e he).2
  have hnamed : Named text :=
    ⟨fun _ _ _ => startTags_named hclean fun e he => (hall e he).1,
      fun _ _ _ _ => endTags_named hclean hclosed⟩
  refine ⟨hnamed, fun hlast => ?_⟩
  -- The element whose end tag it is would be open at the end.
  have hbalanced := Balanced.after hnamed hclean
  rw [hlast] at hbalanced
  generalize hd : Draft.after text (tokens text) = d at hbalanced
  obtain ⟨current, above⟩ := d
  cases hbalanced with
  | mk => cases (congrArg Draft.above hd).symm.trans habove

/-- A page with a void element that has an end tag, and an end tag without a name after all. -/
def completePage : Text :=
  "<view><image></image ></view></>".toList

theorem elements_complete_iff_completePage :
    (Document.parse completePage).problems = [] ∧
      (∀ e ∈ (Document.parse completePage).elements, e.tag.isSome = true ∧ e.closed = true) ∧
      Unbroken completePage := by
  have hclean : (Document.parse completePage).problems = [] := by decide +kernel
  have hall : ∀ e ∈ (Document.parse completePage).elements, e.tag.isSome = true ∧ e.closed = true := by
    decide +kernel
  exact ⟨hclean, hall, (elements_complete_iff completePage hclean).mp hall⟩

def cutPage : Text :=
  "<view></view".toList

/-- That its element is not closed goes unreported. -/
theorem cutPage_unreported :
    (Document.parse cutPage).problems = [] ∧
      ∃ e ∈ (Document.parse cutPage).elements, e.closed = false := by
  decide +kernel

end PageMarkup
