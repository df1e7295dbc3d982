import PageMarkup.Proofs.CaseInsensitive
import PageMarkup.Proofs.OpenElements
import PageMarkup.Proofs.Sites
import PageMarkup.Proofs.TokenGrammar

/-!
# End tags and the elements they end

An end tag goes to the innermost open element of its name, or to a void element right before it, and
to no other. Whether an element counts as closed, and where it ends, can be read off the tokens: it
is closed by the token that ends its own end tag, or by that of its start tag if it has none. The
proof follows the builder through the tokens; an element whose start tag is over and that is open to
content is `Waiting`, and what has been handed to its parent is `Attributed` for good.
-/

namespace PageMarkup

open ScanState (Reads ReadsInTag)

-- ---------------------------------------------------------------------------
-- Places in a document
-- ---------------------------------------------------------------------------

theorem tokens_pairwise (text : Text) : (tokens text).Pairwise fun p q => p.offset < q.offset := by
  refine (scan_pairwise .content 0 text).imp_of_mem fun hp _ hle => ?_
  exact Nat.lt_of_lt_of_le (Nat.lt_add_of_pos_right (size_pos_of_mem_tokens hp)) hle

theorem split_unique {ts before before' rest rest' : List Placed} {p p' : Placed}
    (hts : ts.Pairwise fun p q => p.offset < q.offset) (h : ts = before ++ p :: rest)
    (h' : ts = before' ++ p' :: rest') (hoffset : p.offset = p'.offset) :
    before = before' ∧ p = p' ∧ rest = rest' := by
  induction before generalizing ts before' with
  | nil =>
    cases before' with
    | nil =>
      obtain ⟨rfl, rfl⟩ := List.cons.inj (h.symm.trans h')
      exact ⟨rfl, rfl, rfl⟩
    | cons q before' =>
      subst h'
      obtain ⟨rfl, -⟩ := List.cons.inj h
      have hlt := (List.pairwise_cons.mp hts).1 p' (by simp)
      omega
  | cons q before ih =>
    subst h
    cases before' with
    | nil =>
      obtain ⟨rfl, -⟩ := List.cons.inj h'
      have hlt := (List.pairwise_cons.mp hts).1 p (by simp)
      omega
    | cons q' before' =>
      obtain ⟨rfl, htail⟩ := List.cons.inj h'
      obtain ⟨rfl, rfl, rfl⟩ := ih (List.Pairwise.of_cons hts) rfl htail
      exact ⟨rfl, rfl, rfl⟩

def TokenKind.tagParts : TokenKind → List TokenKind
  | .tagOpen => startTagParts
  | .endTagOpen => endTagParts
  | _ => []

/-- The tag whose bracket is at `start` ends with the token `t`. -/
def TagEnds (text : Text) (start : Nat) (t : Placed) : Prop :=
  ∃ before p mid rest, tokens text = before ++ p :: (mid ++ t :: rest) ∧ p.offset = start ∧
    t.kind.beginning? = some (p.kind, p.kind.tagParts) ∧ ∀ m ∈ mid, m.kind ∈ p.kind.tagParts

/-- The tag that begins with a bracket of the kind at `start` is not over after the tokens `done`. -/
def TagBegun (first : TokenKind) (start : Nat) (done : List Placed) : Prop :=
  ∃ before p mid, done = before ++ p :: mid ∧ p.kind = first ∧ p.offset = start ∧
    ∀ m ∈ mid, m.kind ∈ first.tagParts

theorem TokenKind.not_mem_of_beginning? {kind : TokenKind} (h : kind.beginning? = some (first, parts)) :
    kind ∉ parts := by
  cases kind with
  | tagClose | tagSelfClose | endTagClose =>
    obtain ⟨-, rfl⟩ := Prod.ext_iff.mp (Option.some.inj h)
    simp [startTagParts, endTagParts]
  | _ => cases h

section
variable {text : Text} {first : TokenKind} {start : Nat} {done todo before rest : List Placed}
  {p t t' : Placed}

theorem TagEnds.find? (h : TagEnds text start t) (htokens : tokens text = before ++ p :: rest)
    (hp : p.offset = start) : rest.find? (fun m => m.kind ∉ p.kind.tagParts) = some t := by
  obtain ⟨before', p', mid, rest', htokens', hp', ht, hmid⟩ := h
  obtain ⟨rfl, rfl, rfl⟩ := split_unique (tokens_pairwise text) htokens htokens' (hp.trans hp'.symm)
  have hout := TokenKind.not_mem_of_beginning? ht
  rw [List.find?_append, List.find?_eq_none.mpr (by simpa using hmid), Option.none_or,
    List.find?_cons_of_pos (by simpa using hout)]

theorem TagEnds.unique (h : TagEnds text start t) (h' : TagEnds text start t') : t = t' := by
  obtain ⟨before, p, mid, rest, htokens, hp, -⟩ := id h
  exact Option.some.inj ((h.find? htokens hp).symm.trans (h'.find? htokens hp))

theorem TagBegun.single (hkind : p.kind = first) (hoffset : p.offset = start) :
    TagBegun first start (done ++ [p]) :=
  ⟨done, p, [], rfl, hkind, hoffset, List.forall_mem_nil _⟩

theorem TagBegun.concat (h : TagBegun first start done) (hp : p.kind ∈ first.tagParts) :
    TagBegun first start (done ++ [p]) := by
  obtain ⟨before, q, mid, rfl, hkind, hoffset, hmid⟩ := h
  refine ⟨before, q, mid ++ [p], by simp, hkind, hoffset, ?_⟩
  simp only [List.mem_append, List.mem_singleton]
  rintro m (hm | rfl)
  · exact hmid m hm
  · exact hp

theorem TagBegun.ends (h : TagBegun first start done) (htokens : tokens text = done ++ t :: todo)
    (ht : t.kind.beginning? = some (first, first.tagParts)) : TagEnds text start t := by
  obtain ⟨before, q, mid, rfl, rfl, hoffset, hmid⟩ := h
  exact ⟨before, q, mid, todo, by simpa using htokens, hoffset, ht, hmid⟩

theorem TagBegun.not_ends (h : TagBegun first start (tokens text)) : ¬ TagEnds text start t := by
  obtain ⟨before, q, mid, htokens, rfl, hoffset, hmid⟩ := h
  intro hends
  have hfind := hends.find? htokens hoffset
  rw [List.find?_eq_none.mpr (by simpa using hmid)] at hfind
  cases hfind

end

-- ---------------------------------------------------------------------------
-- Elements
-- ---------------------------------------------------------------------------

/-- The element to which an end tag goes. -/
def Draft.owner? (text : Text) (d : Draft) (name : String) (start : Nat) : Option Element :=
  (d.voidBefore? text name start).or ((openElements d.current d.above).find? (·.hasName name))

theorem Draft.owner?_congr {d d' : Draft} (hcurrent : d.current = d'.current) (habove : d.above = d'.above)
    (text : Text) (name : String) (start : Nat) :
    d.owner? text name start = d'.owner? text name start := by
  rw [owner?, owner?, voidBefore?, voidBefore?, hcurrent, habove]

theorem Draft.of_voidBefore? {d : Draft} (h : d.voidBefore? text name start = some child) :
    d.current.children.getLast? = some child ∧ TagName.isVoid name = true ∧ child.hasName name = true ∧
      child.closed = true ∧ child.endTagStart = none ∧
      (text.slice? child.stop start).map Text.trim = some [] := by
  unfold voidBefore? at h
  split at h
  · cases h
  · next hnot =>
    obtain ⟨hlast, hchild⟩ := Option.filter_eq_some_iff.mp h
    simp only [Bool.or_eq_true, Bool.not_eq_true', not_or, Bool.not_eq_false] at hnot
    simp only [Bool.and_eq_true, decide_eq_true_eq, Option.isNone_iff_eq_none] at hchild
    obtain ⟨⟨⟨hname, hclosed⟩, hend⟩, hblank⟩ := hchild
    exact ⟨hlast, hnot.2, hname, hclosed, hend, hblank⟩

/-- The end tag at `start` went to the element. -/
def EndTagOf (text : Text) (start : Nat) (e : Element) : Prop :=
  ∃ before p gap q rest, tokens text = before ++ p :: (gap ++ q :: rest) ∧ p.kind = .endTagOpen ∧
    p.offset = start ∧ (∀ g ∈ gap, g.kind = .blank) ∧ q.kind = .endTagName ∧
    ((Draft.after text before).owner? text (String.ofList q.lexeme).toLower start).map
      Element.startTag = some e.startTag

/-- The token that closed an element which has no end tag. -/
def Element.ClosedBy (e : Element) (t : Placed) : Prop :=
  t.kind = .tagSelfClose ∨ e.isVoid = true ∧ t.kind = .tagClose

/-- The element is closed exactly if its end tag, or else its start tag, closed it. -/
structure Attributed (text : Text) (e : Element) : Prop where
  endTag : ∀ start, e.endTagStart = some start → EndTagOf text start e
  closed_iff : e.closed = true ↔
    (e.endTagStart = none ∧ ∃ t, TagEnds text e.start t ∧ e.ClosedBy t ∧ e.stop = t.stop) ∨
      ∃ start t, e.endTagStart = some start ∧ TagEnds text start t ∧ t.kind = .endTagClose ∧
        e.stop = t.stop

structure Waiting (text : Text) (e : Element) : Prop where
  endTag : e.endTagStart = none
  closed : e.closed = false
  startTag : ∃ t, TagEnds text e.start t ∧ t.kind = .tagClose
  not_void : e.isVoid = false

section
variable {text : Text} {e e' : Element} {t : Placed}

theorem Waiting.congr (h : Waiting text e) (hhead : e'.toElementHead = e.toElementHead) :
    Waiting text e' := by
  obtain ⟨head, children⟩ := e
  obtain ⟨head', children'⟩ := e'
  obtain rfl : head' = head := hhead
  exact ⟨h.endTag, h.closed, h.startTag, h.not_void⟩

theorem EndTagOf.congr (h : EndTagOf text start e) (htag : e'.startTag = e.startTag) :
    EndTagOf text start e' := by
  rw [EndTagOf, htag]
  exact h

theorem attributed_of_not_closed (hend : e.endTagStart = none) (hclosed : e.closed = false)
    (hnot : ∀ t, TagEnds text e.start t → ¬ e.ClosedBy t) : Attributed text e where
  endTag start hstart := by cases hend.symm.trans hstart
  closed_iff := by
    rw [hclosed, hend]
    constructor
    · rintro ⟨⟩
    · rintro (⟨-, t, ht, hby, -⟩ | ⟨_, _, hsome, -⟩)
      · exact absurd hby (hnot t ht)
      · cases hsome

theorem Waiting.not_closedBy (h : Waiting text e) (ht : TagEnds text e.start t) : ¬ e.ClosedBy t := by
  intro hby
  obtain ⟨t', ht', hkind⟩ := h.startTag
  obtain rfl := ht.unique ht'
  rcases hby with hself | ⟨hvoid, -⟩
  · cases hself.symm.trans hkind
  · cases h.not_void.symm.trans hvoid

theorem attributed_of_closed (hend : e.endTagStart = none) (ht : TagEnds text e.start t)
    (hby : e.ClosedBy t) : Attributed text { e with stop := t.stop, closed := true } where
  endTag start hstart := by cases hend.symm.trans hstart
  closed_iff := ⟨fun _ => .inl ⟨hend, t, ht, hby, rfl⟩, fun _ => rfl⟩

theorem EndTagOf.closed (h : EndTagOf text start e) (hend : e.endTagStart = some start)
    (hclosed : e.closed = true) (ht : TagEnds text start t) (hkind : t.kind = .endTagClose) :
    Attributed text { e with stop := t.stop } where
  endTag start' hstart' := by
    obtain rfl := Option.some.inj (hend.symm.trans hstart')
    exact h.congr rfl
  closed_iff := ⟨fun _ => .inr ⟨start, t, hend, ht, hkind, rfl⟩, fun _ => hclosed⟩

/-- An element in whose end tag the text ends. -/
theorem EndTagOf.cut (h : EndTagOf text start e) (hend : e.endTagStart = some start)
    (hcut : TagBegun .endTagOpen start (tokens text)) (stop : Nat) :
    Attributed text { e with stop, closed := false } where
  endTag start' hstart' := by
    obtain rfl := Option.some.inj (hend.symm.trans hstart')
    exact h.congr rfl
  closed_iff := by
    constructor
    · rintro ⟨⟩
    · rintro (⟨hnone, -⟩ | ⟨start', t, hstart', ht, -⟩)
      · cases hend.symm.trans hnone
      · obtain rfl := Option.some.inj (hend.symm.trans hstart')
        exact absurd ht hcut.not_ends

end

-- ---------------------------------------------------------------------------
-- Open elements
-- ---------------------------------------------------------------------------

structure Resting (text : Text) (e : Element) (above : List Element) : Prop where
  waiting : ∀ x ∈ openElements e above, Waiting text x
  finished : Finished (Attributed text) e above

section
variable {text : Text} {e e' child parent : Element} {above : List Element}

theorem Resting.replace (h : Resting text e above) (hwaiting : Waiting text e → Waiting text e')
    (hchildren : e'.children = e.children) : Resting text e' above :=
  ⟨forall_openElements_congr h.waiting hwaiting, h.finished.congr hchildren⟩

theorem Resting.push (hwaiting : ∀ x ∈ openElements parent above, Waiting text x)
    (hfinished : Finished (Attributed text) e (parent :: above)) (hchild : Attributed text child)
    (hchildren : child.children = e.children) : Resting text (parent.push child) above :=
  ⟨forall_openElements_congr hwaiting (·.congr rfl), hfinished.push hchild hchildren⟩

/-- The innermost open element can be ended anywhere, but is not closed by that. -/
theorem Resting.leave (h : Resting text e (parent :: above)) (stop : Nat) :
    Resting text (parent.push { e with stop, closed := false }) above := by
  obtain ⟨he, habove⟩ := List.forall_mem_cons.mp h.waiting
  exact .push habove h.finished (attributed_of_not_closed he.endTag rfl fun _ => he.not_closedBy) rfl

theorem Resting.closeUpTo (h : Resting text e above) (name : String) (stop : Nat) :
    Resting text (closeUpTo name stop e above).1 (closeUpTo name stop e above).2 := by
  fun_induction PageMarkup.closeUpTo name stop e above with
  | case1 => exact h
  | case2 => exact h
  | case3 e parent above _ ih => exact ih (h.leave stop)

theorem Resting.closeAll (h : Resting text e above) (stop : Nat) :
    AllIn (Attributed text) (closeAll stop e above).children := by
  fun_induction PageMarkup.closeAll stop e above with
  | case1 => exact h.finished.1
  | case2 e parent above ih => exact ih (h.leave stop)

theorem find?_openElements_push (parent child : Element) (above : List Element) (name : String) :
    ((openElements (parent.push child) above).find? (·.hasName name)).map Element.startTag =
      ((openElements parent above).find? (·.hasName name)).map Element.startTag := by
  cases above with
  | nil => rfl
  | cons grandparent above =>
    have hname : (parent.push child).hasName name = parent.hasName name := rfl
    rw [openElements, openElements, List.find?_cons, List.find?_cons, hname]
    split <;> rfl

/-- Ending elements up to a name stops at the innermost open one that has it, or else at the root. -/
theorem find?_openElements (name : String) (stop : Nat) (e : Element) (above : List Element) :
    ((openElements e above).find? (·.hasName name)).map Element.startTag =
      match closeUpTo name stop e above with
      | (_, []) => none
      | (x, _ :: _) => some x.startTag := by
  fun_induction PageMarkup.closeUpTo name stop e above with
  | case1 => rfl
  | case2 e parent above hname =>
    rw [openElements, List.find?_cons, hname]
    rfl
  | case3 e parent above hname ih =>
    rw [openElements, List.find?_cons, Bool.of_not_eq_true hname, ← ih,
      find?_openElements_push]

end

inductive InStartTag (text : Text) (done : List Placed) : Element → List Element → Prop
  | mk (begun : TagBegun .tagOpen e.start done) (children : e.children = [])
      (endTag : e.endTagStart = none) (closed : e.closed = false) (around : Resting text parent above) :
      InStartTag text done e (parent :: above)

inductive InEndTag (text : Text) (done : List Placed) : Element → List Element → Prop
  | own (begun : TagBegun .endTagOpen start done) (endTag : e.endTagStart = some start)
      (closed : e.closed = true) (tag : EndTagOf text start e)
      (finished : Finished (Attributed text) e (parent :: above))
      (around : ∀ x ∈ openElements parent above, Waiting text x) : InEndTag text done e (parent :: above)
  | stray (resting : Resting text e above) : InEndTag text done e above

structure AtEndTag (text : Text) (done : List Placed) (d : Draft) : Prop where
  resting : Resting text d.current d.above
  opened : ∃ before p gap, done = before ++ p :: gap ∧ p.kind = .endTagOpen ∧
    d.endTagOpen = some p.offset ∧ (∀ g ∈ gap, g.kind = .blank) ∧
    d.current = (Draft.after text before).current ∧ d.above = (Draft.after text before).above

/-- What is known of the elements after the tokens `done`, which lead to `state`. -/
def Tracked (text : Text) (done : List Placed) (state : ScanState) (d : Draft) : Prop :=
  match state with
  | .content | .doctype | .comment | .scriptBody | .styleBody => Resting text d.current d.above
  | .afterTagOpen | .tag _ | .afterAttributeName _ | .beforeAttributeValue _ =>
    InStartTag text done d.current d.above
  | .afterEndTagOpen => AtEndTag text done d
  | .endTag => InEndTag text done d.current d.above

section
variable {text : Text} {done todo : List Placed} {p : Placed} {d d' : Draft} {e : Element}
  {above : List Element}

theorem Tracked.sameTree (h : Tracked text done state d) (hd : d'.SameTree d) :
    Tracked text done state d' := by
  cases state with
  | afterEndTagOpen =>
    obtain ⟨hresting, hopened⟩ := h
    refine ⟨?_, ?_⟩
    · rw [hd.current, hd.above]
      exact hresting
    · rw [hd.current, hd.above, hd.endTagOpen]
      exact hopened
  | _ => simpa only [Tracked, hd.current, hd.above] using h

theorem InStartTag.concat (h : InStartTag text done e above) (hp : p.kind ∈ startTagParts) :
    InStartTag text (done ++ [p]) e above := by
  cases h with
  | mk begun children endTag closed around => exact .mk (begun.concat hp) children endTag closed around

theorem InEndTag.concat (h : InEndTag text done e above) (hp : p.kind ∈ endTagParts) :
    InEndTag text (done ++ [p]) e above := by
  cases h with
  | own begun endTag closed tag finished around =>
    exact .own (begun.concat hp) endTag closed tag finished around
  | stray resting => exact .stray resting

theorem InStartTag.replace (h : InStartTag text done e above) (hstart : e'.start = e.start)
    (hchildren : e'.children = e.children) (hend : e'.endTagStart = e.endTagStart)
    (hclosed : e'.closed = e.closed) : InStartTag text done e' above := by
  cases h with
  | mk begun children endTag closed around =>
    exact .mk (hstart ▸ begun) (hchildren.trans children) (hend.trans endTag) (hclosed.trans closed) around

theorem InStartTag.leave (h : InStartTag text done d.current d.above)
    (htokens : tokens text = done ++ p :: todo) (hp : p.kind.beginning? = some (.tagOpen, startTagParts))
    (hby : d.current.ClosedBy p) :
    Resting text (d.leave ({ · with stop := p.stop, closed := true })).current
      (d.leave ({ · with stop := p.stop, closed := true })).above := by
  obtain ⟨current, above⟩ := d
  cases h with
  | mk begun children endTag closed around =>
    have hattributed := attributed_of_closed endTag (begun.ends htokens hp) hby
    exact .push around.waiting (around.finished.opened children) hattributed rfl

theorem InStartTag.closeStartTag (h : InStartTag text done d.current d.above)
    (htokens : tokens text = done ++ p :: todo) (hp : p.kind = .tagClose) :
    Resting text (d.closeStartTag p.stop).current (d.closeStartTag p.stop).above := by
  have hbeginning : p.kind.beginning? = some (.tagOpen, startTagParts) := by
    rw [hp]
    rfl
  unfold Draft.closeStartTag
  split
  · next hvoid => exact h.leave htokens hbeginning (.inr ⟨hvoid, hp⟩)
  · next hvoid =>
    generalize d.above = above at h
    cases h with
    | mk begun children endTag closed around =>
      refine ⟨List.forall_mem_cons.mpr ⟨?_, around.waiting⟩, around.finished.opened children⟩
      exact ⟨endTag, closed, ⟨p, begun.ends htokens hbeginning, hp⟩, Bool.of_not_eq_true hvoid⟩

theorem InEndTag.leave (h : InEndTag text done d.current d.above)
    (htokens : tokens text = done ++ p :: todo) (hp : p.kind = .endTagClose) :
    Resting text (d.leave ({ · with stop := p.stop })).current
      (d.leave ({ · with stop := p.stop })).above := by
  obtain ⟨current, above⟩ := d
  cases h with
  | own begun endTag closed tag finished around =>
    have hends := begun.ends htokens (by rw [hp]; rfl)
    exact .push around finished (tag.closed endTag closed hends hp) rfl
  | stray resting =>
    cases above with
    | nil => exact resting
    | cons parent above =>
      -- The tag has no name, so it ends the element but does not close it.
      obtain ⟨he, habove⟩ := List.forall_mem_cons.mp resting.waiting
      have hattributed := attributed_of_not_closed (e := { current with stop := p.stop })
        he.endTag he.closed fun _ => he.not_closedBy
      exact .push habove resting.finished hattributed rfl

theorem AtEndTag.nameEndTag (h : AtEndTag text done d) (htokens : tokens text = done ++ p :: todo)
    (hp : p.kind = .endTagName) :
    InEndTag text (done ++ [p]) (d.nameEndTag text p.lexeme p.offset p.stop).current
      (d.nameEndTag text p.lexeme p.offset p.stop).above := by
  obtain ⟨hresting, before, o, gap, rfl, hkind, hopen, hgap, hcurrent, habove⟩ := h
  have hbegun : TagBegun .endTagOpen o.offset (before ++ o :: gap ++ [p]) := by
    refine .concat ⟨before, o, gap, rfl, hkind, rfl, fun g hg => ?_⟩ ?_
    · rw [hgap g hg]
      exact List.mem_of_elem_eq_true rfl
    · rw [hp]
      exact List.mem_of_elem_eq_true rfl
  have htag : ∀ e, (d.owner? text (String.ofList p.lexeme).toLower o.offset).map Element.startTag =
      some e.startTag → EndTagOf text o.offset e := by
    intro e he
    refine ⟨before, o, gap, p, todo, by simpa using htokens, hkind, rfl, hgap, hp, ?_⟩
    rwa [Draft.owner?_congr hcurrent habove] at he
  unfold Draft.owner? at htag
  have hstep := d.nameEndTag_step text p.lexeme p.offset p.stop
  rw [hopen, Option.getD_some] at hstep
  generalize (d.nameEndTag text p.lexeme p.offset p.stop).current = e,
    (d.nameEndTag text p.lexeme p.offset p.stop).above = above at hstep ⊢
  have hclosed := hresting.closeUpTo (String.ofList p.lexeme).toLower o.offset
  have hfind := find?_openElements (String.ofList p.lexeme).toLower o.offset d.current d.above
  cases hstep with
  | absorbed void =>
    obtain ⟨-, -, -, hchild, -, -⟩ := Draft.of_voidBefore? void
    rw [void] at htag
    refine .own hbegun rfl hchild (htag _ rfl) ?_ ?_
    · exact hresting.finished.pop (Draft.voidBefore?_eq_some void) rfl
    · exact forall_openElements_congr hresting.waiting (·.congr rfl)
  | found void closed =>
    rw [closed] at hclosed hfind
    rw [void, Option.none_or] at htag
    obtain ⟨-, hwaiting⟩ := List.forall_mem_cons.mp hclosed.waiting
    exact .own hbegun rfl rfl (htag _ hfind) (hclosed.finished.congr rfl) hwaiting
  | lost void closed =>
    rw [closed] at hclosed
    exact .stray hclosed

theorem Tracked.bodyState (h : Resting text d.current d.above) (raw : RawText) :
    Tracked text done (Token.bodyState raw) d := by
  cases raw <;> exact h

theorem Tracked.acceptInTag (h : InStartTag text done d.current d.above)
    (htokens : tokens text = done ++ p :: todo) (hreads : ReadsInTag context p.kind p.state) :
    Tracked text (done ++ [p]) p.state (d.accept text p) := by
  have hnote := d.note_sameTree p
  rw [← hnote.current, ← hnote.above] at h
  generalize hk : p.kind = kind at hreads
  generalize hs : p.state = after at hreads
  simp only [Draft.accept, hk]
  cases hreads with
  | blank | unexpected => exact h.concat (by rw [hk]; simp [startTagParts])
  | attributeName =>
    refine Tracked.sameTree ?_ (Draft.addAttribute_sameTree _ _ _ _)
    exact (h.concat (by rw [hk]; simp [startTagParts])).replace rfl rfl rfl rfl
  | selfClose => exact h.leave htokens (by rw [hk]; rfl) (.inl hk)
  | close => exact .bodyState (h.closeStartTag htokens hk) _

theorem AtEndTag.blank (h : AtEndTag text done d) (hp : p.kind = .blank) :
    AtEndTag text (done ++ [p]) d := by
  obtain ⟨hresting, before, o, gap, rfl, hkind, hopen, hgap, htree⟩ := h
  refine ⟨hresting, before, o, gap ++ [p], by simp, hkind, hopen, ?_, htree⟩
  simp only [List.mem_append, List.mem_singleton]
  rintro g (hg | rfl)
  · exact hgap g hg
  · exact hp

theorem AtEndTag.begin (h : Resting text d.current d.above) (hd : d.SameTree (Draft.after text done))
    (hp : p.kind = .endTagOpen) :
    AtEndTag text (done ++ [p]) { d with endTagOpen := some p.offset } :=
  ⟨h, done, p, [], rfl, hp, rfl, List.forall_mem_nil _, hd.current, hd.above⟩

theorem Tracked.accept (h : Tracked text done state (Draft.after text done))
    (htokens : tokens text = done ++ p :: todo) (hreads : Reads state p.kind p.state) :
    Tracked text (done ++ [p]) p.state ((Draft.after text done).accept text p) := by
  have hnote := (Draft.after text done).note_sameTree p
  have hnoted := h.sameTree hnote
  generalize hk : p.kind = kind at hreads
  generalize hs : p.state = after at hreads
  simp only [Draft.accept, hk]
  cases hreads with
  | nameless hin | tag hin | valueless hin | missingValue _ hin =>
    have hstep := Tracked.acceptInTag h htokens (hk ▸ hs ▸ hin)
    rwa [Draft.accept, hk, hs] at hstep
  | content | style | styleToEnd =>
    rcases ((Draft.after text done).note p).addText_cases p.lexeme with heq | ⟨runs, heq⟩
    · simp only [heq]
      exact hnoted
    · simp only [heq]
      exact hnoted.replace (fun he => ⟨he.endTag, he.closed, he.startTag, he.not_void⟩) rfl
  | commentOpen | doctypeOpen | comment | commentClose | doctype | doctypeClose | script | scriptToEnd =>
    exact hnoted
  | tagOpen => exact .mk (.single hk rfl) rfl rfl rfl hnoted
  | endTagOpen | scriptEnd | styleEnd => exact .begin hnoted hnote hk
  | tagName =>
    refine Tracked.sameTree ?_ (Draft.nameElement_sameTree _ _ _ _)
    exact (hnoted.concat (by rw [hk]; simp [startTagParts])).replace rfl rfl rfl rfl
  | blankBeforeName | blankAfterName | assign | blankBeforeValue =>
    exact hnoted.concat (by rw [hk]; simp [startTagParts])
  | value =>
    refine Tracked.sameTree ?_ (Draft.addValue_sameTree _ _ _ _)
    exact (hnoted.concat (by rw [hk]; simp [startTagParts])).replace rfl rfl rfl rfl
  | endTagName => exact hnoted.nameEndTag htokens hk
  | blankBeforeEndName => exact hnoted.blank hk
  | unknownEndName => exact .stray hnoted.resting
  | namelessClose => exact (InEndTag.stray hnoted.resting).leave htokens hk
  | blankInEndTag | unknownInEndTag => exact hnoted.concat (by rw [hk]; simp [endTagParts])
  | endTagClose => exact hnoted.leave htokens hk

end

theorem Tracked.after (h : tokens text = done ++ todo) :
    Tracked text done (finalState .content done) (Draft.after text done) := by
  refine Draft.after_induction (motive := fun done =>
    Tracked text done (finalState .content done) (Draft.after text done)) ?_ ?_ h
  · exact ⟨List.forall_mem_nil _, allIn_nil, List.forall_mem_nil _⟩
  intro done p todo htokens hreads h
  rw [finalState_concat, Draft.after_concat]
  exact h.accept htokens hreads

theorem Tracked.closeAll (h : Tracked text (tokens text) state d) (stop : Nat) :
    AllIn (Attributed text) (closeAll stop d.current d.above).children := by
  obtain ⟨current, above⟩ := d
  cases state with
  | content | doctype | comment | scriptBody | styleBody => exact Resting.closeAll h stop
  | afterEndTagOpen => exact h.resting.closeAll stop
  | endTag =>
    cases h with
    | own begun endTag closed tag finished around =>
      exact (Resting.push around finished (tag.cut endTag begun stop) rfl).closeAll stop
    | stray resting => exact resting.closeAll stop
  | afterTagOpen | tag | afterAttributeName | beforeAttributeValue =>
    cases h with
    | mk begun children endTag closed around =>
      have hattributed := attributed_of_not_closed (e := { current with stop, closed := false })
        endTag rfl fun _ ht => absurd ht begun.not_ends
      exact (Resting.push around.waiting (around.finished.opened children) hattributed rfl).closeAll stop

/-- Every element has got the end tag that is its own. -/
theorem parse_attributed (text : Text) : AllIn (Attributed text) (Document.parse text).roots :=
  (Tracked.after (List.append_nil (tokens text)).symm).closeAll text.size

-- ---------------------------------------------------------------------------
-- No end tag is lost
-- ---------------------------------------------------------------------------

def Element.HasEndTag (start : Nat) (e : Element) : Prop :=
  ∃ x ∈ e.preorder, x.endTagStart = some start

def Taken (start : Nat) : Element → List Element → Prop
  | e, [] => ∃ x ∈ Element.preorderAll e.children, x.endTagStart = some start
  | e, parent :: above => e.HasEndTag start ∨ Taken start parent above

section
variable {text : Text} {start : Nat} {done todo : List Placed} {p : Placed} {d : Draft}
  {e e' parent child : Element} {above : List Element}

theorem Element.hasEndTag_iff : e.HasEndTag start ↔
    e.endTagStart = some start ∨ ∃ x ∈ preorderAll e.children, x.endTagStart = some start := by
  simp [HasEndTag, preorder_eq]

theorem Element.hasEndTag_push :
    (parent.push child).HasEndTag start ↔ child.HasEndTag start ∨ parent.HasEndTag start := by
  simp only [hasEndTag_iff, push, preorderAll_append, preorderAll_singleton, List.mem_append,
    List.mem_cons, or_and_right, exists_or, exists_eq_left]
  rw [← or_assoc]
  exact or_comm

theorem taken_push : Taken start (parent.push child) above ↔ Taken start child (parent :: above) := by
  cases above with
  | nil =>
    simp only [Taken, Element.push, Element.preorderAll_append, Element.preorderAll_singleton,
      Element.hasEndTag_iff, List.mem_append, List.mem_cons, or_and_right, exists_or, exists_eq_left]
    exact or_comm
  | cons grandparent above => simp only [Taken, Element.hasEndTag_push, or_assoc]

theorem Taken.replace (h : Taken start e above)
    (hend : e.endTagStart = none ∨ e'.endTagStart = e.endTagStart) (hchildren : e'.children = e.children) :
    Taken start e' above := by
  cases above with
  | nil =>
    rw [Taken, hchildren]
    exact h
  | cons parent above =>
    refine h.imp_left fun he => ?_
    rw [Element.hasEndTag_iff] at he ⊢
    rw [hchildren]
    refine he.imp_left fun hstart => ?_
    rcases hend with hnone | hsame
    · cases hnone.symm.trans hstart
    · exact hsame.trans hstart

theorem Taken.closeUpTo (h : Taken start e above) (name : String) (stop : Nat) :
    Taken start (PageMarkup.closeUpTo name stop e above).1 (PageMarkup.closeUpTo name stop e above).2 := by
  fun_induction PageMarkup.closeUpTo name stop e above with
  | case1 => exact h
  | case2 => exact h
  | case3 e parent above _ ih => exact ih (taken_push.mpr (h.replace (.inr rfl) rfl))

theorem Taken.closeAll (h : Taken start e above) (stop : Nat) :
    ∃ x ∈ Element.preorderAll (PageMarkup.closeAll stop e above).children, x.endTagStart = some start := by
  fun_induction PageMarkup.closeAll stop e above with
  | case1 => exact h
  | case2 e parent above ih => exact ih (taken_push.mpr (h.replace (.inr rfl) rfl))

/-- The end tag goes to its owner, and what other elements have stays theirs. -/
theorem AtEndTag.taken {name : String} {t : Nat} (h : AtEndTag text done d)
    (hstep : d.EndTagStep text name t e above)
    (htaken : Taken start d.current d.above ∨ t = start ∧ (d.owner? text name t).isSome = true) :
    Taken start e above := by
  rw [Draft.owner?] at htaken
  have hclosed := h.resting.closeUpTo name t
  have hfind := find?_openElements name t d.current d.above
  have hkept (h : Taken start d.current d.above) := h.closeUpTo name t
  cases hstep with
  | absorbed void =>
    obtain ⟨-, -, -, -, hnone, -⟩ := Draft.of_voidBefore? void
    rcases htaken with htaken | ⟨rfl, -⟩
    · rw [← Element.push_dropLast (Draft.voidBefore?_eq_some void)] at htaken
      exact (taken_push.mp htaken).replace (.inl hnone) rfl
    · exact .inl (Element.hasEndTag_iff.mpr (.inl rfl))
  | found void closed =>
    rw [closed] at hclosed hkept
    obtain ⟨hwaiting, -⟩ := List.forall_mem_cons.mp hclosed.waiting
    rcases htaken with htaken | ⟨rfl, -⟩
    · exact (hkept htaken).replace (.inl hwaiting.endTag) rfl
    · exact .inl (Element.hasEndTag_iff.mpr (.inl rfl))
  | lost void closed =>
    rw [closed] at hfind hkept
    rcases htaken with htaken | ⟨rfl, hsome⟩
    · exact hkept htaken
    · rw [void, Option.none_or, Option.map_eq_none_iff.mp hfind] at hsome
      cases hsome

/-- An element keeps its end tag while more tokens are read. -/
theorem Taken.accept (h : Taken start d.current d.above) (htracked : Tracked text done state d)
    (hreads : Reads state p.kind p.state) :
    Taken start (d.accept text p).current (d.accept text p).above := by
  have hstep := d.accept_step text p
  generalize (d.accept text p).current = e, (d.accept text p).above = above at hstep ⊢
  cases hstep with
  | stay children endTag => exact h.replace (.inr endTag) children
  | begin => exact .inr h
  | leave outer children endTag =>
    rw [outer] at h
    exact taken_push.mpr (h.replace (.inr endTag) children)
  | endTagName kind step =>
    rw [kind] at hreads
    obtain rfl := hreads.of_endTagName
    exact htracked.taken step (.inl h)

theorem Taken.after (h : Taken start (Draft.after text done).current (Draft.after text done).above)
    (htokens : tokens text = done ++ todo) :
    Taken start (Draft.after text (tokens text)).current (Draft.after text (tokens text)).above := by
  revert h
  refine Draft.after_backward (motive := fun done =>
    Taken start (Draft.after text done).current (Draft.after text done).above → _) id ?_ htokens
  intro done p todo htokens hnext h
  refine hnext ?_
  rw [Draft.after_concat]
  exact h.accept (.after htokens) (reads_of_scan htokens).1

end

-- ---------------------------------------------------------------------------
-- End tags of a document
-- ---------------------------------------------------------------------------

theorem EndTagOf.unique {e e' : Element} (h : EndTagOf text start e) (h' : EndTagOf text start e') :
    e.startTag = e'.startTag := by
  obtain ⟨before, p, gap, q, rest, htokens, -, hp, hgap, hq, howner⟩ := h
  obtain ⟨before', p', gap', q', rest', htokens', -, hp', hgap', hq', howner'⟩ := h'
  obtain ⟨rfl, rfl, htail⟩ := split_unique (tokens_pairwise text) htokens htokens' (hp.trans hp'.symm)
  have hfind {gap rest : List Placed} {q : Placed} (hgap : ∀ g ∈ gap, g.kind = .blank)
      (hq : q.kind = .endTagName) : (gap ++ q :: rest).find? (·.kind ≠ .blank) = some q := by
    rw [List.find?_append, List.find?_eq_none.mpr (by simpa using hgap), Option.none_or,
      List.find?_cons_of_pos (by simp [hq])]
  obtain rfl := Option.some.inj ((hfind hgap hq).symm.trans (htail ▸ hfind hgap' hq'))
  exact Option.some.inj (howner.symm.trans howner')

theorem last_unique {P : Placed → Prop} {before before' gap gap' : List Placed} {p p' : Placed}
    (h : before ++ p :: gap = before' ++ p' :: gap') (hp : ¬ P p) (hp' : ¬ P p')
    (hgap : ∀ g ∈ gap, P g) (hgap' : ∀ g ∈ gap', P g) : before = before' ∧ p = p' ∧ gap = gap' := by
  rcases List.append_eq_append_iff.mp h with ⟨mid, rfl, hmid⟩ | ⟨mid, rfl, hmid⟩
  · cases mid with
    | nil =>
      obtain ⟨rfl, rfl⟩ := List.cons.inj hmid
      simp
    | cons m mid =>
      obtain ⟨-, rfl⟩ := List.cons.inj hmid
      exact absurd (hgap p' (by simp)) hp'
  · cases mid with
    | nil =>
      obtain ⟨rfl, rfl⟩ := List.cons.inj hmid
      simp
    | cons m mid =>
      obtain ⟨-, rfl⟩ := List.cons.inj hmid
      exact absurd (hgap' p (by simp)) hp

/-- An end tag that has an owner goes to an element. -/
theorem exists_endTagStart {before gap rest : List Placed} {p q : Placed}
    (htokens : tokens text = before ++ p :: (gap ++ q :: rest)) (hp : p.kind = .endTagOpen)
    (hgap : ∀ g ∈ gap, g.kind = .blank) (hq : q.kind = .endTagName)
    (howner : ((Draft.after text before).owner? text (String.ofList q.lexeme).toLower
      p.offset).isSome = true) :
    ∃ e ∈ (Document.parse text).elements, e.endTagStart = some p.offset := by
  have hsplit : tokens text = (before ++ p :: gap) ++ q :: rest := by simpa using htokens
  have hnamed : tokens text = (before ++ p :: gap ++ [q]) ++ rest := by simpa using htokens
  obtain ⟨hreads, -⟩ := reads_of_scan hsplit
  have hstate := (hq ▸ hreads).of_endTagName
  have htracked := Tracked.after hsplit
  rw [hstate] at htracked
  obtain ⟨hresting, before', o, gap', hdone, ho, hopen, hgap', hcurrent, habove⟩ := id htracked
  obtain ⟨rfl, rfl, -⟩ := last_unique hdone (by simp [hp]) (by simp [ho]) hgap hgap'
  have hnote := (Draft.after text (before ++ p :: gap)).note_sameTree q
  rw [← Draft.owner?_congr (hnote.current.trans hcurrent) (hnote.above.trans habove)] at howner
  have hstep := Draft.nameEndTag_step text ((Draft.after text (before ++ p :: gap)).note q) q.lexeme
    q.offset q.stop
  rw [hnote.endTagOpen, hopen, Option.getD_some] at hstep
  refine (Taken.after ?_ hnamed).closeAll text.size
  rw [Draft.after_concat, Draft.accept, hq]
  exact (htracked.sameTree hnote).taken hstep (.inr ⟨rfl, howner⟩)

theorem startTags_map_id (count : Nat) (ts : List Placed) :
    (startTags count ts).map (·.id) = List.range' (count + 1) (ts.countP (·.kind = .tagOpen)) := by
  induction ts generalizing count with
  | nil => rfl
  | cons p ts ih =>
    rw [startTags]
    split
    · next hopen =>
      have hid := (StartTag.foldl_read_place { id := count + 1, start := p.offset }
        (ts.takeWhile (·.kind ≠ .tagOpen))).1
      rw [List.countP_cons_of_pos (by simpa using hopen), List.range'_succ, List.map_cons, hid, ih]
    · next hopen => rw [List.countP_cons_of_neg (by simpa using hopen), ih]

theorem elements_map_id (text : Text) :
    (Document.parse text).elements.map (·.id) =
      List.range' 1 ((tokens text).countP (·.kind = .tagOpen)) := by
  rw [← startTags_map_id 0, ← elements_map_startTag, List.map_map]
  rfl

theorem elements_pairwise_id (text : Text) :
    (Document.parse text).elements.Pairwise fun e e' => e.id < e'.id := by
  have h := List.pairwise_lt_range' (s := 1) (n := (tokens text).countP (·.kind = .tagOpen))
  rw [← elements_map_id] at h
  exact List.pairwise_map.mp h

theorem elements_endTagStart_nodup (text : Text) :
    ((Document.parse text).elements.filterMap (·.endTagStart)).Nodup := by
  refine List.pairwise_filterMap.mpr ((elements_pairwise_id text).imp_of_mem ?_)
  rintro e e' he he' hlt start hstart _ hstart' rfl
  have htag := ((parse_attributed text e he).endTag start hstart).unique
    ((parse_attributed text e' he').endTag start hstart')
  have hid : e.id = e'.id := congrArg StartTag.id htag
  omega

theorem Element.hasName_toLower (e : Element) (name : String) :
    e.hasName name.toLower = e.hasName name := by
  rw [hasName, hasName, string_toLower_toLower]

theorem Element.isVoid_of_hasName {e : Element} (hname : e.hasName name = true)
    (hvoid : TagName.isVoid name = true) : e.isVoid = true := by
  unfold hasName at hname
  unfold isVoid
  split at hname
  · rw [TagName.isVoid, of_decide_eq_true hname]
    exact hvoid
  · cases hname

def Draft.IsInnermost (d : Draft) (name : String) (e : Element) : Prop :=
  ∃ inner x outer, openElements d.current d.above = inner ++ x :: outer ∧
    x.startTag = e.startTag ∧ x.hasName name = true ∧ ∀ y ∈ inner, y.hasName name = false

/-- The element is void, closed and the last child of the innermost open element, and only white
space stands between its end and `start`. -/
def Draft.IsVoidBefore (text : Text) (d : Draft) (start : Nat) (e : Element) : Prop :=
  ∃ x, d.current.children.getLast? = some x ∧ x.startTag = e.startTag ∧ x.isVoid = true ∧
    x.closed = true ∧ (text.slice? x.stop start).map Text.trim = some []

theorem Draft.of_owner? {d : Draft} {e : Element}
    (h : (d.owner? text name.toLower start).map Element.startTag = some e.startTag) :
    e.hasName name = true ∧ (d.IsInnermost name e ∨ d.IsVoidBefore text start e) := by
  obtain ⟨x, hx, htag⟩ := Option.map_eq_some_iff.mp h
  have htagName : x.tag = e.tag := congrArg StartTag.tag htag
  have hname : e.hasName name = x.hasName name := by rw [Element.hasName, Element.hasName, htagName]
  rw [hname]
  rcases Option.or_eq_some_iff.mp hx with hvoid | ⟨-, hfind⟩
  · obtain ⟨hlast, hvoid, hname, hclosed, -, hblank⟩ := of_voidBefore? hvoid
    refine ⟨x.hasName_toLower name ▸ hname, .inr ⟨x, hlast, htag, ?_, hclosed, hblank⟩⟩
    exact Element.isVoid_of_hasName hname hvoid
  · simp only [Element.hasName_toLower] at hfind
    obtain ⟨hname, inner, outer, hopen, hinner⟩ := List.find?_eq_some_iff_append.mp hfind
    refine ⟨hname, .inl ⟨inner, x, outer, hopen, htag, hname, ?_⟩⟩
    simpa using hinner

/-- Every end tag belongs to at most one element. That element has its name and was the innermost
open one that has, or a void element right before it; an end tag that finds one goes to it. An
element counts as closed exactly if the tag that had to close it is complete, and then it ends
there. -/
theorem parse_endTags (text : Text) :
    ((Document.parse text).elements.filterMap (·.endTagStart)).Nodup ∧
      (∀ e ∈ (Document.parse text).elements,
        (∀ start, e.endTagStart = some start →
          ∃ before p gap q rest, tokens text = before ++ p :: (gap ++ q :: rest) ∧
            p.kind = .endTagOpen ∧ p.offset = start ∧ (∀ g ∈ gap, g.kind = .blank) ∧
            q.kind = .endTagName ∧ e.hasName (String.ofList q.lexeme) = true ∧
            ((Draft.after text before).IsInnermost (String.ofList q.lexeme) e ∨
              (Draft.after text before).IsVoidBefore text start e)) ∧
        (e.closed = true ↔
          (e.endTagStart = none ∧ ∃ t, TagEnds text e.start t ∧
            (t.kind = .tagSelfClose ∨ e.isVoid = true ∧ t.kind = .tagClose) ∧ e.stop = t.stop) ∨
          ∃ start t, e.endTagStart = some start ∧ TagEnds text start t ∧ t.kind = .endTagClose ∧
            e.stop = t.stop)) ∧
      ∀ before p gap q rest, tokens text = before ++ p :: (gap ++ q :: rest) → p.kind = .endTagOpen →
        (∀ g ∈ gap, g.kind = .blank) → q.kind = .endTagName →
        ((Draft.after text before).owner? text (String.ofList q.lexeme).toLower p.offset).isSome = true →
        ∃ e ∈ (Document.parse text).elements, e.endTagStart = some p.offset := by
  refine ⟨elements_endTagStart_nodup text, fun e he => ?_, ?_⟩
  · obtain ⟨hend, hclosed⟩ := parse_attributed text e he
    refine ⟨fun start hstart => ?_, hclosed⟩
    obtain ⟨before, p, gap, q, rest, htokens, hp, hoffset, hgap, hq, howner⟩ := hend start hstart
    exact ⟨before, p, gap, q, rest, htokens, hp, hoffset, hgap, hq, Draft.of_owner? howner⟩
  · intro before p gap q rest htokens hp hgap hq howner
    exact exists_endTagStart htokens hp hgap hq howner

end PageMarkup
