import PageMarkup.Proofs.Neighbours
import PageMarkup.Proofs.Ranges

/-!
# Elements and start tags

The elements of a document are its start tags, one for every `<` that begins one, in the order in
which they are written. What such a tag says, its name and its attributes, is read off the tokens up
to the next one; which elements it is inside of does not matter for that.
-/

namespace PageMarkup

open ScanState (Reads ReadsInTag)

/-- What a start tag says about its element. -/
structure StartTag where
  id : Nat
  start : Nat
  tag : Option String := none
  attributes : List Attribute := []

namespace StartTag

def read (s : StartTag) (p : Placed) : StartTag :=
  match p.kind with
  | .tagName => { s with tag := some (String.ofList p.lexeme) }
  | .attributeName =>
    { s with attributes := s.attributes ++ [{ name := String.ofList p.lexeme, offset := p.offset }] }
  | .attributeValue =>
    { s with attributes := setLastValue (String.ofList (unquote p.lexeme)) s.attributes }
  | _ => s

end StartTag

/-- The start tags among some tokens; `count` elements have been begun before. -/
def startTags (count : Nat) : List Placed → List StartTag
  | [] => []
  | p :: rest =>
    if p.kind = .tagOpen then
      (rest.takeWhile (·.kind ≠ .tagOpen)).foldl StartTag.read { id := count + 1, start := p.offset } ::
        startTags (count + 1) rest
    else startTags count rest

def Element.startTag (e : Element) : StartTag :=
  ⟨e.id, e.start, e.tag, e.attributes⟩

-- ---------------------------------------------------------------------------
-- Elements in the order in which they were begun
-- ---------------------------------------------------------------------------

/-- The element that is being read, those around it and all that have ended, in the order in which
they were begun. -/
def begun : Element → List Element → List Element
  | e, [] => e.preorder
  | e, parent :: above => begun parent above ++ e.preorder

theorem Element.push_dropLast {e child : Element} (h : e.children = e.children.dropLast ++ [child]) :
    push { e with children := e.children.dropLast } child = e := by
  rw [push, ← h]
  cases e
  rfl

/-- What the function says of an element depends neither on its children nor on how it ends. -/
def Enduring (f : Element → α) : Prop :=
  ∀ (e : Element) (stop : Nat) (closed : Bool) (endTagStart : Option Nat) (children : List Element),
    f { e with stop, closed, endTagStart, children } = f e

theorem enduring_startTag : Enduring Element.startTag :=
  fun _ _ _ _ _ => rfl

section
variable {f : Element → α} {e e' : Element}

theorem map_begun_of_eq (above : List Element) (he : f e' = f e) (hchildren : e'.children = e.children) :
    (begun e' above).map f = (begun e above).map f := by
  cases above with
  | nil => simp [begun, Element.preorder_eq, he, hchildren]
  | cons parent above => simp [begun, Element.preorder_eq, he, hchildren]

theorem Enduring.map_preorder_push (hf : Enduring f) (parent child : Element) :
    (parent.push child).preorder.map f = parent.preorder.map f ++ child.preorder.map f := by
  have hpush : f (parent.push child) = f parent := hf parent parent.stop parent.closed parent.endTagStart _
  rw [Element.preorder_eq, Element.preorder_eq parent, Element.preorder_eq child, List.map_cons, hpush,
    Element.push, Element.preorderAll_append, Element.preorderAll_singleton]
  simp

/-- It makes no difference whether a child has been handed to its parent. -/
theorem Enduring.map_begun_push (hf : Enduring f) (parent child : Element) (above : List Element) :
    (begun (parent.push child) above).map f = (begun child (parent :: above)).map f := by
  cases above with
  | nil => simp [begun, hf.map_preorder_push]
  | cons grandparent above => simp [begun, hf.map_preorder_push]

theorem Enduring.map_begun_closeUpTo (hf : Enduring f) (name : String) (stop : Nat) (e : Element)
    (above : List Element) :
    (begun (closeUpTo name stop e above).1 (closeUpTo name stop e above).2).map f =
      (begun e above).map f := by
  fun_induction closeUpTo name stop e above with
  | case1 => rfl
  | case2 => rfl
  | case3 e parent above _ ih =>
    rw [ih, hf.map_begun_push]
    exact map_begun_of_eq _ (hf e stop false e.endTagStart e.children) rfl

theorem Enduring.map_begun_closeAll (hf : Enduring f) (stop : Nat) (e : Element) (above : List Element) :
    (closeAll stop e above).preorder.map f = (begun e above).map f := by
  fun_induction closeAll stop e above with
  | case1 => rfl
  | case2 e parent above ih =>
    rw [ih, hf.map_begun_push]
    exact map_begun_of_eq _ (hf e stop false e.endTagStart e.children) rfl

end

def begunTags (e : Element) (above : List Element) : List StartTag :=
  (begun e above).map Element.startTag

theorem begunTags_leaf {e : Element} (he : e.children = []) (parent : Element) (above : List Element) :
    begunTags e (parent :: above) = begunTags parent above ++ [e.startTag] := by
  rw [begunTags, begun, List.map_append, Element.preorder_eq, he]
  rfl

namespace Draft

def elements (d : Draft) : List Element :=
  begun d.current d.above

section
variable {d d' : Draft} {f : Element → α}

theorem SameTree.elements (h : d.SameTree d') : d.elements = d'.elements := by
  rw [Draft.elements, Draft.elements, h.current, h.above]

theorem map_elements_leave (hf : Enduring f) (g : Element → Element)
    (he : f (g d.current) = f d.current) (hchildren : (g d.current).children = d.current.children) :
    (d.leave g).elements.map f = d.elements.map f := by
  unfold leave
  split
  · rfl
  · next parent above habove =>
    rw [elements, elements, habove, hf.map_begun_push]
    exact map_begun_of_eq _ he hchildren

theorem map_elements_closeStartTag (hf : Enduring f) (stop : Nat) :
    (d.closeStartTag stop).elements.map f = d.elements.map f := by
  unfold closeStartTag
  split
  · exact map_elements_leave hf _ (hf d.current stop true d.current.endTagStart d.current.children) rfl
  · exact map_begun_of_eq _
      (hf d.current stop d.current.closed d.current.endTagStart d.current.children) rfl

theorem map_elements_nameEndTag (hf : Enduring f) (text lexeme : Text) (start stop : Nat) :
    (d.nameEndTag text lexeme start stop).elements.map f = d.elements.map f := by
  unfold nameEndTag
  simp only
  split
  · next child hvoid =>
    -- The child that is taken out again was the last one to be begun.
    have hback := Element.push_dropLast (voidBefore?_eq_some hvoid)
    refine Eq.trans ?_ (congrArg (fun e => (begun e d.above).map f) hback)
    rw [hf.map_begun_push]
    exact map_begun_of_eq _ (hf child child.stop child.closed _ child.children) rfl
  · rw [(settle_sameTree _ _ _ _).elements, elements, elements,
      ← hf.map_begun_closeUpTo _ (d.endTagOpen.getD start) d.current d.above]
    split
    · rfl
    · exact map_begun_of_eq _ (hf _ _ true _ _) rfl

end

/-- The start tags that have been read, the root in front of them. -/
def startTags (d : Draft) : List StartTag :=
  begunTags d.current d.above

theorem SameTree.startTags {d d' : Draft} (h : d.SameTree d') : d.startTags = d'.startTags :=
  congrArg (List.map Element.startTag) h.elements

theorem startTags_openElement (d : Draft) (start size : Nat) :
    (d.openElement start size).startTags = d.startTags ++ [{ id := d.count + 1, start }] :=
  begunTags_leaf rfl d.current d.above

theorem startTags_addText (d : Draft) (content : Text) :
    (d.addText content).startTags = d.startTags := by
  rcases d.addText_cases content with heq | ⟨runs, heq⟩ <;> rw [heq]
  exact map_begun_of_eq _ rfl rfl

theorem startTags_of_inTag {d : Draft} (h : InTag text bound afterBlank d.current d.above)
    (hd : d.startTags = init ++ [last]) :
    d.current.startTag = last ∧ d.current.children = [] ∧
      ∀ e : Element, e.children = [] → begunTags e d.above = init ++ [e.startTag] := by
  rw [startTags] at hd
  generalize d.current = current at h hd ⊢
  generalize d.above = above at h hd ⊢
  cases h with
  | mk _ children =>
    obtain ⟨rfl, hlast⟩ := List.append_inj' (hd.symm.trans (begunTags_leaf children _ _)) rfl
    exact ⟨(List.singleton_inj.mp hlast).symm, children, fun e he => begunTags_leaf he _ _⟩

theorem startTags_acceptInTag {d : Draft} (hreads : ReadsInTag context p.kind p.state)
    (h : InTag text bound afterBlank d.current d.above) (hd : d.startTags = init ++ [last]) :
    (d.accept text p).startTags = init ++ [last.read p] := by
  have hnote := d.note_sameTree p
  rw [← hnote.current, ← hnote.above] at h
  rw [← hnote.startTags] at hd
  obtain ⟨rfl, hchildren, hleaf⟩ := startTags_of_inTag h hd
  unfold accept StartTag.read
  generalize d.note p = d at hd hchildren hleaf ⊢
  generalize p.kind = kind at hreads ⊢
  generalize p.state = state at hreads
  cases hreads with
  | blank | unexpected => exact hd
  | attributeName =>
    exact (addAttribute_sameTree d p.lexeme p.offset p.stop).startTags.trans (hleaf _ hchildren)
  | selfClose => exact (map_elements_leave enduring_startTag _ rfl rfl).trans hd
  | close => exact (map_elements_closeStartTag enduring_startTag p.stop).trans hd

theorem startTags_accept {d : Draft} (hreads : Reads state p.kind p.state)
    (h : InOrder text bound state d) (hkind : p.kind ≠ .tagOpen) (hd : d.startTags = init ++ [last]) :
    (d.accept text p).startTags = init ++ [last.read p] := by
  have hnote := d.note_sameTree p
  have hnoted := h.sameTree hnote
  have hdnoted := hnote.startTags.trans hd
  generalize hk : p.kind = kind at hreads hkind
  generalize hs : p.state = after at hreads
  cases hreads with
  | nameless hin | tag hin | valueless hin | missingValue _ hin =>
    subst hk hs
    exact startTags_acceptInTag hin h hd
  | tagOpen => exact absurd rfl hkind
  | tagName =>
    obtain ⟨rfl, hchildren, hleaf⟩ := startTags_of_inTag hnoted hdnoted
    simp only [accept, StartTag.read, hk]
    exact (nameElement_sameTree _ p.lexeme p.offset p.stop).startTags.trans (hleaf _ hchildren)
  | value =>
    obtain ⟨rfl, hchildren, hleaf⟩ := startTags_of_inTag hnoted hdnoted
    simp only [accept, StartTag.read, hk]
    exact (addValue_sameTree _ p.lexeme p.offset p.stop).startTags.trans (hleaf _ hchildren)
  | content | style | styleToEnd =>
    simp only [accept, StartTag.read, hk]
    exact (startTags_addText _ _).trans hdnoted
  | endTagName =>
    simp only [accept, StartTag.read, hk]
    exact (map_elements_nameEndTag enduring_startTag _ _ _ _).trans hdnoted
  | endTagClose | namelessClose =>
    simp only [accept, StartTag.read, hk]
    exact (map_elements_leave enduring_startTag _ rfl rfl).trans hdnoted
  | _ =>
    simp only [accept, StartTag.read, hk]
    exact hdnoted

-- ---------------------------------------------------------------------------
-- Numbers
-- ---------------------------------------------------------------------------

@[simp]
theorem count_note (d : Draft) (p : Placed) : (d.note p).count = d.count := by
  unfold note
  split <;> rfl

@[simp]
theorem count_expect (d : Draft) (ok : Bool) (kind : ProblemKind) (start stop : Nat) :
    (d.expect ok kind start stop).count = d.count := by
  unfold expect
  split <;> rfl

@[simp]
theorem count_leave (d : Draft) (f : Element → Element) : (d.leave f).count = d.count := by
  unfold leave
  split <;> rfl

@[simp]
theorem count_nameEndTag (text : Text) (d : Draft) (lexeme : Text) (start stop : Nat) :
    (d.nameEndTag text lexeme start stop).count = d.count := by
  unfold nameEndTag settle
  simp only
  split
  · rfl
  · split <;> simp [report]

@[simp]
theorem count_addText (d : Draft) (content : Text) : (d.addText content).count = d.count := by
  rcases d.addText_cases content with heq | ⟨runs, heq⟩ <;> rw [heq]

theorem count_accept (text : Text) (d : Draft) (p : Placed) :
    (d.accept text p).count = if p.kind = .tagOpen then d.count + 1 else d.count := by
  unfold accept
  cases p.kind with
  | tagClose =>
    simp only [closeStartTag]
    split <;> simp
  | tagName | attributeName | attributeValue => simp [nameElement, addAttribute, addValue]
  | _ => simp [openElement, selfClose]

-- ---------------------------------------------------------------------------
-- Whole documents
-- ---------------------------------------------------------------------------

section
variable {text : Text} {done todo : List Placed}

theorem after_inOrder (h : tokens text = done ++ todo) :
    InOrder text (finalOffset 0 done) (finalState .content done) (after text done) :=
  reading (fun _ _ _ hp hreads h => InOrder.accept h hp hreads)
    (.root rfl rfl rfl rfl (Nat.zero_le _) (List.forall_mem_nil _) .nil (List.forall_mem_nil _)) h

theorem after_concat (text : Text) (done : List Placed) (p : Placed) :
    after text (done ++ [p]) = (after text done).accept text p :=
  List.foldl_append ..

/-- The tokens that are still to come go on with the last start tag and begin new ones. -/
theorem startTags_after (h : tokens text = done ++ todo)
    (hd : (after text done).startTags = init ++ [last]) :
    (after text (tokens text)).startTags =
      init ++ (todo.takeWhile (·.kind ≠ .tagOpen)).foldl StartTag.read last ::
        PageMarkup.startTags (after text done).count todo := by
  induction todo generalizing done init last with
  | nil =>
    rw [h, List.append_nil, hd]
    rfl
  | cons p todo ih =>
    have hsplit : tokens text = (done ++ [p]) ++ todo := by simpa using h
    obtain ⟨hreads, -⟩ := reads_of_scan h
    have hcount := count_accept text (after text done) p
    by_cases hkind : p.kind = .tagOpen
    · have hopened : (after text (done ++ [p])).startTags =
          (init ++ [last]) ++ [{ id := (after text done).count + 1, start := p.offset }] := by
        rw [after_concat, accept, hkind]
        simp only
        rw [startTags_openElement, ((after text done).note_sameTree p).startTags, hd, count_note]
      rw [ih hsplit hopened, after_concat, hcount]
      simp [PageMarkup.startTags, hkind]
    · have hread := startTags_accept hreads (after_inOrder h) hkind hd
      rw [← after_concat] at hread
      rw [ih hsplit hread, after_concat, hcount]
      simp [PageMarkup.startTags, hkind]

end

end Draft

/-- The elements of a document after its root are the start tags, in the order in which they are
written. -/
theorem preorder_map_startTag (text : Text) :
    (Document.parse text).root.preorder.map Element.startTag =
      ((tokens text).takeWhile (·.kind ≠ .tagOpen)).foldl StartTag.read { id := 0, start := 0 } ::
        startTags 0 (tokens text) := by
  have hall := Draft.startTags_after (List.nil_append (tokens text)).symm
    (List.nil_append [(Draft.empty text).current.startTag]).symm
  exact (enduring_startTag.map_begun_closeAll text.size _ _).trans hall

theorem elements_map_startTag (text : Text) :
    (Document.parse text).elements.map Element.startTag = startTags 0 (tokens text) := by
  have hall := preorder_map_startTag text
  rw [Element.preorder_eq] at hall
  exact (List.cons.inj hall).2

theorem startTag_mem_startTags (count : Nat) (before rest : List Placed) (hopen : p.kind = .tagOpen) :
    (rest.takeWhile (·.kind ≠ .tagOpen)).foldl StartTag.read
      { id := count + before.countP (·.kind = .tagOpen) + 1, start := p.offset } ∈
        startTags count (before ++ p :: rest) := by
  induction before generalizing count with
  | nil => simp [startTags, hopen]
  | cons q before ih =>
    rw [List.cons_append, startTags]
    split
    · next hq =>
      have hcount : count + (q :: before).countP (·.kind = .tagOpen) =
          count + 1 + before.countP (·.kind = .tagOpen) := by simp [hq]; omega
      rw [hcount]
      exact List.mem_cons_of_mem _ (ih (count + 1))
    · next hq =>
      rw [List.countP_cons_of_neg (by simpa using hq)]
      exact ih count

theorem exists_of_mem_startTags {s : StartTag} {ts : List Placed} (h : s ∈ startTags count ts) :
    ∃ before p rest, ts = before ++ p :: rest ∧ p.kind = .tagOpen ∧
      s = (rest.takeWhile (·.kind ≠ .tagOpen)).foldl StartTag.read
        { id := count + before.countP (·.kind = .tagOpen) + 1, start := p.offset } := by
  induction ts generalizing count with
  | nil => cases h
  | cons q ts ih =>
    rw [startTags] at h
    split at h
    · next hq =>
      rcases List.mem_cons.mp h with rfl | h
      · exact ⟨[], q, ts, rfl, hq, rfl⟩
      · obtain ⟨before, p, rest, rfl, hopen, rfl⟩ := ih h
        refine ⟨q :: before, p, rest, rfl, hopen, ?_⟩
        have hcount : count + (q :: before).countP (·.kind = .tagOpen) =
            count + 1 + before.countP (·.kind = .tagOpen) := by simp [hq]; omega
        rw [hcount]
    · next hq =>
      obtain ⟨before, p, rest, rfl, hopen, rfl⟩ := ih h
      refine ⟨q :: before, p, rest, rfl, hopen, ?_⟩
      rw [List.countP_cons_of_neg (by simpa using hq)]

theorem exists_element_of_tagOpen (h : tokens text = before ++ p :: rest) (hopen : p.kind = .tagOpen) :
    ∃ e ∈ (Document.parse text).elements,
      e.startTag = (rest.takeWhile (·.kind ≠ .tagOpen)).foldl StartTag.read
        { id := before.countP (·.kind = .tagOpen) + 1, start := p.offset } := by
  have hmem := startTag_mem_startTags 0 before rest hopen
  rw [← h, ← elements_map_startTag, Nat.zero_add] at hmem
  exact List.mem_map.mp hmem

end PageMarkup
