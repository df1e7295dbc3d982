import PageMarkup.Proofs.OpenElements

/-!
# Texts with the same front

While a front of a text is read, what comes after it is of no account: the draft differs only in where
the elements that are still open are said to end (`Draft.after_alike`), and that is overwritten when they
do. So the same elements are open, whatever the text goes on with.
-/

namespace PageMarkup

theorem Text.slice?_append_of_le {front : Text} {start stop : Nat} (h : stop ≤ front.size) (rest : Text) :
    slice? (front ++ rest) start stop = slice? front start stop := by
  ext middle
  constructor
  · intro hslice
    obtain ⟨before, back, hcut, rfl, rfl⟩ := exists_of_slice? hslice
    obtain ⟨more, rfl⟩ := isPrefix_of_size_le ⟨back, hcut.symm⟩ (List.prefix_append front rest) h
    rw [size_append]
    exact slice?_append before middle more
  · intro hslice
    obtain ⟨before, back, rfl, rfl, rfl⟩ := exists_of_slice? hslice
    rw [size_append, List.append_assoc]
    exact slice?_append before middle (back ++ rest)

def Element.unended (e : Element) : Element :=
  { e with stop := 0 }

namespace Element

variable {e e' : Element}

theorem hasName_of_unended (h : e.unended = e'.unended) (name : String) : e.hasName name = e'.hasName name :=
  show e.unended.hasName name = e'.unended.hasName name by rw [h]

theorem children_of_unended (h : e.unended = e'.unended) : e.children = e'.children :=
  show e.unended.children = e'.unended.children by rw [h]

theorem isVoid_of_unended (h : e.unended = e'.unended) : e.isVoid = e'.isVoid :=
  show e.unended.isVoid = e'.unended.isVoid by rw [h]

end Element

theorem unended_push {parent parent' child child' : Element} (h : parent.unended = parent'.unended)
    (hchild : child = child') : (parent.push child).unended = (parent'.push child').unended := by
  show parent.unended.push child = parent'.unended.push child'
  rw [h, hchild]

theorem closeUpTo_unended {e e' : Element} {above above' : List Element} (h : e.unended = e'.unended)
    (habove : above.map Element.unended = above'.map Element.unended) (name : String) (stop : Nat) :
    (closeUpTo name stop e above).1.unended = (closeUpTo name stop e' above').1.unended ∧
      (closeUpTo name stop e above).2.map Element.unended =
        (closeUpTo name stop e' above').2.map Element.unended := by
  induction above generalizing e e' above' with
  | nil =>
    obtain rfl := List.map_eq_nil_iff.mp habove.symm
    exact ⟨h, rfl⟩
  | cons parent above ih =>
    obtain ⟨parent', above', rfl, hparent, hrest⟩ := List.map_eq_cons_iff.mp habove.symm
    rw [closeUpTo, closeUpTo, Element.hasName_of_unended h]
    split
    · exact ⟨h, habove⟩
    · refine ih (unended_push hparent.symm ?_) hrest.symm
      exact congrArg (fun x : Element => { x with stop, closed := false }) h

theorem openElements_unended {e e' : Element} {above above' : List Element} (h : e.unended = e'.unended)
    (habove : above.map Element.unended = above'.map Element.unended) :
    (openElements e above).map Element.unended = (openElements e' above').map Element.unended := by
  induction above generalizing e e' above' with
  | nil =>
    obtain rfl := List.map_eq_nil_iff.mp habove.symm
    rfl
  | cons parent above ih =>
    obtain ⟨parent', above', rfl, hparent, hrest⟩ := List.map_eq_cons_iff.mp habove.symm
    rw [openElements, openElements, List.map_cons, List.map_cons, h, ih hparent.symm hrest.symm]

namespace Draft

theorem count_settle (d : Draft) (name : String) (start stop : Nat) :
    (d.settle name start stop).count = d.count := by
  unfold settle
  split
  · rfl
  · exact count_expect _ _ _ _ _

/-- The drafts are the same but for where the open elements end, and no end tag begins after `bound`. -/
structure Alike (bound : Nat) (d d' : Draft) : Prop where
  current : d.current.unended = d'.current.unended
  above : d.above.map Element.unended = d'.above.map Element.unended
  count : d.count = d'.count
  endTagOpen : d.endTagOpen = d'.endTagOpen
  endTagOpen_le : ∀ t ∈ d.endTagOpen, t ≤ bound

namespace Alike

variable {bound : Nat} {d d' x x' : Draft} {text text' : Text}

theorem sameTree (h : d.Alike bound d') (hx : x.SameTree d) (hx' : x'.SameTree d') (hcount : x.count = d.count)
    (hcount' : x'.count = d'.count) : x.Alike bound x' where
  current := by rw [hx.current, hx'.current, h.current]
  above := by rw [hx.above, hx'.above, h.above]
  count := by rw [hcount, hcount', h.count]
  endTagOpen := by rw [hx.endTagOpen, hx'.endTagOpen, h.endTagOpen]
  endTagOpen_le := by
    rw [hx.endTagOpen]
    exact h.endTagOpen_le

theorem note (h : d.Alike bound d') (p : Placed) : (d.note p).Alike bound (d'.note p) :=
  h.sameTree (d.note_sameTree p) (d'.note_sameTree p) (d.count_note p) (d'.count_note p)

theorem settle (h : d.Alike bound d') (name : String) (start stop : Nat) :
    (d.settle name start stop).Alike bound (d'.settle name start stop) :=
  h.sameTree (d.settle_sameTree name start stop) (d'.settle_sameTree name start stop)
    (d.count_settle name start stop) (d'.count_settle name start stop)

theorem replace (h : d.Alike bound d') (f : Element → Element) (hf : ∀ e, (f e).unended = (f e.unended).unended) :
    Alike bound { d with current := f d.current } { d' with current := f d'.current } where
  current := by
    show (f d.current).unended = (f d'.current).unended
    rw [hf, hf d'.current, h.current]
  above := h.above
  count := h.count
  endTagOpen := h.endTagOpen
  endTagOpen_le := h.endTagOpen_le

theorem leave (h : d.Alike bound d') {f : Element → Element} (hf : ∀ e, f e = f e.unended) :
    (d.leave f).Alike bound (d'.leave f) := by
  have habove := h.above
  unfold Draft.leave
  cases hd : d.above with
  | nil =>
    rw [hd] at habove
    rw [List.map_eq_nil_iff.mp habove.symm]
    exact h
  | cons parent above =>
    rw [hd] at habove
    obtain ⟨parent', above', habove', hparent, hrest⟩ := List.map_eq_cons_iff.mp habove.symm
    rw [habove']
    refine ⟨unended_push hparent.symm ?_, hrest.symm, h.count, h.endTagOpen, h.endTagOpen_le⟩
    rw [hf, hf d'.current, h.current]

theorem selfClose (h : d.Alike bound d') (stop : Nat) : (d.selfClose stop).Alike bound (d'.selfClose stop) := by
  have hleave : (d.leave _).Alike bound (d'.leave _) :=
    h.leave (f := ({ · with stop, closed := true })) fun _ => rfl
  exact ⟨hleave.current, hleave.above, hleave.count, hleave.endTagOpen, hleave.endTagOpen_le⟩

theorem closeStartTag (h : d.Alike bound d') (stop : Nat) :
    (d.closeStartTag stop).Alike bound (d'.closeStartTag stop) := by
  rw [Draft.closeStartTag, Draft.closeStartTag, Element.isVoid_of_unended h.current]
  split
  · exact h.selfClose stop
  · exact h.replace ({ · with stop }) fun _ => rfl

theorem openElement (h : d.Alike bound d') (start size size' : Nat) :
    (d.openElement start size).Alike bound (d'.openElement start size') := by
  refine ⟨?_, ?_, ?_, h.endTagOpen, h.endTagOpen_le⟩
  · simp only [Draft.openElement, Element.unended, h.count]
  · simp only [Draft.openElement, List.map_cons, h.current, h.above]
  · simp only [Draft.openElement, h.count]

theorem addText (h : d.Alike bound d') (content : Text) :
    (d.addText content).Alike bound (d'.addText content) := by
  unfold Draft.addText
  split
  · exact h
  · exact h.replace (fun e => { e with text := e.text ++ [String.ofList content.trim] }) fun _ => rfl

section
variable (hslice : ∀ start stop, stop ≤ bound → text.slice? start stop = text'.slice? start stop)
include hslice

theorem voidBefore? (h : d.Alike bound d') (name : String) (hstart : start ≤ bound) :
    d.voidBefore? text name start = d'.voidBefore? text' name start := by
  rw [Draft.voidBefore?, Draft.voidBefore?, Element.hasName_of_unended h.current,
    Element.children_of_unended h.current]
  split
  · rfl
  · simp only [hslice _ start hstart]

theorem nameEndTag (h : d.Alike bound d') (lexeme : Text) (hstart : start ≤ bound) (stop : Nat) :
    (d.nameEndTag text lexeme start stop).Alike bound (d'.nameEndTag text' lexeme start stop) := by
  have htag : d.endTagOpen.getD start ≤ bound := by
    cases hopen : d.endTagOpen with
    | none => exact hstart
    | some t => exact h.endTagOpen_le t hopen
  unfold Draft.nameEndTag
  simp only [← h.endTagOpen]
  generalize (String.ofList lexeme).toLower = name
  generalize d.endTagOpen.getD start = tagStart at htag
  rw [h.voidBefore? hslice name htag]
  cases d'.voidBefore? text' name tagStart with
  | some child =>
    refine ⟨rfl, ?_, h.count, rfl, h.endTagOpen_le⟩
    rw [List.map_cons, List.map_cons, h.above]
    have hrest := (h.replace (fun e => { e with children := e.children.dropLast }) fun _ => rfl).current
    exact congrArg (· :: _) hrest
  | none =>
    obtain ⟨hcurrent, habove⟩ := closeUpTo_unended h.current h.above name tagStart
    simp only
    generalize closeUpTo name tagStart d.current d.above = closed at hcurrent habove ⊢
    generalize closeUpTo name tagStart d'.current d'.above = closed' at hcurrent habove ⊢
    obtain ⟨e, above⟩ := closed
    obtain ⟨e', above'⟩ := closed'
    apply settle
    refine ⟨?_, habove, h.count, rfl, h.endTagOpen_le⟩
    cases above with
    | nil =>
      obtain rfl : above' = [] := List.map_eq_nil_iff.mp habove.symm
      exact hcurrent
    | cons parent above =>
      obtain ⟨parent', rest, rfl, -⟩ := List.map_eq_cons_iff.mp habove.symm
      exact congrArg (fun x : Element => { x with closed := true, endTagStart := some tagStart }) hcurrent

theorem accept (h : d.Alike bound d') {p : Placed} (hp : p.offset ≤ bound) :
    (d.accept text p).Alike bound (d'.accept text' p) := by
  have hnote := h.note p
  rw [Draft.accept, Draft.accept]
  generalize d.note p = d at hnote ⊢
  generalize d'.note p = d' at hnote ⊢
  cases p.kind with
  | tagOpen => exact hnote.openElement p.offset text.size text'.size
  | tagName =>
    refine (hnote.replace (fun e => { e with tag := some (String.ofList p.lexeme) }) fun _ => rfl).sameTree
      (d.nameElement_sameTree _ _ _) (d'.nameElement_sameTree _ _ _) ?_ ?_
    · exact Draft.count_expect _ _ _ _ _
    · exact Draft.count_expect _ _ _ _ _
  | tagClose => exact hnote.closeStartTag p.stop
  | tagSelfClose => exact hnote.selfClose p.stop
  | endTagOpen =>
    refine ⟨hnote.current, hnote.above, hnote.count, rfl, ?_⟩
    rintro t ⟨⟩
    exact hp
  | endTagName => exact hnote.nameEndTag hslice p.lexeme hp p.stop
  | endTagClose => exact hnote.leave fun _ => rfl
  | attributeName =>
    refine (hnote.replace (fun e => { e with attributes := e.attributes ++
      [{ name := String.ofList p.lexeme, offset := p.offset }] }) fun _ => rfl).sameTree
      (d.addAttribute_sameTree _ _ _) (d'.addAttribute_sameTree _ _ _) ?_ ?_
    · exact Draft.count_expect _ _ _ _ _
    · exact Draft.count_expect _ _ _ _ _
  | attributeValue =>
    refine (hnote.replace (fun e => { e with
      attributes := setLastValue (String.ofList (unquote p.lexeme)) e.attributes }) fun _ => rfl).sameTree
      (d.addValue_sameTree _ _ _) (d'.addValue_sameTree _ _ _) ?_ ?_
    · exact Draft.count_expect _ _ _ _ _
    · exact Draft.count_expect _ _ _ _ _
  | content => exact hnote.addText p.lexeme
  | _ => exact hnote

theorem foldl_accept (h : d.Alike bound d') {ts : List Placed} (hts : ∀ p ∈ ts, p.offset ≤ bound) :
    (ts.foldl (Draft.accept text) d).Alike bound (ts.foldl (Draft.accept text') d') := by
  induction ts generalizing d d' with
  | nil => exact h
  | cons p ts ih =>
    obtain ⟨hp, hts⟩ := List.forall_mem_cons.mp hts
    exact ih (h.accept hslice hp) hts

end

end Alike

/-- The start tags of the open elements, innermost first. -/
def openStartTags (d : Draft) : List StartTag :=
  (openElements d.current d.above).map Element.startTag

theorem Alike.openStartTags {d d' : Draft} (h : d.Alike bound d') : d.openStartTags = d'.openStartTags := by
  have hopen := congrArg (List.map Element.startTag) (openElements_unended h.current h.above)
  rw [List.map_map, List.map_map] at hopen
  exact hopen

theorem SameTree.openStartTags {d d' : Draft} (h : d.SameTree d') : d.openStartTags = d'.openStartTags := by
  rw [Draft.openStartTags, h.current, h.above]
  rfl

theorem openStartTags_accept_content (text : Text) (d : Draft) {p : Placed} (hp : p.kind = .content) :
    (d.accept text p).openStartTags = d.openStartTags := by
  rw [← (d.note_sameTree p).openStartTags, accept]
  simp only [hp]
  generalize d.note p = d
  rcases d.addText_cases p.lexeme with heq | ⟨runs, heq⟩ <;> rw [heq]
  unfold Draft.openStartTags
  cases d.above <;> rfl

/-- Tokens of a front give the same draft but for where the open elements end. -/
theorem after_alike (front rest rest' : Text) {ts : List Placed} (h : ∀ p ∈ ts, p.offset ≤ front.size) :
    (after (front ++ rest) ts).Alike front.size (after (front ++ rest') ts) := by
  have hempty : (empty (front ++ rest)).Alike front.size (empty (front ++ rest')) :=
    ⟨rfl, rfl, rfl, rfl, by simp [empty]⟩
  refine hempty.foldl_accept (fun start stop hle => ?_) h
  rw [Text.slice?_append_of_le hle, Text.slice?_append_of_le hle]

end Draft

end PageMarkup
