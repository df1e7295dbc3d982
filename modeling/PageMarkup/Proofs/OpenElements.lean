import PageMarkup.Proofs.StartTags

/-!
# Open elements and finished ones

While a document is read some elements are open, each inside the next, and everything else has been
handed to its parent. `Draft.TreeStep` lists what a token can do to them. A property that elements
have when they are handed over, and that later tokens do not touch, holds of every element of the
document.
-/

namespace PageMarkup

/-- The elements that are open, the innermost first. The root is not one of them. -/
def openElements : Element → List Element → List Element
  | _, [] => []
  | e, parent :: above => e :: openElements parent above

def AllIn (P : Element → Prop) (es : List Element) : Prop :=
  ∀ e ∈ Element.preorderAll es, P e

section
variable {P : Element → Prop} {es above : List Element} {e e' child parent : Element}

theorem forall_openElements_congr (h : ∀ x ∈ openElements e above, P x) (he : P e → P e') :
    ∀ x ∈ openElements e' above, P x := by
  cases above with
  | nil => exact List.forall_mem_nil _
  | cons parent above =>
    obtain ⟨hcurrent, habove⟩ := List.forall_mem_cons.mp h
    exact List.forall_mem_cons.mpr ⟨he hcurrent, habove⟩

theorem allIn_nil : AllIn P [] :=
  List.forall_mem_nil _

theorem allIn_concat : AllIn P (es ++ [e]) ↔ AllIn P es ∧ P e ∧ AllIn P e.children := by
  simp [AllIn, Element.preorderAll_append, Element.preorderAll_singleton, or_imp, forall_and]

def Finished (P : Element → Prop) (e : Element) (above : List Element) : Prop :=
  AllIn P e.children ∧ ∀ x ∈ above, AllIn P x.children

theorem Finished.opened (h : Finished P e above) (hchildren : child.children = []) :
    Finished P child (e :: above) := by
  refine ⟨?_, List.forall_mem_cons.mpr h⟩
  rw [hchildren]
  exact allIn_nil

theorem Finished.congr (h : Finished P e above) (hchildren : child.children = e.children) :
    Finished P child above := by
  rw [Finished, hchildren]
  exact h

theorem Finished.outer (h : Finished P e (parent :: above)) : Finished P parent above :=
  List.forall_mem_cons.mp h.2

theorem finished_push :
    Finished P (parent.push child) above ↔ P child ∧ Finished P child (parent :: above) := by
  simp only [Finished, Element.push, allIn_concat, List.forall_mem_cons]
  constructor
  · rintro ⟨⟨hparent, hchild, hbelow⟩, habove⟩
    exact ⟨hchild, hbelow, hparent, habove⟩
  · rintro ⟨hchild, hbelow, hparent, habove⟩
    exact ⟨⟨hparent, hchild, hbelow⟩, habove⟩

theorem Finished.push (h : Finished P e (parent :: above)) (hchild : P child)
    (hchildren : child.children = e.children) : Finished P (parent.push child) above :=
  finished_push.mpr ⟨hchild, h.congr hchildren⟩

theorem Finished.pop (h : Finished P e above) (he : e.children = e.children.dropLast ++ [child])
    (hchildren : parent.children = child.children) :
    Finished P parent ({ e with children := e.children.dropLast } :: above) := by
  obtain ⟨hall, habove⟩ := h
  rw [he] at hall
  obtain ⟨hinit, -, hchild⟩ := allIn_concat.mp hall
  refine ⟨?_, List.forall_mem_cons.mpr ⟨hinit, habove⟩⟩
  rw [hchildren]
  exact hchild

end

-- ---------------------------------------------------------------------------
-- What a token does to the tree
-- ---------------------------------------------------------------------------

namespace Draft

/-- What the name of an end tag that begins at `start` can do: it gives the tag to a void element,
which is taken out of its parent again, or to an open element, or ends all of them. -/
inductive EndTagStep (text : Text) (d : Draft) (name : String) (start : Nat) :
    Element → List Element → Prop
  | absorbed {child : Element} (void : d.voidBefore? text name start = some child) :
      EndTagStep text d name start { child with endTagStart := some start }
        ({ d.current with children := d.current.children.dropLast } :: d.above)
  | found {e parent : Element} {above : List Element} (void : d.voidBefore? text name start = none)
      (closed : closeUpTo name start d.current d.above = (e, parent :: above)) :
      EndTagStep text d name start { e with closed := true, endTagStart := some start } (parent :: above)
  | lost {e : Element} (void : d.voidBefore? text name start = none)
      (closed : closeUpTo name start d.current d.above = (e, [])) : EndTagStep text d name start e []

/-- What a token can do: it changes the innermost element but for its number, its children and its
end tag, it begins an element, it ends one, or it is the name of an end tag. -/
inductive TreeStep (text : Text) (d : Draft) (p : Placed) : Element → List Element → Prop
  | stay {e : Element} (children : e.children = d.current.children)
      (endTag : e.endTagStart = d.current.endTagStart) (id : e.id = d.current.id) :
      TreeStep text d p e d.above
  | begin {e : Element} (children : e.children = []) (id : e.id = d.count + 1) :
      TreeStep text d p e (d.current :: d.above)
  | leave {e parent : Element} {above : List Element} (outer : d.above = parent :: above)
      (children : e.children = d.current.children) (endTag : e.endTagStart = d.current.endTagStart)
      (stop : e.stop = p.stop)
      (kind : p.kind = .tagClose ∨ p.kind = .tagSelfClose ∨ p.kind = .endTagClose)
      (id : e.id = d.current.id) : TreeStep text d p (parent.push e) above
  | endTagName {e : Element} {above : List Element} (kind : p.kind = .endTagName)
      (step : EndTagStep text d (String.ofList p.lexeme).toLower (d.endTagOpen.getD p.offset) e above) :
      TreeStep text d p e above

section
variable {text : Text} {d d' : Draft} {p : Placed} {e : Element} {above : List Element}

theorem nameEndTag_step (text : Text) (d : Draft) (lexeme : Text) (start stop : Nat) :
    EndTagStep text d (String.ofList lexeme).toLower (d.endTagOpen.getD start)
      (d.nameEndTag text lexeme start stop).current (d.nameEndTag text lexeme start stop).above := by
  unfold nameEndTag
  simp only
  split
  · next child hvoid => exact .absorbed hvoid
  · next hvoid =>
    rw [(settle_sameTree _ _ _ _).current, (settle_sameTree _ _ _ _).above]
    simp only
    generalize hclosed : closeUpTo _ _ d.current d.above = r
    obtain ⟨current, above⟩ := r
    cases above with
    | nil => exact .lost hvoid hclosed
    | cons parent above => exact .found hvoid hclosed

theorem TreeStep.sameTree (h : TreeStep text d' p e above) (hd : d'.SameTree d)
    (hcount : d'.count = d.count) : TreeStep text d p e above := by
  obtain ⟨current, above, count, endTagOpen, openTags, problems⟩ := d
  obtain ⟨current', above', count', endTagOpen', openTags', problems'⟩ := d'
  obtain ⟨rfl, rfl, rfl⟩ := hd
  obtain rfl : count' = count := hcount
  cases h with
  | stay children endTag id => exact .stay children endTag id
  | begin children id => exact .begin children id
  | leave outer children endTag stop kind id => exact .leave outer children endTag stop kind id
  | endTagName kind step =>
    refine .endTagName kind ?_
    cases step with
    | absorbed void => exact .absorbed void
    | found void closed => exact .found void closed
    | lost void closed => exact .lost void closed

theorem leave_step {f : Element → Element} (hchildren : (f d.current).children = d.current.children)
    (hend : (f d.current).endTagStart = d.current.endTagStart) (hstop : (f d.current).stop = p.stop)
    (hkind : p.kind = .tagClose ∨ p.kind = .tagSelfClose ∨ p.kind = .endTagClose)
    (hid : (f d.current).id = d.current.id) :
    TreeStep text d p (d.leave f).current (d.leave f).above := by
  unfold leave
  split
  · exact .stay rfl rfl rfl
  · next parent above habove => exact .leave habove hchildren hend hstop hkind hid

theorem accept_step (text : Text) (d : Draft) (p : Placed) :
    TreeStep text d p (d.accept text p).current (d.accept text p).above := by
  refine TreeStep.sameTree ?_ (d.note_sameTree p) (d.count_note p)
  unfold accept
  generalize d.note p = d
  cases hkind : p.kind with
  | tagOpen => exact .begin rfl rfl
  | tagName =>
    obtain ⟨hcurrent, habove, -⟩ := d.nameElement_sameTree p.lexeme p.offset p.stop
    simp only [hcurrent, habove]
    exact .stay rfl rfl rfl
  | tagClose =>
    simp only [closeStartTag]
    split
    · exact leave_step rfl rfl rfl (.inl hkind) rfl
    · exact .stay rfl rfl rfl
  | tagSelfClose => exact leave_step rfl rfl rfl (.inr (.inl hkind)) rfl
  | endTagName => exact .endTagName hkind (d.nameEndTag_step text p.lexeme p.offset p.stop)
  | endTagClose => exact leave_step rfl rfl rfl (.inr (.inr hkind)) rfl
  | attributeName =>
    obtain ⟨hcurrent, habove, -⟩ := d.addAttribute_sameTree p.lexeme p.offset p.stop
    simp only [hcurrent, habove]
    exact .stay rfl rfl rfl
  | attributeValue =>
    obtain ⟨hcurrent, habove, -⟩ := d.addValue_sameTree p.lexeme p.offset p.stop
    simp only [hcurrent, habove]
    exact .stay rfl rfl rfl
  | content =>
    rcases d.addText_cases p.lexeme with heq | ⟨runs, heq⟩
    · simp only [heq]
      exact .stay rfl rfl rfl
    · simp only [heq]
      exact .stay rfl rfl rfl
  | _ => exact .stay rfl rfl rfl

end

end Draft

-- ---------------------------------------------------------------------------
-- Induction over the tokens of a document
-- ---------------------------------------------------------------------------

namespace Draft

/-- What holds before the first token, and is kept by each token, holds after every beginning of
the tokens. -/
theorem after_induction {text : Text} {motive : List Placed → Prop} (hstart : motive [])
    (hstep : ∀ done p todo, tokens text = done ++ p :: todo →
      ScanState.Reads (finalState .content done) p.kind p.state → motive done → motive (done ++ [p]))
    {done todo : List Placed} (h : tokens text = done ++ todo) : motive done := by
  generalize hlength : done.length = n
  induction n generalizing done todo with
  | zero =>
    obtain rfl := List.eq_nil_of_length_eq_zero hlength
    exact hstart
  | succ n ih =>
    rcases List.eq_nil_or_concat done with rfl | ⟨init, p, rfl⟩
    · cases hlength
    · have hsplit : tokens text = init ++ p :: todo := by simpa using h
      rw [List.concat_eq_append]
      exact hstep init p todo hsplit (reads_of_scan hsplit).1 (ih hsplit (by simpa using hlength))

/-- What holds after all tokens, and held before a token if it holds after it, holds after every
beginning of the tokens. -/
theorem after_backward {text : Text} {motive : List Placed → Prop} (hend : motive (tokens text))
    (hstep : ∀ done p todo, tokens text = done ++ p :: todo → motive (done ++ [p]) → motive done)
    {done todo : List Placed} (h : tokens text = done ++ todo) : motive done := by
  induction todo generalizing done with
  | nil =>
    rw [List.append_nil] at h
    rwa [← h]
  | cons p todo ih =>
    have hsplit : tokens text = (done ++ [p]) ++ todo := by simpa using h
    exact hstep done p todo h (ih hsplit)

end Draft

end PageMarkup
