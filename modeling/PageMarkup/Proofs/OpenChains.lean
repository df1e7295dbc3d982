import PageMarkup.Proofs.Chains
import PageMarkup.Proofs.EndTags

/-!
# Elements that are still open

At the end of a text the open elements are ended, from the innermost on, and each becomes the last child
of the next. So they are a chain of the document, and typing at the end of the text belongs to the innermost
of them (`parse_chainBefore_end`).
-/

namespace PageMarkup

/-- The open elements as they are when the text is over, innermost first. -/
def endedElements (stop : Nat) : Element → List Element → List Element
  | _, [] => []
  | e, parent :: above =>
    { e with stop, closed := false } ::
      endedElements stop (parent.push { e with stop, closed := false }) above

section
variable {e x : Element} {above : List Element} {stop : Nat}

theorem lineage_endedElements (stop : Nat) (e : Element) (above : List Element) :
    Lineage (closeAll stop e above).children (endedElements stop e above) := by
  induction above generalizing e with
  | nil => exact .nil
  | cons parent above ih =>
    have hrest := ih (parent.push { e with stop, closed := false })
    have hlast : ({ e with stop, closed := false } : Element) ∈
        (parent.push { e with stop, closed := false }).children := List.mem_append_right _ List.mem_cons_self
    cases above with
    | nil => exact .top hlast
    | cons outer above => exact hrest.child hlast

theorem ended_of_mem_endedElements (h : x ∈ endedElements stop e above) : x.stop = stop ∧ x.closed = false := by
  induction above generalizing e with
  | nil => cases h
  | cons parent above ih =>
    rcases List.mem_cons.mp h with rfl | h
    · exact ⟨rfl, rfl⟩
    · exact ih h

section
variable {f : Element → α}
  (hf : ∀ (e : Element) (stop : Nat) (closed : Bool) (children : List Element),
    f { e with stop, closed, children } = f e)
include hf

theorem map_openElements_push (parent child : Element) (above : List Element) :
    (openElements (parent.push child) above).map f = (openElements parent above).map f := by
  cases above with
  | nil => rfl
  | cons outer above => exact congrArg (· :: _) (hf parent parent.stop parent.closed _)

theorem map_endedElements (stop : Nat) (e : Element) (above : List Element) :
    (endedElements stop e above).map f = (openElements e above).map f := by
  induction above generalizing e with
  | nil => rfl
  | cons parent above ih =>
    rw [endedElements, openElements, List.map_cons, List.map_cons, ih, map_openElements_push hf]
    exact congrArg (· :: _) (hf e stop false e.children)

end

theorem mem_closeAll_of_mem_children (h : x ∈ e.children) (stop : Nat) (above : List Element) :
    x ∈ Element.preorderAll (closeAll stop e above).children := by
  have hchain := lineage_endedElements stop e above
  cases above with
  | nil => exact Element.mem_preorderAll h
  | cons parent above =>
    exact Element.child_mem_preorderAll _ (hchain.mem_preorderAll List.mem_cons_self) h

end

-- ---------------------------------------------------------------------------
-- End tags
-- ---------------------------------------------------------------------------

def StartTag.hasName (s : StartTag) (name : String) : Bool :=
  match s.tag with
  | some tag => tag.toLower = name.toLower
  | none => false

theorem StartTag.hasName_toLower (s : StartTag) (name : String) : s.hasName name.toLower = s.hasName name := by
  rw [hasName, hasName, string_toLower_toLower]

theorem Element.hasName_startTag (e : Element) (name : String) : e.startTag.hasName name = e.hasName name :=
  rfl

/-- An end tag ends the innermost open element of its name. Those around it stay open. -/
theorem closeUpTo_of_openElements {name : String} {e : Element} {above : List Element} {s : StartTag}
    {inner outer : List StartTag} (h : (openElements e above).map Element.startTag = inner ++ s :: outer)
    (hinner : ∀ x ∈ inner, x.hasName name = false) (hs : s.hasName name = true) (stop : Nat) :
    ∃ x parent rest, closeUpTo name stop e above = (x, parent :: rest) ∧ x.startTag = s ∧
      (openElements parent rest).map Element.startTag = outer := by
  induction above generalizing e inner with
  | nil => simp [openElements] at h
  | cons parent above ih =>
    rw [openElements, List.map_cons] at h
    cases inner with
    | nil =>
      obtain ⟨rfl, houter⟩ := List.cons.inj h
      rw [Element.hasName_startTag] at hs
      rw [closeUpTo, if_pos hs]
      exact ⟨e, parent, above, rfl, rfl, houter⟩
    | cons x inner =>
      obtain ⟨rfl, hrest⟩ := List.cons.inj h
      obtain ⟨he, hinner⟩ := List.forall_mem_cons.mp hinner
      rw [Element.hasName_startTag] at he
      rw [closeUpTo, if_neg (ne_true_of_eq_false he)]
      rw [← map_openElements_push fun _ _ _ _ => rfl] at hrest
      exact ih hrest hinner

-- ---------------------------------------------------------------------------
-- The chain at the end of a text
-- ---------------------------------------------------------------------------

/-- If an element is open and nothing inside it reaches to the end of the text, it is found there. -/
theorem parse_chainBefore_end {text : Text} {d : Draft} (hd : d = Draft.after text (tokens text))
    (hopen : d.above ≠ []) (hlast : ∀ c ∈ d.current.children, c.stop < text.size) :
    (Document.parse text).chainBefore text.size = .ok (endedElements text.size d.current d.above) := by
  have hchain : Lineage (Document.parse text).roots (endedElements text.size d.current d.above) := by
    subst hd
    exact lineage_endedElements _ _ _
  obtain ⟨parent, above, habove⟩ := List.exists_cons_of_ne_nil hopen
  rw [habove, endedElements] at hchain ⊢
  have hrange := (parse_forest text).ranged_of_lineage hchain List.mem_cons_self
  have hspans : Element.Spans { d.current with stop := text.size, closed := false } text.size :=
    ⟨hrange.start_lt_stop, Nat.le_refl _⟩
  rw [parse_chainBefore (Nat.le_refl _), (parse_forest text).chainBeforeAll_descends hchain hspans, if_neg]
  rintro (hlt | hends)
  · exact Nat.lt_irrefl _ hlt
  · rw [Element.endsWithChild] at hends
    split at hends
    · next child hchild =>
      have hlt := hlast child (List.mem_of_getLast? hchild)
      exact absurd (of_decide_eq_true hends) (Nat.ne_of_lt hlt)
    · cases hends

end PageMarkup
