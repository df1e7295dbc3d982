import PageMarkup.Document.Arena
import PageMarkup.Proofs.EndTags

/-!
# A tree in one list

The nodes that reading leaves behind are those of the document's tree, in document order and linked as
the tree is (`parse_eq_rows`), and walking along the links with a stack meets its elements in order
(`descendants_parse`). The list of nodes is followed through the tokens together with the draft: the
nodes of the open elements and of what has been handed to them come before those of the element that is
being read, so a node is at the place that its number says, and handing a child over moves nothing.
-/

namespace PageMarkup

-- ---------------------------------------------------------------------------
-- The list of a tree
-- ---------------------------------------------------------------------------

namespace Element

/-- The node of an element, linked to its parent and its children. -/
def row (parent : Option Nat) (e : Element) : Node :=
  { toElementHead := e.toElementHead, parent, children := e.children.map (·.id) }

mutual
def rows (parent : Option Nat) : Element → List Node
  | ⟨head, children⟩ => row parent ⟨head, children⟩ :: rowsAll head.id children
def rowsAll (parent : Nat) : List Element → List Node
  | [] => []
  | e :: rest => rows (some parent) e ++ rowsAll parent rest
end

theorem rows_eq (parent : Option Nat) (e : Element) :
    e.rows parent = e.row parent :: rowsAll e.id e.children := by
  cases e
  rw [rows]

theorem rowsAll_concat (parent : Nat) (es : List Element) (e : Element) :
    rowsAll parent (es ++ [e]) = rowsAll parent es ++ e.rows (some parent) := by
  induction es with
  | nil => simp [rowsAll]
  | cons x es ih => rw [List.cons_append, rowsAll, rowsAll, ih, List.append_assoc]

mutual
theorem map_head_rows (parent : Option Nat) (e : Element) :
    (e.rows parent).map Node.toElementHead = e.preorder.map Element.toElementHead := by
  cases e with
  | mk head children =>
    rw [rows, preorder, List.map_cons, List.map_cons, map_head_rowsAll]
    rfl
theorem map_head_rowsAll (parent : Nat) (es : List Element) :
    (rowsAll parent es).map Node.toElementHead = (preorderAll es).map Element.toElementHead := by
  cases es with
  | nil => rfl
  | cons e rest => rw [rowsAll, preorderAll, List.map_append, List.map_append, map_head_rows, map_head_rowsAll]
end

end Element

def frame (child : Nat) : List Element → List Node
  | [] => []
  | e :: above =>
    frame e.id above ++ { e.row (above.head?.map (·.id)) with children := e.children.map (·.id) ++ [child] } ::
      Element.rowsAll e.id e.children

/-- All nodes while an element is being read inside others. -/
def layout (e : Element) (above : List Element) : List Node :=
  frame e.id above ++ e.rows (above.head?.map (·.id))

theorem layout_eq (e : Element) (above : List Element) :
    layout e above =
      frame e.id above ++ e.row (above.head?.map (·.id)) :: Element.rowsAll e.id e.children := by
  rw [layout, Element.rows_eq]

theorem layout_push (parent child : Element) (above : List Element) :
    layout (parent.push child) above = layout child (parent :: above) := by
  rw [layout_eq, layout, frame, List.append_assoc, List.cons_append]
  have hrows : Element.rowsAll parent.id (parent.push child).children =
      Element.rowsAll parent.id parent.children ++ child.rows (some parent.id) :=
    Element.rowsAll_concat parent.id parent.children child
  have hrow : (parent.push child).row (above.head?.map (·.id)) =
      { parent.row (above.head?.map (·.id)) with children := parent.children.map (·.id) ++ [child.id] } := by
    simp [Element.row, Element.push]
  rw [hrow]
  exact congrArg (frame parent.id above ++ _ :: ·) hrows

-- ---------------------------------------------------------------------------
-- Nodes at the place that their number says
-- ---------------------------------------------------------------------------

namespace Arena

theorem modify_length {α : Type} (f : α → α) (front : List α) (x : α) (back : List α) :
    (front ++ x :: back).modify front.length f = front ++ f x :: back := by
  induction front with
  | nil => rfl
  | cons y front ih => rw [List.cons_append, List.length_cons, List.modify_succ_cons, ih, List.cons_append]

/-- As many nodes, each at the place that its number says. -/
def Numbered (count : Nat) (nodes : List Node) : Prop :=
  nodes.map (·.id) = List.range count

section
variable {count : Nat} {nodes front back : List Node} {node : Node} {f : Node → Node}

theorem Numbered.length (h : Numbered count nodes) : nodes.length = count := by
  simpa using congrArg List.length h

theorem Numbered.id_eq (h : Numbered count (front ++ node :: back)) : node.id = front.length := by
  have hlength := h.length
  have hid := congrArg (·[front.length]?) h
  rw [List.length_append, List.length_cons] at hlength
  simpa [List.getElem?_range (show front.length < count by omega)] using hid

theorem Numbered.getElem? (h : Numbered count (front ++ node :: back)) :
    (front ++ node :: back)[node.id]? = some node := by
  rw [h.id_eq, List.getElem?_append_right (Nat.le_refl _), Nat.sub_self]
  rfl

theorem Numbered.modify_eq (h : Numbered count (front ++ node :: back)) :
    (front ++ node :: back).modify node.id f = front ++ f node :: back := by
  rw [h.id_eq]
  exact modify_length f front node back

theorem Numbered.replace (h : Numbered count (front ++ node :: back)) {node' : Node}
    (hid : node'.id = node.id) : Numbered count (front ++ node' :: back) := by
  rw [Numbered, List.map_append, List.map_cons] at h ⊢
  rw [hid]
  exact h

theorem Numbered.concat (h : Numbered count nodes) (hid : node.id = count) :
    Numbered (count + 1) (nodes ++ [node]) := by
  rw [Numbered, List.map_append, h, List.map_singleton, hid, List.range_succ]

end

-- ---------------------------------------------------------------------------
-- The open element and those around it
-- ---------------------------------------------------------------------------

section
variable {count : Nat} {e e' parent : Element} {above : List Element} {f : Node → Node}

theorem getElem?_layout (h : Numbered count (layout e above)) :
    (layout e above)[e.id]? = some (e.row (above.head?.map (·.id))) := by
  rw [layout_eq] at h ⊢
  exact h.getElem?

theorem numbered_layout (h : Numbered count (layout e above)) (hid : e'.id = e.id)
    (hchildren : e'.children = e.children) : Numbered count (layout e' above) := by
  rw [layout_eq] at h ⊢
  rw [hid, hchildren]
  exact h.replace hid

theorem modify_layout (h : Numbered count (layout e above))
    (hrow : f (e.row (above.head?.map (·.id))) = e'.row (above.head?.map (·.id))) (hid : e'.id = e.id)
    (hchildren : e'.children = e.children) : (layout e above).modify e.id f = layout e' above := by
  rw [layout_eq] at h
  rw [layout_eq, layout_eq, hid, hchildren, ← hrow]
  exact h.modify_eq

theorem id_lt_of_layout (h : Numbered count (layout e (parent :: above))) : parent.id < e.id := by
  have hid : e.id = (frame e.id (parent :: above)).length := by
    rw [layout_eq] at h
    exact h.id_eq
  rw [← layout_push, layout_eq] at h
  have hparent : parent.id = (frame parent.id above).length := h.id_eq
  rw [frame, List.length_append, List.length_cons] at hid
  omega

theorem numbered_ended (h : Numbered count (layout e (parent :: above))) (stop : Nat) :
    Numbered count (layout (parent.push { e with stop, closed := false }) above) := by
  rw [layout_push]
  exact numbered_layout h rfl rfl

theorem closeWhile_root (h : Numbered count (layout e [])) (p : Node → Bool) (stop : Nat) :
    closeWhile p stop (layout e []) e.id = (layout e [], e.id) := by
  rw [closeWhile, getElem?_layout h]
  rfl

theorem closeWhile_cons (h : Numbered count (layout e (parent :: above))) (p : Node → Bool) (stop : Nat) :
    closeWhile p stop (layout e (parent :: above)) e.id =
      if p (e.row (some parent.id)) then
        closeWhile p stop (layout (parent.push { e with stop, closed := false }) above) parent.id
      else (layout e (parent :: above), e.id) := by
  have hnode : (layout e (parent :: above))[e.id]? = some (e.row (some parent.id)) := getElem?_layout h
  have hparent : (e.row (some parent.id)).parent = some parent.id := rfl
  have hmodify : (layout e (parent :: above)).modify e.id ({ · with stop, closed := false }) =
      layout { e with stop, closed := false } (parent :: above) := modify_layout h rfl rfl rfl
  rw [closeWhile, layout_push, ← hmodify]
  simp only [hnode, hparent, id_lt_of_layout h, if_true]

theorem closeWhile_closeUpTo (h : Numbered count (layout e above)) (name : String) (stop : Nat) :
    closeWhile (!·.element.hasName name) stop (layout e above) e.id =
        (layout (closeUpTo name stop e above).1 (closeUpTo name stop e above).2,
          (closeUpTo name stop e above).1.id) ∧
      Numbered count (layout (closeUpTo name stop e above).1 (closeUpTo name stop e above).2) := by
  induction above generalizing e with
  | nil => exact ⟨closeWhile_root h _ stop, h⟩
  | cons parent above ih =>
    have hname : (e.row (some parent.id)).element.hasName name = e.hasName name := rfl
    rw [closeWhile_cons h, closeUpTo, hname]
    cases e.hasName name with
    | true => exact ⟨rfl, h⟩
    | false => exact ih (numbered_ended h stop)

theorem closeWhile_closeAll (h : Numbered count (layout e above)) (stop : Nat) :
    (closeWhile (fun _ => true) stop (layout e above) e.id).1 = (closeAll stop e above).rows none ∧
      Numbered count ((closeAll stop e above).rows none) := by
  induction above generalizing e with
  | nil => exact ⟨congrArg Prod.fst (closeWhile_root h _ stop), h⟩
  | cons parent above ih =>
    rw [closeWhile_cons h, closeAll, if_pos rfl]
    exact ih (numbered_ended h stop)

end

-- ---------------------------------------------------------------------------
-- One token
-- ---------------------------------------------------------------------------

/-- The arena has the nodes of a tree that is being read, and stays at the open element. -/
structure Keeps (a : Arena) (e : Element) (above : List Element) (count : Nat) : Prop where
  nodes : a.nodes = layout e above
  current : a.current = e.id
  numbered : Numbered (count + 1) (layout e above)

section
variable {text : Text} {a : Arena} {e e' child parent : Element} {above : List Element} {count : Nat}
  {f : Node → Node}

theorem Keeps.of_eq {b : Arena} (h : a.Keeps e above count) (hnodes : b.nodes = a.nodes)
    (hcurrent : b.current = a.current) : b.Keeps e above count :=
  ⟨hnodes.trans h.nodes, hcurrent.trans h.current, h.numbered⟩

theorem Keeps.getElem? (h : a.Keeps e above count) :
    a.nodes[a.current]? = some (e.row (above.head?.map (·.id))) := by
  rw [h.nodes, h.current]
  exact getElem?_layout h.numbered

theorem Keeps.edit (h : a.Keeps e above count) (e' : Element)
    (hrow : ∀ parent, f (e.row parent) = e'.row parent) (hid : e'.id = e.id)
    (hchildren : e'.children = e.children) : (a.edit f).Keeps e' above count where
  nodes := by
    rw [Arena.edit, h.nodes, h.current]
    exact modify_layout h.numbered (hrow _) hid hchildren
  current := h.current.trans hid.symm
  numbered := numbered_layout h.numbered hid hchildren

theorem Keeps.parent? (h : a.Keeps e above count) : a.parent? = above.head?.map (·.id) := by
  rw [Arena.parent?, h.getElem?]
  rfl

theorem Keeps.leave (h : a.Keeps e (parent :: above) count)
    (hrow : ∀ parent, f (e.row parent) = e'.row parent) (hid : e'.id = e.id)
    (hchildren : e'.children = e.children) : (a.leave f).Keeps (parent.push e') above count := by
  obtain ⟨hnodes, -, hnumbered⟩ := h.edit e' hrow hid hchildren
  rw [← layout_push] at hnodes hnumbered
  rw [Arena.leave, h.parent?]
  exact ⟨hnodes, rfl, hnumbered⟩

theorem layout_open (e : Element) (above : List Element) (id start size : Nat) :
    layout { id, start, stop := size } (e :: above) =
      frame e.id above ++ { e.row (above.head?.map (·.id)) with children := e.children.map (·.id) ++ [id] } ::
        Element.rowsAll e.id e.children ++ [{ id, start, stop := size, parent := some e.id }] := by
  rw [layout, frame, Element.rows_eq]
  rfl

theorem Keeps.openNode (h : a.Keeps e above count) (start size : Nat) :
    (a.openNode start size).Keeps { id := count + 1, start, stop := size } (e :: above) (count + 1) := by
  have hlength : a.nodes.length = count + 1 := by
    rw [h.nodes]
    exact h.numbered.length
  have hnumbered := h.numbered
  rw [layout_eq] at hnumbered
  refine ⟨?_, hlength, ?_⟩
  · rw [Arena.openNode, Arena.edit, hlength, h.nodes, h.current, layout_eq, layout_open]
    exact congrArg (· ++ _) hnumbered.modify_eq
  · rw [layout_open]
    refine Numbered.concat (hnumbered.replace ?_) ?_
    · rfl
    · rfl

theorem Keeps.reopen (h : a.Keeps e above count) (hlast : e.children = e.children.dropLast ++ [child]) :
    { a with current := child.id }.Keeps child ({ e with children := e.children.dropLast } :: above) count := by
  have hlayout : layout e above = layout child ({ e with children := e.children.dropLast } :: above) := by
    rw [← layout_push, Element.push_dropLast hlast]
  obtain ⟨hnodes, -, hnumbered⟩ := h
  rw [hlayout] at hnodes hnumbered
  exact ⟨hnodes, rfl, hnumbered⟩

theorem Keeps.current_eq_zero_iff (h : a.Keeps e above count) : a.current = 0 ↔ above = [] := by
  have hnumbered := h.numbered
  rw [layout_eq] at hnumbered
  have hid : e.id = (frame e.id above).length := hnumbered.id_eq
  rw [h.current, hid, List.length_eq_zero_iff]
  cases above with
  | nil => simp [frame]
  | cons parent above => simp [frame]

end

section
variable {text : Text} {a : Arena} {d : Draft} {e : Element} {above : List Element} {name : String}
  {start count : Nat} (h : a.Keeps d.current d.above count)
include h

theorem Keeps.voidBefore? :
    a.voidBefore? text name start = (d.voidBefore? text name start).map (·.id) := by
  have hname : (d.current.row (d.above.head?.map (·.id))).element.hasName name = d.current.hasName name := rfl
  rw [Arena.voidBefore?, h.getElem?, Option.bind_some, hname, Draft.voidBefore?]
  split
  · rfl
  · have hchildren : (d.current.row (d.above.head?.map (·.id))).children.getLast? =
        d.current.children.getLast?.map (·.id) := by
      simp [Element.row, List.getLast?_map]
    rw [hchildren]
    cases hlast : d.current.children.getLast? with
    | none => rfl
    | some child =>
      obtain ⟨init, hinit⟩ := List.getLast?_eq_some_iff.mp hlast
      have hnode : a.nodes[child.id]? = some (child.row (some d.current.id)) :=
        (h.reopen (by rw [hinit, List.dropLast_concat])).getElem?
      rw [Option.map_some, Option.filter_some, Option.filter_some, hnode, Option.any_some]
      have hmap (belongs : Bool) : (if belongs then some child.id else none) =
          (if belongs then some child else none).map (·.id) := by
        cases belongs <;> rfl
      exact hmap _

theorem Keeps.giveEndTag (hstep : Draft.EndTagStep text d name start e above) :
    (a.giveEndTag text name start).Keeps e above count := by
  rw [Arena.giveEndTag, h.voidBefore?]
  obtain ⟨hclosed, hnumbered⟩ := closeWhile_closeUpTo h.numbered name start
  rw [← h.nodes, ← h.current] at hclosed
  cases hstep with
  | @absorbed child void =>
    rw [void]
    exact (h.reopen (Draft.voidBefore?_eq_some void)).edit _ (fun _ => rfl) rfl rfl
  | @found e parent above void closed =>
    rw [closed] at hclosed hnumbered
    have hkeeps : { a with nodes := layout e (parent :: above), current := e.id }.Keeps e (parent :: above)
        count := ⟨rfl, rfl, hnumbered⟩
    have hinner : e.id ≠ 0 := fun hzero => by cases hkeeps.current_eq_zero_iff.mp hzero
    simp only [void, Option.map_none, hclosed, if_neg hinner]
    exact hkeeps.edit _ (fun _ => rfl) rfl rfl
  | lost void closed =>
    rw [closed] at hclosed hnumbered
    have hkeeps : { a with nodes := layout e [], current := e.id }.Keeps e [] count :=
      ⟨rfl, rfl, hnumbered⟩
    simp only [void, Option.map_none, hclosed]
    rw [if_pos (hkeeps.current_eq_zero_iff.mpr rfl)]
    exact hkeeps

theorem Keeps.leaveDraft {f : Node → Node} {g : Element → Element}
    (hrow : ∀ parent, f (d.current.row parent) = (g d.current).row parent)
    (hid : (g d.current).id = d.current.id) (hchildren : (g d.current).children = d.current.children) :
    (a.leave f).Keeps (d.leave g).current (d.leave g).above count := by
  rw [Draft.leave]
  cases habove : d.above with
  | nil =>
    have hroot : a.leave f = a := by
      rw [Arena.leave, h.parent?, habove]
      rfl
    rw [hroot]
    exact h
  | cons parent above => exact Keeps.leave (habove ▸ h) hrow hid hchildren

/-- The `>` of a start tag is never read at the root. -/
theorem Keeps.closeStartTag (habove : d.above ≠ []) (stop : Nat) :
    (a.closeStartTag stop).Keeps (d.closeStartTag stop).current (d.closeStartTag stop).above count := by
  have hedit : (a.edit ({ · with stop })).Keeps { d.current with stop } d.above count :=
    h.edit _ (fun _ => rfl) rfl rfl
  have hvoid : ((a.edit ({ · with stop })).nodes[(a.edit ({ · with stop })).current]?).any
      (·.element.isVoid) = d.current.isVoid := by
    rw [hedit.getElem?]
    rfl
  obtain ⟨parent, above, hcons⟩ := List.exists_cons_of_ne_nil habove
  rw [Arena.closeStartTag, Draft.closeStartTag]
  simp only [hvoid]
  cases d.current.isVoid with
  | false => exact hedit
  | true =>
    rw [hcons] at hedit
    simp only [if_true, Draft.leave, hcons]
    exact hedit.leave (fun _ => rfl) rfl rfl

theorem Keeps.addText (content : Text) :
    (a.addText content).Keeps (d.addText content).current (d.addText content).above count := by
  rw [Arena.addText, Draft.addText]
  cases content.trim with
  | nil => exact h
  | cons c cs => exact h.edit _ (fun _ => rfl) rfl rfl

end

-- ---------------------------------------------------------------------------
-- The attribute that waits for a value
-- ---------------------------------------------------------------------------

def Awaits (a : Arena) (e : Element) : Prop :=
  ∃ earlier last, e.attributes = earlier ++ [last] ∧ a.pending = some earlier.length

section
variable {a : Arena} {e : Element} {above : List Element} {count : Nat}

theorem Keeps.addAttribute (h : a.Keeps e above count) (name : Text) (start : Nat) :
    (a.addAttribute name start).Keeps { e with
        attributes := e.attributes ++ [{ name := String.ofList name, offset := start }] } above count ∧
      (a.addAttribute name start).Awaits { e with
        attributes := e.attributes ++ [{ name := String.ofList name, offset := start }] } := by
  constructor
  · have hedit := h.edit (f := fun n => { n with
      attributes := n.attributes ++ [{ name := String.ofList name, offset := start }] })
      { e with attributes := e.attributes ++ [{ name := String.ofList name, offset := start }] }
      (fun _ => rfl) rfl rfl
    exact hedit.of_eq rfl rfl
  · refine ⟨e.attributes, _, rfl, ?_⟩
    rw [Arena.addAttribute, h.getElem?]
    rfl

theorem Keeps.addValue (h : a.Keeps e above count) (hslot : a.Awaits e) (value : Text) :
    (a.addValue value).Keeps { e with
      attributes := setLastValue (String.ofList (unquote value)) e.attributes } above count := by
  obtain ⟨earlier, last, hattributes, hpending⟩ := hslot
  have hset : e.attributes.modify earlier.length ({ · with value := some (String.ofList (unquote value)) }) =
      setLastValue (String.ofList (unquote value)) e.attributes := by
    rw [hattributes, setLastValue_append, modify_length]
  rw [Arena.addValue, hpending]
  have hedit := h.edit (f := fun n => { n with
    attributes := n.attributes.modify earlier.length
      ({ · with value := some (String.ofList (unquote value)) }) })
    { e with attributes := setLastValue (String.ofList (unquote value)) e.attributes }
    (fun parent => by rw [← hset]; rfl) rfl rfl
  exact hedit.of_eq rfl rfl

end

end Arena

def ScanState.awaitsValue : ScanState → Bool
  | .afterAttributeName _ | .beforeAttributeValue _ => true
  | _ => false

theorem ScanState.awaitsValue_bodyState (raw : RawText) : (Token.bodyState raw).awaitsValue = false := by
  cases raw <;> rfl

theorem ScanState.Reads.of_awaitsValue {state after : ScanState} {kind : TokenKind}
    (h : Reads state kind after) (hafter : after.awaitsValue = true) :
    kind = .attributeName ∨ state.awaitsValue = true ∧ (kind = .blank ∨ kind = .assign) := by
  cases h with
  | nameless h | tag h | valueless h | missingValue _ h =>
    cases h with
    | attributeName => exact .inl rfl
    | close =>
      rw [awaitsValue_bodyState] at hafter
      cases hafter
    | _ => cases hafter
  | blankAfterName | blankBeforeValue => exact .inr ⟨rfl, .inl rfl⟩
  | assign => exact .inr ⟨rfl, .inr rfl⟩
  | _ => cases hafter

theorem ScanState.Reads.of_attributeValue {state after : ScanState} (h : Reads state .attributeValue after) :
    state.awaitsValue = true := by
  cases h with
  | nameless h | tag h | valueless h | missingValue _ h => cases h
  | value => rfl

-- ---------------------------------------------------------------------------
-- Where the last end tag begins
-- ---------------------------------------------------------------------------

namespace Draft

theorem endTagOpen_leave (d : Draft) (f : Element → Element) : (d.leave f).endTagOpen = d.endTagOpen := by
  unfold leave
  split <;> rfl

theorem endTagOpen_nameEndTag (text : Text) (d : Draft) (lexeme : Text) (start stop : Nat) :
    (d.nameEndTag text lexeme start stop).endTagOpen = d.endTagOpen := by
  unfold nameEndTag
  simp only
  split
  · rfl
  · exact (settle_sameTree _ _ _ _).endTagOpen

theorem endTagOpen_accept (text : Text) (d : Draft) (p : Placed) :
    (d.accept text p).endTagOpen = if p.kind = .endTagOpen then some p.offset else d.endTagOpen := by
  rw [← (d.note_sameTree p).endTagOpen]
  unfold accept
  generalize d.note p = d
  cases p.kind with
  | tagName => exact (d.nameElement_sameTree p.lexeme p.offset p.stop).endTagOpen
  | tagClose =>
    simp only [closeStartTag]
    split
    · exact endTagOpen_leave d _
    · rfl
  | tagSelfClose | endTagClose => exact endTagOpen_leave d _
  | endTagName => exact endTagOpen_nameEndTag text d p.lexeme p.offset p.stop
  | attributeName => exact (d.addAttribute_sameTree p.lexeme p.offset p.stop).endTagOpen
  | attributeValue => exact (d.addValue_sameTree p.lexeme p.offset p.stop).endTagOpen
  | content => rcases d.addText_cases p.lexeme with heq | ⟨runs, heq⟩ <;> simp [heq]
  | _ => rfl

end Draft

namespace Arena

theorem endTagOpen_leave (a : Arena) (f : Node → Node) : (a.leave f).endTagOpen = a.endTagOpen := by
  unfold leave
  split <;> rfl

theorem endTagOpen_giveEndTag (text : Text) (a : Arena) (name : String) (start : Nat) :
    (a.giveEndTag text name start).endTagOpen = a.endTagOpen := by
  unfold giveEndTag
  split
  · rfl
  · simp only
    split <;> rfl

theorem endTagOpen_accept (text : Text) (a : Arena) (p : Placed) :
    (a.accept text p).endTagOpen = if p.kind = .endTagOpen then some p.offset else a.endTagOpen := by
  unfold accept
  cases p.kind with
  | tagClose =>
    simp only [closeStartTag]
    split
    · exact endTagOpen_leave _ _
    · rfl
  | tagSelfClose | endTagClose => exact endTagOpen_leave a _
  | endTagName => exact endTagOpen_giveEndTag text a _ _
  | attributeValue =>
    simp only [addValue]
    split <;> rfl
  | content =>
    simp only [addText]
    split <;> rfl
  | _ => rfl

-- ---------------------------------------------------------------------------
-- All tokens
-- ---------------------------------------------------------------------------

/-- The arena keeps the tree of the draft, and the attribute to which a value would go. -/
structure Mirrors (state : ScanState) (a : Arena) (d : Draft) : Prop where
  keeps : a.Keeps d.current d.above d.count
  endTagOpen : a.endTagOpen = d.endTagOpen
  awaits : state.awaitsValue = true → a.Awaits d.current

section
variable {text : Text} {a : Arena} {d : Draft} {p : Placed} {state : ScanState}

theorem Mirrors.keeps_accept (h : a.Mirrors state d) (hreads : ScanState.Reads state p.kind p.state)
    (hstart : p.kind = .tagClose → d.above ≠ []) :
    (a.accept text p).Keeps (d.accept text p).current (d.accept text p).above (d.accept text p).count := by
  obtain ⟨hkeeps, hopen, hawaits⟩ := h
  have hnote := d.note_sameTree p
  rw [Draft.count_accept, ← d.count_note p]
  rw [← hnote.current, ← hnote.above, ← d.count_note p] at hkeeps
  rw [← hnote.endTagOpen] at hopen
  rw [← hnote.above] at hstart
  rw [← hnote.current] at hawaits
  unfold Arena.accept Draft.accept
  generalize d.note p = d at hkeeps hopen hawaits hstart ⊢
  cases hkind : p.kind with
  | tagOpen => exact hkeeps.openNode p.offset text.size
  | tagName =>
    obtain ⟨hcurrent, habove, -⟩ := d.nameElement_sameTree p.lexeme p.offset p.stop
    simp only [hcurrent, habove]
    exact hkeeps.edit _ (fun _ => rfl) rfl rfl
  | tagClose => exact hkeeps.closeStartTag (hstart hkind) p.stop
  | tagSelfClose => exact hkeeps.leaveDraft (fun _ => rfl) rfl rfl
  | endTagName =>
    have hstep := d.nameEndTag_step text p.lexeme p.offset p.stop
    rw [← hopen] at hstep
    exact hkeeps.giveEndTag hstep
  | endTagClose => exact hkeeps.leaveDraft (fun _ => rfl) rfl rfl
  | attributeName =>
    obtain ⟨hcurrent, habove, -⟩ := d.addAttribute_sameTree p.lexeme p.offset p.stop
    simp only [hcurrent, habove]
    exact (hkeeps.addAttribute p.lexeme p.offset).1
  | attributeValue =>
    obtain ⟨hcurrent, habove, -⟩ := d.addValue_sameTree p.lexeme p.offset p.stop
    simp only [hcurrent, habove]
    rw [hkind] at hreads
    exact hkeeps.addValue (hawaits hreads.of_attributeValue) p.lexeme
  | content => exact hkeeps.addText p.lexeme
  | endTagOpen => exact hkeeps.of_eq rfl rfl
  | _ => exact hkeeps

/-- A value is expected after the name of an attribute, and as long as blanks or `=` follow. -/
theorem Mirrors.awaits_accept (h : a.Mirrors state d) (hreads : ScanState.Reads state p.kind p.state)
    (hafter : p.state.awaitsValue = true) : (a.accept text p).Awaits (d.accept text p).current := by
  have hnote := d.note_sameTree p
  unfold Arena.accept Draft.accept
  rcases hreads.of_awaitsValue hafter with hkind | ⟨hstate, hkind | hkind⟩
  · have hkeeps := h.keeps
    rw [← hnote.current, ← hnote.above] at hkeeps
    simp only [hkind, ((d.note p).addAttribute_sameTree p.lexeme p.offset p.stop).current]
    exact (hkeeps.addAttribute p.lexeme p.offset).2
  · simp only [hkind, hnote.current]
    exact h.awaits hstate
  · simp only [hkind, hnote.current]
    exact h.awaits hstate

end

theorem above_ne_nil_of_tagClose {text : Text} {done : List Placed} {state after : ScanState} {d : Draft}
    (h : Tracked text done state d) (hreads : ScanState.Reads state .tagClose after) : d.above ≠ [] := by
  obtain ⟨current, above⟩ := d
  cases state with
  | afterTagOpen | tag | afterAttributeName | beforeAttributeValue =>
    cases h with
    | mk => simp
  | _ => cases hreads

def after (text : Text) (done : List Placed) : Arena :=
  done.foldl (accept text) (empty text)

theorem mirrors_after {text : Text} {done todo : List Placed} (h : tokens text = done ++ todo) :
    (after text done).Mirrors (finalState .content done) (Draft.after text done) := by
  refine Draft.after_induction (motive := fun done =>
    (after text done).Mirrors (finalState .content done) (Draft.after text done)) ?_ ?_ h
  · refine ⟨⟨rfl, rfl, rfl⟩, rfl, ?_⟩
    rintro ⟨⟩
  · intro done p todo htokens hreads ih
    have hafter : after text (done ++ [p]) = (after text done).accept text p := by
      rw [after, List.foldl_append]
      rfl
    rw [finalState_concat, Draft.after_concat, hafter]
    refine ⟨ih.keeps_accept hreads fun hkind => ?_, ?_, ih.awaits_accept hreads⟩
    · exact above_ne_nil_of_tagClose (Tracked.after htokens) (hkind ▸ hreads)
    · rw [endTagOpen_accept, Draft.endTagOpen_accept, ih.endTagOpen]

-- ---------------------------------------------------------------------------
-- Whole documents
-- ---------------------------------------------------------------------------

theorem finish_after (text : Text) :
    parse text = (Document.parse text).root.rows none ∧
      ∃ count, Numbered count ((Document.parse text).root.rows none) := by
  have h := (mirrors_after (List.append_nil (tokens text)).symm).keeps
  obtain ⟨hclosed, hnumbered⟩ := closeWhile_closeAll h.numbered text.size
  rw [← h.nodes, ← h.current] at hclosed
  exact ⟨hclosed, _, hnumbered⟩

/-- The nodes are those of the tree, each linked to its parent and its children. -/
theorem parse_eq_rows (text : Text) : parse text = (Document.parse text).root.rows none :=
  (finish_after text).1

section
variable {nodes : List Node} {count : Nat}

mutual
/-- A tree on top of the stack is walked through before what is below it. -/
theorem walk_rows (h : Numbered count nodes) (e : Element) (parent : Option Nat)
    (hnodes : ∀ node ∈ e.rows parent, node ∈ nodes) (rounds : Nat) (stack : List Nat) :
    walk nodes ((e.rows parent).length + rounds) (e.id :: stack) = e.rows parent ++ walk nodes rounds stack := by
  cases e with
  | mk head children =>
    rw [Element.rows] at hnodes ⊢
    obtain ⟨hrow, hbelow⟩ := List.forall_mem_cons.mp hnodes
    have hnode : nodes[head.id]? = some (Element.row parent ⟨head, children⟩) := by
      obtain ⟨front, back, rfl⟩ := List.append_of_mem hrow
      exact h.getElem?
    rw [List.length_cons, Nat.add_right_comm, walk, hnode, List.cons_append]
    exact congrArg (_ :: ·) (walk_rowsAll h children head.id hbelow rounds stack)
theorem walk_rowsAll (h : Numbered count nodes) (es : List Element) (parent : Nat)
    (hnodes : ∀ node ∈ Element.rowsAll parent es, node ∈ nodes) (rounds : Nat) (stack : List Nat) :
    walk nodes ((Element.rowsAll parent es).length + rounds) (es.map (·.id) ++ stack) =
      Element.rowsAll parent es ++ walk nodes rounds stack := by
  cases es with
  | nil => simp [Element.rowsAll]
  | cons e rest =>
    rw [Element.rowsAll] at hnodes ⊢
    obtain ⟨hfirst, hrest⟩ := List.forall_mem_append.mp hnodes
    rw [List.length_append, Nat.add_assoc, List.map_cons, List.cons_append, List.append_assoc,
      walk_rows h e (some parent) hfirst, walk_rowsAll h rest parent hrest]
end

theorem descendants_rows {root : Element} (h : Numbered count (root.rows none)) :
    descendants (root.rows none) = Element.rowsAll root.id root.children := by
  have hwalk := walk_rowsAll h root.children root.id
    (fun node hnode => by rw [Element.rows_eq]; exact List.mem_cons_of_mem _ hnode) 1 []
  rw [List.append_nil] at hwalk
  have hlength : (root.rows none).length = (Element.rowsAll root.id root.children).length + 1 := by
    rw [Element.rows_eq, List.length_cons]
  have hroot : (((root.rows none).head?).map Node.children).getD [] = root.children.map (·.id) := by
    rw [Element.rows_eq]
    rfl
  rw [descendants, hlength, hroot, hwalk]
  exact List.append_nil _

end

/-- As many rounds as there are nodes are enough to meet every element, in document order. -/
theorem descendants_parse (text : Text) :
    (descendants (parse text)).map Node.toElementHead =
      (Document.parse text).elements.map Element.toElementHead := by
  obtain ⟨hparse, count, hnumbered⟩ := finish_after text
  rw [hparse, descendants_rows hnumbered, Element.map_head_rowsAll]
  rfl

end Arena

end PageMarkup
