import Mathlib.Data.List.Nodup
import Mathlib.Data.List.Pairwise
import PageMarkup.Proofs.Chains
import PageMarkup.Proofs.EndTags

/-!
# Document order

Elements are numbered as they are begun. Walking through the tree meets them in the order of their
numbers, which is the order in which they stand in the text, so a number belongs to one element and
every element has one parent, one place among its children and one chain of ancestors. Nothing about
drafts is needed for the last three: they hold of every tree that is numbered in document order.
-/

namespace PageMarkup

-- ---------------------------------------------------------------------------
-- Walking through a tree
-- ---------------------------------------------------------------------------

namespace Element

mutual
theorem isInfix_preorder (e : Element) (hx : x ∈ e.preorder) : x.preorder <:+: e.preorder := by
  cases e with
  | mk head children =>
    rw [preorder_eq] at hx
    rcases List.mem_cons.mp hx with rfl | hx
    · exact List.infix_rfl
    · rw [preorder_eq ⟨head, children⟩]
      exact List.infix_cons (isInfix_preorderAll children hx)
theorem isInfix_preorderAll (es : List Element) (hx : x ∈ preorderAll es) :
    x.preorder <:+: preorderAll es := by
  cases es with
  | nil => cases hx
  | cons e rest =>
    rw [preorderAll] at hx ⊢
    rcases List.mem_append.mp hx with hx | hx
    · exact (isInfix_preorder e hx).trans (List.prefix_append _ _).isInfix
    · exact (isInfix_preorderAll rest hx).trans (List.suffix_append _ _).isInfix
end

mutual
/-- The elements below another one are the children of it and of those below it, each once. -/
theorem flatMap_children_perm (e : Element) :
    (e.preorder.flatMap (·.children)).Perm (preorderAll e.children) := by
  cases e with
  | mk head children =>
    rw [preorder_eq, List.flatMap_cons]
    exact append_flatMap_children_perm children
theorem append_flatMap_children_perm (es : List Element) :
    (es ++ (preorderAll es).flatMap (·.children)).Perm (preorderAll es) := by
  cases es with
  | nil => exact .nil
  | cons e rest =>
    have hbelow := flatMap_children_perm e
    have hrest := append_flatMap_children_perm rest
    rw [preorderAll, List.flatMap_append, List.cons_append, preorder_eq e, List.cons_append]
    rw [preorder_eq e] at hbelow
    refine .cons e ?_
    exact (List.perm_append_comm_assoc rest _ _).trans (hbelow.append hrest)
end

end Element

-- ---------------------------------------------------------------------------
-- Trees numbered in document order
-- ---------------------------------------------------------------------------

def Element.Numbered (root : Element) : Prop :=
  root.preorder.Pairwise fun x y => x.id < y.id

section
variable {root x y c d e : Element}

theorem Element.Numbered.nodup (h : root.Numbered) : (root.preorder.map (·.id)).Nodup :=
  List.pairwise_map.mpr (h.imp Nat.ne_of_lt)

theorem Element.Numbered.eq_of_id_eq (h : root.Numbered) (hx : x ∈ root.preorder)
    (hy : y ∈ root.preorder) (hid : x.id = y.id) : x = y :=
  List.inj_on_of_nodup_map h.nodup hx hy hid

theorem Element.Numbered.id_lt (h : root.Numbered) (hx : x ∈ root.preorder)
    (hc : c ∈ Element.preorderAll x.children) : x.id < c.id := by
  have hinside := h.sublist (Element.isInfix_preorder root hx).sublist
  rw [Element.preorder_eq] at hinside
  exact (List.pairwise_cons.mp hinside).1 c hc

theorem Element.Numbered.nodup_children (h : root.Numbered) :
    (root.preorder.flatMap fun x => x.children.map (·.id)).Nodup := by
  have hbelow := h.nodup
  rw [Element.preorder_eq, List.map_cons, List.nodup_cons] at hbelow
  rw [← List.map_flatMap]
  exact ((root.flatMap_children_perm.map (·.id)).nodup_iff).mpr hbelow.2

theorem Element.Numbered.parent_unique (h : root.Numbered) (hx : x ∈ root.preorder)
    (hy : y ∈ root.preorder) (hcx : c ∈ x.children) (hcy : d ∈ y.children) (hid : c.id = d.id) :
    x = y := by
  refine Classical.byContradiction fun hne => ?_
  have hdisjoint := (List.nodup_flatMap.mp h.nodup_children).2
  have hsymm : Std.Symm (Function.onFun List.Disjoint fun x : Element => x.children.map (·.id)) :=
    ⟨fun _ _ hxy _ hy hx => hxy hx hy⟩
  have hmem : c.id ∈ y.children.map (·.id) := List.mem_map.mpr ⟨d, hcy, hid.symm⟩
  exact hdisjoint.forall hx hy hne (List.mem_map_of_mem hcx) hmem

theorem Element.Numbered.count_children (h : root.Numbered) (hx : x ∈ root.preorder)
    (hc : c ∈ x.children) : (x.children.map (·.id)).count c.id = 1 :=
  List.count_eq_one_of_mem ((List.nodup_flatMap.mp h.nodup_children).1 x hx) (List.mem_map_of_mem hc)

theorem Element.exists_parent (he : e ∈ Element.preorderAll root.children) :
    ∃ x ∈ root.preorder, e ∈ x.children :=
  List.mem_flatMap.mp (root.flatMap_children_perm.mem_iff.mpr he)

theorem Lineage.unique {above above' : List Element} (h : root.Numbered)
    (hchain : Lineage root.children (e :: above)) (hchain' : Lineage root.children (e :: above')) :
    above = above' := by
  have hbelow {x : Element} {above : List Element} (hx : Lineage root.children (x :: above)) :
      x ∈ root.preorder := by
    rw [Element.preorder_eq]
    exact List.mem_cons_of_mem root (hx.mem_preorderAll List.mem_cons_self)
  have hroot : root ∈ root.preorder := by simp [Element.preorder_eq]
  have htop {x parent : Element} {above : List Element} (hx : x ∈ root.children)
      (hparent : Lineage root.children (parent :: above)) (hchild : x ∈ parent.children) : False := by
    obtain rfl := h.parent_unique hroot (hbelow hparent) hx hchild rfl
    exact Nat.lt_irrefl _ (h.id_lt hroot (hparent.mem_preorderAll List.mem_cons_self))
  generalize hc : e :: above = chain at hchain
  induction hchain generalizing e above above' with
  | nil => cases hc
  | top hmem =>
    cases hc
    cases hchain' with
    | top => rfl
    | child hparent hchild => exact (htop hmem hparent hchild).elim
  | child hparent hchild ih =>
    cases hc
    cases hchain' with
    | top hmem => exact (htop hmem hparent hchild).elim
    | child hparent' hchild' =>
      obtain rfl := h.parent_unique (hbelow hparent) (hbelow hparent') hchild hchild' rfl
      rw [ih hparent' rfl]

end

-- ---------------------------------------------------------------------------
-- Parsed documents
-- ---------------------------------------------------------------------------

theorem parse_root_id (text : Text) : (Document.parse text).root.id = 0 := by
  have hall := preorder_map_startTag text
  rw [Element.preorder_eq, List.map_cons] at hall
  have hroot := congrArg StartTag.id (List.cons.inj hall).1
  exact hroot.trans (StartTag.foldl_read_place _ _).1

theorem parse_numbered (text : Text) : (Document.parse text).root.Numbered := by
  rw [Element.Numbered, Element.preorder_eq]
  refine List.pairwise_cons.mpr ⟨fun e he => ?_, elements_pairwise_id text⟩
  have hid : e.id ∈ (Document.parse text).elements.map (·.id) := List.mem_map_of_mem he
  rw [elements_map_id, List.mem_range'_1] at hid
  rw [parse_root_id]
  omega

theorem startTags_map_start (count : Nat) (ts : List Placed) :
    (startTags count ts).map (·.start) = (ts.filter (·.kind = .tagOpen)).map (·.offset) := by
  induction ts generalizing count with
  | nil => rfl
  | cons p ts ih =>
    rw [startTags]
    split
    · next hopen =>
      have hstart := (StartTag.foldl_read_place { id := count + 1, start := p.offset }
        (ts.takeWhile (·.kind ≠ .tagOpen))).2
      rw [List.filter_cons_of_pos (by simpa using hopen), List.map_cons, List.map_cons, hstart, ih]
    · next hopen => rw [List.filter_cons_of_neg (by simpa using hopen), ih]

theorem elements_pairwise_start (text : Text) :
    (Document.parse text).elements.Pairwise fun e e' => e.start < e'.start := by
  have hstarts : (Document.parse text).elements.map (·.start) =
      ((tokens text).filter (·.kind = .tagOpen)).map (·.offset) := by
    rw [← startTags_map_start 0, ← elements_map_startTag, List.map_map]
    rfl
  have h : (((tokens text).filter (·.kind = .tagOpen)).map (·.offset)).Pairwise (· < ·) :=
    List.pairwise_map.mpr ((tokens_pairwise text).filter _)
  rw [← hstarts] at h
  exact List.pairwise_map.mp h

/-- The elements of a document are numbered from 1 on, one for every start tag, in the order in which
they are walked through and stand in the text. Each of them is in one place among the children of one
element, which has a smaller number, and has one chain of ancestors up to the root. -/
theorem parse_documentOrder (text : Text) :
    let d := Document.parse text
    d.root.id = 0 ∧
      d.elements.map (·.id) = List.range' 1 ((tokens text).countP (·.kind = .tagOpen)) ∧
      d.elements.Pairwise (fun e e' => e.start < e'.start) ∧
      ∀ e ∈ d.elements,
        (∃ parent ∈ d.root.preorder, parent.id < e.id ∧ e ∈ parent.children ∧
          (parent.children.map (·.id)).count e.id = 1 ∧
          ∀ other ∈ d.root.preorder, e.id ∈ other.children.map (·.id) → other = parent) ∧
        ∃! above, Lineage d.roots (e :: above) := by
  have h := parse_numbered text
  refine ⟨parse_root_id text, elements_map_id text, elements_pairwise_start text, fun e he => ⟨?_, ?_⟩⟩
  · obtain ⟨parent, hparent, hchild⟩ := Element.exists_parent he
    refine ⟨parent, hparent, h.id_lt hparent (Element.mem_preorderAll hchild), hchild,
      h.count_children hparent hchild, ?_⟩
    intro other hother hid
    obtain ⟨c, hc, hid⟩ := List.mem_map.mp hid
    exact h.parent_unique hother hparent hc hchild hid
  · obtain ⟨above, hchain⟩ := Element.exists_lineage he
    exact ⟨above, hchain, fun _ hother => hother.unique h hchain⟩

end PageMarkup
