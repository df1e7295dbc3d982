import PageMarkup.Document.Lookup
import PageMarkup.Proofs.Ranges

/-!
# Lookups in nested elements

A lineage is an element of some trees followed by its ancestors. Both lookups give lineages, and both
descend through every element that reaches over the offset (`chainAtAll_descends`,
`chainBeforeAll_descends`).
-/

namespace PageMarkup

/-- An element of the trees, followed by its ancestors up to the top level; or nothing. -/
inductive Lineage (es : List Element) : List Element → Prop
  | nil : Lineage es []
  | top : e ∈ es → Lineage es [e]
  | child : Lineage es (parent :: above) → e ∈ parent.children → Lineage es (e :: parent :: above)

namespace Element

theorem mem_preorderAll (h : e ∈ es) : e ∈ preorderAll es := by
  obtain ⟨front, back, rfl⟩ := List.append_of_mem h
  rw [preorderAll_append, preorderAll, preorder_eq]
  simp

mutual
theorem child_mem_preorder (e : Element) (hx : x ∈ e.preorder) (hc : c ∈ x.children) :
    c ∈ preorderAll e.children := by
  cases e with
  | mk head children =>
    rw [preorder_eq] at hx
    rcases List.mem_cons.mp hx with rfl | hx
    · exact mem_preorderAll hc
    · exact child_mem_preorderAll children hx hc
theorem child_mem_preorderAll (es : List Element) (hx : x ∈ preorderAll es) (hc : c ∈ x.children) :
    c ∈ preorderAll es := by
  cases es with
  | nil => cases hx
  | cons e rest =>
    rw [preorderAll] at hx ⊢
    rcases List.mem_append.mp hx with hx | hx
    · rw [preorder_eq]
      exact List.mem_append_left _ (List.mem_cons_of_mem _ (child_mem_preorder e hx hc))
    · exact List.mem_append_right _ (child_mem_preorderAll rest hx hc)
end

end Element

theorem Lineage.mem_preorderAll (h : Lineage es chain) (he : e ∈ chain) :
    e ∈ Element.preorderAll es := by
  induction h generalizing e with
  | nil => cases he
  | top hmem => exact List.mem_singleton.mp he ▸ Element.mem_preorderAll hmem
  | child _ hchild ih =>
    rcases List.mem_cons.mp he with rfl | he
    · exact Element.child_mem_preorderAll es (ih List.mem_cons_self) hchild
    · exact ih he

namespace Element

mutual
theorem exists_lineage_preorder (x : Element) (hx : Lineage es (x :: above)) (he : e ∈ x.preorder) :
    ∃ above, Lineage es (e :: above) := by
  cases x with
  | mk head children =>
    rw [preorder_eq] at he
    rcases List.mem_cons.mp he with rfl | he
    · exact ⟨above, hx⟩
    · exact exists_lineage_preorderAll children (fun c hc => ⟨_, hx.child hc⟩) he
theorem exists_lineage_preorderAll (cs : List Element)
    (hcs : ∀ c ∈ cs, ∃ above, Lineage es (c :: above)) (he : e ∈ preorderAll cs) :
    ∃ above, Lineage es (e :: above) := by
  cases cs with
  | nil => cases he
  | cons c rest =>
    rw [preorderAll] at he
    rcases List.mem_append.mp he with he | he
    · obtain ⟨above, hc⟩ := hcs c List.mem_cons_self
      exact exists_lineage_preorder c hc he
    · exact exists_lineage_preorderAll rest (fun c hc => hcs c (List.mem_cons_of_mem _ hc)) he
end

theorem exists_lineage (h : e ∈ preorderAll es) : ∃ above, Lineage es (e :: above) :=
  exists_lineage_preorderAll es (fun _ hc => ⟨[], .top hc⟩) h

-- ---------------------------------------------------------------------------
-- Lookups give lineages
-- ---------------------------------------------------------------------------

mutual
theorem chainAt_lineage (e : Element) (habove : Lineage es above) (he : Lineage es (e :: above)) :
    Lineage es (chainAt offset above e) := by
  cases e with
  | mk head children =>
    rw [chainAt]
    split
    · exact chainAtAll_lineage children he fun c hc => he.child hc
    · exact habove
theorem chainAtAll_lineage (cs : List Element) (habove : Lineage es above)
    (hcs : ∀ c ∈ cs, Lineage es (c :: above)) : Lineage es (chainAtAll offset above cs) := by
  cases cs with
  | nil => exact habove
  | cons c rest =>
    rw [chainAtAll]
    split
    · exact chainAtAll_lineage rest habove fun c hc => hcs c (List.mem_cons_of_mem _ hc)
    · exact chainAt_lineage c habove (hcs c List.mem_cons_self)
end

mutual
theorem chainBefore_lineage (e : Element) (habove : Lineage es above) (he : Lineage es (e :: above)) :
    Lineage es (chainBefore offset above e) := by
  cases e with
  | mk head children =>
    rw [chainBefore]
    split
    · split
      · exact chainBeforeAll_lineage children he fun c hc => he.child hc
      · exact he
    · exact habove
theorem chainBeforeAll_lineage (cs : List Element) (habove : Lineage es above)
    (hcs : ∀ c ∈ cs, Lineage es (c :: above)) : Lineage es (chainBeforeAll offset above cs) := by
  cases cs with
  | nil => exact habove
  | cons c rest =>
    rw [chainBeforeAll]
    split
    · exact chainBeforeAll_lineage rest habove fun c hc => hcs c (List.mem_cons_of_mem _ hc)
    · exact chainBefore_lineage c habove (hcs c List.mem_cons_self)
end

-- ---------------------------------------------------------------------------
-- Lookups descend
-- ---------------------------------------------------------------------------

theorem chainAtAll_append (front : List Element) (hlt : e.start < offset)
    (hback : ∀ x ∈ back, offset ≤ x.start) :
    chainAtAll offset above (front ++ e :: back) = chainAt offset above e := by
  induction front with
  | nil =>
    rw [List.nil_append, chainAtAll, if_neg]
    simpa using hback
  | cons x front ih =>
    rw [List.cons_append, chainAtAll, if_pos (by simp [hlt])]
    exact ih

theorem chainBeforeAll_append (front : List Element) (hlt : e.start < offset)
    (hback : ∀ x ∈ back, offset ≤ x.start) :
    chainBeforeAll offset above (front ++ e :: back) = chainBefore offset above e := by
  induction front with
  | nil =>
    rw [List.nil_append, chainBeforeAll, if_neg]
    simpa using hback
  | cons x front ih =>
    rw [List.cons_append, chainBeforeAll, if_pos (by simp [hlt])]
    exact ih

theorem chainAtAll_of_le (h : ∀ x ∈ es, offset ≤ x.start) : chainAtAll offset above es = above := by
  induction es with
  | nil => rw [chainAtAll]
  | cons x rest ih =>
    obtain ⟨hx, hrest⟩ := List.forall_mem_cons.mp h
    rw [chainAtAll, if_neg (by simpa using hrest)]
    cases x
    rw [chainAt, if_neg (fun hin => absurd hin.1 (Nat.not_lt.mpr hx))]

theorem chainBeforeAll_of_le (h : ∀ x ∈ es, offset ≤ x.start) :
    chainBeforeAll offset above es = above := by
  induction es with
  | nil => rw [chainBeforeAll]
  | cons x rest ih =>
    obtain ⟨hx, hrest⟩ := List.forall_mem_cons.mp h
    rw [chainBeforeAll, if_neg (by simpa using hrest)]
    cases x
    rw [chainBefore, if_neg (Nat.not_lt.mpr hx)]

end Element

/-- Trees whose elements are in order, like their children. -/
structure Forest (text : Text) (es : List Element) : Prop where
  ranged : AllRanged text es
  ordered : es.Pairwise Element.Precedes

theorem parse_forest (text : Text) : Forest text (Document.parse text).roots := by
  refine ⟨parse_allRanged text, ?_⟩
  cases parse_root_isOpen text with
  | root _ _ _ _ _ _ ordered _ => exact ordered

theorem parse_root_stop (text : Text) : (Document.parse text).root.stop = text.size := by
  cases parse_root_isOpen text with
  | root _ stop _ _ _ _ _ _ => exact stop

theorem parse_chainAt (h : offset ≤ text.size) :
    (Document.parse text).chainAt offset =
      .ok (Element.chainAtAll offset [] (Document.parse text).roots) := by
  rw [Document.chainAt, Document.checkOffset, parse_root_stop, if_pos h]

theorem parse_chainBefore (h : offset ≤ text.size) :
    (Document.parse text).chainBefore offset =
      .ok (Element.chainBeforeAll offset [] (Document.parse text).roots) := by
  rw [Document.chainBefore, Document.checkOffset, parse_root_stop, if_pos h]

structure Element.Spans (e : Element) (offset : Nat) : Prop where
  start_lt : e.start < offset
  le_stop : offset ≤ e.stop

namespace Forest

theorem ranged_of_lineage (h : Forest text es) (hchain : Lineage es chain) (he : e ∈ chain) :
    e.Ranged text :=
  h.ranged e (hchain.mem_preorderAll he)

end Forest

theorem Element.Spans.le_start (h : e.Spans offset)
    (hordered : (front ++ e :: back).Pairwise Element.Precedes) :
    ∀ x ∈ back, offset ≤ x.start := by
  intro x hx
  have hprecedes := (List.pairwise_cons.mp (List.pairwise_append.mp hordered).2.1).1 x hx
  exact Nat.le_trans h.le_stop hprecedes.2

theorem Element.Spans.around {parent : Element} (h : e.Spans offset) (hparent : parent.Ranged text)
    (he : e ∈ parent.children) : parent.Spans offset := by
  obtain ⟨hstart, hstop⟩ := hparent.children_inside e he
  exact ⟨Nat.lt_trans hstart h.start_lt, Nat.le_trans h.le_stop hstop⟩

theorem Element.chainAtAll_of_mem (hordered : es.Pairwise Element.Precedes) (he : e ∈ es)
    (hspans : e.Spans offset) :
    Element.chainAtAll offset above es = Element.chainAtAll offset (e :: above) e.children := by
  obtain ⟨front, back, rfl⟩ := List.append_of_mem he
  rw [Element.chainAtAll_append front hspans.start_lt (hspans.le_start hordered)]
  cases e
  rw [Element.chainAt, if_pos ⟨hspans.start_lt, hspans.le_stop⟩]

theorem Element.chainBeforeAll_of_mem (hordered : es.Pairwise Element.Precedes) (he : e ∈ es)
    (hspans : e.Spans offset) :
    Element.chainBeforeAll offset above es =
      if offset < e.stop ∨ Element.endsWithChild e.stop e.children then
        Element.chainBeforeAll offset (e :: above) e.children
      else e :: above := by
  obtain ⟨front, back, rfl⟩ := List.append_of_mem he
  rw [Element.chainBeforeAll_append front hspans.start_lt (hspans.le_start hordered)]
  cases e
  rw [Element.chainBefore, if_pos hspans.start_lt]

/-- A child that reaches to the end of its parent is the last one. -/
theorem Ranged.endsWithChild {parent : Element} (h : parent.Ranged text) (hc : c ∈ parent.children)
    (hstop : c.stop = parent.stop)
    (hpos : ∀ x ∈ parent.children, x.start < x.stop) :
    Element.endsWithChild parent.stop parent.children = true := by
  obtain ⟨front, back, hchildren⟩ := List.append_of_mem hc
  have hback : back = [] := by
    cases back with
    | nil => rfl
    | cons x back =>
      have hordered := h.children_ordered
      rw [hchildren] at hordered
      have hprecedes := (List.pairwise_cons.mp (List.pairwise_append.mp hordered).2.1).1 x (by simp)
      have hx : x ∈ parent.children := by simp [hchildren]
      have hinside := h.children_inside x hx
      have := hpos x hx
      omega
  rw [Element.endsWithChild, hchildren, hback, List.getLast?_concat]
  simpa using hstop

namespace Forest

theorem chainAtAll_descends (h : Forest text es) (hchain : Lineage es (e :: above))
    (hspans : e.Spans offset) :
    Element.chainAtAll offset [] es = Element.chainAtAll offset (e :: above) e.children := by
  generalize hc : e :: above = chain at hchain
  induction hchain generalizing e above with
  | nil => cases hc
  | top hmem =>
    cases hc
    exact Element.chainAtAll_of_mem h.ordered hmem hspans
  | @child parent above' c hparent hmem ih =>
    cases hc
    have hrange := h.ranged_of_lineage hparent List.mem_cons_self
    rw [ih (hspans.around hrange hmem) rfl]
    exact Element.chainAtAll_of_mem hrange.children_ordered hmem hspans

theorem chainBeforeAll_descends (h : Forest text es) (hchain : Lineage es (e :: above))
    (hspans : e.Spans offset) :
    Element.chainBeforeAll offset [] es =
      if offset < e.stop ∨ Element.endsWithChild e.stop e.children then
        Element.chainBeforeAll offset (e :: above) e.children
      else e :: above := by
  generalize hc : e :: above = chain at hchain
  induction hchain generalizing e above with
  | nil => cases hc
  | top hmem =>
    cases hc
    exact Element.chainBeforeAll_of_mem h.ordered hmem hspans
  | @child parent above' c hparent hmem ih =>
    cases hc
    have hrange := h.ranged_of_lineage hparent List.mem_cons_self
    have hinside := hspans.around hrange hmem
    have hbelow : offset < parent.stop ∨ Element.endsWithChild parent.stop parent.children := by
      rcases Nat.lt_or_ge offset parent.stop with hlt | hge
      · exact .inl hlt
      · refine .inr (hrange.endsWithChild hmem ?_ fun x hx =>
          (h.ranged_of_lineage (hparent.child hx) List.mem_cons_self).start_lt_stop)
        have := (hrange.children_inside c hmem).2
        have := hspans.le_stop
        omega
    rw [ih hinside rfl, if_pos hbelow]
    exact Element.chainBeforeAll_of_mem hrange.children_ordered hmem hspans

/-- Both lookups stop at an element none of whose children starts before the offset. -/
theorem chain_eq (h : Forest text es) (hchain : Lineage es (e :: above)) (hspans : e.Spans offset)
    (hchildren : ∀ c ∈ e.children, offset ≤ c.start) :
    Element.chainAtAll offset [] es = e :: above ∧ Element.chainBeforeAll offset [] es = e :: above := by
  rw [h.chainAtAll_descends hchain hspans, h.chainBeforeAll_descends hchain hspans,
    Element.chainAtAll_of_le hchildren, Element.chainBeforeAll_of_le hchildren, ite_self]
  exact ⟨rfl, rfl⟩

end Forest

end PageMarkup
