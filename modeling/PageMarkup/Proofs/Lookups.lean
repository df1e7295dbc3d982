import PageMarkup.Proofs.DocumentOrder

/-!
# Lookups against a search through all elements

Both lookups look at one child on each level. Because siblings follow one another without overlap
they miss nothing: the one finds all elements whose range holds the offset, which form one chain; the
other goes down towards the last element that starts before the offset, and stops on the way at an
element that has ended before it unless its last child has ended with it.
-/

namespace PageMarkup

section
variable {text : Text} {es : List Element} {e x : Element}

/-- What holds at the top, and of a child if it holds of its parent, holds of all elements. -/
theorem Element.preorderAll_induction {P : Element → Prop} (htop : ∀ e ∈ es, P e)
    (hchild : ∀ parent ∈ preorderAll es, P parent → ∀ c ∈ parent.children, P c)
    (he : e ∈ preorderAll es) : P e := by
  obtain ⟨above, hchain⟩ := exists_lineage he
  generalize hc : e :: above = chain at hchain
  induction hchain generalizing e above with
  | nil => cases hc
  | top hmem =>
    cases hc
    exact htop _ hmem
  | @child parent outer c hparent hmem ih =>
    cases hc
    have hin := hparent.mem_preorderAll List.mem_cons_self
    exact hchild parent hin (ih hin outer rfl) c hmem

theorem Forest.children (h : Forest text es) (he : e ∈ es) : Forest text e.children := by
  obtain ⟨hrange, hbelow⟩ := h.ranged.mem he
  exact ⟨hbelow, hrange.children_ordered⟩

theorem Forest.tail (h : Forest text (e :: es)) : Forest text es := by
  refine ⟨fun x hx => h.ranged x ?_, (List.pairwise_cons.mp h.ordered).2⟩
  rw [Element.preorderAll]
  exact List.mem_append_right _ hx

theorem Ranged.within (he : e.Ranged text) (hbelow : AllRanged text e.children)
    (hx : x ∈ Element.preorderAll e.children) : e.start < x.start ∧ x.stop ≤ e.stop := by
  refine Element.preorderAll_induction (P := fun x => e.start < x.start ∧ x.stop ≤ e.stop)
    he.children_inside ?_ hx
  rintro parent hparent ⟨hstart, hstop⟩ c hc
  obtain ⟨hstart', hstop'⟩ := (hbelow parent hparent).children_inside c hc
  exact ⟨Nat.lt_trans hstart hstart', Nat.le_trans hstop' hstop⟩

theorem Ranged.within_preorder (he : e.Ranged text) (hbelow : AllRanged text e.children)
    (hx : x ∈ e.preorder) : e.start ≤ x.start ∧ x.stop ≤ e.stop := by
  rw [Element.preorder_eq] at hx
  rcases List.mem_cons.mp hx with rfl | hx
  · exact ⟨Nat.le_refl _, Nat.le_refl _⟩
  · obtain ⟨hstart, hstop⟩ := he.within hbelow hx
    exact ⟨Nat.le_of_lt hstart, hstop⟩

theorem Forest.within (h : Forest text es) (hx : x ∈ Element.preorderAll es) :
    ∃ e ∈ es, e.start ≤ x.start ∧ x.stop ≤ e.stop := by
  refine Element.preorderAll_induction (P := fun x => ∃ e ∈ es, e.start ≤ x.start ∧ x.stop ≤ e.stop)
    (fun e he => ⟨e, he, Nat.le_refl _, Nat.le_refl _⟩) ?_ hx
  rintro parent hparent ⟨e, he, hstart, hstop⟩ c hc
  obtain ⟨hstart', hstop'⟩ := (h.ranged parent hparent).children_inside c hc
  exact ⟨e, he, Nat.le_trans hstart (Nat.le_of_lt hstart'), Nat.le_trans hstop' hstop⟩

end

-- ---------------------------------------------------------------------------
-- The innermost element around an offset
-- ---------------------------------------------------------------------------

namespace Element

mutual
theorem chainAt_eq_filter (e : Element) (he : e.Ranged text) (hbelow : AllRanged text e.children) :
    chainAt offset above e =
      (e.preorder.filter fun x => x.start < offset ∧ offset ≤ x.stop).reverse ++ above := by
  cases e with
  | mk head children =>
    rw [chainAt]
    split
    · next hspans =>
      rw [chainAtAll_eq_filter children ⟨hbelow, he.children_ordered⟩, preorder_eq,
        List.filter_cons_of_pos (by simpa using hspans)]
      simp
    · next hspans =>
      have hnone : (preorder ⟨head, children⟩).filter
          (fun x => x.start < offset ∧ offset ≤ x.stop) = [] := by
        refine List.filter_eq_nil_iff.mpr fun x hx hin => hspans ?_
        obtain ⟨hstart, hstop⟩ := he.within_preorder hbelow hx
        obtain ⟨hlt, hle⟩ := of_decide_eq_true hin
        exact ⟨Nat.lt_of_le_of_lt hstart hlt, Nat.le_trans hle hstop⟩
      rw [hnone]
      rfl
theorem chainAtAll_eq_filter (es : List Element) (h : Forest text es) :
    chainAtAll offset above es =
      ((preorderAll es).filter fun x => x.start < offset ∧ offset ≤ x.stop).reverse ++ above := by
  cases es with
  | nil => rfl
  | cons e rest =>
    obtain ⟨hfirst, -⟩ := List.pairwise_cons.mp h.ordered
    obtain ⟨hrange, hbelow⟩ := h.ranged.mem List.mem_cons_self
    have hrest := h.tail
    rw [chainAtAll, preorderAll, List.filter_append]
    split
    · next hany =>
      obtain ⟨y, hy, hlt⟩ := List.any_eq_true.mp hany
      have hnone : e.preorder.filter (fun x => x.start < offset ∧ offset ≤ x.stop) = [] := by
        refine List.filter_eq_nil_iff.mpr fun x hx hin => ?_
        have hstop := (hrange.within_preorder hbelow hx).2
        have hover := (hfirst y hy).2
        have hle := (of_decide_eq_true hin).2
        have hlt := of_decide_eq_true hlt
        omega
      rw [hnone, chainAtAll_eq_filter rest hrest, List.nil_append]
    · next hany =>
      have hnone : (preorderAll rest).filter (fun x => x.start < offset ∧ offset ≤ x.stop) = [] := by
        refine List.filter_eq_nil_iff.mpr fun x hx hin => hany ?_
        obtain ⟨y, hy, hstart, -⟩ := hrest.within hx
        have hlt := (of_decide_eq_true hin).1
        exact List.any_eq_true.mpr ⟨y, hy, by simp; omega⟩
      rw [hnone, chainAt_eq_filter e hrange hbelow, List.append_nil]
end

end Element

theorem Lineage.tail (h : Lineage es (e :: chain)) : Lineage es chain := by
  cases h with
  | top => exact .nil
  | child hparent => exact hparent

theorem Lineage.of_append {front : List Element} (h : Lineage es (front ++ chain)) :
    Lineage es chain := by
  induction front with
  | nil => exact h
  | cons x front ih => exact ih h.tail

/-- The lookup finds all elements whose range holds the offset, and they are one chain: the first of
them is the one to which all others are ancestors. There is none exactly if no range holds the
offset. -/
theorem parse_chainAt_eq_filter (h : offset ≤ text.size) :
    let d := Document.parse text
    let around := d.elements.filter fun e => e.start < offset ∧ offset ≤ e.stop
    d.chainAt offset = .ok around.reverse ∧ Lineage d.roots around.reverse ∧
      (∀ e above, Lineage d.roots (e :: above) → e ∈ around → e :: above <:+ around.reverse) ∧
      (d.chainAt offset = .ok [] ↔ ∀ e ∈ d.elements, ¬ (e.start < offset ∧ offset ≤ e.stop)) := by
  intro d around
  have hfound : Element.chainAtAll offset [] d.roots = around.reverse := by
    rw [Element.chainAtAll_eq_filter d.roots (parse_forest text), List.append_nil]
    rfl
  have hchain : Lineage d.roots around.reverse := by
    rw [← hfound]
    exact Element.chainAtAll_lineage _ .nil fun _ hc => .top hc
  have hok : d.chainAt offset = .ok around.reverse := by rw [parse_chainAt h, ← hfound]
  refine ⟨hok, hchain, ?_, ?_⟩
  · intro e above habove he
    obtain ⟨front, back, hsplit⟩ := List.append_of_mem (List.mem_reverse.mpr he)
    rw [hsplit] at hchain ⊢
    obtain rfl := hchain.of_append.unique (parse_numbered text) habove
    exact List.suffix_append _ _
  · rw [hok, Except.ok.injEq, List.reverse_eq_nil_iff, List.filter_eq_nil_iff]
    simp

/-- A page with an element that ends together with its last child, before the end of its parent. -/
def cutText : Text :=
  ['<', 'v', 'i', 'e', 'w', '>', '<', 't', 'e', 'x', 't', '>', '<', 'i', 'c', 'o', 'n', '>',
    '<', '/', 'v', 'i', 'e', 'w', '>']

theorem parse_chainAt_cutText :
    18 ≤ cutText.size ∧ ∃ found, (Document.parse cutText).chainAt 18 = .ok found ∧
      found.map (·.id) = [3, 2, 1] ∧ Lineage (Document.parse cutText).roots found := by
  have hsize : 18 ≤ cutText.size := by decide
  obtain ⟨hok, hchain, -⟩ := parse_chainAt_eq_filter hsize
  exact ⟨hsize, _, hok, by decide +kernel, hchain⟩

-- ---------------------------------------------------------------------------
-- The element before an offset
-- ---------------------------------------------------------------------------

/-- The element has ended before the offset, and not together with its last child. -/
def Element.endsAlone (offset : Nat) (e : Element) : Bool :=
  e.stop ≤ offset && e.children.getLast?.all (·.stop ≠ e.stop)

theorem Element.chainBefore_eq (above : List Element) {e : Element} (hlt : e.start < offset) :
    chainBefore offset above e =
      if e.endsAlone offset then e :: above else chainBeforeAll offset (e :: above) e.children := by
  have hiff : e.endsAlone offset = true ↔ ¬ (offset < e.stop ∨ endsWithChild e.stop e.children) := by
    unfold endsAlone endsWithChild
    cases e.children.getLast? <;> simp
  cases e
  rw [chainBefore, if_pos hlt]
  split
  · next hgoes => rw [if_neg fun halone => hiff.mp halone hgoes]
  · next hstops => rw [if_pos (hiff.mpr hstops)]

def upToFirst (p : α → Bool) : List α → List α
  | [] => []
  | a :: rest => if p a then [a] else a :: upToFirst p rest

theorem upToFirst_isPrefix (p : α → Bool) (l : List α) : upToFirst p l <+: l := by
  induction l with
  | nil => exact List.prefix_rfl
  | cons a l ih =>
    rw [upToFirst]
    split
    · exact ⟨l, rfl⟩
    · exact (List.prefix_cons_inj a).mpr ih

theorem getLast?_upToFirst (p : α → Bool) (l : List α) :
    (upToFirst p l).getLast? = (l.find? p).or l.getLast? := by
  induction l with
  | nil => rfl
  | cons a l ih =>
    rw [upToFirst, List.find?_cons]
    split
    · next ha => simp [ha]
    · next ha => simp only [List.getLast?_cons, ih]; cases l <;> simp [ha]

theorem Lineage.of_concat (h : Lineage es (chain ++ [e])) : e ∈ es ∧ Lineage e.children chain := by
  induction chain with
  | nil =>
    cases h with
    | top he => exact ⟨he, .nil⟩
  | cons x chain ih =>
    obtain ⟨he, hchain⟩ := ih h.tail
    refine ⟨he, ?_⟩
    cases chain with
    | nil =>
      cases h with
      | child _ hx => exact .top hx
    | cons y chain =>
      cases h with
      | child _ hx => exact hchain.child hx

namespace Element

mutual
theorem suffix_chainBefore (offset : Nat) (above : List Element) (e : Element) :
    above <:+ chainBefore offset above e := by
  cases e with
  | mk head children =>
    rw [chainBefore]
    split
    · split
      · exact (List.suffix_cons _ _).trans (suffix_chainBeforeAll offset _ children)
      · exact List.suffix_cons _ _
    · exact List.suffix_rfl
theorem suffix_chainBeforeAll (offset : Nat) (above : List Element) (es : List Element) :
    above <:+ chainBeforeAll offset above es := by
  cases es with
  | nil => exact List.suffix_rfl
  | cons e rest =>
    rw [chainBeforeAll]
    split
    · exact suffix_chainBeforeAll offset above rest
    · exact suffix_chainBefore offset above e
end

end Element

theorem Forest.le_start_of_later {front back : List Element} (h : Forest text (front ++ e :: back))
    (hlast : last ∈ e.preorder)
    (hmax : ∀ x ∈ Element.preorderAll (front ++ e :: back), x.start < offset → x.start ≤ last.start) :
    ∀ x ∈ back, offset ≤ x.start := by
  intro x hx
  refine Nat.not_lt.mp fun hlt => ?_
  obtain ⟨hrange, hbelow⟩ := h.ranged.mem (List.mem_append_right front List.mem_cons_self)
  have hover := (List.pairwise_cons.mp (List.pairwise_append.mp h.ordered).2.1).1 x hx
  have hle := hmax x (Element.mem_preorderAll (by simp [hx])) hlt
  have hstop := (hrange.within_preorder hbelow hlast).2
  have hpos : last.start < last.stop := by
    rw [Element.preorder_eq] at hlast
    rcases List.mem_cons.mp hlast with rfl | hlast
    · exact hrange.start_lt_stop
    · exact (hbelow last hlast).start_lt_stop
  omega

/-- The lookup goes down to the last element that starts before the offset, but stops at one that
has ended alone. The induction is on the way down. -/
theorem Forest.chainBeforeAll_eq {down above : List Element} (h : Forest text es)
    (hchain : Lineage es down.reverse) (hlast : down.getLast? = some last) (hlt : last.start < offset)
    (hmax : ∀ x ∈ Element.preorderAll es, x.start < offset → x.start ≤ last.start) :
    Element.chainBeforeAll offset above es =
      (upToFirst (Element.endsAlone offset) down).reverse ++ above := by
  induction down generalizing es above with
  | nil => cases hlast
  | cons e down ih =>
    rw [List.reverse_cons] at hchain
    obtain ⟨he, hbelow⟩ := hchain.of_concat
    obtain ⟨hrange, hranged⟩ := h.ranged.mem he
    have hmem : last ∈ e.preorder := by
      rw [Element.preorder_eq]
      rcases List.mem_cons.mp (List.mem_of_getLast? hlast) with rfl | hmem
      · exact List.mem_cons_self
      · exact List.mem_cons_of_mem _ (hbelow.mem_preorderAll (List.mem_reverse.mpr hmem))
    have hstart := Nat.lt_of_le_of_lt (hrange.within_preorder hranged hmem).1 hlt
    obtain ⟨front, back, rfl⟩ := List.append_of_mem he
    rw [Element.chainBeforeAll_append front hstart (h.le_start_of_later hmem hmax),
      Element.chainBefore_eq above hstart, upToFirst]
    split
    · rfl
    cases down with
    | nil =>
      obtain rfl : e = last := by simpa using hlast
      have hchildren : ∀ c ∈ e.children, offset ≤ c.start := by
        intro c hc
        refine Nat.not_lt.mp fun hclt => ?_
        have hle := hmax c (Element.child_mem_preorderAll _ (Element.mem_preorderAll he) hc) hclt
        have hinside := (hrange.children_inside c hc).1
        omega
      rw [Element.chainBeforeAll_of_le hchildren]
      rfl
    | cons d down =>
      have hlast' : (d :: down).getLast? = some last := by simpa [List.getLast?_cons] using hlast
      rw [ih (h.children he) hbelow hlast' ?_]
      · simp
      · intro x hx hxlt
        refine hmax x ?_ hxlt
        rw [Element.preorderAll_append, Element.preorderAll, Element.preorder_eq]
        simp [hx]

section
variable {text : Text} {offset : Nat} {es : List Element}

theorem Forest.chainBeforeAll_last {last : Element} {above : List Element} (h : Forest text es)
    (hchain : Lineage es (last :: above)) (hlt : last.start < offset)
    (hmax : ∀ x ∈ Element.preorderAll es, x.start < offset → x.start ≤ last.start) :
    Element.chainBeforeAll offset [] es <:+ last :: above ∧
      (Element.chainBeforeAll offset [] es).head? =
        some (((last :: above).reverse.find? (·.endsAlone offset)).getD last) := by
  have heq : Element.chainBeforeAll offset [] es =
      (upToFirst (Element.endsAlone offset) (last :: above).reverse).reverse ++ [] :=
    h.chainBeforeAll_eq (by simpa using hchain) (by simp) hlt hmax
  rw [heq, List.append_nil]
  constructor
  · rw [← List.reverse_prefix, List.reverse_reverse]
    exact upToFirst_isPrefix _ _
  · rw [List.head?_reverse, getLast?_upToFirst]
    cases (last :: above).reverse.find? (·.endsAlone offset) <;> simp

/-- What the first lookup finds is on the way of the second one. -/
theorem Forest.chainAtAll_suffix (h : Forest text es) (offset : Nat) :
    Element.chainAtAll offset [] es <:+ Element.chainBeforeAll offset [] es := by
  have hchain : Lineage es (Element.chainAtAll offset [] es) :=
    Element.chainAtAll_lineage es .nil fun _ hc => .top hc
  have haround : Element.chainAtAll offset [] es = _ ++ [] := Element.chainAtAll_eq_filter es h
  generalize Element.chainAtAll offset [] es = found at hchain haround
  cases found with
  | nil => exact List.nil_suffix
  | cons e above =>
    have he : e ∈ e :: above := List.mem_cons_self
    rw [haround] at he
    obtain ⟨-, hstart, hstop⟩ : e ∈ Element.preorderAll es ∧ e.start < offset ∧ offset ≤ e.stop := by
      simpa using he
    rw [h.chainBeforeAll_descends hchain ⟨hstart, hstop⟩]
    split
    · exact Element.suffix_chainBeforeAll offset _ _
    · exact List.suffix_rfl

end

theorem exists_last_started (h : ∃ e ∈ (Document.parse text).elements, e.start < offset) :
    ∃ last ∈ (Document.parse text).elements, last.start < offset ∧
      ∀ e ∈ (Document.parse text).elements, e.start < offset → e.start ≤ last.start := by
  obtain ⟨e, he, hlt⟩ := h
  have hordered := (elements_pairwise_start text).filter (·.start < offset)
  have hmem (x : Element) : x ∈ (Document.parse text).elements.filter (·.start < offset) ↔
      x ∈ (Document.parse text).elements ∧ x.start < offset := by simp
  generalize (Document.parse text).elements.filter (·.start < offset) = started at hordered hmem
  rcases List.eq_nil_or_concat started with rfl | ⟨init, last, rfl⟩
  · cases (hmem e).mpr ⟨he, hlt⟩
  · rw [List.concat_eq_append] at hordered hmem
    obtain ⟨hlast, hstarts⟩ := (hmem last).mp (by simp)
    refine ⟨last, hlast, hstarts, fun x hx hxlt => ?_⟩
    rcases List.mem_append.mp ((hmem x).mpr ⟨hx, hxlt⟩) with hinit | hx
    · exact Nat.le_of_lt ((List.pairwise_append.mp hordered).2.2 x hinit last (by simp))
    · exact List.mem_singleton.mp hx ▸ Nat.le_refl _

/-- The second lookup finds nothing exactly if no element starts before the offset. Otherwise it
finds, on the way down to the last element that does, the first one that has ended alone, or else that
last element. This is never outside of what the first lookup finds, and is the same if that is the
last element itself, or a leaf that reaches beyond the offset. -/
theorem parse_chainBefore_stops (h : offset ≤ text.size) :
    let d := Document.parse text
    ∃ found before, d.chainAt offset = .ok found ∧ d.chainBefore offset = .ok before ∧
      (before = [] ↔ ∀ e ∈ d.elements, offset ≤ e.start) ∧
      (∀ last above, Lineage d.roots (last :: above) → last.start < offset →
        (∀ e ∈ d.elements, e.start < offset → e.start ≤ last.start) →
        before <:+ last :: above ∧
          before.head? = some (((last :: above).reverse.find? (·.endsAlone offset)).getD last) ∧
          (found.head? = some last → found = before)) ∧
      Lineage d.roots before ∧ found <:+ before ∧
      ∀ leaf ∈ d.elements, leaf.children = [] → leaf.start < offset → offset < leaf.stop →
        found = before ∧ found.head? = some leaf := by
  intro d
  have hforest : Forest text d.roots := parse_forest text
  have hfound : Lineage d.roots (Element.chainAtAll offset [] d.roots) :=
    Element.chainAtAll_lineage d.roots .nil fun _ hc => .top hc
  refine ⟨_, _, parse_chainAt h, parse_chainBefore h, ⟨?_, ?_⟩, ?_, ?_,
    hforest.chainAtAll_suffix offset, ?_⟩
  · intro hnil e he
    refine Nat.not_lt.mp fun hlt => ?_
    obtain ⟨last, hlast, hlt, hmax⟩ := exists_last_started ⟨e, he, hlt⟩
    obtain ⟨above, hchain⟩ := Element.exists_lineage hlast
    have hhead := (hforest.chainBeforeAll_last hchain hlt hmax).2
    rw [hnil] at hhead
    cases hhead
  · intro hall
    exact Element.chainBeforeAll_of_le fun e he => hall e (Element.mem_preorderAll he)
  · intro last above hchain hlt hmax
    obtain ⟨hsuffix, hhead⟩ := hforest.chainBeforeAll_last hchain hlt hmax
    refine ⟨hsuffix, hhead, fun hlast => ?_⟩
    -- The way down to an element that the first lookup finds is the chain that it finds.
    have hbelow := hforest.chainAtAll_suffix offset
    obtain ⟨above', hcons⟩ := List.head?_eq_some_iff.mp hlast
    rw [hcons] at hfound hbelow ⊢
    obtain rfl := hfound.unique (parse_numbered text) hchain
    exact hbelow.eq_of_length_le hsuffix.length_le
  · exact Element.chainBeforeAll_lineage d.roots .nil fun _ hc => .top hc
  · intro leaf hleaf hnone hlt hstop
    obtain ⟨above, hchain⟩ := Element.exists_lineage hleaf
    obtain ⟨hat, hbefore⟩ := hforest.chain_eq hchain ⟨hlt, Nat.le_of_lt hstop⟩ (by simp [hnone])
    exact ⟨hat.trans hbefore.symm, by rw [hat]; rfl⟩

theorem parse_chainBefore_cutText :
    20 ≤ cutText.size ∧ ∃ found before, (Document.parse cutText).chainAt 20 = .ok found ∧
      (Document.parse cutText).chainBefore 20 = .ok before ∧ found.map (·.id) = [1] ∧
      before.map (·.id) = [3, 2, 1] ∧ found <:+ before := by
  have hsize : 20 ≤ cutText.size := by decide
  have hat : ((Document.parse cutText).chainAt 20).toOption.map (·.map (·.id)) = some [1] := by
    decide +kernel
  have hbefore : ((Document.parse cutText).chainBefore 20).toOption.map (·.map (·.id)) =
      some [3, 2, 1] := by decide +kernel
  obtain ⟨found, before, hfound, hstops, -, -, -, hsuffix, -⟩ := parse_chainBefore_stops hsize
  rw [hfound] at hat
  rw [hstops] at hbefore
  exact ⟨hsize, found, before, hfound, hstops, Option.some.inj hat, Option.some.inj hbefore, hsuffix⟩

end PageMarkup
