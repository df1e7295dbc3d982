import PageMarkup.Proofs.DraftLaws
import PageMarkup.Proofs.Reading

/-!
# Ranges of elements

Whatever the text, the elements of a parsed document nest: an element begins with `<` and lies in
its parent, siblings follow one another without overlap, an end tag comes after everything inside
the element, and the attributes come before it. The proof carries an invariant of the draft through
the tokens; which form it has depends on whether the text is between tags, inside a start tag or
inside an end tag.
-/

namespace PageMarkup

open ScanState (Reads ReadsInTag)

abbrev Element.Precedes (c d : Element) : Prop :=
  c.start < d.start ∧ c.stop ≤ d.start

/-- An element from `start` to `stop` has its parts inside it and in order. -/
structure Ranged (text : Text) (start stop : Nat) (endTag : Option Nat)
    (attributes : List Attribute) (children : List Element) : Prop where
  opens : TokenAt text .tagOpen start
  start_lt_stop : start < stop
  stop_le_size : stop ≤ text.size
  children_inside : ∀ c ∈ children, start < c.start ∧ c.stop ≤ stop
  children_ordered : children.Pairwise Element.Precedes
  endTag_last : ∀ t, endTag = some t → TokenAt text .endTagOpen t ∧ start < t ∧ t + 2 ≤ stop ∧
    ∀ c ∈ children, c.stop ≤ t
  attributes_inside : ∀ a ∈ attributes, start < a.offset ∧ a.offset < a.stop ∧ a.stop ≤ stop
  attributes_ordered : attributes.Pairwise fun a b => a.stop < b.offset
  attributes_first : ∀ a ∈ attributes, ∀ c ∈ children, a.stop < c.start

abbrev Element.Ranged (text : Text) (e : Element) : Prop :=
  PageMarkup.Ranged text e.start e.stop e.endTagStart e.attributes e.children

def AllRanged (text : Text) (es : List Element) : Prop :=
  ∀ e ∈ Element.preorderAll es, e.Ranged text

theorem AllRanged.mem (h : AllRanged text es) (he : e ∈ es) :
    e.Ranged text ∧ AllRanged text e.children := by
  obtain ⟨front, back, rfl⟩ := List.append_of_mem he
  rw [AllRanged, Element.preorderAll_append, Element.preorderAll, Element.preorder_eq] at h
  refine ⟨h e (by simp), fun x hx => h x (by simp [hx])⟩

theorem AllRanged.push (hs : AllRanged text es) (he : e.Ranged text) (hc : AllRanged text e.children) :
    AllRanged text (es ++ [e]) := by
  intro x hx
  rw [Element.preorderAll_append, Element.preorderAll_singleton] at hx
  rcases List.mem_append.mp hx with hx | hx
  · exact hs x hx
  · rcases List.mem_cons.mp hx with rfl | hx
    · exact he
    · exact hc x hx

theorem AllRanged.of_append (h : AllRanged text (es ++ fs)) : AllRanged text es := by
  intro x hx
  exact h x (by rw [Element.preorderAll_append]; exact List.mem_append_left _ hx)

theorem Ranged.mono (h : Ranged text start stop endTag attributes children) (hle : stop ≤ stop')
    (hsize : stop' ≤ text.size) : Ranged text start stop' endTag attributes children where
  opens := h.opens
  start_lt_stop := Nat.lt_of_lt_of_le h.start_lt_stop hle
  stop_le_size := hsize
  children_inside c hc := ⟨(h.children_inside c hc).1, Nat.le_trans (h.children_inside c hc).2 hle⟩
  children_ordered := h.children_ordered
  endTag_last t ht := by
    obtain ⟨hat, hlt, hstop, hc⟩ := h.endTag_last t ht
    exact ⟨hat, hlt, Nat.le_trans hstop hle, hc⟩
  attributes_inside a ha := by
    obtain ⟨hstart, hname, hstop⟩ := h.attributes_inside a ha
    exact ⟨hstart, hname, Nat.le_trans hstop hle⟩
  attributes_ordered := h.attributes_ordered
  attributes_first := h.attributes_first

-- ---------------------------------------------------------------------------
-- Open elements
-- ---------------------------------------------------------------------------

/-- An element that is being read and those around it, all of whose parts end before `bound` and
leave room for another child there. -/
inductive Open (text : Text) : Nat → Element → List Element → Prop
  | root (start : e.start = 0) (stop : e.stop = text.size) (endTag : e.endTagStart = none)
      (attributes : e.attributes = []) (bound_le : bound ≤ text.size)
      (children : ∀ c ∈ e.children, c.stop ≤ bound)
      (ordered : e.children.Pairwise Element.Precedes)
      (below : AllRanged text e.children) : Open text bound e []
  | inside (range : Ranged text e.start bound none e.attributes e.children)
      (below : AllRanged text e.children) (endTag : e.endTagStart = none)
      (attributes : ∀ a ∈ e.attributes, a.stop < bound)
      (around : Open text e.start parent above) : Open text bound e (parent :: above)

inductive Endable (text : Text) (bound : Nat) : Element → List Element → Prop
  | root : Open text bound e [] → Endable text bound e []
  | inside (range : Ranged text e.start bound e.endTagStart e.attributes e.children)
      (below : AllRanged text e.children) (around : Open text e.start parent above) :
      Endable text bound e (parent :: above)

theorem Open.mono (h : Open text bound e above) (hle : bound ≤ bound') (hsize : bound' ≤ text.size) :
    Open text bound' e above := by
  cases h with
  | root start stop endTag attributes bound_le children ordered below =>
    exact .root start stop endTag attributes hsize
      (fun c hc => Nat.le_trans (children c hc) hle) ordered below
  | inside range below endTag attributes around =>
    exact .inside (range.mono hle hsize) below endTag
      (fun a ha => Nat.lt_of_lt_of_le (attributes a ha) hle) around

theorem Open.endable (h : Open text bound e above) : Endable text bound e above := by
  cases h with
  | root start stop endTag attributes bound_le children ordered below =>
    exact .root (.root start stop endTag attributes bound_le children ordered below)
  | inside range below endTag attributes around =>
    exact .inside (endTag.symm ▸ range) below around

theorem Endable.mono (h : Endable text bound e above) (hle : bound ≤ bound')
    (hsize : bound' ≤ text.size) : Endable text bound' e above := by
  cases h with
  | root h => exact .root (h.mono hle hsize)
  | inside range below around => exact .inside (range.mono hle hsize) below around

theorem Open.setText (h : Open text bound e above) (runs : List String) :
    Open text bound { e with text := runs } above := by
  cases h with
  | root start stop endTag attributes bound_le children ordered below =>
    exact .root start stop endTag attributes bound_le children ordered below
  | inside range below endTag attributes around => exact .inside range below endTag attributes around

theorem precedes_push (ordered : es.Pairwise Element.Precedes) (below : AllRanged text es)
    (hstop : ∀ c ∈ es, c.stop ≤ e.start) : (es ++ [e]).Pairwise Element.Precedes := by
  refine List.pairwise_append.mpr ⟨ordered, List.pairwise_singleton _ _, ?_⟩
  intro c hc d hd
  cases List.mem_singleton.mp hd
  exact ⟨Nat.lt_of_lt_of_le (below.mem hc).1.start_lt_stop (hstop c hc), hstop c hc⟩

theorem Open.push {child : Element} (h : Open text child.start parent above)
    (hchild : child.Ranged text) (hbelow : AllRanged text child.children)
    (hle : child.stop ≤ bound) (hsize : bound ≤ text.size) :
    Open text bound (parent.push child) above := by
  have hlt : child.start < bound := Nat.lt_of_lt_of_le hchild.start_lt_stop hle
  cases h with
  | root start stop endTag attributes bound_le children ordered below =>
    refine .root start stop endTag attributes hsize ?_ (precedes_push ordered below children)
      (below.push hchild hbelow)
    intro c hc
    rcases List.mem_append.mp hc with hc | hc
    · exact Nat.le_trans (children c hc) (Nat.le_of_lt hlt)
    · cases List.mem_singleton.mp hc
      exact hle
  | inside range below endTag attributes around =>
    have hinside := range.mono (Nat.le_of_lt hlt) hsize
    have hordered := precedes_push range.children_ordered below fun c hc =>
      (range.children_inside c hc).2
    refine .inside ?_ (below.push hchild hbelow) endTag
      (fun a ha => Nat.lt_trans (attributes a ha) hlt) around
    refine { hinside with
      children_inside := ?_, children_ordered := hordered, endTag_last := nofun,
      attributes_first := ?_ }
    · intro c hc
      rcases List.mem_append.mp hc with hc | hc
      · exact hinside.children_inside c hc
      · cases List.mem_singleton.mp hc
        exact ⟨range.start_lt_stop, hle⟩
    · intro a ha c hc
      rcases List.mem_append.mp hc with hc | hc
      · exact range.attributes_first a ha c hc
      · cases List.mem_singleton.mp hc
        exact attributes a ha

/-- The last child can be taken out again; what is left leaves room for it. -/
theorem Open.pop (h : Open text bound e above) (he : e.children = init ++ [child]) :
    Open text child.start { e with children := init } above ∧ child.Ranged text ∧
      AllRanged text child.children ∧ child.stop ≤ bound := by
  have hmem : child ∈ e.children := by simp [he]
  have hsplit (ordered : e.children.Pairwise Element.Precedes) :
      init.Pairwise Element.Precedes ∧ ∀ c ∈ init, c.stop ≤ child.start := by
    rw [he] at ordered
    obtain ⟨hinit, -, hlast⟩ := List.pairwise_append.mp ordered
    exact ⟨hinit, fun c hc => (hlast c hc child List.mem_cons_self).2⟩
  cases h with
  | root start stop endTag attributes bound_le children ordered below =>
    obtain ⟨hchild, hbelow⟩ := below.mem hmem
    obtain ⟨hinit, hlast⟩ := hsplit ordered
    have hle := Nat.le_trans (Nat.le_of_lt hchild.start_lt_stop) hchild.stop_le_size
    rw [he] at below
    exact ⟨.root start stop endTag attributes hle hlast hinit below.of_append, hchild, hbelow,
      children child hmem⟩
  | inside range below endTag attributes around =>
    obtain ⟨hchild, hbelow⟩ := below.mem hmem
    obtain ⟨hinit, hlast⟩ := hsplit range.children_ordered
    have hle := Nat.le_trans (Nat.le_of_lt hchild.start_lt_stop) hchild.stop_le_size
    have hfirst (a) (ha : a ∈ e.attributes) := range.attributes_first a ha child hmem
    have hin (c) (hc : c ∈ init) : c ∈ e.children := he ▸ List.mem_append_left _ hc
    rw [he] at below
    refine ⟨.inside ?_ below.of_append endTag hfirst around, hchild, hbelow,
      (range.children_inside child hmem).2⟩
    exact {
      opens := range.opens
      start_lt_stop := (range.children_inside child hmem).1
      stop_le_size := hle
      children_inside := fun c hc => ⟨(range.children_inside c (hin c hc)).1, hlast c hc⟩
      children_ordered := hinit
      endTag_last := nofun
      attributes_inside := fun a ha => by
        obtain ⟨hstart, hname, -⟩ := range.attributes_inside a ha
        exact ⟨hstart, hname, Nat.le_of_lt (hfirst a ha)⟩
      attributes_ordered := range.attributes_ordered
      attributes_first := fun a ha c hc => range.attributes_first a ha c (hin c hc) }

-- ---------------------------------------------------------------------------
-- Ending elements
-- ---------------------------------------------------------------------------

theorem Endable.leave (h : Endable text bound e (parent :: above)) (closed : Bool) :
    Open text bound (parent.push { e with stop := bound, closed }) above := by
  cases h with
  | inside range below around =>
    have hchild : Element.Ranged text { e with stop := bound, closed } := range
    exact Open.push around hchild below (Nat.le_refl bound) range.stop_le_size

theorem Endable.draft_leave {d : Draft} (h : Endable text bound d.current d.above)
    (hf : f d.current = { d.current with stop := bound, closed }) :
    Open text bound (d.leave f).current (d.leave f).above := by
  unfold Draft.leave
  split
  · next habove =>
    rw [habove] at h ⊢
    cases h with
    | root h => exact h
  · next parent above habove =>
    rw [habove] at h
    rw [hf]
    exact h.leave closed

theorem Open.closeUpTo (h : Open text bound e above) (name : String) :
    Open text bound (closeUpTo name bound e above).1 (closeUpTo name bound e above).2 := by
  fun_induction PageMarkup.closeUpTo name bound e above with
  | case1 => exact h
  | case2 => exact h
  | case3 e parent above _ ih => exact ih (h.endable.leave false)

theorem Endable.closeAll (h : Endable text bound e above) :
    Open text bound (closeAll bound e above) [] := by
  fun_induction PageMarkup.closeAll bound e above with
  | case1 =>
    cases h with
    | root h => exact h
  | case2 e parent above ih => exact ih (h.leave false).endable

-- ---------------------------------------------------------------------------
-- Inside a start tag
-- ---------------------------------------------------------------------------

/-- The element whose start tag is being read. If a blank has just been seen, another attribute may
begin at `bound`. -/
inductive InTag (text : Text) (bound : Nat) (afterBlank : Bool) : Element → List Element → Prop
  | mk (range : Ranged text e.start bound none e.attributes e.children)
      (children : e.children = []) (endTag : e.endTagStart = none)
      (attributes : afterBlank = true → ∀ a ∈ e.attributes, a.stop < bound)
      (around : Open text e.start parent above) : InTag text bound afterBlank e (parent :: above)

theorem InTag.advance (h : InTag text bound afterBlank e above) (hlt : bound < bound')
    (hsize : bound' ≤ text.size) (afterBlank' : Bool) : InTag text bound' afterBlank' e above := by
  cases h with
  | mk range children endTag attributes around =>
    refine .mk (range.mono (Nat.le_of_lt hlt) hsize) children endTag ?_ around
    intro _ a ha
    exact Nat.lt_of_le_of_lt (range.attributes_inside a ha).2.2 hlt

theorem InTag.endable (h : InTag text bound afterBlank e above) : Endable text bound e above := by
  cases h with
  | mk range children endTag attributes around =>
    exact .inside (endTag.symm ▸ range) (by rw [children]; exact List.forall_mem_nil _) around

theorem InTag.isOpen (h : InTag text bound afterBlank e above) (hlt : bound < bound')
    (hsize : bound' ≤ text.size) (stop : Nat) : Open text bound' { e with stop } above := by
  cases h.advance hlt hsize true with
  | mk range children endTag attributes around =>
    exact .inside range (by rw [children]; exact List.forall_mem_nil _) endTag (attributes rfl) around

theorem InTag.setTag (h : InTag text bound afterBlank e above) (tag : Option String) :
    InTag text bound afterBlank { e with tag } above := by
  cases h with
  | mk range children endTag attributes around => exact .mk range children endTag attributes around

theorem Open.openElement (h : Open text bound e above) (hopen : TokenAt text .tagOpen bound)
    (hlt : bound < bound') (hsize : bound' ≤ text.size) :
    InTag text bound' false { id := number, start := bound, stop } (e :: above) := by
  refine .mk ?_ rfl rfl nofun h
  exact {
    opens := hopen
    start_lt_stop := hlt
    stop_le_size := hsize
    children_inside := List.forall_mem_nil _
    children_ordered := .nil
    endTag_last := nofun
    attributes_inside := List.forall_mem_nil _
    attributes_ordered := .nil
    attributes_first := List.forall_mem_nil _ }

theorem InTag.addAttribute (h : InTag text bound true e above) (hlt : bound < stop)
    (hstop : stop = bound + Text.size name) (hsize : stop ≤ text.size) :
    InTag text stop false { e with attributes := e.attributes ++
      [{ name := String.ofList name, offset := bound }] } above := by
  cases h with
  | mk range children endTag attributes around =>
    have hinside := range.mono (Nat.le_of_lt hlt) hsize
    have hend : Attribute.stop { name := String.ofList name, offset := bound } = stop := by
      rw [Attribute.stop, String.toList_ofList, hstop]
    refine .mk ?_ children endTag nofun around
    refine { hinside with attributes_inside := ?_, attributes_ordered := ?_, attributes_first := ?_ }
    · intro a ha
      rcases List.mem_append.mp ha with ha | ha
      · exact hinside.attributes_inside a ha
      · cases List.mem_singleton.mp ha
        rw [hend]
        exact ⟨range.start_lt_stop, hlt, Nat.le_refl stop⟩
    · refine List.pairwise_append.mpr ⟨range.attributes_ordered, List.pairwise_singleton _ _, ?_⟩
      intro a ha b hb
      cases List.mem_singleton.mp hb
      exact attributes rfl a ha
    · rw [children]
      exact fun _ _ => List.forall_mem_nil _

def Attribute.span (a : Attribute) : Nat × Nat :=
  (a.offset, a.stop)

theorem Ranged.of_spans (h : Ranged text start stop endTag attributes children)
    (hspans : attributes'.map Attribute.span = attributes.map Attribute.span) :
    Ranged text start stop endTag attributes' children := by
  have hmem (a) (ha : a ∈ attributes') : ∃ b ∈ attributes, b.offset = a.offset ∧ b.stop = a.stop := by
    have hspan : a.span ∈ attributes.map Attribute.span := hspans ▸ List.mem_map_of_mem ha
    obtain ⟨b, hb, heq⟩ := List.mem_map.mp hspan
    exact ⟨b, hb, congrArg Prod.fst heq, congrArg Prod.snd heq⟩
  refine { h with attributes_inside := ?_, attributes_ordered := ?_, attributes_first := ?_ }
  · intro a ha
    obtain ⟨b, hb, hoffset, hstop⟩ := hmem a ha
    rw [← hoffset, ← hstop]
    exact h.attributes_inside b hb
  · have hordered : (attributes.map Attribute.span).Pairwise fun s t => s.2 < t.1 :=
      List.pairwise_map.mpr h.attributes_ordered
    rw [← hspans] at hordered
    exact List.pairwise_map.mp hordered
  · intro a ha
    obtain ⟨b, hb, -, hstop⟩ := hmem a ha
    rw [← hstop]
    exact h.attributes_first b hb

theorem InTag.setLastValue (h : InTag text bound afterBlank e above) (value : String)
    (hlt : bound < bound') (hsize : bound' ≤ text.size) :
    InTag text bound' false { e with attributes := setLastValue value e.attributes } above := by
  cases h.advance hlt hsize false with
  | mk range children endTag attributes around =>
    refine .mk (range.of_spans ?_) children endTag nofun around
    exact map_setLastValue Attribute.span (fun _ _ => rfl) value e.attributes

-- ---------------------------------------------------------------------------
-- End tags
-- ---------------------------------------------------------------------------

/-- An end tag belongs to the element if it begins after everything inside. -/
theorem Ranged.giveEndTag (h : Ranged text start stop endTag attributes children) (hle : stop ≤ t)
    (hat : TokenAt text .endTagOpen t) (hlt : t + 2 ≤ bound) (hsize : bound ≤ text.size) :
    Ranged text start bound (some t) attributes children := by
  refine { h.mono (by omega) hsize with endTag_last := ?_ }
  rintro _ ⟨rfl⟩
  exact ⟨hat, Nat.lt_of_lt_of_le h.start_lt_stop hle, hlt,
    fun c hc => Nat.le_trans (h.children_inside c hc).2 hle⟩

theorem Draft.voidBefore?_eq_some {d : Draft} (h : d.voidBefore? text name t = some child) :
    d.current.children = d.current.children.dropLast ++ [child] := by
  unfold voidBefore? at h
  split at h
  · cases h
  · obtain ⟨hlast, -⟩ := Option.filter_eq_some_iff.mp h
    obtain ⟨init, hinit⟩ := List.getLast?_eq_some_iff.mp hlast
    rw [hinit, List.dropLast_concat]

theorem Open.nameEndTag {d : Draft} (h : Open text t d.current d.above) (hopen : d.endTagOpen = some t)
    (hat : TokenAt text .endTagOpen t) (hlt : t + 2 ≤ bound) (hsize : bound ≤ text.size) :
    Endable text bound (d.nameEndTag text lexeme start stop).current
      (d.nameEndTag text lexeme start stop).above := by
  unfold Draft.nameEndTag
  simp only [hopen, Option.getD_some]
  split
  · next child hvoid =>
    obtain ⟨haround, hchild, hbelow, hle⟩ := h.pop (Draft.voidBefore?_eq_some hvoid)
    exact .inside (hchild.giveEndTag hle hat hlt hsize) hbelow haround
  · have hclosed := h.closeUpTo (String.ofList lexeme).toLower
    generalize PageMarkup.closeUpTo _ t d.current d.above = r at hclosed
    obtain ⟨current, above⟩ := r
    simp only [(Draft.settle_sameTree _ _ _ _).current, (Draft.settle_sameTree _ _ _ _).above]
    cases hclosed with
    | root start stop endTag attributes bound_le children ordered below =>
      have hroot : Open text t current [] :=
        .root start stop endTag attributes bound_le children ordered below
      exact .root (hroot.mono (by omega) hsize)
    | inside range below endTag attributes around =>
      exact .inside (range.giveEndTag (Nat.le_refl t) hat hlt hsize) below around

-- ---------------------------------------------------------------------------
-- Every token keeps the order
-- ---------------------------------------------------------------------------

/-- The invariant of a draft that has been read up to `bound`. -/
def InOrder (text : Text) (bound : Nat) (state : ScanState) (d : Draft) : Prop :=
  match state with
  | .content | .doctype | .comment | .scriptBody | .styleBody => Open text bound d.current d.above
  | .afterTagOpen | .beforeAttributeValue _ => InTag text bound false d.current d.above
  | .tag context | .afterAttributeName context =>
    InTag text bound context.afterBlank d.current d.above
  | .afterEndTagOpen => ∃ t, d.endTagOpen = some t ∧ TokenAt text .endTagOpen t ∧ t + 2 ≤ bound ∧
      bound ≤ text.size ∧ Open text t d.current d.above
  | .endTag => Endable text bound d.current d.above

theorem InOrder.sameTree {d d' : Draft} (h : InOrder text bound state d) (hd : d'.SameTree d) :
    InOrder text bound state d' := by
  cases state <;> simpa only [InOrder, hd.current, hd.above, hd.endTagOpen] using h

theorem InOrder.endable (h : InOrder text bound state d) : Endable text bound d.current d.above := by
  cases state with
  | content | doctype | comment | scriptBody | styleBody => exact Open.endable h
  | afterTagOpen | beforeAttributeValue | tag | afterAttributeName => exact InTag.endable h
  | endTag => exact h
  | afterEndTagOpen =>
    obtain ⟨t, -, -, hlt, hsize, h⟩ := h
    exact h.endable.mono (by omega) hsize

theorem inOrder_bodyState (h : Open text bound d.current d.above) (raw : RawText) :
    InOrder text bound (Token.bodyState raw) d := by
  cases raw <;> exact h

theorem InOrder.acceptInTag {d : Draft} (hreads : ReadsInTag context p.kind p.state)
    (h : InTag text p.offset context.afterBlank d.current d.above) (hp : p ∈ tokens text) :
    InOrder text p.stop p.state (d.accept text p) := by
  have hlt : p.offset < p.stop := Nat.lt_add_of_pos_right (size_pos_of_mem_tokens hp)
  have hsize := stop_le_of_mem_tokens hp
  have hnote := d.note_sameTree p
  rw [← hnote.current, ← hnote.above] at h
  have hend := h.endable.mono (Nat.le_of_lt hlt) hsize
  unfold Draft.accept
  generalize d.note p = d at h hend ⊢
  generalize p.kind = kind at hreads ⊢
  generalize p.state = after at hreads ⊢
  cases hreads with
  | blank => exact h.advance hlt hsize true
  | attributeName hblank =>
    rw [hblank] at h
    refine InOrder.sameTree ?_ (d.addAttribute_sameTree p.lexeme p.offset p.stop)
    exact h.addAttribute hlt rfl hsize
  | selfClose => exact hend.draft_leave rfl
  | close =>
    apply inOrder_bodyState
    simp only [Draft.closeStartTag]
    split
    · exact hend.draft_leave rfl
    · exact h.isOpen hlt hsize p.stop
  | unexpected => exact h.advance hlt hsize context.afterBlank

theorem Open.addText {d : Draft} (h : Open text bound d.current d.above) (content : Text) :
    Open text bound (d.addText content).current (d.addText content).above := by
  rcases d.addText_cases content with heq | ⟨runs, heq⟩ <;> rw [heq]
  · exact h
  · exact h.setText runs

/-- The order is kept by every token that can follow. -/
theorem InOrder.accept (h : InOrder text p.offset state d) (hp : p ∈ tokens text)
    (hreads : Reads state p.kind p.state) : InOrder text p.stop p.state (d.accept text p) := by
  have hlt : p.offset < p.stop := Nat.lt_add_of_pos_right (size_pos_of_mem_tokens hp)
  have hle := Nat.le_of_lt hlt
  have hsize := stop_le_of_mem_tokens hp
  -- A fault of the token only adds a problem, so the invariant holds of the draft that has noted it.
  have hnote := h.sameTree (d.note_sameTree p)
  have hend := hnote.endable.mono hle hsize
  have hat : TokenAt text p.kind p.offset := ⟨p, hp, rfl, rfl⟩
  generalize hkind : p.kind = kind at hreads hat
  generalize hstate : p.state = after at hreads ⊢
  cases hreads with
  | nameless hin | tag hin | valueless hin | missingValue _ hin =>
    subst hkind hstate
    exact InOrder.acceptInTag hin h hp
  | commentOpen | doctypeOpen | comment | commentClose | doctype | doctypeClose | script
  | scriptToEnd =>
    simp only [Draft.accept, hkind]
    exact Open.mono hnote hle hsize
  | content | style | styleToEnd =>
    simp only [Draft.accept, hkind]
    exact Open.addText (Open.mono hnote hle hsize) p.lexeme
  | tagOpen =>
    simp only [Draft.accept, hkind]
    exact Open.openElement hnote hat hlt hsize
  | endTagOpen | scriptEnd | styleEnd =>
    have hstop : p.stop = p.offset + 2 := stop_of_bracket (w := ['<', '/']) hp (by rw [hkind]; rfl)
    simp only [Draft.accept, hkind]
    exact ⟨p.offset, rfl, hat, Nat.le_of_eq hstop.symm, hsize, hnote⟩
  | tagName context =>
    simp only [Draft.accept, hkind]
    refine InOrder.sameTree ?_ (Draft.nameElement_sameTree _ p.lexeme p.offset p.stop)
    exact InTag.setTag (InTag.advance hnote hlt hsize context.afterBlank) _
  | blankBeforeName | blankAfterName | assign | blankBeforeValue =>
    simp only [Draft.accept, hkind]
    exact InTag.advance hnote hlt hsize _
  | value =>
    simp only [Draft.accept, hkind]
    refine InOrder.sameTree ?_ (Draft.addValue_sameTree _ p.lexeme p.offset p.stop)
    exact InTag.setLastValue hnote _ hlt hsize
  | endTagName =>
    obtain ⟨t, hopen, htag, hbefore, -, h⟩ := hnote
    simp only [Draft.accept, hkind]
    exact h.nameEndTag hopen htag (Nat.le_trans hbefore hle) hsize
  | blankBeforeEndName =>
    obtain ⟨t, hopen, htag, hbefore, -, h⟩ := hnote
    simp only [Draft.accept, hkind]
    exact ⟨t, hopen, htag, Nat.le_trans hbefore hle, hsize, h⟩
  | blankInEndTag | unknownInEndTag | unknownEndName =>
    simp only [Draft.accept, hkind]
    exact hend
  | endTagClose | namelessClose =>
    simp only [Draft.accept, hkind]
    exact hend.draft_leave rfl

-- ---------------------------------------------------------------------------
-- Parsed documents
-- ---------------------------------------------------------------------------

theorem parse_root_isOpen (text : Text) : Open text text.size (Document.parse text).root [] := by
  have hstart : InOrder text 0 .content (Draft.empty text) :=
    .root rfl rfl rfl rfl (Nat.zero_le _) (List.forall_mem_nil _) .nil (List.forall_mem_nil _)
  have hall := Draft.reading_all (fun p state d hp hreads h => InOrder.accept h hp hreads) hstart
  exact hall.endable.closeAll

theorem parse_allRanged (text : Text) : AllRanged text (Document.parse text).roots := by
  cases parse_root_isOpen text with
  | root start stop endTag attributes bound_le children ordered below => exact below

/-- An element in order, whose tags are where it says. -/
structure Element.InRange (text : Text) (e : Element) : Prop extends
    PageMarkup.Ranged text e.start e.stop e.endTagStart e.attributes e.children where
  startTag : ∃ rest, text.suffixAt? e.start = some ('<' :: rest)
  endTag : ∀ t, e.endTagStart = some t → ∃ rest, text.suffixAt? t = some ('<' :: '/' :: rest)

theorem TokenAt.suffixAt? (h : TokenAt text kind offset) (hw : kind.bracket? = some w) :
    ∃ rest, text.suffixAt? offset = some (w ++ rest) := by
  obtain ⟨_, rest, hrest, -⟩ := h.rescan hw
  exact ⟨rest, hrest⟩

theorem parse_inRange (text : Text) :
    let root := (Document.parse text).root
    root.start = 0 ∧ root.stop = text.size ∧ root.endTagStart = none ∧ root.attributes = [] ∧
      (∀ c ∈ root.children, c.stop ≤ root.stop) ∧ root.children.Pairwise Element.Precedes ∧
      ∀ e ∈ (Document.parse text).elements, e.InRange text := by
  have hall := parse_allRanged text
  cases parse_root_isOpen text with
  | root start stop endTag attributes bound_le children ordered below =>
    refine ⟨start, stop, endTag, attributes, fun c hc => stop ▸ children c hc, ordered, ?_⟩
    intro e he
    refine { hall e he with
      startTag := (hall e he).opens.suffixAt? rfl
      endTag := fun t ht => ((hall e he).endTag_last t ht).1.suffixAt? rfl }

end PageMarkup
