import PageMarkup.Proofs.DraftLaws
import PageMarkup.Proofs.Lexemes
import PageMarkup.Proofs.ScanLaws

/-!
# Reading back what was written

Reading the text of well-formed markup gives its outline and no problem (`parse_render`). Each piece
of markup is read on its own, whatever follows it: it leaves the open elements and the open tags as
they were and only adds to the current element.
-/

namespace PageMarkup

open Markup
open Token (next AfterPart bodyState isAttributeNameChar isNameChar)

def Element.extend (e : Element) (text : List String) (children : List Element) : Element :=
  { e with text := e.text ++ text, children := e.children ++ children }

namespace Draft

def read (text : Text) (d : Draft) (state : ScanState) (offset : Nat) (cs : Text) : Draft :=
  (scan state offset cs).foldl (accept text) d

theorem read_next {d : Draft} {after : ScanState}
    (h : next state c cs = ⟨⟨kind, lexeme, none⟩, after, rest⟩) :
    d.read text state offset (c :: cs) =
      (d.accept text ⟨⟨kind, lexeme, none⟩, offset, after⟩).read text after
        (offset + Text.size lexeme) rest := by
  rw [read, scan_cons, h]
  rfl

theorem read_nil (text : Text) (d : Draft) (state : ScanState) (offset : Nat) :
    d.read text state offset [] = d := by
  rw [read, scan]
  rfl

theorem read_skip {d : Draft} {after : ScanState}
    (h : next state c cs = ⟨⟨kind, lexeme, none⟩, after, rest⟩)
    (hd : d.accept text ⟨⟨kind, lexeme, none⟩, offset, after⟩ = d) :
    d.read text state offset (c :: cs) = d.read text after (offset + Text.size lexeme) rest := by
  rw [read_next h, hd]

/-- The draft after some pieces of markup that are over: what they add to the current element and
how many elements they are. -/
def grown (d : Draft) (text : List String) (children : List Element) (n : Nat)
    (endTagOpen : Option Nat) : Draft :=
  { d with current := d.current.extend text children, count := d.count + n, endTagOpen }

theorem grown_nil (d : Draft) : d.grown [] [] 0 d.endTagOpen = d := by
  obtain ⟨⟨head, children⟩, above, count, endTagOpen, openTags, problems⟩ := d
  simp [grown, Element.extend]

theorem grown_grown (d : Draft) :
    (d.grown text children n t).grown moreText moreChildren m u =
      d.grown (text ++ moreText) (children ++ moreChildren) (n + m) u := by
  simp [grown, Element.extend, Nat.add_assoc]

-- ---------------------------------------------------------------------------
-- Runs of text and comments
-- ---------------------------------------------------------------------------

theorem addText_of_trim_eq_nil (d : Draft) (h : Text.trim content = []) : d.addText content = d := by
  rw [addText, h]

theorem addText_of_trim_ne_nil (d : Draft) (h : Text.trim content ≠ []) :
    d.addText content = d.grown [String.ofList content.trim] [] 0 d.endTagOpen := by
  unfold addText
  split
  · next hnil => exact absurd hnil h
  · simp [grown, Element.extend]

theorem read_run {text : Text} {d : Draft} (hrun : Text.trim run ≠ []) (hlt : '<' ∉ run)
    (hrest : rest.Stops (· ≠ '<')) :
    d.read text .content offset (run ++ rest) =
      (d.grown [String.ofList run.trim] [] 0 d.endTagOpen).read text .content
        (offset + Text.size run) rest := by
  cases run with
  | nil => exact absurd rfl hrun
  | cons c cs =>
    rw [List.cons_append, read_next (Token.next_content_append hlt hrest)]
    rw [← addText_of_trim_ne_nil d hrun]
    rfl

theorem read_comment {text : Text} {d : Draft} (h : ¬ ['-', '-', '>'] <:+: body) :
    d.read text .content offset ((Item.comment body).render ++ rest) =
      d.read text .content (offset + Text.size (Item.comment body).render) rest := by
  have hopen : next .content '<' ('!' :: '-' :: '-' :: (body ++ '-' :: '-' :: '>' :: rest)) =
      ⟨⟨.commentOpen, ['<', '!', '-', '-'], none⟩, .comment, body ++ '-' :: '-' :: '>' :: rest⟩ := rfl
  have hrender : (Item.comment body).render ++ rest =
      '<' :: '!' :: '-' :: '-' :: (body ++ '-' :: '-' :: '>' :: rest) := by simp [Item.render]
  rw [hrender, read_skip hopen rfl]
  cases body with
  | nil => exact read_skip (Token.next_commentClose rest) rfl
  | cons c cs =>
    rw [List.cons_append, read_skip (Token.next_comment_append h) rfl,
      read_skip (Token.next_commentClose rest) rfl]
    simp [Item.render, Nat.add_assoc]

-- ---------------------------------------------------------------------------
-- Start tags
-- ---------------------------------------------------------------------------

def withAttributes (d : Draft) (attributes : List Attribute) : Draft :=
  { d with current := { d.current with attributes := d.current.attributes ++ attributes } }

theorem withAttributes_nil (d : Draft) : d.withAttributes [] = d := by
  obtain ⟨⟨head, children⟩, above, count, endTagOpen, openTags, problems⟩ := d
  simp [withAttributes]

theorem withAttributes_withAttributes (d : Draft) :
    (d.withAttributes as).withAttributes bs = d.withAttributes (as ++ bs) := by
  simp [withAttributes]

theorem addAttribute_eq (d : Draft) (h : IsAttributeName name) :
    d.addAttribute name start stop =
      d.withAttributes [{ name := String.ofList name, offset := start }] := by
  simp [addAttribute, expect, h.isValid, withAttributes]

theorem addValue_quoted (d : Draft) (a : Attribute) :
    (d.withAttributes [a]).addValue ('"' :: value ++ ['"']) start stop =
      d.withAttributes [{ a with value := some (String.ofList value) }] := by
  have hlast : ('"' :: value ++ ['"']).getLast? = some '"' := List.getLast?_concat
  have hquoted : isDoubleQuoted ('"' :: value ++ ['"']) = true := by
    rw [isDoubleQuoted, hlast]
    simp
  have hunquote : unquote ('"' :: value ++ ['"']) = value := by simp [unquote]
  simp only [addValue, expect, hquoted, hunquote, ↓reduceIte, withAttributes, setLastValue_append]

theorem read_attributeName {text : Text} {d : Draft} (h : IsAttributeName name)
    (hstate : AfterPart raw false state) (hrest : rest.Stops isAttributeNameChar) :
    d.read text state offset (' ' :: name ++ rest) =
      (d.withAttributes [{ name := String.ofList name, offset := offset + 1 }]).read text
        (.afterAttributeName ⟨raw, false⟩) (offset + 1 + Text.size name) rest := by
  obtain ⟨c, cs, rfl, hc, hassign, hcs⟩ := h.exists_cons
  have hblank : Text.Stops isBlank (c :: (cs ++ rest)) :=
    Text.stops_cons (isBlank_of_isAttributeNameChar hc)
  obtain ⟨between, hbetween, hnext⟩ := hstate.next_blank hblank
  rw [List.cons_append, List.cons_append, read_skip hnext rfl,
    read_next (hbetween.next_attributeName hc hassign hcs hrest), ← addAttribute_eq d h]
  rfl

theorem read_value {text : Text} {d : Draft} (h : '"' ∉ value) (a : Attribute) :
    (d.withAttributes [a]).read text (.afterAttributeName ⟨raw, false⟩) offset
        ('=' :: '"' :: value ++ '"' :: rest) =
      (d.withAttributes [{ a with value := some (String.ofList value) }]).read text
        (.tag ⟨raw, false⟩) (offset + Text.size ('=' :: '"' :: value ++ ['"'])) rest := by
  rw [List.cons_append, List.cons_append, read_skip (Token.next_assign raw _) rfl,
    read_next (Token.next_attributeValue h), ← addValue_quoted d a]
  simp [Nat.add_assoc]
  rfl

theorem read_attr (text : Text) (d : Draft) (offset : Nat) {a : Attr} (h : a.WellFormed)
    (hstate : AfterPart raw false state) (hrest : rest.Stops isAttributeNameChar) :
    ∃ after, AfterPart raw false after ∧
      d.read text state offset (a.render ++ rest) =
        (d.withAttributes (placeAttrs offset [a])).read text after (offset + Text.size a.render)
          rest := by
  obtain ⟨name, value⟩ := a
  have hsize : offset + Text.size (' ' :: name) = offset + 1 + Text.size name :=
    (Nat.add_assoc offset 1 _).symm
  cases value with
  | none =>
    refine ⟨_, .attributeName, ?_⟩
    simp only [Attr.render, List.append_nil, hsize]
    exact read_attributeName h.name hstate hrest
  | some value =>
    refine ⟨_, .tag, ?_⟩
    have hassign : Text.Stops isAttributeNameChar ('=' :: '"' :: value ++ '"' :: rest) :=
      Text.stops_cons rfl
    have hrender : Attr.render ⟨name, some value⟩ ++ rest =
        ' ' :: name ++ ('=' :: '"' :: value ++ '"' :: rest) := by simp [Attr.render]
    rw [hrender, read_attributeName h.name hstate hassign, read_value (h.value value rfl), ← hsize,
      Nat.add_assoc, ← Text.size_append]
    rfl

theorem stops_renderAttrs_append (attrs : List Attr) (hrest : rest.Stops isAttributeNameChar) :
    Text.Stops isAttributeNameChar (renderAttrs attrs ++ rest) := by
  cases attrs with
  | nil => exact hrest
  | cons a attrs => exact Text.stops_cons rfl

theorem read_attrs (text : Text) (d : Draft) (offset : Nat) {attrs : List Attr}
    (h : ∀ a ∈ attrs, a.WellFormed) (hstate : AfterPart raw false state)
    (hrest : rest.Stops isAttributeNameChar) :
    ∃ after, AfterPart raw false after ∧
      d.read text state offset (renderAttrs attrs ++ rest) =
        (d.withAttributes (placeAttrs offset attrs)).read text after
          (offset + Text.size (renderAttrs attrs)) rest := by
  induction attrs generalizing d state offset with
  | nil => exact ⟨state, hstate, by rw [placeAttrs, withAttributes_nil]; rfl⟩
  | cons a attrs ih =>
    obtain ⟨ha, hattrs⟩ := List.forall_mem_cons.mp h
    obtain ⟨between, hbetween, hread⟩ :=
      read_attr text d offset ha hstate (stops_renderAttrs_append attrs hrest)
    obtain ⟨after, hafter, hreads⟩ := ih _ _ hattrs hbetween
    refine ⟨after, hafter, ?_⟩
    rw [renderAttrs, List.append_assoc, hread, hreads, withAttributes_withAttributes,
      Text.size_append, Nat.add_assoc]
    rfl

def opened (text : Text) (d : Draft) (tag : Tag) (offset : Nat) : Draft :=
  { d with
    current :=
      { id := d.count + 1
        tag := some (String.ofList tag.name)
        start := offset
        stop := text.size
        attributes := placeAttrs (offset + 1 + Text.size tag.name) tag.attributes }
    above := d.current :: d.above
    count := d.count + 1
    openTags := ⟨String.ofList tag.name, offset + 1, offset + 1 + Text.size tag.name⟩ :: d.openTags }

theorem nameElement_openElement (d : Draft) (h : IsTagName name) :
    (d.openElement offset size).nameElement name start stop =
      { d with
        current := { id := d.count + 1, tag := some (String.ofList name), start := offset, stop := size }
        above := d.current :: d.above
        count := d.count + 1
        openTags := ⟨String.ofList name, start, stop⟩ :: d.openTags } := by
  simp [openElement, nameElement, expect, h.isValid, toLower_ofList h.fold_eq]

theorem read_tag (text : Text) (d : Draft) (offset : Nat) {tag : Tag} (h : tag.WellFormed)
    (hrest : rest.Stops isAttributeNameChar) :
    ∃ after, AfterPart (TagName.rawText tag.name) false after ∧
      d.read text .content offset (tag.render ++ rest) =
        (d.opened text tag offset).read text after (offset + Text.size tag.render) rest := by
  obtain ⟨name, attrs⟩ := tag
  obtain ⟨c, cs, rfl, hc, hcs⟩ := h.name.exists_cons
  have hattrs := stops_renderAttrs_append attrs hrest
  have hname : Text.Stops isNameChar (renderAttrs attrs ++ rest) := by
    intro e he
    cases hcase : isNameChar e with
    | false => rfl
    | true => exact (isAttributeNameChar_of_isNameChar hcase).symm.trans (hattrs e he)
  obtain ⟨after, hafter, hreads⟩ :=
    read_attrs text ((d.openElement offset text.size).nameElement (c :: cs) (offset + 1)
      (offset + 1 + Text.size (c :: cs))) (offset + 1 + Text.size (c :: cs)) h.attributes .tag hrest
  refine ⟨after, hafter, ?_⟩
  have hrender : Tag.render ⟨c :: cs, attrs⟩ ++ rest =
      '<' :: c :: (cs ++ (renderAttrs attrs ++ rest)) := by simp [Tag.render]
  rw [hrender, read_next (Token.next_tagOpen hc), read_next (Token.next_tagName_append hc hcs hname)]
  refine hreads.trans ?_
  rw [nameElement_openElement d h.name, Tag.size_render, Nat.add_assoc 1, ← Nat.add_assoc offset,
    ← Nat.add_assoc]
  rfl

-- ---------------------------------------------------------------------------
-- Elements
-- ---------------------------------------------------------------------------

theorem selfClose_opened (text : Text) (d : Draft) (tag : Tag) (offset size : Nat) :
    (d.opened text tag offset).selfClose (offset + size) =
      d.grown [] [tag.element (d.count + 1) offset size] 1 d.endTagOpen := by
  simp [selfClose, leave, opened, grown, Element.extend, Element.push, Tag.element]

theorem read_selfClosed {text : Text} {d : Draft} {tag : Tag} (h : tag.WellFormed) :
    d.read text .content offset (tag.render ++ '/' :: '>' :: rest) =
      (d.grown [] [tag.element (d.count + 1) offset (Text.size (tag.render ++ ['/', '>']))] 1
        d.endTagOpen).read text .content (offset + Text.size (tag.render ++ ['/', '>'])) rest := by
  have hslash : Text.Stops isAttributeNameChar ('/' :: '>' :: rest) := Text.stops_cons rfl
  obtain ⟨after, hafter, hread⟩ := read_tag text d offset h hslash
  rw [hread, read_next hafter.next_tagSelfClose, Text.size_append, ← Nat.add_assoc,
    ← selfClose_opened text d tag, ← Nat.add_assoc]
  rfl

theorem closeStartTag_opened {text : Text} {d : Draft} {tag : Tag} (h : tag.WellFormed)
    (hvoid : tag.IsVoid) :
    (d.opened text tag offset).closeStartTag stop = (d.opened text tag offset).selfClose stop := by
  have hcurrent : (d.opened text tag offset).current.isVoid = true := h.isVoid_iff.mpr hvoid
  rw [closeStartTag, if_pos hcurrent]
  rfl

theorem read_tagClose {text : Text} {d : Draft} {tag : Tag} (h : tag.WellFormed) :
    d.read text .content offset (tag.render ++ '>' :: rest) =
      ((d.opened text tag offset).closeStartTag (offset + Text.size (tag.render ++ ['>']))).read text
        (bodyState (TagName.rawText tag.name)) (offset + Text.size (tag.render ++ ['>'])) rest := by
  have hbracket : Text.Stops isAttributeNameChar ('>' :: rest) := Text.stops_cons rfl
  obtain ⟨after, hafter, hread⟩ := read_tag text d offset h hbracket
  rw [hread, read_next hafter.next_tagClose, Text.size_append, ← Nat.add_assoc]
  rfl

theorem read_void {text : Text} {d : Draft} {tag : Tag} (h : tag.WellFormed) (hvoid : tag.IsVoid) :
    d.read text .content offset (tag.render ++ '>' :: rest) =
      (d.grown [] [tag.element (d.count + 1) offset (Text.size (tag.render ++ ['>']))] 1
        d.endTagOpen).read text .content (offset + Text.size (tag.render ++ ['>'])) rest := by
  have hraw : ¬ tag.IsRaw := fun hraw => hraw.not_isVoid hvoid
  rw [read_tagClose h, closeStartTag_opened h hvoid, selfClose_opened, h.rawText_eq hraw]
  rfl

def inside (d : Draft) (tag : Tag) (offset : Nat) : Draft :=
  { d with
    current := { tag.element (d.count + 1) offset (Text.size tag.render + 1) with closed := false }
    above := d.current :: d.above
    count := d.count + 1
    openTags := ⟨String.ofList tag.name, offset + 1, offset + 1 + Text.size tag.name⟩ :: d.openTags }

theorem read_inside {text : Text} {d : Draft} {tag : Tag} (h : tag.WellFormed)
    (hvoid : ¬ tag.IsVoid) :
    d.read text .content offset (tag.render ++ '>' :: rest) =
      (d.inside tag offset).read text (bodyState (TagName.rawText tag.name))
        (offset + Text.size tag.render + 1) rest := by
  have hcurrent : (d.opened text tag offset).current.isVoid ≠ true :=
    fun hcurrent => hvoid (h.isVoid_iff.mp hcurrent)
  rw [read_tagClose h, closeStartTag, if_neg hcurrent, Text.size_append]
  rfl

theorem hasName_ofList {e : Element} (h : e.tag = some name) : e.hasName name = true := by
  simp [Element.hasName, h]

theorem nameEndTag_current {d : Draft} (hname : IsTagName name)
    (hcurrent : d.current.tag = some (String.ofList name)) (habove : d.above = parent :: higher)
    (hopen : d.openTags = ⟨String.ofList name, a, b⟩ :: tags) (htag : d.endTagOpen = some tagStart) :
    d.nameEndTag text name start stop =
      { d with
        current := { d.current with closed := true, endTagStart := some tagStart }
        openTags := tags } := by
  have hnamed := hasName_ofList hcurrent
  have hvoid : d.voidBefore? text (String.ofList name) tagStart = none := by
    simp [voidBefore?, hnamed]
  simp [nameEndTag, toLower_ofList hname.fold_eq, htag, hvoid, habove, closeUpTo, hnamed, settle, hopen,
    expect]

theorem leave_nameEndTag {d : Draft} {tag : Tag} (h : tag.WellFormed) :
    (((d.inside tag offset).grown content children n (some tagStart)).nameEndTag text tag.name start
        stop).leave ({ · with stop := offset + size }) =
      d.grown []
        [{ tag.element (d.count + 1) offset size with
          endTagStart := some tagStart, text := content, children }]
        (1 + n) (some tagStart) := by
  rw [nameEndTag_current h.name rfl rfl rfl rfl]
  simp [leave, inside, grown, Element.extend, Element.push, Tag.element, Nat.add_assoc]

/-- The end tag of the current element, after all that its body has added to it. -/
theorem read_renderEnd {text : Text} {d : Draft} {tag : Tag} (h : tag.WellFormed) :
    ((d.inside tag offset).grown content children n t).read text .content
        (offset + Text.size tag.render + 1 + Text.size body) (tag.renderEnd ++ rest) =
      (d.grown [] [tag.enclosing (d.count + 1) offset body content children] (1 + n)
        (some (offset + Text.size tag.render + 1 + Text.size body))).read text .content
        (offset + Text.size (tag.enclose body)) rest := by
  obtain ⟨c, cs, hname, hc, hcs⟩ := h.name.exists_cons
  have hbracket : Text.Stops isNameChar ('>' :: rest) := Text.stops_cons rfl
  have hopen : next .content '<' ('/' :: (c :: (cs ++ '>' :: rest))) =
      ⟨⟨.endTagOpen, ['<', '/'], none⟩, .afterEndTagOpen, c :: (cs ++ '>' :: rest)⟩ := rfl
  have hclose : next .endTag '>' rest = ⟨⟨.endTagClose, ['>'], none⟩, .content, rest⟩ := rfl
  have hrender : tag.renderEnd ++ rest = '<' :: '/' :: c :: (cs ++ '>' :: rest) := by
    simp [Tag.renderEnd, hname]
  have hsize : offset + Text.size tag.render + 1 + Text.size body + Text.size ['<', '/'] +
      Text.size tag.name + Text.size ['>'] = offset + Text.size (tag.enclose body) := by
    simp only [Tag.enclose, Tag.renderEnd, Text.size_append, Text.size_cons, Text.size_nil]
    have hgt : '>'.utf8Size = 1 := rfl
    omega
  rw [hrender, read_next hopen, read_next (Token.next_endTagName_append hc hcs hbracket),
    read_next hclose, ← hname, hsize, Tag.enclosing, ← leave_nameEndTag h, ← hsize]
  rfl

theorem read_enclose {text : Text} {d : Draft} {tag : Tag} (h : tag.WellFormed)
    (hvoid : ¬ tag.IsVoid)
    (hbody : (d.inside tag offset).read text (bodyState (TagName.rawText tag.name))
        (offset + Text.size tag.render + 1) (body ++ (tag.renderEnd ++ rest)) =
      ((d.inside tag offset).grown content children n t).read text .content
        (offset + Text.size tag.render + 1 + Text.size body) (tag.renderEnd ++ rest)) :
    ∃ u, d.read text .content offset (tag.enclose body ++ rest) =
      (d.grown [] [tag.enclosing (d.count + 1) offset body content children] (1 + n) u).read text
        .content (offset + Text.size (tag.enclose body)) rest := by
  have hrender : tag.enclose body ++ rest = tag.render ++ '>' :: (body ++ (tag.renderEnd ++ rest)) := by
    simp [Tag.enclose]
  rw [hrender, read_inside h hvoid, hbody]
  exact ⟨_, read_renderEnd h⟩

theorem read_raw {text : Text} {d : Draft} (hname : Text.fold name = name) (hlt : '<' ∉ name)
    (hraw : ∀ c cs, next state c cs = Token.nextRaw name kind state c cs)
    (hbody : ¬ '<' :: '/' :: name <:+: Text.fold body) :
    d.read text state offset (body ++ ('<' :: '/' :: name ++ rest)) =
      (if body = [] then d else d.accept text ⟨⟨kind, body, none⟩, offset, .content⟩).read text
        .content (offset + Text.size body) ('<' :: '/' :: name ++ rest) := by
  cases body with
  | nil =>
    have hend : next state '<' ('/' :: name ++ rest) = next .content '<' ('/' :: name ++ rest) :=
      (hraw _ _).trans (Token.nextRaw_endTag hname)
    show (scan state offset ('<' :: ('/' :: name ++ rest))).foldl _ d =
      (scan .content offset ('<' :: ('/' :: name ++ rest))).foldl _ d
    rw [scan_cons, scan_cons, hend]
  | cons c cs =>
    have hrun : next state c (cs ++ ('<' :: '/' :: name ++ rest)) =
        ⟨⟨kind, c :: cs, none⟩, .content, '<' :: '/' :: name ++ rest⟩ :=
      (hraw _ _).trans (Token.nextRaw_append hname hlt hbody)
    rw [List.cons_append, read_next hrun, if_neg (List.cons_ne_nil c cs)]

theorem read_script {text : Text} {d : Draft} {tag : Tag} (hname : tag.name = TagName.script)
    (hbody : ¬ '<' :: '/' :: tag.name <:+: body.fold) :
    d.read text .scriptBody offset (body ++ ('<' :: '/' :: tag.name ++ rest)) =
      (d.grown (rawRuns tag body) [] 0 d.endTagOpen).read text .content (offset + Text.size body)
        ('<' :: '/' :: tag.name ++ rest) := by
  have hruns : rawRuns tag body = [] := by
    refine if_neg ?_
    rintro ⟨hstyle, -⟩
    cases hname.symm.trans hstyle
  have hskip : (if body = [] then d else d.accept text ⟨⟨.script, body, none⟩, offset, .content⟩) = d :=
    ite_eq_left_iff.mpr fun _ => rfl
  rw [hname] at hbody ⊢
  rw [read_raw rfl (by decide) (fun _ _ => rfl) hbody, hskip, hruns, grown_nil]

theorem read_style {text : Text} {d : Draft} {tag : Tag} (hname : tag.name = TagName.style)
    (hbody : ¬ '<' :: '/' :: tag.name <:+: body.fold) :
    d.read text .styleBody offset (body ++ ('<' :: '/' :: tag.name ++ rest)) =
      (d.grown (rawRuns tag body) [] 0 d.endTagOpen).read text .content (offset + Text.size body)
        ('<' :: '/' :: tag.name ++ rest) := by
  have hgrown : (if body = [] then d else d.accept text ⟨⟨.content, body, none⟩, offset, .content⟩) =
      d.grown (rawRuns tag body) [] 0 d.endTagOpen := by
    by_cases htrim : body.trim = []
    · have hruns : rawRuns tag body = [] := if_neg fun h => h.2 htrim
      rw [hruns, grown_nil]
      exact ite_eq_left_iff.mpr fun _ => addText_of_trim_eq_nil d htrim
    · have hruns : rawRuns tag body = [String.ofList body.trim] := if_pos ⟨hname, htrim⟩
      have hne : body ≠ [] := by
        rintro rfl
        exact htrim rfl
      rw [hruns, if_neg hne]
      exact addText_of_trim_ne_nil d htrim
  rw [hname] at hbody ⊢
  rw [read_raw rfl (by decide) (fun _ _ => rfl) hbody, hgrown]

theorem read_rawBody {text : Text} {d : Draft} {tag : Tag} (hraw : tag.IsRaw)
    (hbody : ¬ '<' :: '/' :: tag.name <:+: body.fold) :
    d.read text (bodyState (TagName.rawText tag.name)) offset (body ++ (tag.renderEnd ++ rest)) =
      (d.grown (rawRuns tag body) [] 0 d.endTagOpen).read text .content (offset + Text.size body)
        (tag.renderEnd ++ rest) := by
  have hrender : tag.renderEnd ++ rest = '<' :: '/' :: tag.name ++ '>' :: rest := by
    simp [Tag.renderEnd]
  rw [hrender]
  rcases hraw with hname | hname
  · have hstate : bodyState (TagName.rawText tag.name) = .scriptBody := by rw [hname]; rfl
    rw [hstate]
    exact read_script hname hbody
  · have hstate : bodyState (TagName.rawText tag.name) = .styleBody := by rw [hname]; rfl
    rw [hstate]
    exact read_style hname hbody

end Draft

-- ---------------------------------------------------------------------------
-- Items
-- ---------------------------------------------------------------------------

theorem exists_render_eq_cons {item : Item} (h : ¬ item.isRun) : ∃ cs, item.render = '<' :: cs := by
  cases item with
  | run => exact absurd rfl h
  | comment => exact ⟨_, rfl⟩
  | selfClosed => exact ⟨_, rfl⟩
  | void => exact ⟨_, rfl⟩
  | raw => exact ⟨_, rfl⟩
  | nested => exact ⟨_, rfl⟩

theorem stops_render_append {items : List Item} (h : ∀ item ∈ items.head?, ¬ item.isRun)
    (hrest : rest.Stops (· ≠ '<')) : Text.Stops (· ≠ '<') (render items ++ rest) := by
  cases items with
  | nil => exact hrest
  | cons item items =>
    obtain ⟨cs, hcs⟩ := exists_render_eq_cons (h item rfl)
    rw [render, hcs]
    exact Text.stops_cons rfl

mutual
theorem read_item (text : Text) : ∀ (item : Item) (d : Draft) (offset : Nat) (rest : Text),
    item.WellFormed → (item.isRun → rest.Stops (· ≠ '<')) →
    ∃ t, d.read text .content offset (item.render ++ rest) =
      (d.grown item.runs (item.elements (d.count + 1) offset) item.count t).read text .content
        (offset + Text.size item.render) rest
  | .run run, d, offset, rest, ⟨hrun, hlt⟩, hrest =>
    ⟨d.endTagOpen, Draft.read_run (Text.trim_ne_nil hrun) hlt (hrest rfl)⟩
  | .comment body, d, offset, rest, h, _ => by
    refine ⟨d.endTagOpen, ?_⟩
    rw [Draft.read_comment h]
    exact congrArg (Draft.read text · .content _ rest) d.grown_nil.symm
  | .selfClosed tag, d, offset, rest, h, _ => by
    refine ⟨d.endTagOpen, ?_⟩
    rw [Item.render, List.append_assoc]
    exact Draft.read_selfClosed h
  | .void tag, d, offset, rest, ⟨h, hvoid⟩, _ => by
    refine ⟨d.endTagOpen, ?_⟩
    rw [Item.render, List.append_assoc]
    exact Draft.read_void h hvoid
  | .raw tag body, d, offset, rest, ⟨h, hraw, hbody⟩, _ =>
    Draft.read_enclose h hraw.not_isVoid (Draft.read_rawBody hraw hbody)
  | .nested tag body, d, offset, rest, ⟨h, hvoid, hraw, hbody⟩, _ => by
    have hend : Text.Stops (· ≠ '<') (tag.renderEnd ++ rest) := Text.stops_cons rfl
    obtain ⟨t, hread⟩ := read_items text body (d.inside tag offset)
      (offset + Text.size tag.render + 1) (tag.renderEnd ++ rest) hbody hend
    refine Draft.read_enclose (t := t) h hvoid ?_
    rw [h.rawText_eq hraw]
    exact hread
theorem read_items (text : Text) : ∀ (items : List Item) (d : Draft) (offset : Nat) (rest : Text),
    WellFormed items → rest.Stops (· ≠ '<') →
    ∃ t, d.read text .content offset (render items ++ rest) =
      (d.grown (runs items) (elements (d.count + 1) offset items) (count items) t).read text .content
        (offset + Text.size (render items)) rest
  | [], d, offset, rest, _, _ =>
    ⟨d.endTagOpen, congrArg (Draft.read text · .content offset rest) d.grown_nil.symm⟩
  | item :: items, d, offset, rest, ⟨hitem, hnext, hitems⟩, hrest => by
    obtain ⟨t, hread⟩ := read_item text item d offset (render items ++ rest) hitem
      fun hrun => stops_render_append (hnext hrun) hrest
    obtain ⟨u, hreads⟩ := read_items text items
      (d.grown item.runs (item.elements (d.count + 1) offset) item.count t)
      (offset + Text.size item.render) rest hitems hrest
    -- The elements of the other items are numbered from where those of the first stop.
    have hnumber : (d.grown item.runs (item.elements (d.count + 1) offset) item.count t).count + 1 =
        d.count + 1 + item.count := Nat.add_right_comm d.count item.count 1
    refine ⟨u, ?_⟩
    rw [render, List.append_assoc, hread, hreads, Draft.grown_grown, Text.size_append, hnumber,
      Nat.add_assoc offset]
    rfl
end

-- ---------------------------------------------------------------------------
-- Pages
-- ---------------------------------------------------------------------------

/-- Well-formed markup is read back as what it was written from, without a problem. -/
theorem parse_render (items : List Item) (h : WellFormed items) :
    Document.parse (render items) =
      { text := render items, root := outline items, problems := [] } := by
  have hstop : Text.Stops (· ≠ '<') [] := by
    rintro _ ⟨⟩
  obtain ⟨t, hread⟩ := read_items (render items) items (Draft.empty (render items)) 0 [] h hstop
  rw [List.append_nil, Draft.read_nil] at hread
  show ((Draft.empty (render items)).read (render items) .content 0 (render items)).finish _ = _
  rw [hread]
  rfl

def mixedPage : List Item :=
  [.run [' ', 'é', '>'],
    .nested ⟨['v', 'i', 'e', 'w'], [⟨['a'], none⟩, ⟨['b', ':', 'c'], some ['<', '/', '>', '=']⟩]⟩
      [.comment ['<', 'v', '>', '-'],
        .void ⟨['i', 'm', 'a', 'g', 'e'], []⟩,
        .raw ⟨['s', 't', 'y', 'l', 'e'], []⟩ [' ', '<', '/', 's', ' '],
        .raw ⟨['w', 'x', 's'], [⟨['m'], none⟩]⟩ [],
        .run ['-', '-', '>'],
        .nested ⟨['v', 'i', 'e', 'w'], []⟩ []],
    .selfClosed ⟨['w', 'x', 's'], [⟨['s'], some []⟩]⟩]

theorem parse_render_mixedPage :
    WellFormed mixedPage ∧
      Document.parse (render mixedPage) =
        { text := render mixedPage, root := outline mixedPage, problems := [] } := by
  have h : WellFormed mixedPage := by decide +kernel
  exact ⟨h, parse_render mixedPage h⟩

end PageMarkup
