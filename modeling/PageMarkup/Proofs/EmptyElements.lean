import PageMarkup.Proofs.AttributeChecks
import PageMarkup.Proofs.Messages
import PageMarkup.Proofs.RawBodies
import PageMarkup.Proofs.TextRuns

/-!
# Elements that cannot have content

A void element, one that `/>` ends and one with a raw body stay without children, however malformed
the text is. Such an element can be the innermost open one while more tokens are read: a void element
again when it is given a needless end tag, and a raw one after its body. None of these tokens goes
into it, since only the rest of an end tag is read before another element is the innermost one.
-/

namespace PageMarkup

open ScanState (Reads ReadsInTag)

-- ---------------------------------------------------------------------------
-- What an element may hold
-- ---------------------------------------------------------------------------

def Element.rawText (e : Element) : RawText :=
  match e.tag with
  | some tag => TagName.rawText tag.toList
  | none => .none

theorem TagName.fold_toList (tag : String) : Text.fold tag.toList = tag.toLower.toList := by
  rw [← String.toList_ofList (l := Text.fold tag.toList), ofList_fold, String.ofList_toList]

theorem TagName.rawText_of_isVoid {tag : String} (h : isVoid tag = true) :
    rawText tag.toList = .none := by
  rw [isVoid] at h
  rw [rawText, fold_toList]
  split
  · next hscript =>
    rw [show tag.toLower = "wxs" from String.toList_injective hscript] at h
    cases h
  · split
    · next hstyle =>
      rw [show tag.toLower = "style" from String.toList_injective hstyle] at h
      cases h
    · rfl

namespace Element

variable {text : Text} {e e' : Element}

theorem isEmpty_iff : e.isEmpty = true ↔ e.children = [] ∧ e.text = [] := by
  simp [isEmpty]

theorem rawText_named (e : Element) (name : Text) :
    rawText { e with tag := some (String.ofList name) } = TagName.rawText name :=
  congrArg TagName.rawText String.toList_ofList

theorem rawText_of_isVoid (h : e.isVoid = true) : e.rawText = .none := by
  cases htag : e.tag with
  | none =>
    rw [isVoid, htag] at h
    cases h
  | some tag =>
    rw [isVoid, htag] at h
    rw [rawText, htag]
    exact TagName.rawText_of_isVoid h

/-- The element holds no more than its name and the end of its start tag allow. -/
structure Confined (text : Text) (e : Element) : Prop where
  void : e.isVoid = true → e.isEmpty = true
  selfClosed : ∀ t, TagEnds text e.start t → t.kind = .tagSelfClose → e.isEmpty = true
  script : e.rawText = .script → e.isEmpty = true
  style : e.rawText = .style → e.children = [] ∧ e.text.length ≤ 1

theorem Confined.of_isEmpty (h : e.isEmpty = true) : e.Confined text where
  void _ := h
  selfClosed _ _ _ := h
  script _ := h
  style _ := by
    obtain ⟨hchildren, hruns⟩ := isEmpty_iff.mp h
    exact ⟨hchildren, by simp [hruns]⟩

theorem Confined.ended (h : e.Confined text) (stop : Nat) (closed : Bool) (endTagStart : Option Nat) :
    Confined text { e with stop, closed, endTagStart } :=
  ⟨h.void, h.selfClosed, h.script, h.style⟩

end Element

structure Receptive (text : Text) (e : Element) : Prop where
  waiting : Waiting text e
  markup : e.rawText = .none

section
variable {text : Text} {e e' : Element}

theorem Waiting.setText (h : Waiting text e) (runs : List String) :
    Waiting text { e with text := runs } :=
  ⟨h.endTag, h.closed, h.startTag, h.not_void⟩

theorem Receptive.congr (h : Receptive text e) (hhead : e'.toElementHead = e.toElementHead) :
    Receptive text e' := by
  obtain ⟨head, children⟩ := e
  obtain ⟨head', children'⟩ := e'
  obtain rfl : head' = head := hhead
  exact ⟨h.waiting.congr rfl, h.markup⟩

theorem Element.Confined.of_waiting (h : Waiting text e) (hscript : e.rawText ≠ .script)
    (hstyle : e.rawText = .style → e.children = [] ∧ e.text.length ≤ 1) : e.Confined text where
  void hvoid := by cases h.not_void.symm.trans hvoid
  selfClosed t ht hkind := absurd (.inl hkind) (h.not_closedBy ht)
  script hraw := absurd hraw hscript
  style := hstyle

theorem Receptive.setText (h : Receptive text e) (runs : List String) :
    Receptive text { e with text := runs } :=
  ⟨h.waiting.setText runs, h.markup⟩

theorem Receptive.confined (h : Receptive text e) : e.Confined text :=
  .of_waiting h.waiting (by simp [h.markup]) (by simp [h.markup])

end

-- ---------------------------------------------------------------------------
-- Open elements
-- ---------------------------------------------------------------------------

structure Receiving (text : Text) (e : Element) (above : List Element) : Prop where
  receptive : ∀ x ∈ openElements e above, Receptive text x
  finished : Finished (Element.Confined text) e above

inductive Sheltered (text : Text) : Element → List Element → Prop
  | root (finished : Finished (Element.Confined text) e []) : Sheltered text e []
  | inside (confined : e.Confined text) (finished : Finished (Element.Confined text) e (parent :: above))
      (around : ∀ x ∈ openElements parent above, Receptive text x) : Sheltered text e (parent :: above)

section
variable {text : Text} {e e' child parent : Element} {above : List Element}

theorem Receiving.sheltered (h : Receiving text e above) : Sheltered text e above := by
  cases above with
  | nil => exact .root h.finished
  | cons parent above =>
    obtain ⟨he, habove⟩ := List.forall_mem_cons.mp h.receptive
    exact .inside he.confined h.finished habove

theorem Sheltered.finished (h : Sheltered text e above) : Finished (Element.Confined text) e above := by
  cases h with
  | root finished => exact finished
  | inside _ finished _ => exact finished

theorem Sheltered.replace (h : Sheltered text e above) (hconfined : e'.Confined text)
    (hchildren : e'.children = e.children) : Sheltered text e' above := by
  cases h with
  | root finished => exact .root (finished.congr hchildren)
  | inside _ finished around => exact .inside hconfined (finished.congr hchildren) around

theorem Receiving.replace (h : Receiving text e above) (hreceptive : Receptive text e → Receptive text e')
    (hchildren : e'.children = e.children) : Receiving text e' above :=
  ⟨forall_openElements_congr h.receptive hreceptive, h.finished.congr hchildren⟩

/-- Once the innermost element has ended, content goes to its parent. -/
theorem Sheltered.push (h : Sheltered text e (parent :: above))
    (hchild : e.Confined text → child.Confined text) (hchildren : child.children = e.children) :
    Receiving text (parent.push child) above := by
  cases h with
  | inside confined finished around =>
    exact ⟨forall_openElements_congr around (·.congr rfl), finished.push (hchild confined) hchildren⟩

theorem Sheltered.closeUpTo (h : Sheltered text e above) (name : String) (stop : Nat) :
    Sheltered text (closeUpTo name stop e above).1 (closeUpTo name stop e above).2 := by
  fun_induction PageMarkup.closeUpTo name stop e above with
  | case1 => exact h
  | case2 => exact h
  | case3 e parent above _ ih => exact ih (h.push (·.ended stop false e.endTagStart) rfl).sheltered

theorem Sheltered.closeAll (h : Sheltered text e above) (stop : Nat) :
    AllIn (Element.Confined text) (closeAll stop e above).children := by
  fun_induction PageMarkup.closeAll stop e above with
  | case1 => exact h.finished.1
  | case2 e parent above ih => exact ih (h.push (·.ended stop false e.endTagStart) rfl).sheltered

theorem Sheltered.leave {d : Draft} (h : Sheltered text d.current d.above) (f : Element → Element)
    (hconfined : d.current.Confined text → (f d.current).Confined text)
    (hchildren : (f d.current).children = d.current.children) :
    Receiving text (d.leave f).current (d.leave f).above := by
  obtain ⟨current, above⟩ := d
  cases above with
  | nil => exact ⟨List.forall_mem_nil _, h.finished⟩
  | cons parent above => exact h.push hconfined hchildren

/-- An end tag goes to an element that holds nothing, or to one that may hold anything. -/
theorem Sheltered.nameEndTag {d : Draft} {name : String} {start : Nat}
    (h : Sheltered text d.current d.above)
    (hopen : Receiving text d.current d.above ∨ d.current.children = [])
    (hstep : d.EndTagStep text name start e above) : Sheltered text e above := by
  have hclosed := h.closeUpTo name start
  cases hstep with
  | @absorbed child void =>
    have hlast := Draft.voidBefore?_eq_some void
    rcases hopen with hopen | hnil
    · have hall := hopen.finished.1
      rw [hlast] at hall
      obtain ⟨-, hchild, -⟩ := allIn_concat.mp hall
      exact .inside (hchild.ended child.stop child.closed _) (hopen.finished.pop hlast rfl)
        (forall_openElements_congr hopen.receptive (·.congr rfl))
    · simp [hnil] at hlast
  | found void closed =>
    rw [closed] at hclosed
    cases hclosed with
    | inside confined finished around =>
      exact .inside (confined.ended _ true _) (finished.congr rfl) around
  | lost void closed =>
    rw [closed] at hclosed
    exact hclosed

end

-- ---------------------------------------------------------------------------
-- Tokens
-- ---------------------------------------------------------------------------

/-- The innermost element has nothing in it so far, and its body will be read in this way. -/
structure Fresh (text : Text) (raw : RawText) (e : Element) (above : List Element) : Prop where
  sheltered : Sheltered text e above
  empty : e.isEmpty = true
  rawText : e.rawText = raw

/-- A raw body has been read, and the next tokens are an end tag and its name, or its name if the
bracket is over. -/
structure Pending (text : Text) (kinds : List TokenKind) (todo : List Placed) (e : Element)
    (above : List Element) : Prop where
  sheltered : Sheltered text e above
  children : e.children = []
  next : todo = [] ∨ kinds <+: todo.map Placed.kind

/-- What is known of the elements when `todo` is still to be read, in `state`. -/
def Contained (text : Text) (todo : List Placed) (state : ScanState) (d : Draft) : Prop :=
  match state with
  | .afterTagOpen | .tag _ | .afterAttributeName _ | .beforeAttributeValue _ =>
    Fresh text state.rawText d.current d.above
  | .scriptBody => Fresh text .script d.current d.above ∨ Sheltered text d.current d.above ∧ todo = []
  | .styleBody => Fresh text .style d.current d.above ∨ Sheltered text d.current d.above ∧ todo = []
  | .content => Receiving text d.current d.above ∨
      Pending text [.endTagOpen, .endTagName] todo d.current d.above
  | .afterEndTagOpen => Receiving text d.current d.above ∨
      Pending text [.endTagName] todo d.current d.above
  | .doctype | .comment => Receiving text d.current d.above
  | .endTag => Sheltered text d.current d.above

section
variable {text : Text} {todo done : List Placed} {p : Placed} {d d' : Draft} {raw raw' : RawText}
  {e e' : Element} {above : List Element} {kinds : List TokenKind}

theorem Contained.sameTree {state : ScanState} (h : Contained text todo state d) (hd : d'.SameTree d) :
    Contained text todo state d' := by
  cases state <;> simpa only [Contained, hd.current, hd.above] using h

theorem Fresh.replace (h : Fresh text raw e above) (hempty : e'.isEmpty = e.isEmpty)
    (hraw : e'.rawText = raw') : Fresh text raw' e' above := by
  have hnow := hempty.trans h.empty
  have hchildren := (Element.isEmpty_iff.mp hnow).1.trans (Element.isEmpty_iff.mp h.empty).1.symm
  exact ⟨h.sheltered.replace (.of_isEmpty hnow) hchildren, hnow, hraw⟩

theorem Contained.sheltered {state : ScanState} (h : Contained text todo state d) :
    Sheltered text d.current d.above := by
  cases state with
  | content | afterEndTagOpen => exact h.elim Receiving.sheltered Pending.sheltered
  | scriptBody | styleBody => exact h.elim Fresh.sheltered And.left
  | doctype | comment => exact Receiving.sheltered h
  | endTag => exact h
  | afterTagOpen | tag | afterAttributeName | beforeAttributeValue => exact Fresh.sheltered h

theorem Pending.cons {first : TokenKind} (h : Pending text (first :: kinds) (p :: todo) e above) :
    first = p.kind ∧ kinds <+: todo.map Placed.kind := by
  rcases h.next with hnil | hnext
  · cases hnil
  · exact List.cons_prefix_cons.mp hnext

theorem Pending.tail {first : TokenKind} (h : Pending text (first :: kinds) (p :: todo) e above) :
    Pending text kinds todo e above :=
  ⟨h.sheltered, h.children, .inr h.cons.2⟩

theorem Receiving.openElement (h : Receiving text d.current d.above) (start size : Nat) :
    Fresh text .none (d.openElement start size).current (d.openElement start size).above where
  sheltered := .inside (.of_isEmpty rfl) (h.finished.opened rfl) h.receptive
  empty := rfl
  rawText := rfl

theorem Fresh.receiving (h : Fresh text .none e above)
    (hwaiting : ∀ x ∈ openElements e above, Waiting text x) : Receiving text e above := by
  obtain ⟨hsheltered, -, hraw⟩ := h
  cases hsheltered with
  | root finished => exact ⟨List.forall_mem_nil _, finished⟩
  | inside _ finished around =>
    obtain ⟨he, -⟩ := List.forall_mem_cons.mp hwaiting
    exact ⟨List.forall_mem_cons.mpr ⟨⟨he, hraw⟩, around⟩, finished⟩

theorem Fresh.style (h : Fresh text .style e above)
    (hwaiting : ∀ x ∈ openElements e above, Waiting text x) {runs : List String}
    (hruns : runs.length ≤ 1) : Sheltered text { e with text := runs } above := by
  obtain ⟨hsheltered, hempty, hraw⟩ := h
  cases hsheltered with
  | root finished => exact .root (finished.congr rfl)
  | inside _ finished around =>
    obtain ⟨he, -⟩ := List.forall_mem_cons.mp hwaiting
    have hraw' : Element.rawText { e with text := runs } = .style := hraw
    have hchildren : e.children = [] := (Element.isEmpty_iff.mp hempty).1
    exact .inside (.of_waiting (he.setText runs) (by simp [hraw']) fun _ => ⟨hchildren, hruns⟩)
      (finished.congr rfl) around

theorem Fresh.closeStartTag (h : Fresh text raw d.current d.above) (stop : Nat)
    (hnext : Tracked text done (Token.bodyState raw) (d.closeStartTag stop)) :
    Contained text todo (Token.bodyState raw) (d.closeStartTag stop) := by
  revert hnext
  unfold Draft.closeStartTag
  split
  · next hvoid =>
    intro _
    obtain rfl : RawText.none = raw := (Element.rawText_of_isVoid hvoid).symm.trans h.rawText
    exact .inl (h.sheltered.leave _ (·.ended stop true _) rfl)
  · intro hnext
    have hfresh : Fresh text raw { d.current with stop } d.above := h.replace rfl h.rawText
    cases raw with
    | none => exact .inl (hfresh.receiving hnext.waiting)
    | script | style => exact .inl hfresh

theorem Fresh.acceptInTag {context : TagContext} {kind : TokenKind} {state : ScanState}
    (hreads : ReadsInTag context kind state) (hkind : p.kind = kind)
    (h : Fresh text context.rawText d.current d.above) (hnext : Tracked text done state (d.accept text p)) :
    Contained text todo state (d.accept text p) := by
  have hnote := d.note_sameTree p
  rw [← hnote.current, ← hnote.above] at h
  simp only [Draft.accept, hkind] at hnext ⊢
  cases hreads with
  | blank | unexpected => exact h
  | attributeName =>
    refine Contained.sameTree (d := { d.note p with current := _ }) ?_ (Draft.addAttribute_sameTree _ _ _ _)
    exact h.replace rfl h.rawText
  | selfClose => exact .inl (h.sheltered.leave _ (·.ended p.stop true _) rfl)
  | close => exact h.closeStartTag p.stop hnext

theorem ScanState.Reads.of_endTagOpen {state after : ScanState} (h : Reads state .endTagOpen after) :
    after = .afterEndTagOpen := by
  cases h with
  | nameless h | tag h | valueless h | missingValue _ h => cases h
  | endTagOpen | scriptEnd | styleEnd => rfl

theorem Fresh.body {word : Text} {kind : TokenKind} (h : Fresh text raw d.current d.above)
    (hraw : raw.body? = some (word, kind)) (hkind : p.kind = kind)
    (hwaiting : ∀ x ∈ openElements d.current d.above, Waiting text x) :
    Sheltered text (d.accept text p).current (d.accept text p).above ∧
      (d.accept text p).current.children = [] := by
  obtain ⟨hcurrent, habove, -⟩ := d.note_sameTree p
  rw [← hcurrent, ← habove] at h hwaiting
  obtain ⟨hchildren, hruns⟩ := Element.isEmpty_iff.mp h.empty
  cases raw with
  | none => cases hraw
  | script =>
    cases hraw
    simp only [Draft.accept, hkind]
    exact ⟨h.sheltered, hchildren⟩
  | style =>
    cases hraw
    simp only [Draft.accept, hkind, Draft.addText_eq _ hkind, hruns, List.nil_append]
    exact ⟨h.style hwaiting Option.length_toList_le, hchildren⟩

/-- The body of a raw element, or the end tag right after its start tag. -/
theorem Fresh.acceptBody {word : Text} {kind : TokenKind} {offset : Nat} {cs : Text}
    (h : Fresh text raw d.current d.above) (hraw : raw.body? = some (word, kind))
    (hscan : scan (Token.bodyState raw) offset cs = p :: todo)
    (hwaiting : ∀ x ∈ openElements d.current d.above, Waiting text x) :
    Contained text todo p.state (d.accept text p) := by
  rcases scan_bodyState_cons hraw hscan with ⟨hkind, hnext⟩ | ⟨hkind, hnext⟩
  · have hreads := (scan_step hscan).1
    rw [hkind] at hreads
    rw [hreads.of_endTagOpen, Draft.accept, hkind]
    obtain ⟨hcurrent, habove, -⟩ := d.note_sameTree p
    rw [← hcurrent, ← habove] at h
    exact .inr ⟨h.sheltered, (Element.isEmpty_iff.mp h.empty).1, .inr hnext⟩
  · obtain ⟨hsheltered, hchildren⟩ := h.body hraw hkind hwaiting
    rcases hnext with ⟨hstate, htodo⟩ | ⟨hstate, hnext⟩
    · rw [hstate]
      cases raw with
      | none => cases hraw
      | script | style => exact .inr ⟨hsheltered, htodo⟩
    · rw [hstate]
      exact .inr ⟨hsheltered, hchildren, .inr hnext⟩

theorem Contained.accept (h : Contained text (p :: todo) (finalState .content done) d)
    (htokens : tokens text = done ++ p :: todo) (hnow : Tracked text done (finalState .content done) d)
    (hnext : Tracked text (done ++ [p]) p.state (d.accept text p)) :
    Contained text todo p.state (d.accept text p) := by
  have hreads := (reads_of_scan htokens).1
  obtain ⟨-, cs, -, -, hscan⟩ := scan_eq_append htokens
  have hnoted := h.sameTree (d.note_sameTree p)
  generalize finalState .content done = state at *
  generalize hk : p.kind = kind at hreads
  generalize hs : p.state = after at hreads hnext ⊢
  cases hreads with
  | nameless hin | tag hin | valueless hin | missingValue _ hin =>
    exact Fresh.acceptInTag hin hk h hnext
  | script | scriptToEnd | scriptEnd | style | styleToEnd | styleEnd =>
    rcases h with h | ⟨-, hnil⟩
    · exact hs ▸ h.acceptBody rfl hscan.symm hnow.waiting
    · cases hnil
  | tagName context =>
    obtain rfl : ⟨TagName.rawText p.lexeme, false⟩ = context :=
      ScanState.tag.inj ((state_of_tagName htokens hk).symm.trans hs)
    have hfresh : Fresh text .none (d.note p).current (d.note p).above := hnoted
    simp only [Draft.accept, hk]
    refine Contained.sameTree (d := { d.note p with current := _ }) ?_ (Draft.nameElement_sameTree _ _ _ _)
    exact hfresh.replace rfl (Element.rawText_named _ p.lexeme)
  | value =>
    have hfresh : Fresh text _ (d.note p).current (d.note p).above := hnoted
    simp only [Draft.accept, hk]
    refine Contained.sameTree (d := { d.note p with current := _ }) ?_ (Draft.addValue_sameTree _ _ _ _)
    exact hfresh.replace rfl hfresh.rawText
  | blankBeforeName | blankAfterName | assign | blankBeforeValue | comment | doctype =>
    simp only [Draft.accept, hk]
    exact hnoted
  | commentClose | doctypeClose =>
    simp only [Draft.accept, hk]
    exact .inl hnoted
  | content =>
    rcases hnoted with h | h
    · simp only [Draft.accept, hk, Draft.addText_eq _ hk]
      exact .inl (h.replace (·.setText _) rfl)
    · cases h.cons.1.trans hk
  | commentOpen | doctypeOpen =>
    simp only [Draft.accept, hk]
    rcases hnoted with h | h
    · exact h
    · cases h.cons.1.trans hk
  | tagOpen =>
    rcases hnoted with h | h
    · simp only [Draft.accept, hk]
      exact h.openElement p.offset text.size
    · cases h.cons.1.trans hk
  | endTagOpen =>
    simp only [Draft.accept, hk]
    exact hnoted.imp_right Pending.tail
  | blankBeforeEndName =>
    rcases hnoted with h | h
    · simp only [Draft.accept, hk]
      exact .inl h
    · cases h.cons.1.trans hk
  | endTagName =>
    simp only [Draft.accept, hk]
    exact hnoted.sheltered.nameEndTag (hnoted.imp_right Pending.children) (Draft.nameEndTag_step _ _ _ _ _)
  | unknownEndName | blankInEndTag | unknownInEndTag =>
    simp only [Draft.accept, hk]
    exact hnoted.sheltered
  | namelessClose | endTagClose =>
    simp only [Draft.accept, hk]
    exact .inl (hnoted.sheltered.leave _ (·.ended p.stop _ _) rfl)

theorem Contained.after (h : tokens text = done ++ todo) :
    Contained text todo (finalState .content done) (Draft.after text done) := by
  refine Draft.after_induction (motive := fun done => ∀ todo, tokens text = done ++ todo →
    Contained text todo (finalState .content done) (Draft.after text done)) ?_ ?_ h todo h
  · intro todo _
    exact .inl ⟨List.forall_mem_nil _, allIn_nil, List.forall_mem_nil _⟩
  · intro done p todo htokens _ ih todo' hsplit
    obtain rfl : todo = todo' := by simpa [hsplit] using htokens.symm
    have hnext := Tracked.after hsplit
    rw [finalState_concat, Draft.after_concat] at hnext ⊢
    exact (ih _ htokens).accept htokens (Tracked.after htokens) hnext

end

/-- Every element of a document holds no more than it may. -/
theorem parse_confined (text : Text) : AllIn (Element.Confined text) (Document.parse text).roots :=
  (Contained.after (List.append_nil (tokens text)).symm).sheltered.closeAll text.size

-- ---------------------------------------------------------------------------
-- Whole documents
-- ---------------------------------------------------------------------------

theorem TagName.isEmpty_iff {tag : String} :
    isEmpty tag = true ↔ isVoid tag = true ∨ tag.toLower = "camera" ∨ tag.toLower = "video" := by
  simp only [isEmpty, isVoid, List.contains_iff_mem]
  generalize tag.toLower = name
  constructor
  · revert name
    decide
  · rintro (hvoid | rfl | rfl)
    · revert name
      decide
    · decide
    · decide

theorem Element.rawText_of_toLower {e : Element} {tag : String} {raw : RawText} {word : Text}
    {kind : TokenKind} (htag : e.tag = some tag) (hraw : raw.body? = some (word, kind))
    (hname : tag.toLower.toList = word) : e.rawText = raw := by
  rw [Element.rawText, htag]
  exact TagName.rawText_of_fold hraw ((TagName.fold_toList tag).trans hname)

theorem Element.mem_check_content {e : Element} {s : Schema} {dir : Option Path} {x : Diagnostic} :
    x ∈ e.check s dir ∧ x.defect = .contentInEmptyElement ↔
      ∃ tag, e.tag = some tag ∧ TagName.isEmpty tag = true ∧ e.isEmpty = false ∧
        x = ⟨.contentInEmptyElement, e.start, e.stop⟩ := by
  constructor
  · rintro ⟨h, hdefect⟩
    cases blames_of_mem_check h with
    | content tag htag hempty hfilled => exact ⟨tag, htag, hempty, hfilled, rfl⟩
    | known a hblames => cases hblames <;> cases hdefect
    | child | source | repeated | unknown => cases hdefect
  · rintro ⟨tag, htag, hempty, hfilled, rfl⟩
    have hmem := mem_checkContent.mpr ⟨hempty, hfilled, rfl⟩
    simp [check, htag, hmem]

theorem Document.mem_diagnostics_content {d : Document} {s : Schema} {path : Option Path}
    {has : Path → Bool} {x : Diagnostic} :
    x ∈ d.diagnostics s path has ∧ x.message = "Empty tag should not have children" ↔
      ∃ e ∈ d.elements, ∃ tag, e.tag = some tag ∧ TagName.isEmpty tag = true ∧ e.isEmpty = false ∧
        x = ⟨.contentInEmptyElement, e.start, e.stop⟩ := by
  constructor
  · rintro ⟨hx, hmessage⟩
    have hdefect : x.defect = .contentInEmptyElement := Defect.eq_of_message hmessage
    rcases List.mem_append.mp (List.mem_filter.mp hx).1 with hx | hx
    · obtain ⟨p, -, rfl⟩ := List.mem_map.mp hx
      cases hdefect
    · obtain ⟨e, he, hx⟩ := List.mem_flatMap.mp hx
      exact ⟨e, he, Element.mem_check_content.mp ⟨hx, hdefect⟩⟩
  · rintro ⟨e, he, tag, htag, hempty, hfilled, rfl⟩
    obtain ⟨hcheck, -⟩ := Element.mem_check_content.mpr ⟨tag, htag, hempty, hfilled, rfl⟩
    refine ⟨List.mem_filter.mpr ⟨List.mem_append_right _ (List.mem_flatMap.mpr ⟨e, he, hcheck⟩), rfl⟩, rfl⟩

/-- A document that is read keeps void elements, scripts and elements that end with `/>` empty, and a
style element has one run of text at most. So it is a camera or a video if a page is told that an empty
element has content. -/
theorem parse_emptyElements (text : Text) :
    (∀ e ∈ (Document.parse text).elements,
      (∀ tag, e.tag = some tag → TagName.isVoid tag = true ∨ tag.toLower = "wxs" →
        e.children = [] ∧ e.text = []) ∧
      (∀ t, TagEnds text e.start t → t.kind = .tagSelfClose → e.children = [] ∧ e.text = []) ∧
      ∀ tag, e.tag = some tag → tag.toLower = "style" → e.children = [] ∧ e.text.length ≤ 1) ∧
    ∀ s path has x,
      (x ∈ (Document.parse text).diagnostics s path has ∧ x.message = "Empty tag should not have children") ↔
        ∃ e ∈ (Document.parse text).elements, ∃ tag, e.tag = some tag ∧
          (tag.toLower = "camera" ∨ tag.toLower = "video") ∧ ¬ (e.children = [] ∧ e.text = []) ∧
          x = ⟨.contentInEmptyElement, e.start, e.stop⟩ := by
  have hconfined := parse_confined text
  refine ⟨fun e he => ⟨?_, ?_, ?_⟩, fun s path has x => ?_⟩
  · rintro tag htag (hvoid | hscript)
    · refine Element.isEmpty_iff.mp ((hconfined e he).void ?_)
      rwa [Element.isVoid, htag]
    · exact Element.isEmpty_iff.mp ((hconfined e he).script
        (Element.rawText_of_toLower htag rfl (congrArg String.toList hscript)))
  · exact fun t ht hkind => Element.isEmpty_iff.mp ((hconfined e he).selfClosed t ht hkind)
  · exact fun tag htag hstyle =>
      (hconfined e he).style (Element.rawText_of_toLower htag rfl (congrArg String.toList hstyle))
  · rw [Document.mem_diagnostics_content]
    constructor
    · rintro ⟨e, he, tag, htag, hempty, hfilled, rfl⟩
      have hvoid : TagName.isVoid tag ≠ true := by
        intro hvoid
        have := (hconfined e he).void (by rwa [Element.isVoid, htag])
        cases hfilled.symm.trans this
      refine ⟨e, he, tag, htag, (TagName.isEmpty_iff.mp hempty).resolve_left hvoid, ?_, rfl⟩
      simp [← Element.isEmpty_iff, hfilled]
    · rintro ⟨e, he, tag, htag, hname, hfilled, rfl⟩
      refine ⟨e, he, tag, htag, TagName.isEmpty_iff.mpr (.inr hname), ?_, rfl⟩
      exact Bool.of_not_eq_true fun hempty => hfilled (Element.isEmpty_iff.mp hempty)

end PageMarkup
