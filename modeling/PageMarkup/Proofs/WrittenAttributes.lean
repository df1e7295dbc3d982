import PageMarkup.Proofs.Sites

/-!
# Attributes as they are written

Every token that names an attribute gives one to the start tag that is being read, and nothing else
does; the value is that of the next token but for blanks and `=`. A value that is written right after
its name, in quotes, stands in the text at the offset that its attribute says.
-/

namespace PageMarkup

open ScanState (Reads ReadsInTag)

def Placed.value? (p : Placed) : Option String :=
  if p.kind = .attributeValue then some (String.ofList (unquote p.lexeme)) else none

/-- The value that is written after the name of an attribute: `=` and a value come next, with nothing
but blanks between. -/
def valueAfter? (rest : List Placed) : Option String :=
  match rest.filter (·.kind ≠ .blank) with
  | a :: v :: _ => if a.kind = .assign then v.value? else none
  | _ => none

/-- The attributes that some tokens write, each with the offset of the start tag that it is in; the
last start tag before the tokens is at `start`. -/
def writtenAttributes (start : Nat) : List Placed → List (Nat × Attribute)
  | [] => []
  | p :: rest =>
    match p.kind with
    | .tagOpen => writtenAttributes p.offset rest
    | .attributeName =>
      (start, { name := String.ofList p.lexeme, offset := p.offset, value := valueAfter? rest }) ::
        writtenAttributes start rest
    | _ => writtenAttributes start rest

-- ---------------------------------------------------------------------------
-- Values
-- ---------------------------------------------------------------------------

/-- The value that is still to come for the last attribute. -/
def ScanState.awaitedValue? (state : ScanState) (rest : List Placed) : Option String :=
  match state with
  | .afterAttributeName _ => valueAfter? rest
  | .beforeAttributeValue _ => (rest.filter (·.kind ≠ .blank)).head?.bind Placed.value?
  | _ => none

theorem ScanState.Reads.after_attributeName (h : Reads state .attributeName after) :
    ∃ context, after = .afterAttributeName context := by
  cases h with
  | nameless h | tag h | valueless h | missingValue _ h =>
    cases h
    exact ⟨_, rfl⟩

theorem ScanState.Reads.after_attributeValue (h : Reads state .attributeValue after) :
    ∃ context, after = .tag context := by
  cases h with
  | nameless h | tag h | valueless h | missingValue _ h => cases h
  | value => exact ⟨_, rfl⟩

theorem Token.bodyState_awaitedValue? (raw : RawText) (rest : List Placed) :
    (bodyState raw).awaitedValue? rest = none := by
  cases raw <;> rfl

section
variable {state : ScanState} {p : Placed} {rest : List Placed}

theorem valueAfter?_cons (p : Placed) (rest : List Placed) :
    valueAfter? (p :: rest) = match p.kind with
      | .blank => valueAfter? rest
      | .assign => (rest.filter (·.kind ≠ .blank)).head?.bind Placed.value?
      | _ => none := by
  rw [valueAfter?, List.filter_cons]
  cases hkind : p.kind with
  | blank => rfl
  | assign => cases rest.filter (·.kind ≠ .blank) <;> simp [hkind]
  | _ => cases rest.filter (·.kind ≠ .blank) <;> simp [hkind]

theorem awaitedValue?_of_blank (h : scan state offset cs = p :: rest) (hkind : p.kind = .blank) :
    state.awaitedValue? (p :: rest) = p.state.awaitedValue? rest := by
  obtain ⟨c, tail, -, hp, -⟩ := scan_eq_cons h
  obtain ⟨hreads, -⟩ := scan_step h
  cases state with
  | afterAttributeName context =>
    have hstate : p.state = .afterAttributeName { context with afterBlank := true } := by
      rw [hp] at hkind ⊢
      exact Token.nextAfterAttributeName_blank hkind
    rw [hstate]
    simp only [ScanState.awaitedValue?, valueAfter?_cons, hkind]
  | beforeAttributeValue context =>
    have hstate : p.state = .beforeAttributeValue context := by
      rw [hp] at hkind ⊢
      exact Token.nextValue_blank hkind
    rw [hstate]
    simp [ScanState.awaitedValue?, hkind]
  | tag =>
    rw [hkind] at hreads
    generalize p.state = after at hreads ⊢
    cases hreads with
    | tag hin =>
      cases hin
      rfl
  | afterTagOpen =>
    rw [hkind] at hreads
    generalize p.state = after at hreads ⊢
    cases hreads with
    | blankBeforeName => rfl
    | nameless hin =>
      cases hin
      rfl
  | _ =>
    rw [hkind] at hreads
    generalize p.state = after at hreads ⊢
    cases hreads <;> rfl

theorem awaitedValue?_cons (h : scan state offset cs = p :: rest) :
    state.awaitedValue? (p :: rest) = match p.kind with
      | .attributeName => none
      | .attributeValue => p.value?
      | _ => p.state.awaitedValue? rest := by
  by_cases hblank : p.kind = .blank
  · rw [awaitedValue?_of_blank h hblank, hblank]
  obtain ⟨hreads, -⟩ := scan_step h
  generalize hkind : p.kind = kind at hreads hblank
  generalize p.state = after at hreads
  cases hreads with
  | nameless hin | tag hin =>
    cases hin with
    | close => exact (Token.bodyState_awaitedValue? _ _).symm
    | _ => rfl
  | valueless hin =>
    rw [ScanState.awaitedValue?, valueAfter?_cons, hkind]
    cases hin with
    | blank => exact absurd rfl hblank
    | close => exact (Token.bodyState_awaitedValue? _ _).symm
    | _ => rfl
  | missingValue _ hin =>
    cases hin with
    | blank => exact absurd rfl hblank
    | close =>
      refine Eq.trans ?_ (Token.bodyState_awaitedValue? _ _).symm
      simp [ScanState.awaitedValue?, hkind, Placed.value?]
    | _ => simp [ScanState.awaitedValue?, hkind, Placed.value?]
  | assign => simp only [ScanState.awaitedValue?, valueAfter?_cons, hkind]
  | value => simp [ScanState.awaitedValue?, hkind]
  | blankAfterName | blankBeforeValue => exact absurd rfl hblank
  | _ => rfl

end

-- ---------------------------------------------------------------------------
-- Start tags
-- ---------------------------------------------------------------------------

namespace StartTag

def placed (s : StartTag) : List (Nat × Attribute) :=
  s.attributes.map (s.start, ·)

def withValue (s : StartTag) : Option String → StartTag
  | some value => { s with attributes := setLastValue value s.attributes }
  | none => s

@[simp]
theorem start_read (s : StartTag) (p : Placed) : (s.read p).start = s.start :=
  (foldl_read_place s [p]).2

theorem placed_withValue_attributeName (s : StartTag) {p : Placed} (hkind : p.kind = .attributeName)
    (value : Option String) :
    ((s.read p).withValue value).placed =
      s.placed ++ [(s.start, { name := String.ofList p.lexeme, offset := p.offset, value })] := by
  cases value <;> simp [read, hkind, withValue, placed, setLastValue_append]

theorem placed_withValue_read (s : StartTag) {p : Placed} (hname : p.kind ≠ .attributeName)
    (hvalue : p.kind ≠ .attributeValue) (value : Option String) :
    ((s.read p).withValue value).placed = (s.withValue value).placed := by
  unfold read
  cases hkind : p.kind with
  | attributeName => exact absurd hkind hname
  | attributeValue => exact absurd hkind hvalue
  | tagName => cases value <;> rfl
  | _ => rfl

end StartTag

/-- The tokens that are still to come complete the last attribute and write the others. -/
theorem flatMap_placed_of_scan {ts : List Placed} (h : scan state offset cs = ts) (s : StartTag)
    (count : Nat) :
    ((ts.takeWhile (·.kind ≠ .tagOpen)).foldl StartTag.read s :: startTags count ts).flatMap
        StartTag.placed =
      (s.withValue (state.awaitedValue? ts)).placed ++ writtenAttributes s.start ts := by
  induction ts generalizing state offset cs s count with
  | nil =>
    have hnone : state.awaitedValue? [] = none := by cases state <;> rfl
    rw [hnone]
    rfl
  | cons p ts ih =>
    obtain ⟨hreads, -, tail, htail⟩ := scan_step h
    rw [awaitedValue?_cons h, startTags, writtenAttributes, List.takeWhile_cons]
    cases hkind : p.kind with
    | tagOpen =>
      have hlater := ih htail { id := count + 1, start := p.offset } (count + 1)
      rw [hkind] at hreads
      rw [hreads.of_tagOpen] at hlater ⊢
      simpa [StartTag.withValue, ScanState.awaitedValue?, StartTag.placed] using hlater
    | attributeName =>
      have hlater := ih htail (s.read p) count
      rw [hkind] at hreads
      obtain ⟨context, hstate⟩ := hreads.after_attributeName
      rw [hstate, s.placed_withValue_attributeName hkind] at hlater
      simpa [StartTag.withValue, ScanState.awaitedValue?] using hlater
    | attributeValue =>
      have hlater := ih htail (s.read p) count
      rw [hkind] at hreads
      obtain ⟨context, hstate⟩ := hreads.after_attributeValue
      rw [hstate] at hlater
      simpa [StartTag.withValue, ScanState.awaitedValue?, StartTag.read, Placed.value?, hkind] using hlater
    | _ =>
      have hlater := ih htail (s.read p) count
      rw [s.placed_withValue_read (by simp [hkind]) (by simp [hkind])] at hlater
      simpa using hlater

theorem parse_root_attributes (text : Text) : (Document.parse text).root.attributes = [] := by
  cases parse_root_isOpen text with
  | root _ _ _ attributes => exact attributes

/-- The attributes of a document are those that its tokens write, in order. -/
theorem flatMap_attributes_eq (text : Text) :
    ((Document.parse text).elements.flatMap fun e => e.attributes.map (e.start, ·)) =
      writtenAttributes 0 (tokens text) := by
  have hscan : scan .content 0 text = tokens text := rfl
  have hall := flatMap_placed_of_scan hscan { id := 0, start := 0 } 0
  rw [← preorder_map_startTag, Element.preorder_eq, List.flatMap_map, List.flatMap_cons] at hall
  have hroot : (Document.parse text).root.startTag.placed = [] := by
    simp [StartTag.placed, Element.startTag, parse_root_attributes]
  rw [hroot] at hall
  exact hall

-- ---------------------------------------------------------------------------
-- Values in the text
-- ---------------------------------------------------------------------------

theorem exists_of_mem_writtenAttributes {ts : List Placed} (h : (start', a) ∈ writtenAttributes start ts) :
    ∃ before p rest, ts = before ++ p :: rest ∧ p.kind = .attributeName ∧
      a = { name := String.ofList p.lexeme, offset := p.offset, value := valueAfter? rest } := by
  induction ts generalizing start with
  | nil => cases h
  | cons q ts ih =>
    have hlater {start : Nat} (h : (start', a) ∈ writtenAttributes start ts) :
        ∃ before p rest, q :: ts = before ++ p :: rest ∧ p.kind = .attributeName ∧
          a = { name := String.ofList p.lexeme, offset := p.offset, value := valueAfter? rest } := by
      obtain ⟨before, p, rest, rfl, hp⟩ := ih h
      exact ⟨q :: before, p, rest, rfl, hp⟩
    rw [writtenAttributes] at h
    split at h
    · exact hlater h
    · next hkind =>
      rcases List.mem_cons.mp h with heq | h
      · exact ⟨[], q, ts, rfl, hkind, (Prod.mk.inj heq).2⟩
      · exact hlater h
    · exact hlater h

theorem exists_token_of_mem_attributes (he : e ∈ (Document.parse text).elements) (ha : a ∈ e.attributes) :
    ∃ before p rest, tokens text = before ++ p :: rest ∧ p.kind = .attributeName ∧
      a = { name := String.ofList p.lexeme, offset := p.offset, value := valueAfter? rest } := by
  have hwritten : (e.start, a) ∈ writtenAttributes 0 (tokens text) := by
    rw [← flatMap_attributes_eq]
    exact List.mem_flatMap.mpr ⟨e, he, List.mem_map_of_mem ha⟩
  exact exists_of_mem_writtenAttributes hwritten

theorem nextQuoted_value (context : TagContext) (cs : Text) :
    (Token.nextQuoted context '"' cs).token.kind = .attributeValue ∧
      ∃ rest, cs = unquote (Token.nextQuoted context '"' cs).token.lexeme ++ rest := by
  have hcut := List.takeWhile_append_dropWhile (p := (· ≠ '"')) (l := cs)
  unfold Token.nextQuoted
  split
  · next hopen =>
    -- There is no other quote, so none is taken off the end.
    have hlast : cs.getLast? ≠ some '"' := by
      intro hlast
      have hmem := List.mem_of_getLast? hlast
      rw [← hcut, hopen, List.append_nil] at hmem
      simpa using List.all_eq_true.mp List.all_takeWhile _ hmem
    refine ⟨rfl, [], ?_⟩
    simp [unquote, hlast]
  · next close rest hclose =>
    have hquote : close = '"' := by
      have := List.head?_dropWhile_not (· ≠ '"') cs
      rw [hclose] at this
      simpa using this
    subst hquote
    refine ⟨rfl, '"' :: rest, ?_⟩
    rw [← hclose]
    simp [unquote]

theorem valueAfter?_of_quoted (context : TagContext) (offset : Nat) (cs : Text) :
    ∃ value rest, cs = value ++ rest ∧
      valueAfter? (scan (.afterAttributeName context) offset ('=' :: '"' :: cs)) =
        some (String.ofList value) := by
  obtain ⟨hkind, rest, hcut⟩ := nextQuoted_value { context with afterBlank := false } cs
  refine ⟨_, rest, hcut, ?_⟩
  have hassign : Token.next (.afterAttributeName context) '=' ('"' :: cs) =
      ⟨⟨.assign, ['='], none⟩, .beforeAttributeValue context, '"' :: cs⟩ := rfl
  have hvalue : Token.next (.beforeAttributeValue context) '"' cs =
      Token.nextQuoted { context with afterBlank := false } '"' cs := rfl
  rw [scan_cons, hassign, scan_cons, hvalue]
  simp [valueAfter?, Placed.value?, Placed.kind, Placed.lexeme, hkind]

/-- A value that is written right after its name and in quotes is where its attribute says. -/
theorem slice?_value (he : e ∈ (Document.parse text).elements) (ha : a ∈ e.attributes)
    (hquoted : text.suffixAt? a.stop = some ('=' :: '"' :: tail)) :
    ∃ value offset, a.value = some value ∧ a.valueOffset? = some offset ∧
      text.slice? offset (offset + Text.size value.toList) = some value.toList := by
  obtain ⟨before, p, rest, htokens, hkind, heq⟩ := exists_token_of_mem_attributes he ha
  have hsplit : tokens text = (before ++ [p]) ++ rest := by simpa using htokens
  obtain ⟨front, onward, rfl, hstop, hrest⟩ := scan_eq_append hsplit
  have hreads := (reads_of_scan htokens).1
  rw [hkind] at hreads
  obtain ⟨context, hstate⟩ := hreads.after_attributeName
  rw [finalOffset_concat, Nat.zero_add] at hstop
  have hend : a.stop = Text.size front := by
    rw [← hstop, heq, Attribute.stop, String.toList_ofList]
    rfl
  rw [hend, Text.suffixAt?_size_append] at hquoted
  cases hquoted
  rw [finalState_concat, hstate] at hrest
  obtain ⟨value, after, rfl, hvalue⟩ := valueAfter?_of_quoted context _ tail
  replace hvalue : a.value = some (String.ofList value) := by rw [heq, hrest, hvalue]
  refine ⟨String.ofList value, Text.size front + 2, hvalue, ?_, ?_⟩
  · rw [Attribute.valueOffset?, hend, hvalue]
    rfl
  · have hsize : Text.size (front ++ ['=', '"']) = Text.size front + 2 := Text.size_append _ _
    have hslice := Text.slice?_append (front ++ ['=', '"']) value after
    rw [hsize] at hslice
    simpa using hslice

end PageMarkup
