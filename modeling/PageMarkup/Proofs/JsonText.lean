import PageMarkup.Json.Reader

/-!
# Reading what was written

A value is written without blanks, so that its text can be read one lexeme at a time. `ReadsBack`
says of a value that its text, wherever it stands, is read as the value. Strings have this
property whatever they contain, and containers have it if all in them do.
-/

namespace PageMarkup.Json

-- ---------------------------------------------------------------------------
-- Strings
-- ---------------------------------------------------------------------------

theorem codeUnit?_control : ∀ n < 0x20,
    codeUnit? '0' '0' (Nat.digitChar (n / 16)) (Nat.digitChar (n % 16)) = some n := by
  decide

theorem readString_escapeChar (c : Char) (cs : Text) :
    readString (escapeChar c ++ cs) = push (some c) (readString cs) := by
  unfold escapeChar
  split
  case h_8 hquote hbackslash _ _ _ _ _ =>
    split
    · next hcontrol =>
      have hlow : isHighSurrogate c.toNat = false ∧ isLowSurrogate c.toNat = false := by
        simp only [isHighSurrogate, isLowSurrogate, Bool.and_eq_false_iff, decide_eq_false_iff_not]
        omega
      simp only [List.cons_append, List.nil_append]
      rw [readString, codeUnit?_control _ hcontrol]
      simp [hlow, Char.ofNat_toNat]
    · next hplain =>
      rw [List.cons_append, List.nil_append, readString, if_neg hplain]
      · exact hquote
      · intro _ _ _ _ _ h
        exact absurd h hbackslash
      · intro _ _ h
        exact absurd h hbackslash
  all_goals
    rw [List.cons_append, List.cons_append, List.nil_append, readString]
    · rfl
    · simp

theorem readString_quoted (s cs : Text) :
    readString (s.flatMap escapeChar ++ '"' :: cs) = some (some s, cs) := by
  induction s with
  | nil => rw [List.flatMap_nil, List.nil_append, readString]
  | cons c s ih =>
    rw [List.flatMap_cons, List.append_assoc, readString_escapeChar, ih]
    rfl

-- ---------------------------------------------------------------------------
-- One lexeme at a time
-- ---------------------------------------------------------------------------

/-- Reads on from a place inside a value. -/
def resume (expect : Expect) (stack : List Frame) (cs : Text) : Option Json :=
  (lexemes cs).bind (assemble expect stack)

theorem parse?_eq_resume (text : String) : parse? text = resume .value [] text.toList :=
  rfl

theorem resume_nil (v : Json) : resume (.after v) [] [] = some v := by
  simp [resume, lexemes, assemble]

theorem resume_cons (hblank : isJsonBlank c = false) (hread : readLexeme (c :: cs) = some (l, rest))
    (hstep : step? expect stack l = some (expect', stack')) :
    resume expect stack (c :: cs) = resume expect' stack' rest := by
  have hlexemes : lexemes (c :: cs) = (lexemes rest).map (l :: ·) := by
    rw [lexemes, if_neg (by simp [hblank])]
    split
    · next hnone => cases hread.symm.trans hnone
    · next hsome =>
      cases hread.symm.trans hsome
      rfl
  simp only [resume, hlexemes]
  cases lexemes rest with
  | none => rfl
  | some ls => simp [assemble, hstep]

theorem toList_quote (s : String) : (quote s).toList = '"' :: s.toList.flatMap escapeChar ++ ['"'] := by
  simp [quote]

theorem resume_quote (s : String) (cs : Text)
    (hstep : step? expect stack (.atom (.string s)) = some (expect', stack')) :
    resume expect stack ((quote s).toList ++ cs) = resume expect' stack' cs := by
  rw [toList_quote, List.cons_append, List.cons_append]
  refine resume_cons rfl ?_ hstep
  simp [readLexeme, readString_quoted, Lexeme.ofString]

-- ---------------------------------------------------------------------------
-- Values
-- ---------------------------------------------------------------------------

def Expect.TakesValue (expect : Expect) : Prop :=
  expect = .value ∨ expect = .firstItem

theorem Expect.TakesValue.step? {expect : Expect} (h : expect.TakesValue)
    (hbegin : begin? stack l = some next) : step? expect stack l = some next := by
  rcases h with rfl | rfl
  · exact hbegin
  · rw [Json.step?]
    · exact hbegin
    · rintro _ - rfl
      cases hbegin

def ReadsBack (v : Json) : Prop :=
  ∀ expect stack cs, expect.TakesValue →
    resume expect stack (v.compact.toList ++ cs) = resume (.after v) stack cs

theorem parse?_compact (h : ReadsBack v) : parse? v.compact = some v := by
  have hread := h .value [] [] (.inl rfl)
  rw [List.append_nil, resume_nil] at hread
  rw [parse?_eq_resume, hread]

theorem readsBack_string (s : String) : ReadsBack (.string s) := by
  intro expect stack cs hexpect
  rw [compact]
  exact resume_quote s cs (hexpect.step? rfl)

-- ---------------------------------------------------------------------------
-- Containers
-- ---------------------------------------------------------------------------

theorem compactItems_eq_map (items : List Json) : compactItems items = items.map compact := by
  induction items with
  | nil => rfl
  | cons v items ih => rw [compactItems, ih, List.map_cons]

theorem compactFields_eq_map (fields : List (String × Json)) :
    compactFields fields = fields.map compactField := by
  induction fields with
  | nil => rfl
  | cons field fields ih => rw [compactFields, ih, List.map_cons]

def continued (parts : List String) : Text :=
  parts.flatMap fun part => ',' :: part.toList

theorem toList_intercalate_cons (first : String) (parts : List String) :
    (",".intercalate (first :: parts)).toList = first.toList ++ continued parts := by
  induction parts generalizing first with
  | nil => simp [continued]
  | cons second parts ih =>
    rw [String.intercalate_cons_cons, String.toList_append, String.toList_append, ih]
    simp [continued]

theorem resume_comma (hstep : step? expect stack .comma = some (expect', stack')) (cs : Text) :
    resume expect stack (',' :: cs) = resume expect' stack' cs :=
  resume_cons rfl rfl hstep

theorem resume_items {items : List Json} (h : ∀ v ∈ items, ReadsBack v) (done : List Json) (v : Json)
    (stack : List Frame) (cs : Text) :
    resume (.after v) (.array done :: stack) (continued (items.map compact) ++ ']' :: cs) =
      resume (.after (.array (done.reverse ++ v :: items))) stack cs := by
  induction items generalizing done v with
  | nil =>
    refine resume_cons rfl rfl ?_
    simp [step?]
  | cons w items ih =>
    have hw := h w List.mem_cons_self
    simp only [continued, List.map_cons, List.flatMap_cons, List.cons_append, List.append_assoc]
    rw [resume_comma rfl, hw _ _ _ (.inl rfl)]
    refine (ih (fun x hx => h x (List.mem_cons_of_mem w hx)) (v :: done) w).trans ?_
    simp

theorem readsBack_array {items : List Json} (h : ∀ v ∈ items, ReadsBack v) :
    ReadsBack (.array items) := by
  intro expect stack cs hexpect
  have hopen (rest : Text) : resume expect stack ('[' :: rest) =
      resume .firstItem (.array [] :: stack) rest :=
    resume_cons rfl rfl (hexpect.step? rfl)
  rw [compact, compactItems_eq_map]
  cases items with
  | nil => exact (hopen _).trans (resume_cons rfl rfl rfl)
  | cons v items =>
    have hv := h v List.mem_cons_self
    simp only [List.map_cons, String.toList_append, toList_intercalate_cons, List.append_assoc]
    refine (hopen _).trans ((hv _ _ _ (.inr rfl)).trans ?_)
    exact resume_items (fun x hx => h x (List.mem_cons_of_mem v hx)) [] v stack cs

theorem ofMembers_map_some (fields : List (String × Json)) :
    ofMembers (fields.map fun field => (some field.1, field.2)) = .object fields := by
  have hnames (read : Option String × Json → Option (String × Json))
      (hread : ∀ field : String × Json, read (some field.1, field.2) = some field) :
      (fields.map fun field => (some field.1, field.2)).mapM read = some fields := by
    induction fields with
    | nil => rfl
    | cons field fields ih => simp [hread, ih]
  rw [ofMembers, hnames _ fun _ => rfl]

/-- A field up to the end of its value, where a name is expected. -/
theorem resume_field (hv : ReadsBack field.2)
    (hkey : ∀ key, step? expect (.object done :: stack) (.atom (.string key)) =
      some (.colon (some key), .object done :: stack)) (cs : Text) :
    resume expect (.object done :: stack) ((compactField field).toList ++ cs) =
      resume (.after field.2) (.member done (some field.1) :: stack) cs := by
  obtain ⟨key, value⟩ := field
  simp only [compactField, String.toList_append, List.append_assoc]
  rw [resume_quote key _ (hkey key)]
  exact (resume_cons rfl rfl rfl).trans (hv _ _ _ (.inl rfl))

theorem resume_fields {fields : List (String × Json)} (h : ∀ field ∈ fields, ReadsBack field.2)
    (done : List (String × Json)) (field : String × Json) (stack : List Frame) (cs : Text) :
    resume (.after field.2)
      (.member (done.map fun field => (some field.1, field.2)) (some field.1) :: stack)
      (continued (fields.map compactField) ++ '\x7d' :: cs) =
      resume (.after (.object (done.reverse ++ field :: fields))) stack cs := by
  induction fields generalizing done field with
  | nil =>
    refine resume_cons rfl rfl ?_
    rw [step?, ← List.map_cons (f := fun field : String × Json => (some field.1, field.2)),
      ← List.map_reverse, ofMembers_map_some]
    simp
  | cons next fields ih =>
    have hnext := h next List.mem_cons_self
    simp only [continued, List.map_cons, List.flatMap_cons, List.cons_append, List.append_assoc]
    rw [resume_comma rfl, resume_field hnext fun _ => rfl]
    refine (ih (fun x hx => h x (List.mem_cons_of_mem next hx)) (field :: done) next).trans ?_
    simp

theorem readsBack_object {fields : List (String × Json)} (h : ∀ field ∈ fields, ReadsBack field.2) :
    ReadsBack (.object fields) := by
  intro expect stack cs hexpect
  have hopen (rest : Text) : resume expect stack ('\x7b' :: rest) =
      resume .firstKey (.object [] :: stack) rest :=
    resume_cons rfl rfl (hexpect.step? rfl)
  rw [compact, compactFields_eq_map]
  cases fields with
  | nil => exact (hopen _).trans (resume_cons rfl rfl rfl)
  | cons field fields =>
    have hfield := h field List.mem_cons_self
    simp only [List.map_cons, String.toList_append, toList_intercalate_cons, List.append_assoc]
    refine (hopen _).trans ((resume_field hfield (fun _ => rfl) _).trans ?_)
    exact resume_fields (fun x hx => h x (List.mem_cons_of_mem field hx)) [] field stack cs

theorem readsBack_ofFields {fields : List (String × Option Json)}
    (h : ∀ field ∈ fields, ∀ v ∈ field.2, ReadsBack v) : ReadsBack (ofFields fields) := by
  refine readsBack_object ?_
  intro field hfield
  obtain ⟨⟨name, value⟩, hmem, heq⟩ := List.mem_filterMap.mp hfield
  obtain ⟨v, rfl, rfl⟩ := Option.map_eq_some_iff.mp heq
  exact h _ hmem v rfl

end PageMarkup.Json
