import PageMarkup.Diagnostic.Check

/-!
# What checks find

`Attribute.Blames` lists all that can be wrong with an attribute that the schema knows; any other
attribute is unknown and nothing else. `Element.Blames` lists what can be wrong with an element.
-/

namespace PageMarkup

namespace Attribute

inductive Blames (a : Attribute) : Diagnostic → Prop
  | needlessValue : Blames a ⟨.needlessValue a.name, a.offset, a.stop⟩
  | valueRequired : Blames a ⟨.valueRequired a.name, a.offset, a.stop⟩
  | expressionRequired : Blames a ⟨.expressionRequired a.name, a.offset, a.stop⟩
  | notABoolean (value : String) :
    Blames a ⟨.notABoolean a.name, a.valueStart, a.valueStart + Text.size value.toList⟩
  | notANumber (value : String) :
    Blames a ⟨.notANumber a.name, a.valueStart, a.valueStart + Text.size value.toList⟩
  | notAChoice (value : String) :
    Blames a ⟨.notAChoice a.name, a.valueStart, a.valueStart + Text.size value.toList⟩
  | valueMissing : Blames a ⟨.valueRequired a.name, a.valueStart, a.valueStart + 1⟩

variable {a : Attribute} {rule : AttributeRule} {x : Diagnostic}

theorem checkDirective_blames (h : x ∈ a.checkDirective) : a.Blames x := by
  rw [checkDirective] at h
  cases hcontent : a.content? with
  | none =>
    rw [hcontent] at h
    cases List.mem_singleton.mp h
    exact .valueRequired
  | some value =>
    simp only [hcontent] at h
    split at h
    · cases List.mem_singleton.mp h
      exact .expressionRequired
    · cases h

theorem checkKind_blames (h : x ∈ a.checkKind rule) : a.Blames x := by
  rw [checkKind] at h
  cases hkind : rule.kind with
  | logic | iterate | event | function =>
    rw [hkind] at h
    exact checkDirective_blames h
  | boolean =>
    cases hcontent : a.content? with
    | none => simp [hkind, hcontent] at h
    | some value =>
      simp only [hkind, hcontent] at h
      split at h
      · cases h
      · cases List.mem_singleton.mp h
        exact .notABoolean value
  | number =>
    cases hcontent : a.content? with
    | none => simp [hkind, hcontent] at h
    | some value =>
      simp only [hkind, hcontent] at h
      split at h
      · cases h
      · cases List.mem_singleton.mp h
        exact .notANumber value
  | string =>
    cases hcontent : a.content? with
    | none =>
      simp only [hkind, hcontent] at h
      split at h
      · cases h
      · cases List.mem_singleton.mp h
        exact .valueMissing
    | some value => simp [hkind, hcontent] at h
  | enum choices =>
    cases hcontent : a.content? with
    | none =>
      simp only [hkind, hcontent] at h
      split at h
      · cases h
      · cases List.mem_singleton.mp h
        exact .valueMissing
    | some value =>
      simp only [hkind, hcontent] at h
      split at h
      · cases h
      · cases List.mem_singleton.mp h
        exact .notAChoice value

theorem checkValue_blames (h : x ∈ a.checkValue rule) : a.Blames x := by
  rw [checkValue] at h
  split at h
  · split at h
    · cases List.mem_singleton.mp h
      exact .needlessValue
    · cases h
  · split at h
    · cases h
    · exact checkKind_blames h

theorem of_mem_check (h : x ∈ a.check s tag mode) :
    a.Blames x ∨ s.rule? tag a.name mode = none ∧ x = ⟨.unknownAttribute a.name, a.offset, a.stop⟩ := by
  rw [check, Schema.find?_accepted] at h
  split at h
  · cases h
  · split at h
    · exact .inl (checkValue_blames h)
    · next hunknown => exact .inr ⟨hunknown, List.mem_singleton.mp h⟩

/-- A known attribute may be filled in wrongly, but it is not called unknown. -/
theorem check_ne_unknown (hrule : s.rule? tag a.name mode = some rule) (h : x ∈ a.check s tag mode)
    (name : String) : x.defect ≠ .unknownAttribute name := by
  rcases of_mem_check h with hblames | ⟨hunknown, -⟩
  · cases hblames <;> simp
  · cases hrule.symm.trans hunknown

-- ---------------------------------------------------------------------------
-- Values that a rule accepts
-- ---------------------------------------------------------------------------

variable {choice : Choice}

theorem content?_of_value (h : a.value = some v) (hv : v ≠ "") : a.content? = some v := by
  simp [content?, h, hv]

theorem checkKind_of_choice (h : choice ∈ rule.kind.choices) (hv : choice.value ≠ "")
    (ha : a.value = some choice.value) : a.checkKind rule = [] := by
  rw [checkKind, content?_of_value ha hv]
  generalize rule.kind = kind at h
  cases kind with
  | boolean =>
    have hbool : choice = { value := "true" } ∨ choice = { value := "false" } := by
      simpa [ValueKind.choices] using h
    rcases hbool with rfl | rfl <;> simp
  | enum choices =>
    have hany : choices.any (·.value = choice.value) = true :=
      List.any_eq_true.mpr ⟨choice, h, by simp⟩
    simp [hany]
  | _ => cases h

theorem check_of_choice (hrule : s.rule? tag a.name mode = some rule) (helse : a.name ≠ "wx:else")
    (h : choice ∈ rule.kind.choices) (hv : choice.value ≠ "") (ha : a.value = some choice.value) :
    a.check s tag mode = [] := by
  simp [check, Schema.find?_accepted, hrule, checkValue, helse, checkKind_of_choice h hv ha]

end Attribute

-- ---------------------------------------------------------------------------
-- Elements
-- ---------------------------------------------------------------------------

namespace Element

inductive Blames (e : Element) : Diagnostic → Prop
  | content (tag : String) (named : e.tag = some tag) (empty : TagName.isEmpty tag = true)
      (filled : e.isEmpty = false) : Blames e ⟨.contentInEmptyElement, e.start, e.stop⟩
  | child (c : Element) (mem : c ∈ e.children) (tag : String) :
    Blames e ⟨.notAllowedInText tag, c.start, c.stop⟩
  | source (a : Attribute) (value : String) (path : Path) :
    Blames e ⟨.fileMissing path, a.valueStart, a.valueStart + Text.size value.toList⟩
  | repeated (name : String) (offset : Nat) :
    Blames e ⟨.repeatedAttribute name, offset, offset + Text.size name.toList⟩
  | unknown (a : Attribute) : Blames e ⟨.unknownAttribute a.name, a.offset, a.stop⟩
  | known (a : Attribute) (blames : a.Blames x) : Blames e x

variable {e : Element} {x : Diagnostic}

theorem checkTextChildren_blames (h : x ∈ e.checkTextChildren tag) : e.Blames x := by
  rw [checkTextChildren] at h
  split at h
  · obtain ⟨c, hc, h⟩ := List.mem_filterMap.mp h
    obtain ⟨name, -, rfl⟩ := Option.map_eq_some_iff.mp h
    exact .child c hc name
  · cases h

theorem checkSource_blames (h : x ∈ e.checkSource tag dir) : e.Blames x := by
  unfold checkSource at h
  split at h
  · next a _ =>
    split at h
    · next value _ =>
      split at h
      · rw [List.mem_singleton.mp h]
        exact .source a value _
      · cases h
    · cases h
  · cases h

theorem checkRepeats_blames (h : x ∈ e.checkRepeats) : e.Blames x := by
  obtain ⟨name, -, h⟩ := List.mem_flatMap.mp h
  obtain ⟨offset, -, rfl⟩ := List.mem_map.mp h
  exact .repeated name offset

theorem checkAttributes_blames (h : x ∈ e.checkAttributes s tag) : e.Blames x := by
  rw [checkAttributes] at h
  split at h
  · cases h
  · obtain ⟨a, -, h⟩ := List.mem_flatMap.mp h
    rcases Attribute.of_mem_check h with hblames | ⟨-, rfl⟩
    · exact .known a hblames
    · exact .unknown a

theorem mem_checkContent : x ∈ e.checkContent tag ↔
    TagName.isEmpty tag = true ∧ e.isEmpty = false ∧ x = ⟨.contentInEmptyElement, e.start, e.stop⟩ := by
  simp [checkContent, and_assoc]

theorem blames_of_mem_check (h : x ∈ e.check s dir) : e.Blames x := by
  rw [check] at h
  split at h
  · cases h
  · next tag htag =>
    simp only [List.mem_append] at h
    rcases h with (((h | h) | h) | h) | h
    · obtain ⟨hempty, hfilled, rfl⟩ := mem_checkContent.mp h
      exact .content tag htag hempty hfilled
    · exact checkTextChildren_blames h
    · exact checkSource_blames h
    · exact checkRepeats_blames h
    · exact checkAttributes_blames h

end Element

end PageMarkup
