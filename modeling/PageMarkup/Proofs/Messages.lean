import PageMarkup.Diagnostic.Basic

/-!
# Messages that tell defects apart

Some messages have a name in them that the page chose. What is fixed in a message still tells what it
is about: no name makes one kind of message look like another.
-/

namespace PageMarkup

theorem lead_isPrefix {message lead name tail : String} (h : message = lead ++ name ++ tail) :
    lead.toList <+: message.toList := by
  rw [h, String.append_assoc, String.toList_append]
  exact List.prefix_append _ _

theorem Fault.message_injective : Function.Injective Fault.message := by
  intro f g h
  cases f <;> cases g <;> simp [message] at h ⊢

theorem ProblemKind.eq_of_message {kind : ProblemKind} {f : Fault} (h : kind.message = f.message) :
    kind = .token f := by
  have hstarts (lead name tail : String) (hkind : kind.message = lead ++ name ++ tail) :
      lead.toList <+: f.message.toList := h ▸ lead_isPrefix hkind
  cases kind with
  | token g => rw [Fault.message_injective h]
  | tagNameCharacters | valueNotQuoted => cases f <;> exact absurd h (by decide)
  | startTagMissing name =>
    have hlead := hstarts "Start tag not found for <" name ">" rfl
    cases f <;> exact absurd hlead (by decide)
  | endTagMissing name =>
    have hlead := hstarts "Close tag not found for <" name ">" rfl
    cases f <;> exact absurd hlead (by decide)
  | attributeName name =>
    have hlead := hstarts "Invalid attribute " name "" String.append_empty.symm
    cases f <;> exact absurd hlead (by decide)

def Defect.lead : Defect → String
  | .problem _ => "Parse error: "
  | .contentInEmptyElement => "Empty tag should not have children"
  | .notAllowedInText _ => ""
  | .fileMissing _ => "File "
  | .repeatedAttribute _ => "Duplicated attribute \""
  | .unknownAttribute _ => "Unknown attribute \""
  | .needlessValue _ => "Unnecessary value for \""
  | .valueRequired _ => "Value required for attribute \""
  | .expressionRequired _ => "Expression required for attribute \""
  | .notABoolean _ => "Invalid value for boolean attribute \""
  | .notANumber _ => "Invalid value for number attribute \""
  | .notAChoice _ => "Invalid value for enum attribute \""

theorem Defect.lead_isPrefix_message (d : Defect) : d.lead.toList <+: d.message.toList := by
  cases d with
  | problem kind =>
    exact lead_isPrefix (show _ = "Parse error: " ++ kind.message ++ "" from String.append_empty.symm)
  | contentInEmptyElement => exact List.prefix_rfl
  | notAllowedInText tag => exact List.nil_prefix
  | _ => exact lead_isPrefix rfl

theorem Defect.eq_of_message {d : Defect} (h : d.message = "Empty tag should not have children") :
    d = .contentInEmptyElement := by
  have hstarts := d.lead_isPrefix_message
  rw [h] at hstarts
  cases d with
  | contentInEmptyElement => rfl
  | notAllowedInText tag =>
    -- This message begins with the name, and is told by its end.
    have hends : " not allowed in <text>".toList <:+ "Empty tag should not have children".toList :=
      ⟨tag.toList, by rw [← String.toList_append, ← h]; rfl⟩
    exact absurd hends (by decide)
  | _ => simp [lead] at hstarts

/-- Nothing else has a message that begins like that of a repeated attribute, unless an element has a blank
in its name. -/
theorem Defect.eq_of_isPrefix {d : Defect} (h : "Duplicated attribute".toList <+: d.message.toList) :
    (∃ name, d = .repeatedAttribute name) ∨ ∃ tag, d = .notAllowedInText tag ∧ ' ' ∈ tag.toList := by
  have hstarts := List.prefix_or_prefix_of_prefix h d.lead_isPrefix_message
  cases d with
  | repeatedAttribute name => exact .inl ⟨name, rfl⟩
  | notAllowedInText tag =>
    refine .inr ⟨tag, rfl, Classical.byContradiction fun hblank => ?_⟩
    have hmessage : (notAllowedInText tag).message.toList = tag.toList ++ " not allowed in <text>".toList :=
      String.toList_append
    rw [hmessage] at h
    have hname : tag.toList = "Duplicated".toList := by
      have hplain : ∀ c ∈ tag.toList, decide (c ≠ ' ') = true := fun c hc =>
        decide_eq_true fun heq => hblank (heq ▸ hc)
      obtain ⟨rest, hrest⟩ := h
      have hcut := congrArg (List.takeWhile (· ≠ ' ')) hrest
      rw [List.takeWhile_append_of_pos hplain] at hcut
      simpa using hcut.symm
    rw [hname] at h
    exact absurd h (by decide)
  | _ => simp [lead] at hstarts

end PageMarkup
