import PageMarkup.Schema.Language

/-!
# Three questions to a schema

Completion asks for all attributes of an element, hovering for one of them, and completion again for
the values of one. The answers come from one list of declarations, in which a name may be repeated:
the component's own, then those of its mode, then those of the language. `lookups_agree` says that the
first declaration of a name is the one that counts in all of them.
-/

namespace PageMarkup.Schema

/-- The attributes that the component of the tag has in every mode. -/
def own (s : Schema) (tag : String) : List AttributeRule :=
  ((s.component? tag).map Component.attributes).getD []

/-- The attributes that the mode adds to them. -/
def unlocked (s : Schema) (tag : String) (mode : Option String) : List AttributeRule :=
  (mode.bind fun mode => (s.component? tag).map (·.attributesIn mode)).getD []

theorem rules_eq (s : Schema) (tag : String) (mode : Option String) :
    s.rules tag mode = s.own tag ++ s.unlocked tag mode ++ common := by
  rw [rules, declared, own, unlocked]
  cases s.component? tag with
  | none => cases mode <;> rfl
  | some component =>
    cases mode with
    | none => simp
    | some mode => rfl

/-- Where the component declares the attribute, but no values for it, the language is not asked. -/
theorem choices_eq (s : Schema) (tag name : String) (mode : Option String) :
    s.choices tag name mode = ((s.rule? tag name mode).map (·.kind.choices)).getD [] := by
  rw [choices, declaredChoices, rule?, rules, List.find?_append]
  cases (s.declared tag mode).find? (·.name = name) with
  | none =>
    rw [Option.none_or]
    cases common.find? (·.name = name) <;> rfl
  | some rule =>
    simp only [Option.some_or, Option.map_some, Option.getD_some]
    cases rule.kind.choices <;> rfl

/-- The attributes that an element accepts are the names declared for it, each once and in the order
of the first declarations; among them a name has the declaration that a lookup of the name alone
finds, the first one; and the values to offer for it are those of that declaration. -/
theorem lookups_agree (s : Schema) (tag name : String) (mode : Option String) :
    let declarations := s.own tag ++ s.unlocked tag mode ++ common
    let declared := declarations.map AttributeRule.name
    let names := (s.accepted tag mode).map AttributeRule.name
    names.Nodup ∧ (∀ n, n ∈ names ↔ n ∈ declared) ∧
      names.Pairwise (fun m n => declared.idxOf m < declared.idxOf n) ∧
      (s.accepted tag mode).find? (·.name = name) = s.rule? tag name mode ∧
      s.rule? tag name mode = declarations.find? (·.name = name) ∧
      s.choices tag name mode = ((s.rule? tag name mode).map (·.kind.choices)).getD [] := by
  intro declarations declared names
  have hrules : s.rules tag mode = declarations := rules_eq s tag mode
  have hnames : names = (distinctBy AttributeRule.name declarations).map AttributeRule.name := by
    rw [← hrules]
    rfl
  rw [hnames]
  refine ⟨nodup_map_distinctBy _ _, fun n => mem_map_distinctBy _, pairwise_idxOf_distinctBy _ _, ?_, ?_,
    choices_eq s tag name mode⟩
  · exact find?_accepted s tag name mode
  · rw [rule?, hrules]

end PageMarkup.Schema
