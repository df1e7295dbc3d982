import PageMarkup.Schema.Basic

/-! # Descriptions in Markdown -/

namespace PageMarkup

def paragraph : Option String → String
  | none => ""
  | some text => "\n\n" ++ text

def Component.markdown (c : Component) : String :=
  s!"**<{c.name}>**" ++ paragraph c.desc ++ "".intercalate (c.tips.map ("\n\n> " ++ ·)) ++
    paragraph (c.docLink.map fun link => s!"[Documentation]({link})")

def Choice.markdown (choice : Choice) : String :=
  match choice.desc with
  | some desc => s!"\n- `{choice.value}`: {desc}"
  | none => s!"\n- `{choice.value}`"

def AttributeRule.markdown (rule : AttributeRule) (tag : String) : String :=
  s!"**{rule.name}** `{rule.kind.name}`\n\nAttribute of `<{tag}>`" ++ paragraph rule.desc ++
    paragraph ((rule.defaultValue.filter fun _ => rule.hasDefault).map fun value =>
      s!"Default: `{value}`") ++
    paragraph (rule.since.map ("Since: " ++ ·)) ++
    match rule.kind.choices with
    | [] => ""
    | choices => "\n" ++ "".intercalate (choices.map Choice.markdown)

end PageMarkup
