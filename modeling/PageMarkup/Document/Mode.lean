import PageMarkup.Document.Element
import PageMarkup.Schema.Basic

/-! # The mode of an element -/

namespace PageMarkup

/-- The value of the attribute that selects a mode, if the component has one. -/
def Element.mode? (e : Element) (c : Component) : Option String :=
  c.selector?.bind fun selector => e.attributeValue? selector.name

def Schema.mode? (s : Schema) (e : Element) (tag : String) : Option String :=
  (s.component? tag).bind e.mode?

end PageMarkup
