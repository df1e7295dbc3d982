import PageMarkup.Text.Blank

/-!
# Tag names with rules of their own

A few element names change how markup is read: void elements have no end tag, empty elements may
not have content, and the bodies of script and style elements are raw text. Names are compared up
to ASCII case.
-/

namespace PageMarkup

/-- How the body of an element is read once its start tag is over. -/
inductive RawText where
  /-- As markup. -/
  | none
  /-- As one run of script up to the end tag. -/
  | script
  /-- As one run of content up to the end tag. -/
  | style
  deriving DecidableEq, Repr, Inhabited

namespace TagName

def script : Text := ['w', 'x', 's']

def style : Text := ['s', 't', 'y', 'l', 'e']

/-- Elements that never have an end tag. -/
def voidElements : List String :=
  ["audio", "checkbox", "cover-image", "icon", "image", "input", "live-player", "live-pusher",
    "map", "open-data", "progress", "radio", "slider", "switch"]

/-- Elements that must not contain other elements or text. -/
def emptyElements : List String :=
  ["audio", "camera", "checkbox", "cover-image", "icon", "image", "input", "live-player",
    "live-pusher", "map", "open-data", "progress", "radio", "slider", "switch", "video"]

def isVoid (name : String) : Bool :=
  voidElements.contains name.toLower

def isEmpty (name : String) : Bool :=
  emptyElements.contains name.toLower

def rawText (name : Text) : RawText :=
  if name.fold = script then .script
  else if name.fold = style then .style
  else .none

end TagName

end PageMarkup
