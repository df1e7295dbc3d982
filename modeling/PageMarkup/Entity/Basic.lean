/-!
# Character entities

A named reference such as `&lt;` stands for one or two characters. A name without its semicolon is
an older spelling.
-/

namespace PageMarkup

structure Entity where
  /-- Without the ampersand. -/
  name : String
  replacement : String
  deriving DecidableEq, Repr, Inhabited

end PageMarkup
