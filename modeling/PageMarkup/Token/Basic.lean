import PageMarkup.TagName

/-!
# Tokens

A token is a kind together with the characters it covers; reading never stops at malformed markup,
the token then carries the fault instead. Everything that decides how the text continues is in the
`ScanState` between two tokens.
-/

namespace PageMarkup

inductive TokenKind where
  | commentOpen
  | comment
  | commentClose
  | tagOpen
  | tagName
  | tagClose
  | tagSelfClose
  | endTagOpen
  | endTagName
  | endTagClose
  | assign
  | attributeName
  | attributeValue
  | content
  | blank
  | script
  | unknown
  | endOfText
  deriving DecidableEq, Repr, Inhabited

inductive Fault where
  | blankBeforeTagName
  | unexpectedInTag
  | closingBracketExpected
  | endTagNameExpected
  | closingQuoteExpected
  deriving DecidableEq, Repr

def Fault.message : Fault → String
  | .blankBeforeTagName => "Tag name must directly follow the open bracket."
  | .unexpectedInTag => "Unexpected character in tag."
  | .closingBracketExpected => "Closing bracket expected."
  | .endTagNameExpected => "End tag name expected."
  | .closingQuoteExpected => "Closing quote expected."

structure Token where
  kind : TokenKind
  lexeme : Text
  fault : Option Fault := none
  deriving DecidableEq, Repr

def Token.size (t : Token) : Nat :=
  Text.size t.lexeme

/-- What a start tag has to remember while it is read. -/
structure TagContext where
  rawText : RawText := .none
  /-- A blank was seen since the tag name or the last value: an attribute name may follow. -/
  afterBlank : Bool := false
  deriving DecidableEq, Repr, Inhabited

/-- Where the text is between two tokens. -/
inductive ScanState where
  | content
  | afterTagOpen
  | afterEndTagOpen
  | doctype
  | tag (context : TagContext)
  | endTag
  | comment
  | scriptBody
  | styleBody
  | afterAttributeName (context : TagContext)
  | beforeAttributeValue (context : TagContext)
  deriving DecidableEq, Repr, Inhabited

end PageMarkup
