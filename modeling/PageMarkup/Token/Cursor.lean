import PageMarkup.Token.Scan

/-!
# Reading token by token

A cursor stands on one token of a text and can step to the next one. At the end of the text it
stands on an empty `endOfText` token for good.
-/

namespace PageMarkup

/-- A step that took no character takes the first one as it is. -/
def Token.Step.orSkip (s : Token.Step) (c : Char) (cs : Text) : Token.Step :=
  if s.token.lexeme = [] then ⟨⟨.unknown, [c], none⟩, s.state, cs⟩ else s

structure Cursor where
  state : ScanState
  /-- Where the current token begins. -/
  offset : Nat
  token : Token
  rest : Text
  deriving DecidableEq, Repr

namespace Cursor

def start (text : Text) (offset : Nat) (state : ScanState) : Except OffsetError Cursor :=
  match text.suffixAt? offset with
  | some rest => .ok ⟨state, offset, ⟨.unknown, [], none⟩, rest⟩
  | none => .error (.notABoundary offset text.size)

def stop (c : Cursor) : Nat :=
  c.offset + c.token.size

def next (c : Cursor) : Cursor :=
  match c.rest with
  | [] => { c with offset := c.stop, token := ⟨.endOfText, [], none⟩ }
  | first :: rest =>
    let step := (Token.next c.state first rest).orSkip first rest
    ⟨step.state, c.stop, step.token, step.rest⟩

end Cursor

end PageMarkup
