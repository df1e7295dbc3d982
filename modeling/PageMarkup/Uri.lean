import PageMarkup.Text.Blank
import PageMarkup.Text.Digits
import PageMarkup.Text.Utf8

/-!
# Document addresses

Editors name documents by URI. One that begins with `file://` names a file, whose path is written
with percent escapes.
-/

namespace PageMarkup.Uri

def hexValue? (b : UInt8) : Option UInt8 :=
  if 0x30 ≤ b ∧ b ≤ 0x39 then some (b - 0x30)
  else if 0x41 ≤ b ∧ b ≤ 0x46 then some (b - 0x41 + 10)
  else if 0x61 ≤ b ∧ b ≤ 0x66 then some (b - 0x61 + 10)
  else none

/-- Replaces `%` and two hexadecimal digits by the byte that they write. -/
def unescape : List UInt8 → List UInt8
  | 0x25 :: h :: l :: rest =>
    match hexValue? h, hexValue? l with
    | some high, some low => (16 * high + low) :: unescape rest
    | _, _ => 0x25 :: unescape (h :: l :: rest)
  | b :: rest => b :: unescape rest
  | [] => []

def scheme : Text := "file://".toList

def path? (uri : String) : Option String :=
  if scheme.isPrefixOf uri.toList then
    some (String.ofList (Utf8.decode (unescape (Utf8.encode (uri.toList.drop scheme.length)))))
  else none

/-! ## Well-formed references -/

def isUnreserved (c : Char) : Bool :=
  c.isAlphanum || ['-', '.', '_', '~'].contains c

def isSubDelimiter (c : Char) : Bool :=
  ['!', '$', '&', '\'', '(', ')', '*', '+', ',', ';', '='].contains c

def isHexDigit (c : Char) : Bool :=
  c.isDigit || ('a' ≤ c && c ≤ 'f') || ('A' ≤ c && c ≤ 'F')

def isRun (allowed : Char → Bool) : Text → Bool
  | [] => true
  | '%' :: h :: l :: rest => isHexDigit h && isHexDigit l && isRun allowed rest
  | c :: rest => allowed c && isRun allowed rest

def isPathChar (c : Char) : Bool :=
  isUnreserved c || isSubDelimiter c || c = ':' || c = '@' || c = '/'

def isScheme : Text → Bool
  | [] => false
  | c :: cs => c.isAlpha && cs.all fun c => c.isAlphanum || c = '+' || c = '-' || c = '.'

def isOctet (cs : Text) : Bool :=
  cs = ['0'] || (cs.isDigits && cs.head? ≠ some '0' && cs.length ≤ 3 && cs.toNat ≤ 255)

def isDotted (cs : Text) : Bool :=
  let octets := cs.splitOn '.'
  octets.length = 4 && octets.all isOctet

def isGroup (cs : Text) : Bool :=
  !cs.isEmpty && cs.length ≤ 4 && cs.all isHexDigit

/-- How many groups a part of an address has; at its end four octets count as two groups. -/
def groups? (dotted : Bool) (cs : Text) : Option Nat :=
  if cs.isEmpty then some 0
  else
    let parts := cs.splitOn ':'
    if parts.all isGroup then some parts.length
    else if dotted && parts.dropLast.all isGroup && parts.getLast?.any isDotted then
      some (parts.length + 1)
    else none

/-- Eight groups, or fewer with `::` in place of the rest. -/
def isAddress (cs : Text) : Bool :=
  match Text.breakAt ([':', ':'].isPrefixOf ·) cs with
  | (before, _ :: _ :: after) =>
    match groups? false before, groups? true after with
    | some m, some n => m + n ≤ 7
    | _, _ => false
  | (whole, _) => groups? true whole = some 8

def isHost (host : Text) : Bool :=
  match host with
  | '[' :: rest =>
    isAddress (rest.takeWhile (· ≠ ']')) &&
      match rest.dropWhile (· ≠ ']') with
      | ']' :: ':' :: port => port.all Char.isDigit
      | [']'] => true
      | _ => false
  | _ =>
    isRun (fun c => isUnreserved c || isSubDelimiter c) (host.takeWhile (· ≠ ':')) &&
      (host.dropWhile (· ≠ ':')).tail.all Char.isDigit

def isAuthority (authority : Text) : Bool :=
  match authority.dropWhile (· ≠ '@') with
  | [] => isHost authority
  | _ :: host =>
    isRun (fun c => isUnreserved c || isSubDelimiter c || c = ':') (authority.takeWhile (· ≠ '@')) &&
      isHost host

def isHierarchy : Text → Bool
  | '/' :: '/' :: rest =>
    isAuthority (rest.takeWhile (· ≠ '/')) && isRun isPathChar (rest.dropWhile (· ≠ '/'))
  | path => isRun isPathChar path

/-- Whether a text is a URI or a relative reference. -/
def isReference (uri : String) : Bool :=
  let cs := uri.toList
  let main := cs.takeWhile fun c => c ≠ '?' && c ≠ '#'
  let first := main.takeWhile fun c => c ≠ ':' && c ≠ '/'
  let query := (cs.drop main.length).takeWhile (· ≠ '#')
  let fragment := (cs.dropWhile (· ≠ '#')).drop 1
  let isTail := isRun fun c => isPathChar c || c = '?'
  isTail query && isTail fragment &&
    match main.drop first.length with
    | ':' :: rest => isScheme first && isHierarchy rest
    | _ => isHierarchy main

end PageMarkup.Uri
