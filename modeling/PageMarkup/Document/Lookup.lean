import PageMarkup.Document.Element

/-!
# Finding elements by offset

Both lookups descend from the root into the last child that starts before the offset. A chain is
the element that was found, followed by its ancestors up to the top level; it is empty where there
is no element.
-/

namespace PageMarkup

namespace Element

mutual
/-- The innermost element inside `e` whose range holds the offset, its start excluded. -/
def chainAt (offset : Nat) (above : List Element) : Element → List Element
  | ⟨head, children⟩ =>
    if head.start < offset ∧ offset ≤ head.stop then
      chainAtAll offset (⟨head, children⟩ :: above) children
    else above
def chainAtAll (offset : Nat) (above : List Element) : List Element → List Element
  | [] => above
  | e :: rest =>
    if rest.any (·.start < offset) then chainAtAll offset above rest
    else chainAt offset above e
end

def endsWithChild (stop : Nat) (children : List Element) : Bool :=
  match children.getLast? with
  | some child => child.stop = stop
  | none => false

mutual
/-- The element to which typing at the offset belongs: the descent goes on below elements that
still hold the offset, and below those that ended before it together with their last child. -/
def chainBefore (offset : Nat) (above : List Element) : Element → List Element
  | ⟨head, children⟩ =>
    if head.start < offset then
      if offset < head.stop ∨ endsWithChild head.stop children then
        chainBeforeAll offset (⟨head, children⟩ :: above) children
      else ⟨head, children⟩ :: above
    else above
def chainBeforeAll (offset : Nat) (above : List Element) : List Element → List Element
  | [] => above
  | e :: rest =>
    if rest.any (·.start < offset) then chainBeforeAll offset above rest
    else chainBefore offset above e
end

end Element

namespace Document

def checkOffset (d : Document) (offset : Nat) (chain : List Element) :
    Except OffsetError (List Element) :=
  if offset ≤ d.root.stop then .ok chain else .error (.pastTheEnd offset d.root.stop)

def chainAt (d : Document) (offset : Nat) : Except OffsetError (List Element) :=
  d.checkOffset offset (Element.chainAtAll offset [] d.roots)

def chainBefore (d : Document) (offset : Nat) : Except OffsetError (List Element) :=
  d.checkOffset offset (Element.chainBeforeAll offset [] d.roots)

end Document

end PageMarkup
