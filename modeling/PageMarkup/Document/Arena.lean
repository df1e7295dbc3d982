import PageMarkup.Document.Draft

/-!
# Elements in one list

A tree can also be built in a single list of nodes, to which a node is added for every `<`. Parents
and children are links: places in the list. Reading stays at one node and follows the links, and the
last attribute is remembered by its place until it gets a value. Problems do not depend on how the
tree is kept and are left to the draft.
-/

namespace PageMarkup

/-- An element that is linked to others by their places in a list. -/
structure Node extends ElementHead where
  parent : Option Nat := none
  children : List Nat := []
  deriving DecidableEq, Repr

def Node.element (n : Node) : Element :=
  ⟨n.toElementHead, []⟩

structure Arena where
  nodes : List Node
  /-- The place of the node that is being read. -/
  current : Nat := 0
  endTagOpen : Option Nat := none
  /-- The last attribute that has been read, among those of its node. -/
  pending : Option Nat := none
  deriving DecidableEq, Repr

namespace Arena

def empty (text : Text) : Arena :=
  { nodes := [{ id := 0, start := 0, stop := text.size }] }

def edit (a : Arena) (f : Node → Node) : Arena :=
  { a with nodes := a.nodes.modify a.current f }

def parent? (a : Arena) : Option Nat :=
  (a.nodes[a.current]?).bind Node.parent

def leave (a : Arena) (f : Node → Node) : Arena :=
  match a.parent? with
  | none => a
  | some parent => { a.edit f with current := parent }

def openNode (a : Arena) (start size : Nat) : Arena :=
  let id := a.nodes.length
  let linked := a.edit fun n => { n with children := n.children ++ [id] }
  { linked with
    nodes := linked.nodes ++ [{ id, start, stop := size, parent := some a.current }]
    current := id }

def closeStartTag (a : Arena) (stop : Nat) : Arena :=
  let a := a.edit ({ · with stop })
  if (a.nodes[a.current]?).any (·.element.isVoid) then a.leave ({ · with closed := true }) else a

def voidBefore? (text : Text) (a : Arena) (name : String) (start : Nat) : Option Nat :=
  (a.nodes[a.current]?).bind fun node =>
    if node.element.hasName name || !TagName.isVoid name then none
    else
      node.children.getLast?.filter fun i =>
        (a.nodes[i]?).any fun child =>
          child.element.hasName name && child.closed && child.endTagStart.isNone &&
            ((text.slice? child.stop start).map Text.trim = some [])

/-- Ends nodes from one on outwards while a condition holds; the root is not ended. Links lead to
earlier places, and one that does not is not followed. -/
def closeWhile (p : Node → Bool) (stop : Nat) (nodes : List Node) (i : Nat) : List Node × Nat :=
  match nodes[i]? with
  | none => (nodes, i)
  | some node =>
    match node.parent with
    | none => (nodes, i)
    | some parent =>
      if parent < i then
        if p node then closeWhile p stop (nodes.modify i ({ · with stop, closed := false })) parent
        else (nodes, i)
      else (nodes, i)
termination_by i

/-- An end tag goes to a void element right before it, or else ends the innermost open element of its
name together with all inside it. -/
def giveEndTag (text : Text) (a : Arena) (name : String) (start : Nat) : Arena :=
  match a.voidBefore? text name start with
  | some child => { a with current := child }.edit ({ · with endTagStart := some start })
  | none =>
    let (nodes, current) := closeWhile (!·.element.hasName name) start a.nodes a.current
    let a := { a with nodes, current }
    if current = 0 then a else a.edit ({ · with closed := true, endTagStart := some start })

def addAttribute (a : Arena) (name : Text) (start : Nat) : Arena :=
  { a.edit fun n => { n with
      attributes := n.attributes ++ [{ name := String.ofList name, offset := start }] } with
    pending := (a.nodes[a.current]?).map (·.attributes.length) }

/-- The value of the attribute that waits for one, if there is one. -/
def addValue (a : Arena) (value : Text) : Arena :=
  match a.pending with
  | none => a
  | some i =>
    { a.edit fun n => { n with
        attributes := n.attributes.modify i ({ · with value := some (String.ofList (unquote value)) }) } with
      pending := none }

def addText (a : Arena) (content : Text) : Arena :=
  match content.trim with
  | [] => a
  | run => a.edit fun n => { n with text := n.text ++ [String.ofList run] }

def accept (text : Text) (a : Arena) (p : Placed) : Arena :=
  match p.kind with
  | .tagOpen => a.openNode p.offset text.size
  | .tagName => a.edit ({ · with tag := some (String.ofList p.lexeme) })
  | .tagClose => a.closeStartTag p.stop
  | .tagSelfClose => a.leave ({ · with stop := p.stop, closed := true })
  | .endTagOpen => { a with endTagOpen := some p.offset }
  | .endTagName => a.giveEndTag text (String.ofList p.lexeme).toLower (a.endTagOpen.getD p.offset)
  | .endTagClose => a.leave ({ · with stop := p.stop })
  | .attributeName => a.addAttribute p.lexeme p.offset
  | .attributeValue => a.addValue p.lexeme
  | .content => a.addText p.lexeme
  | _ => a

def finish (text : Text) (a : Arena) : List Node :=
  (closeWhile (fun _ => true) text.size a.nodes a.current).1

def parse (text : Text) : List Node :=
  ((tokens text).foldl (accept text) (empty text)).finish text

/-- Takes nodes from a stack and puts their children on it instead, at most as often as there are
rounds. -/
def walk (nodes : List Node) : (rounds : Nat) → List Nat → List Node
  | 0, _ => []
  | _ + 1, [] => []
  | rounds + 1, i :: stack =>
    match nodes[i]? with
    | none => walk nodes rounds stack
    | some node => node :: walk nodes rounds (node.children ++ stack)

/-- Every node but the root, in document order. -/
def descendants (nodes : List Node) : List Node :=
  walk nodes nodes.length ((nodes.head?.map Node.children).getD [])

end Arena

end PageMarkup
