import PageMarkup.Proofs.CaseFolding
import PageMarkup.Proofs.DraftLaws

/-!
# Documents and the case of letters

A text and its folded form are read in step: after every token the two drafts have the same tree,
but for the case of the names and texts in it, and have found the same problems, but for tag names
that only their capital letters make invalid.
-/

namespace PageMarkup

-- ---------------------------------------------------------------------------
-- Strings
-- ---------------------------------------------------------------------------

theorem ofList_fold (cs : Text) : String.ofList cs.fold = (String.ofList cs).toLower := by
  apply String.toList_injective
  show _ = ((String.ofList cs).map Char.toLower).toList
  rw [String.toList_map, String.toList_ofList, String.toList_ofList]
  rfl

theorem string_toLower_toLower (s : String) : s.toLower.toLower = s.toLower := by
  rw [← String.ofList_toList (s := s), ← ofList_fold, ← ofList_fold, Text.fold_fold]

theorem string_toLower_append (s t : String) : (s ++ t).toLower = s.toLower ++ t.toLower := by
  apply String.toList_injective
  show ((s ++ t).map Char.toLower).toList = (s.map Char.toLower ++ t.map Char.toLower).toList
  simp only [String.toList_map, String.toList_append, List.map_append]

-- ---------------------------------------------------------------------------
-- Elements
-- ---------------------------------------------------------------------------

def Attribute.fold (a : Attribute) : Attribute :=
  { a with name := a.name.toLower, value := a.value.map String.toLower }

def ElementHead.fold (h : ElementHead) : ElementHead :=
  { h with
    tag := h.tag.map String.toLower
    attributes := h.attributes.map Attribute.fold
    text := h.text.map String.toLower }

namespace Element

mutual
def fold : Element → Element
  | ⟨head, children⟩ => ⟨head.fold, foldAll children⟩
def foldAll : List Element → List Element
  | [] => []
  | e :: rest => fold e :: foldAll rest
end

theorem foldAll_eq_map (es : List Element) : foldAll es = es.map fold := by
  induction es with
  | nil => rfl
  | cons e es ih => rw [foldAll, ih, List.map_cons]

theorem fold_children (e : Element) : e.fold.children = e.children.map fold := by
  cases e
  rw [fold, foldAll_eq_map]

theorem fold_toElementHead (e : Element) : e.fold.toElementHead = e.toElementHead.fold := by
  cases e
  rw [fold]

theorem ext_fold {e e' : Element} (hhead : e'.toElementHead = e.toElementHead.fold)
    (hchildren : e'.children = e.children.map fold) : e' = e.fold := by
  cases e
  cases e'
  cases hhead
  cases hchildren
  rw [fold, foldAll_eq_map]
  rfl

theorem fold_push (parent child : Element) : (parent.push child).fold = parent.fold.push child.fold := by
  cases parent
  simp [push, fold, foldAll_eq_map]

theorem hasName_fold (e : Element) (name : String) : e.fold.hasName name = e.hasName name := by
  cases e with
  | mk head children =>
    rw [fold, hasName, hasName]
    cases h : head.tag <;> simp [ElementHead.fold, h, string_toLower_toLower]

theorem isVoid_fold (e : Element) : e.fold.isVoid = e.isVoid := by
  cases e with
  | mk head children =>
    rw [fold, isVoid, isVoid]
    cases h : head.tag <;> simp [ElementHead.fold, h, TagName.isVoid, string_toLower_toLower]

end Element

theorem setLastValue_fold (value : String) (attributes : List Attribute) :
    setLastValue value.toLower (attributes.map Attribute.fold) =
      (setLastValue value attributes).map Attribute.fold := by
  fun_induction setLastValue value attributes with
  | case1 => rfl
  | case2 a => rfl
  | case3 a rest hrest ih =>
    cases rest with
    | nil => exact absurd rfl hrest
    | cons b rest =>
      rw [List.map_cons, List.map_cons, setLastValue, List.map_cons, ← ih, List.map_cons]
      simp

theorem closeUpTo_fold (name : String) (stop : Nat) (e : Element) (above : List Element) :
    closeUpTo name stop e.fold (above.map Element.fold) =
      ((closeUpTo name stop e above).1.fold, (closeUpTo name stop e above).2.map Element.fold) := by
  fun_induction closeUpTo name stop e above with
  | case1 e => rfl
  | case2 e parent above hname =>
    rw [List.map_cons, closeUpTo, if_pos (by rwa [Element.hasName_fold])]
  | case3 e parent above hname ih =>
    rw [List.map_cons, closeUpTo, if_neg (by rwa [Element.hasName_fold]), ← ih, Element.fold_push]
    cases e
    rfl

theorem closeAll_fold (stop : Nat) (e : Element) (above : List Element) :
    closeAll stop e.fold (above.map Element.fold) = (closeAll stop e above).fold := by
  fun_induction closeAll stop e above with
  | case1 e => rfl
  | case2 e parent above ih =>
    rw [List.map_cons, closeAll, ← ih, Element.fold_push]
    cases e
    rfl

-- ---------------------------------------------------------------------------
-- Names and values
-- ---------------------------------------------------------------------------

theorem CaseBlind.isAlpha : CaseBlind Char.isAlpha :=
  of_isAlpha true fun _ hc => hc

theorem isValidAttributeName_fold (name : Text) :
    isValidAttributeName name.fold = isValidAttributeName name := by
  have hclass : CaseBlind fun c => c.isAlphanum || c = '_' || c = ':' || c = '.' || c = '-' :=
    .of_isAlpha true fun c hc => by
      unfold Char.isAlphanum
      simp [hc]
  cases name with
  | nil => rfl
  | cons c cs =>
    rw [Text.fold_cons, isValidAttributeName, CaseBlind.isAlpha c, Text.all_fold hclass,
      isValidAttributeName]

theorem map_toLower_eq_some_iff {d : Char} (hd : d.isAlpha = false) (o : Option Char) :
    o.map Char.toLower = some d ↔ o = some d := by
  cases o with
  | none => simp
  | some c => simp [toLower_eq_iff hd]

theorem getLast?_fold (cs : Text) : cs.fold.getLast? = cs.getLast?.map Char.toLower :=
  List.getLast?_map

theorem isDoubleQuoted_fold (value : Text) : isDoubleQuoted value.fold = isDoubleQuoted value := by
  have hhead : value.fold.head? = value.head?.map Char.toLower := List.head?_map
  have hlength : value.fold.length = value.length := List.length_map ..
  simp only [isDoubleQuoted, hlength, hhead, getLast?_fold,
    map_toLower_eq_some_iff (d := '"') (by decide)]

theorem unquote_cons_of_ne {c : Char} (hc : c ≠ '"') (cs : Text) :
    unquote (c :: cs) = if (c :: cs).getLast? = some '"' then (c :: cs).dropLast else c :: cs := by
  rw [unquote]
  exact fun _ h => hc (List.cons.inj h).1

theorem unquote_fold (value : Text) : unquote value.fold = (unquote value).fold := by
  have hlast (v : Text) : (if v.fold.getLast? = some '"' then v.fold.dropLast else v.fold) =
      Text.fold (if v.getLast? = some '"' then v.dropLast else v) := by
    simp only [getLast?_fold, map_toLower_eq_some_iff (d := '"') (by decide)]
    split
    · exact List.map_dropLast.symm
    · rfl
  cases value with
  | nil => rfl
  | cons c cs =>
    by_cases hc : c = '"'
    · subst hc
      exact hlast cs
    · have hc' : c.toLower ≠ '"' := fun h => hc ((toLower_eq_iff (by decide)).mp h)
      rw [Text.fold_cons, unquote_cons_of_ne hc', unquote_cons_of_ne hc]
      exact hlast (c :: cs)

-- ---------------------------------------------------------------------------
-- Drafts in step
-- ---------------------------------------------------------------------------

/-- The problems apart from the case of letters: invalid tag names are set aside, of the others the
messages in lower case and the ranges count. -/
def Problem.outline (problems : List Problem) : List (String × Nat × Nat) :=
  (problems.filter (·.kind ≠ .tagNameCharacters)).map fun p => (p.message.toLower, p.start, p.stop)

def ProblemKind.fold : ProblemKind → ProblemKind
  | .attributeName name => .attributeName name.toLower
  | kind => kind

theorem ProblemKind.message_fold (kind : ProblemKind) :
    kind.fold.message.toLower = kind.message.toLower := by
  cases kind with
  | attributeName name =>
    have hmessage (name : String) : (attributeName name).message = "Invalid attribute " ++ name := rfl
    rw [fold, hmessage, hmessage, string_toLower_append, string_toLower_append, string_toLower_toLower]
  | _ =>
    rw [fold]
    nofun

theorem ProblemKind.fold_ne {kind : ProblemKind} (h : kind ≠ .tagNameCharacters) :
    kind.fold ≠ .tagNameCharacters := by
  cases kind with
  | tagNameCharacters => exact absurd rfl h
  | _ => nofun

theorem Problem.outline_append (ps qs : List Problem) :
    Problem.outline (ps ++ qs) = Problem.outline ps ++ Problem.outline qs := by
  rw [outline, List.filter_append, List.map_append, outline, outline]

theorem Problem.outline_singleton {kind : ProblemKind} (h : kind ≠ .tagNameCharacters)
    (start stop : Nat) :
    Problem.outline [⟨kind, start, stop⟩] = [(kind.message.toLower, start, stop)] := by
  rw [outline, List.filter_cons_of_pos (by simpa using h)]
  rfl

namespace Draft

/-- The second draft is the first one of a folded text. -/
structure FoldsTo (d d' : Draft) : Prop where
  current : d'.current = d.current.fold
  above : d'.above = d.above.map Element.fold
  count : d'.count = d.count
  endTagOpen : d'.endTagOpen = d.endTagOpen
  openTags : d'.openTags = d.openTags
  problems : Problem.outline d'.problems = Problem.outline d.problems

namespace FoldsTo

variable {d d' : Draft}

theorem report (h : d.FoldsTo d') (kind : ProblemKind) (hkind : kind ≠ .tagNameCharacters)
    (start stop : Nat) : (d.report kind start stop).FoldsTo (d'.report kind.fold start stop) where
  current := h.current
  above := h.above
  count := h.count
  endTagOpen := h.endTagOpen
  openTags := h.openTags
  problems := by
    rw [Draft.report, Draft.report, Problem.outline_append, Problem.outline_append, h.problems,
      Problem.outline_singleton hkind, Problem.outline_singleton (ProblemKind.fold_ne hkind),
      ProblemKind.message_fold]

theorem expect (h : d.FoldsTo d') (ok : Bool) (kind : ProblemKind) (hkind : kind ≠ .tagNameCharacters)
    (start stop : Nat) : (d.expect ok kind start stop).FoldsTo (d'.expect ok kind.fold start stop) := by
  cases ok with
  | true => exact h
  | false => exact h.report kind hkind start stop

/-- Whether a tag name is valid may depend on its case. -/
theorem expectTagName (h : d.FoldsTo d') (ok ok' : Bool) (start stop : Nat) :
    (d.expect ok .tagNameCharacters start stop).FoldsTo
      (d'.expect ok' .tagNameCharacters start stop) := by
  have hnone (ps : List Problem) :
      Problem.outline (ps ++ [⟨.tagNameCharacters, start, stop⟩]) = Problem.outline ps := by
    rw [Problem.outline_append]
    exact List.append_nil _
  obtain ⟨current, above, count, endTagOpen, openTags, problems⟩ := h
  cases ok <;> cases ok'
  all_goals
    refine ⟨current, above, count, endTagOpen, openTags, ?_⟩
    simp only [Draft.expect, Draft.report, Bool.false_eq_true, ↓reduceIte, hnone, problems]

theorem note (h : d.FoldsTo d') (p : Placed) : (d.note p).FoldsTo (d'.note p.fold) := by
  have hfault : p.fold.token.fault = p.token.fault := rfl
  have hstop : p.fold.stop = p.stop := congrArg (p.offset + ·) p.token.size_fold
  rw [Draft.note, Draft.note, hfault, hstop]
  cases p.token.fault with
  | none => exact h
  | some fault => exact h.report (.token fault) nofun p.offset p.stop

theorem leave (h : d.FoldsTo d') {f f' : Element → Element} (hf : ∀ e, f' e.fold = (f e).fold) :
    (d.leave f).FoldsTo (d'.leave f') := by
  rw [Draft.leave, Draft.leave, h.above]
  cases d.above with
  | nil => exact h
  | cons parent above =>
    refine ⟨?_, rfl, h.count, h.endTagOpen, h.openTags, h.problems⟩
    show parent.fold.push (f' d'.current) = (parent.push (f d.current)).fold
    rw [h.current, hf, Element.fold_push]

theorem openElement (h : d.FoldsTo d') (start size : Nat) :
    (d.openElement start size).FoldsTo (d'.openElement start size) := by
  refine ⟨?_, ?_, ?_, h.endTagOpen, h.openTags, h.problems⟩
  · rw [Draft.openElement, Draft.openElement, h.count]
    rfl
  · rw [Draft.openElement, Draft.openElement, h.current, h.above, List.map_cons]
  · rw [Draft.openElement, Draft.openElement, h.count]

theorem nameElement (h : d.FoldsTo d') (name : Text) (start stop : Nat) :
    (d.nameElement name start stop).FoldsTo (d'.nameElement name.fold start stop) := by
  unfold Draft.nameElement
  refine expectTagName ?_ _ _ start stop
  refine ⟨?_, h.above, h.count, h.endTagOpen, ?_, h.problems⟩
  · rw [h.current, ofList_fold]
    cases d.current
    rfl
  · rw [h.openTags, ofList_fold, string_toLower_toLower]

theorem dropOpenTag (h : d.FoldsTo d') (tags : List OpenTag) :
    FoldsTo { d with openTags := tags } { d' with openTags := tags } :=
  ⟨h.current, h.above, h.count, h.endTagOpen, rfl, h.problems⟩

theorem selfClose (h : d.FoldsTo d') (stop : Nat) : (d.selfClose stop).FoldsTo (d'.selfClose stop) := by
  rw [Draft.selfClose, Draft.selfClose, h.openTags]
  refine dropOpenTag (h.leave fun e => ?_) _
  cases e
  rfl

theorem closeStartTag (h : d.FoldsTo d') (stop : Nat) :
    (d.closeStartTag stop).FoldsTo (d'.closeStartTag stop) := by
  rw [Draft.closeStartTag, Draft.closeStartTag, h.current, Element.isVoid_fold]
  split
  · exact h.selfClose stop
  · refine ⟨?_, h.above, h.count, h.endTagOpen, h.openTags, h.problems⟩
    cases d.current
    rfl

theorem addAttribute (h : d.FoldsTo d') (name : Text) (start stop : Nat) :
    (d.addAttribute name start stop).FoldsTo (d'.addAttribute name.fold start stop) := by
  have hexpect := h.expect (isValidAttributeName name) (.attributeName (String.ofList name)) nofun
    start (stop - 1)
  rw [Draft.addAttribute, Draft.addAttribute, isValidAttributeName_fold, ofList_fold]
  refine ⟨?_, hexpect.above, hexpect.count, hexpect.endTagOpen, hexpect.openTags, hexpect.problems⟩
  have hcurrent := hexpect.current
  rw [ProblemKind.fold] at hcurrent
  simp only [hcurrent]
  refine Element.ext_fold ?_ ?_
  · simp [ElementHead.fold, Element.fold_toElementHead, Attribute.fold]
  · exact Element.fold_children _

theorem addValue (h : d.FoldsTo d') (value : Text) (start stop : Nat) :
    (d.addValue value start stop).FoldsTo (d'.addValue value.fold start stop) := by
  have hexpect := h.expect (isDoubleQuoted value) .valueNotQuoted (by simp) start (stop - 1)
  rw [Draft.addValue, Draft.addValue, isDoubleQuoted_fold, unquote_fold, ofList_fold]
  refine ⟨?_, hexpect.above, hexpect.count, hexpect.endTagOpen, hexpect.openTags, hexpect.problems⟩
  have hcurrent := hexpect.current
  rw [ProblemKind.fold] at hcurrent
  · simp only [hcurrent]
    refine Element.ext_fold ?_ ?_
    · simp [ElementHead.fold, Element.fold_toElementHead, ← setLastValue_fold]
    · exact Element.fold_children _
  · simp

theorem addText (h : d.FoldsTo d') (content : Text) :
    (d.addText content).FoldsTo (d'.addText content.fold) := by
  rw [Draft.addText, Draft.addText, Text.trim_fold]
  cases content.trim with
  | nil => exact h
  | cons c run =>
    have hrun := ofList_fold (c :: run)
    rw [Text.fold_cons] at hrun ⊢
    refine ⟨?_, h.above, h.count, h.endTagOpen, h.openTags, h.problems⟩
    refine Element.ext_fold ?_ ?_
    · simp only [hrun, h.current, ElementHead.fold, Element.fold_toElementHead, List.map_append,
        List.map_cons, List.map_nil]
    · exact h.current ▸ Element.fold_children _

theorem voidBefore? (h : d.FoldsTo d') (text : Text) (name : String) (start : Nat) :
    d'.voidBefore? text.fold name start = (d.voidBefore? text name start).map Element.fold := by
  rw [Draft.voidBefore?, Draft.voidBefore?, h.current, Element.hasName_fold, Element.fold_children]
  split
  · rfl
  · rw [List.getLast?_map]
    cases d.current.children.getLast? with
    | none => rfl
    | some child =>
      have hblank : ((text.fold.slice? child.stop start).map Text.trim = some []) =
          ((text.slice? child.stop start).map Text.trim = some []) := by
        rw [Text.slice?_fold]
        cases text.slice? child.stop start with
        | none => rfl
        | some between =>
          rw [Option.map_some, Option.map_some, Option.map_some, Text.trim_fold, Option.some.injEq,
            Option.some.injEq]
          exact propext List.map_eq_nil_iff
      simp only [Option.map_some, Option.filter_some, Element.hasName_fold, Element.fold_toElementHead,
        ElementHead.fold, hblank]
      split <;> rfl

theorem settle (h : d.FoldsTo d') (name : String) (start stop : Nat) :
    (d.settle name start stop).FoldsTo (d'.settle name start stop) := by
  rw [Draft.settle, Draft.settle, h.openTags]
  cases d.openTags with
  | nil => exact h.report (.startTagMissing name) nofun start stop
  | cons tag rest =>
    exact (h.dropOpenTag rest).expect (tag.name = name) (.endTagMissing tag.name) nofun
      tag.start tag.stop

theorem nameEndTag (h : d.FoldsTo d') (text lexeme : Text) (start stop : Nat) :
    (d.nameEndTag text lexeme start stop).FoldsTo (d'.nameEndTag text.fold lexeme.fold start stop) := by
  unfold Draft.nameEndTag
  simp only [ofList_fold, string_toLower_toLower, h.endTagOpen, h.voidBefore?]
  generalize (String.ofList lexeme).toLower = name
  generalize d.endTagOpen.getD start = tagStart
  cases d.voidBefore? text name tagStart with
  | some child =>
    refine ⟨?_, ?_, h.count, rfl, h.openTags, h.problems⟩
    · cases child
      rfl
    · refine List.cons_eq_cons.mpr ⟨Element.ext_fold ?_ ?_, h.above⟩
      · rw [h.current, Element.fold_toElementHead]
      · rw [h.current, Element.fold_children, List.map_dropLast]
  | none =>
    simp only [Option.map_none, h.current, h.above, closeUpTo_fold]
    apply settle
    refine ⟨?_, rfl, h.count, rfl, h.openTags, h.problems⟩
    generalize closeUpTo name tagStart d.current d.above = closed
    obtain ⟨e, above⟩ := closed
    cases above with
    | nil => rfl
    | cons parent above =>
      cases e
      rfl

theorem accept (h : d.FoldsTo d') (text : Text) (p : Placed) :
    (d.accept text p).FoldsTo (d'.accept text.fold p.fold) := by
  have hstop : p.fold.stop = p.stop := congrArg (p.offset + ·) p.token.size_fold
  have hnote := h.note p
  rw [Draft.accept, Draft.accept, hstop, Text.size_fold, show p.fold.kind = p.kind from rfl]
  cases p.kind with
  | tagOpen => exact hnote.openElement p.offset text.size
  | tagName => exact hnote.nameElement p.lexeme p.offset p.stop
  | tagClose => exact hnote.closeStartTag p.stop
  | tagSelfClose => exact hnote.selfClose p.stop
  | endTagOpen => exact ⟨hnote.current, hnote.above, hnote.count, rfl, hnote.openTags, hnote.problems⟩
  | endTagName => exact hnote.nameEndTag text p.lexeme p.offset p.stop
  | endTagClose =>
    refine hnote.leave fun e => ?_
    cases e
    rfl
  | attributeName => exact hnote.addAttribute p.lexeme p.offset p.stop
  | attributeValue => exact hnote.addValue p.lexeme p.offset p.stop
  | content => exact hnote.addText p.lexeme
  | _ => exact hnote

theorem foldl_accept (h : d.FoldsTo d') (text : Text) (ts : List Placed) :
    (ts.foldl (Draft.accept text) d).FoldsTo
      ((ts.map Placed.fold).foldl (Draft.accept text.fold) d') := by
  induction ts generalizing d d' with
  | nil => exact h
  | cons p ts ih => exact ih (h.accept text p)

end FoldsTo

end Draft

/-- The case of ASCII letters has no influence on how a text is read. From every offset and in every
state the folded text has the same tokens, apart from case. Its document is the same tree, apart
from case, with the same problems, apart from case and from tag names with capital letters. -/
theorem parse_fold (text : Text) :
    (∀ offset state, scanFrom text.fold offset state =
      (scanFrom text offset state).map (·.map Placed.fold)) ∧
    (Document.parse text.fold).root = (Document.parse text).root.fold ∧
    Problem.outline (Document.parse text.fold).problems =
      Problem.outline (Document.parse text).problems := by
  have hempty : (Draft.empty text).FoldsTo (Draft.empty text.fold) := by
    refine ⟨?_, rfl, rfl, rfl, rfl, rfl⟩
    rw [Draft.empty, Draft.empty, Text.size_fold]
    rfl
  have hread := hempty.foldl_accept text (tokens text)
  have htokens : (tokens text).map Placed.fold = tokens text.fold := (scan_fold .content 0 text).symm
  rw [htokens] at hread
  refine ⟨scanFrom_fold text, ?_, ?_⟩
  · rw [Document.parse, Document.parse, Draft.finish, Draft.finish, Text.size_fold, hread.current,
      hread.above, closeAll_fold]
  · rw [Document.parse, Document.parse, Draft.finish, Draft.finish, Problem.outline_append,
      Problem.outline_append, hread.problems, hread.openTags]

end PageMarkup
