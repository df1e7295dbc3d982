import PageMarkup.Completion.Site
import PageMarkup.Proofs.StartTags

/-!
# Completion sites and the tokens before them

A completion site is decided by a single token, and the names it carries are those of the last tag
name and the last attribute name before that token.
-/

namespace PageMarkup

def lastOf? (kind : TokenKind) (ts : List Placed) : Option Placed :=
  (ts.filter (·.kind = kind)).getLast?

def lastLexeme (kind : TokenKind) (initial : Text) (ts : List Placed) : Text :=
  ((lastOf? kind ts).map Placed.lexeme).getD initial

theorem lastLexeme_cons (kind : TokenKind) (initial : Text) (p : Placed) (ts : List Placed) :
    lastLexeme kind initial (p :: ts) =
      lastLexeme kind (if p.kind = kind then p.lexeme else initial) ts := by
  rw [lastLexeme, lastOf?, lastLexeme, lastOf?]
  split
  · next hkind =>
    rw [List.filter_cons_of_pos (by simpa using hkind), List.getLast?_cons]
    cases (ts.filter (·.kind = kind)).getLast? <;> rfl
  · next hkind => rw [List.filter_cons_of_neg (by simpa using hkind)]

theorem lastOf?_append_of_forall_ne (h : ∀ p ∈ ts, p.kind ≠ kind) (front : List Placed) :
    lastOf? kind (front ++ ts) = lastOf? kind front := by
  have hnone : ts.filter (·.kind = kind) = [] :=
    List.filter_eq_nil_iff.mpr fun p hp => by simpa using h p hp
  rw [lastOf?, List.filter_append, hnone, List.append_nil, lastOf?]

namespace CompletionSite

/-- Only a token that ends at the cursor lets a site reach further. -/
theorem extend_of_ne (h : p.stop ≠ cursor) (rest : List Placed) (kind : TokenKind) :
    extend p rest cursor kind = cursor := by
  cases rest with
  | nil => rfl
  | cons q rest => rw [extend, if_neg fun hnext => h hnext.1]

/-- Tokens that end before the cursor only leave their names. -/
theorem ofTokens_append (text : Text) (tag name : Text) {front : List Placed}
    (hfront : ∀ q ∈ front, q.stop < cursor) (ts : List Placed) :
    ofTokens text cursor tag name (front ++ ts) =
      ofTokens text cursor (lastLexeme .tagName tag front) (lastLexeme .attributeName name front) ts := by
  induction front generalizing tag name with
  | nil => rfl
  | cons q front ih =>
    obtain ⟨hq, hfront⟩ := List.forall_mem_cons.mp hfront
    have hstart : ¬ cursor < q.offset :=
      Nat.not_lt.mpr (Nat.le_trans (Nat.le_add_right _ _) (Nat.le_of_lt hq))
    rw [List.cons_append, ofTokens, if_neg hstart, if_neg (Nat.not_le.mpr hq), ih _ _ hfront,
      lastLexeme_cons, lastLexeme_cons]

theorem ofTokens_cases (text : Text) (cursor : Nat) (tag name : Text) (ts : List Placed) :
    ofTokens text cursor tag name ts = .nothing ∨
      ∃ front p rest tag' name', ts = front ++ p :: rest ∧ p.offset ≤ cursor ∧ cursor ≤ p.stop ∧
        ofToken? text cursor tag' name' p rest = some (ofTokens text cursor tag name ts) := by
  fun_induction ofTokens text cursor tag name ts with
  | case1 => exact .inl rfl
  | case2 => exact .inl rfl
  | case3 tag name p rest hstart hstop site hsite =>
    exact .inr ⟨[], p, rest, tag, name, rfl, Nat.not_lt.mp hstart, hstop, hsite⟩
  | case4 tag name p rest hstart tag' name' hstop hnone ih =>
    refine ih.imp_right ?_
    rintro ⟨front, q, rest', tag'', name'', rfl, hq⟩
    exact ⟨p :: front, q, rest', tag'', name'', rfl, hq⟩
  | case5 tag name p rest hstart tag' name' hstop ih =>
    refine ih.imp_right ?_
    rintro ⟨front, q, rest', tag'', name'', rfl, hq⟩
    exact ⟨p :: front, q, rest', tag'', name'', rfl, hq⟩

end CompletionSite

def Attribute.label (a : Attribute) : String × Nat :=
  (a.name, a.offset)

namespace StartTag

theorem foldl_read_place (s : StartTag) (ts : List Placed) :
    (ts.foldl read s).id = s.id ∧ (ts.foldl read s).start = s.start := by
  induction ts generalizing s with
  | nil => exact ⟨rfl, rfl⟩
  | cons p ts ih =>
    rw [List.foldl_cons, (ih _).1, (ih _).2, read]
    cases p.kind <;> exact ⟨rfl, rfl⟩

theorem foldl_read_tag (s : StartTag) (ts : List Placed) :
    (ts.foldl read s).tag = ((lastOf? .tagName ts).map fun p => String.ofList p.lexeme).or s.tag := by
  induction ts generalizing s with
  | nil => rfl
  | cons p ts ih =>
    rw [List.foldl_cons, ih, lastOf?, lastOf?, List.filter_cons]
    cases hkind : p.kind with
    | tagName =>
      simp only [decide_true, ↓reduceIte, List.getLast?_cons, Option.map_some, Option.some_or]
      cases (ts.filter (·.kind = .tagName)).getLast? <;> simp [read, hkind]
    | _ => simp [read, hkind]

theorem foldl_read_labels (s : StartTag) (ts : List Placed) :
    (ts.foldl read s).attributes.map Attribute.label = s.attributes.map Attribute.label ++
      (ts.filter (·.kind = .attributeName)).map fun p => (String.ofList p.lexeme, p.offset) := by
  induction ts generalizing s with
  | nil => simp
  | cons p ts ih =>
    rw [List.foldl_cons, ih, List.filter_cons]
    cases hkind : p.kind with
    | attributeName => simp [read, hkind, Attribute.label]
    | attributeValue =>
      simp only [read, hkind]
      rw [map_setLastValue Attribute.label (fun _ _ => rfl)]
      rfl
    | _ => simp [read, hkind]

end StartTag

end PageMarkup
