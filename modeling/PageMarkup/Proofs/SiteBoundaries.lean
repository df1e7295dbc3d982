import PageMarkup.Proofs.Boundaries
import PageMarkup.Proofs.Sites
import PageMarkup.Proofs.TokenGrammar

/-!
# Completion sites lie on boundaries

The offsets of a completion site are computed from the cursor, which may be inside a character, and
from tokens around it, partly by stepping back over blanks. Whatever the cursor, they are boundaries
of the text, and a bracket stands where it is expected.
-/

namespace PageMarkup

theorem exists_opener {text : Text} {before rest : List Placed} {q : Placed} {opener : TokenKind}
    (h : tokens text = before ++ q :: rest) (hblank : q.kind = .blank)
    (hopener : q.state.predecessor? = some (opener, .blank)) (hne : opener ≠ .blank) :
    ∃ front x, before = front ++ [x] ∧ x.kind = opener := by
  rcases (reads_of_scan h).1.of_predecessor? hopener with hkind | ⟨hstate, -⟩
  · exact absurd (hkind.symm.trans hblank) hne
  · obtain ⟨front, x, blanks, rfl, hkind, rfl | ⟨y, rfl, hy⟩⟩ := exists_predecessor_filler rfl h hstate
    · exact ⟨front, x, rfl, hkind⟩
    · have hscan : scan .content 0 text = (front ++ [x]) ++ y :: q :: rest := by simpa [tokens] using h
      exact absurd hblank (kind_ne_blank_of_blank hscan hy)

theorem blank_follows_opener {text : Text} {before rest : List Placed} {q : Placed} {opener : TokenKind}
    (h : tokens text = before ++ q :: rest) (hblank : q.kind = .blank)
    (hopener : q.state.predecessor? = some (opener, .blank)) (hne : opener ≠ .blank) :
    ∃ x ∈ tokens text, x.kind = opener ∧ q.offset = x.stop := by
  obtain ⟨front, x, rfl, hkind⟩ := exists_opener h hblank hopener hne
  have hscan : scan .content 0 text = front ++ x :: q :: rest := by simpa [tokens] using h
  exact ⟨x, by rw [h]; simp, hkind, (reads_next hscan).2⟩

namespace CompletionSite

/-- The offsets of the site are boundaries, and one character before the name of a tag or its slash
there is room for the bracket. -/
def OnBoundaries (text : Text) : CompletionSite → Prop
  | .afterBracket start stop | .endTag start stop =>
    ∃ bracket, start = bracket + 1 ∧ text.IsBoundary bracket ∧ text.IsBoundary stop
  | .tagName start stop | .attributeName _ start stop | .attributeValue _ _ start stop =>
    text.IsBoundary start ∧ text.IsBoundary stop
  | .afterStartTag offset _ => text.IsBoundary offset
  | .nothing | .content => True

theorem slashBefore?_of_upTo {text w : Text} (h : text.upTo offset = front ++ '<' :: '/' :: w)
    (hw : ∀ c ∈ w, isBlank c = true) : slashBefore? text offset = some (offset - w.length - 1) := by
  have hreverse : (text.upTo offset).reverse = w.reverse ++ '/' :: '<' :: front.reverse := by
    rw [h]
    simp
  have hblank : ∀ c ∈ w.reverse, isBlank c = true := fun c hc => hw c (List.mem_reverse.mp hc)
  rw [slashBefore?, hreverse, List.dropWhile_append_of_pos hblank, List.takeWhile_append_of_pos hblank]
  simp [isBlank]

section
variable {text : Text} {before rest : List Placed} {p : Placed}
  (h : tokens text = before ++ p :: rest)
include h

theorem extend_isBoundary (hcursor : text.IsBoundary cursor) (kind : TokenKind) :
    text.IsBoundary (extend p rest cursor kind) := by
  cases rest with
  | nil => exact hcursor
  | cons q rest =>
    rw [extend]
    split
    · exact (isBoundary_of_mem_tokens (by rw [h]; simp)).2
    · exact hcursor

/-- The slash before the name of an end tag is found, and it follows the bracket. -/
theorem slashBefore?_eq (hkind : p.kind = .endTagName) :
    ∃ x ∈ tokens text, x.kind = .endTagOpen ∧ x.stop ≤ p.offset ∧
      slashBefore? text p.offset = some (x.offset + 1) := by
  have hstate := (reads_of_scan h).1.predecessor? (x := (.endTagOpen, .blank)) (by rw [hkind]; rfl)
  obtain ⟨front, x, blanks, rfl, hx, hblanks⟩ := exists_predecessor_filler rfl h hstate
  have hxmem : x ∈ tokens text := by rw [h]; simp
  have hlexeme : x.lexeme = ['<', '/'] := lexeme_of_mem_tokens hxmem (by rw [hx]; rfl)
  have hblank : ∀ c ∈ blanks.flatMap Placed.lexeme, isBlank c = true := by
    rcases hblanks with rfl | ⟨y, rfl, hy⟩
    · simp
    · have hymem : y ∈ tokens text := by rw [h]; simp
      have hwrites := writes_of_mem_scan hymem
      rw [hy] at hwrites
      intro c hc
      exact hwrites c (by simpa using hc)
  have hbefore := upTo_offset h
  have hoffset := offset_eq_size h
  have hfront : tokens text = front ++ x :: (blanks ++ p :: rest) := by rw [h]; simp
  have hbracket := offset_eq_size hfront
  have hsize := Text.size_eq_length fun c hc => utf8Size_of_isBlank (hblank c hc)
  simp only [List.flatMap_append, List.flatMap_cons, hlexeme, List.cons_append, List.nil_append]
    at hoffset hbefore
  refine ⟨x, hxmem, hx, stop_le_of_mem_before h (by simp), ?_⟩
  rw [slashBefore?_of_upTo hbefore hblank, hoffset, hbracket, Text.size_append, Text.size_cons,
    Text.size_cons, hsize, show '<'.utf8Size = 1 from rfl, show '/'.utf8Size = 1 from rfl]
  congr 1
  omega

theorem ofBlank?_onBoundaries (hkind : p.kind = .blank) (hstart : p.offset ≤ cursor)
    (hstop : cursor ≤ p.stop) (hsite : ofBlank? cursor tag name p rest = some site) : site.OnBoundaries text := by
  have hmem : p ∈ tokens text := by rw [h]; simp
  have hend := (isBoundary_of_mem_tokens hmem).2
  have hcursor := isBoundary_in_blank hmem hkind hstart hstop
  rw [ofBlank?] at hsite
  cases hstate : p.state with
  | afterTagOpen =>
    rw [hstate] at hsite
    cases hsite
    obtain ⟨x, hx, hopener, hoffset⟩ := blank_follows_opener h hkind (by rw [hstate]; rfl) (by simp)
    have hstop : x.stop = x.offset + 1 := stop_of_bracket (w := ['<']) hx (by rw [hopener]; rfl)
    exact ⟨x.offset, hoffset.trans hstop, (isBoundary_of_mem_tokens hx).1, extend_isBoundary h hcursor _⟩
  | afterEndTagOpen =>
    rw [hstate] at hsite
    cases hsite
    obtain ⟨x, hx, hopener, hoffset⟩ := blank_follows_opener h hkind (by rw [hstate]; rfl) (by simp)
    have hstop : x.stop = x.offset + 2 := stop_of_bracket (w := ['<', '/']) hx (by rw [hopener]; rfl)
    refine ⟨x.offset, ?_, (isBoundary_of_mem_tokens hx).1, hcursor⟩
    rw [hoffset, hstop]
    rfl
  | tag | afterAttributeName | beforeAttributeValue =>
    rw [hstate] at hsite
    cases hsite
    exact ⟨hend, hcursor⟩
  | content =>
    rw [hstate] at hsite
    cases hsite
    trivial
  | _ =>
    rw [hstate] at hsite
    cases hsite

theorem ofToken?_onBoundaries (hstart : p.offset ≤ cursor) (hstop : cursor ≤ p.stop)
    (hsite : ofToken? text cursor tag name p rest = some site) : site.OnBoundaries text := by
  have hmem : p ∈ tokens text := by rw [h]; simp
  obtain ⟨hoffset, hend⟩ := isBoundary_of_mem_tokens hmem
  rw [ofToken?] at hsite
  cases hkind : p.kind with
  | tagOpen =>
    rw [hkind] at hsite
    obtain ⟨hcursor, hsite⟩ := Option.ite_none_right_eq_some.mp hsite
    cases hsite
    have hstop : p.stop = p.offset + 1 := stop_of_bracket (w := ['<']) hmem (by rw [hkind]; rfl)
    exact ⟨p.offset, hcursor.symm.trans hstop, hoffset, extend_isBoundary h (hcursor ▸ hend) _⟩
  | tagName | attributeName | attributeValue =>
    rw [hkind] at hsite
    cases hsite
    exact ⟨hoffset, hend⟩
  | assign =>
    rw [hkind] at hsite
    obtain ⟨hcursor, hsite⟩ := Option.ite_none_right_eq_some.mp hsite
    cases hsite
    exact ⟨hcursor ▸ hend, extend_isBoundary h (hcursor ▸ hend) _⟩
  | blank =>
    rw [hkind] at hsite
    exact ofBlank?_onBoundaries h hkind hstart hstop hsite
  | endTagOpen =>
    rw [hkind] at hsite
    cases hsite
    have hlexeme : p.lexeme = ['<', '/'] := lexeme_of_mem_tokens hmem (by rw [hkind]; rfl)
    have hsize : ∀ d ∈ p.lexeme, d.utf8Size = 1 := by
      rw [hlexeme]
      exact List.forall_mem_cons.mpr ⟨rfl, List.forall_mem_singleton.mpr rfl⟩
    have hcursor := isBoundary_in_token hmem hsize hstart hstop
    exact ⟨p.offset, rfl, hoffset, extend_isBoundary h hcursor _⟩
  | endTagName =>
    rw [hkind] at hsite
    obtain ⟨x, hx, -, -, hslash⟩ := slashBefore?_eq h hkind
    rw [hslash] at hsite
    cases hsite
    exact ⟨x.offset, rfl, (isBoundary_of_mem_tokens hx).1, hend⟩
  | tagClose =>
    rw [hkind] at hsite
    obtain ⟨-, hsite⟩ := Option.ite_none_left_eq_some.mp hsite
    cases hsite
    exact hend
  | _ =>
    rw [hkind] at hsite
    cases hsite
    trivial

end

theorem ofTokens_onBoundaries (h : tokens text = before ++ ts) (cursor : Nat) (tag name : Text) :
    (ofTokens text cursor tag name ts).OnBoundaries text := by
  rcases ofTokens_cases text cursor tag name ts with
    hnothing | ⟨front, p, rest, tag', name', rfl, hstart, hstop, hsite⟩
  · rw [hnothing]
    trivial
  · have hsplit : tokens text = (before ++ front) ++ p :: rest := by simpa using h
    exact ofToken?_onBoundaries hsplit hstart hstop hsite

end CompletionSite

end PageMarkup
