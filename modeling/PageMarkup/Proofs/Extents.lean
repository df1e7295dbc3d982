import PageMarkup.Proofs.OpenElements

/-!
# How far start tags and elements reach

A start tag reaches from its bracket to the token that ends it, or to the end of the text. Elements
end only at the end of the text, where an end tag begins, or with a token that ends a tag; no such
place is inside a start tag, and neither is the start of another element. So an element reaches at
least to the end of its start tag, and its children come after that.
-/

namespace PageMarkup

open ScanState (Reads ReadsInTag)

-- ---------------------------------------------------------------------------
-- The tokens of a start tag
-- ---------------------------------------------------------------------------

def TokenKind.endsTag : TokenKind → Bool
  | .tagClose | .tagSelfClose => true
  | _ => false

/-- The tokens that belong to a start tag, from the one after its bracket to the one that ends it. -/
def restOfTag : List Placed → List Placed
  | [] => []
  | p :: rest => if p.kind.endsTag then [p] else p :: restOfTag rest

theorem mem_of_mem_restOfTag (h : t ∈ restOfTag rest) : t ∈ rest := by
  fun_induction restOfTag rest with
  | case1 => exact h
  | case2 p rest _ => exact List.mem_singleton.mp h ▸ List.mem_cons_self
  | case3 p rest _ ih =>
    rcases List.mem_cons.mp h with rfl | h
    · exact List.mem_cons_self
    · exact List.mem_cons_of_mem p (ih h)

def ScanState.isInTag : ScanState → Bool
  | .afterTagOpen | .tag _ | .afterAttributeName _ | .beforeAttributeValue _ => true
  | _ => false

def TokenKind.beginsTag : TokenKind → Bool
  | .tagOpen | .endTagOpen => true
  | _ => false

theorem ScanState.Reads.inTag (h : Reads state kind after) (hstate : state.isInTag = true) :
    (kind.endsTag = true ∨ after.isInTag = true) ∧ kind.beginsTag = false ∧ kind ≠ .endTagClose := by
  cases h with
  | nameless h | tag h | valueless h | missingValue _ h =>
    cases h with
    | selfClose | close => exact ⟨.inl rfl, rfl, nofun⟩
    | _ => exact ⟨.inr rfl, rfl, nofun⟩
  | tagName | blankBeforeName | blankAfterName | assign | blankBeforeValue | value =>
    exact ⟨.inr rfl, rfl, nofun⟩
  | _ => cases hstate

/-- Another tag begins only after the start tag, and no earlier token than its last one ends a tag. -/
theorem stop_le_of_mem_restOfTag {rest : List Placed} (h : scan state offset cs = rest)
    (hstate : state.isInTag = true) (ht : t ∈ restOfTag rest) (hq : q ∈ rest) :
    (q.kind.beginsTag = true → t.stop ≤ q.offset) ∧
      (q.kind.endsTag = true ∨ q.kind = .endTagClose → t.stop ≤ q.stop) := by
  induction rest generalizing state offset cs with
  | nil => cases hq
  | cons p rest ih =>
    obtain ⟨hreads, -, tail, htail⟩ := scan_step h
    obtain ⟨hgoes, hbegins, hclose⟩ := hreads.inTag hstate
    rw [restOfTag] at ht
    rcases List.mem_cons.mp hq with rfl | hq
    · refine ⟨fun hq => absurd (hq.symm.trans hbegins) nofun, fun hends => ?_⟩
      rw [if_pos (hends.resolve_right hclose), List.mem_singleton] at ht
      exact ht ▸ Nat.le_refl _
    · have hlater : p.stop ≤ q.offset := offset_le_of_mem_scan (htail ▸ hq)
      have hend : p.stop ≤ q.stop := Nat.le_trans hlater (Nat.le_add_right _ _)
      split at ht
      · cases List.mem_singleton.mp ht
        exact ⟨fun _ => hlater, fun _ => hend⟩
      · next hends =>
        rcases List.mem_cons.mp ht with rfl | ht
        · exact ⟨fun _ => hlater, fun _ => hend⟩
        · exact ih htail (hgoes.resolve_left hends) ht hq

section
variable {text : Text} {before rest : List Placed} {p q t : Placed}
  (htokens : tokens text = before ++ p :: rest) (hopen : p.kind = .tagOpen)
  (ht : t ∈ p :: restOfTag rest)
include htokens hopen ht

theorem stop_le_of_mem_tag (hq : q ∈ tokens text) :
    (q.kind.beginsTag = true → p.offset < q.offset → t.stop ≤ q.offset) ∧
      (q.kind.endsTag = true ∨ q.kind = .endTagClose → p.offset < q.stop → t.stop ≤ q.stop) := by
  have hsize : q.offset < q.stop := Nat.lt_add_of_pos_right (size_pos_of_mem_tokens hq)
  obtain ⟨front, tail, -, -, hscan⟩ := scan_eq_append htokens
  obtain ⟨hreads, -, tail', htail⟩ := scan_step hscan.symm
  rw [hopen] at hreads
  have hstate : p.state.isInTag = true := by rw [hreads.of_tagOpen]; rfl
  rw [htokens] at hq
  rcases List.mem_append.mp hq with hq | hq
  · have hbefore : q.stop ≤ p.offset := stop_le_of_mem_before htokens hq
    exact ⟨fun _ hlt => by omega, fun _ hlt => by omega⟩
  · rcases List.mem_cons.mp hq with rfl | hlater
    · rw [hopen]
      exact ⟨fun _ hlt => absurd hlt (Nat.lt_irrefl _), nofun⟩
    · rcases List.mem_cons.mp ht with rfl | ht
      · have hle := stop_le_offset htokens hlater
        exact ⟨fun _ _ => hle, fun _ _ => by omega⟩
      · obtain ⟨hbegins, hends⟩ := stop_le_of_mem_restOfTag htail hstate ht hlater
        exact ⟨fun h _ => hbegins h, fun h _ => hends h⟩

end

-- ---------------------------------------------------------------------------
-- Where elements end
-- ---------------------------------------------------------------------------

/-- The offsets at which an element can end. -/
inductive EndsAt (text : Text) : Nat → Prop
  | close (mem : p ∈ tokens text) (ends : p.kind.endsTag = true ∨ p.kind = .endTagClose) :
      EndsAt text p.stop
  | cut (opens : TokenAt text .endTagOpen offset) : EndsAt text offset
  | endOfText : EndsAt text text.size

def AllEnded (text : Text) (es : List Element) : Prop :=
  ∀ e ∈ Element.preorderAll es, EndsAt text e.stop

def Settled (text : Text) (e : Element) (above : List Element) : Prop :=
  AllEnded text e.children ∧ ∀ x ∈ above, AllEnded text x.children

theorem Settled.closeUpTo (h : Settled text e above) (name : String) (hstop : EndsAt text stop) :
    Settled text (closeUpTo name stop e above).1 (closeUpTo name stop e above).2 := by
  fun_induction PageMarkup.closeUpTo name stop e above with
  | case1 => exact h
  | case2 => exact h
  | case3 e parent above _ ih => exact ih (Finished.push h hstop rfl)

theorem Settled.closeAll (h : Settled text e above) (hstop : EndsAt text stop) :
    AllEnded text (closeAll stop e above).children := by
  fun_induction PageMarkup.closeAll stop e above with
  | case1 => exact h.1
  | case2 e parent above ih => exact ih (Finished.push h hstop rfl)

def Draft.Settled (text : Text) (d : Draft) : Prop :=
  PageMarkup.Settled text d.current d.above

theorem Draft.Settled.accept {d : Draft} (h : d.Settled text) (hp : p ∈ tokens text)
    (hreads : Reads state p.kind p.state) (hord : InOrder text bound state d) :
    (d.accept text p).Settled text := by
  have hstep := d.accept_step text p
  unfold Draft.Settled
  generalize (d.accept text p).current = e, (d.accept text p).above = above at hstep ⊢
  cases hstep with
  | stay children => exact Finished.congr h children
  | begin children => exact Finished.opened h children
  | leave outer children _ stop kind =>
    rw [Draft.Settled, outer] at h
    refine Finished.push h ?_ children
    rw [stop]
    rcases kind with hkind | hkind | hkind
    · exact .close hp (.inl (by rw [hkind]; rfl))
    · exact .close hp (.inl (by rw [hkind]; rfl))
    · exact .close hp (.inr hkind)
  | endTagName kind step =>
    rw [kind] at hreads
    obtain rfl := hreads.of_endTagName
    obtain ⟨t, hopen, hat, -⟩ := hord
    rw [hopen, Option.getD_some] at step
    have hclosed := PageMarkup.Settled.closeUpTo h (String.ofList p.lexeme).toLower (.cut hat)
    cases step with
    | absorbed void => exact Finished.pop h (voidBefore?_eq_some void) rfl
    | found void closed =>
      rw [closed] at hclosed
      exact Finished.congr hclosed rfl
    | lost void closed =>
      rw [closed] at hclosed
      exact hclosed

theorem parse_allEnded (text : Text) : AllEnded text (Document.parse text).roots := by
  have hall := Draft.reading_all
    (motive := fun bound state d => InOrder text bound state d ∧ d.Settled text)
    (fun p state d hp hreads h => ⟨h.1.accept hp hreads, h.2.accept hp hreads h.1⟩)
    ⟨Draft.after_inOrder (List.nil_append (tokens text)).symm, List.forall_mem_nil _,
      List.forall_mem_nil _⟩
  exact hall.2.closeAll .endOfText

end PageMarkup
