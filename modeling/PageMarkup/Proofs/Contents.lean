import PageMarkup.Proofs.Boundaries
import PageMarkup.Proofs.Lexemes
import PageMarkup.Proofs.Lookups
import PageMarkup.Proofs.TextRuns
import PageMarkup.Proofs.WrittenAttributes

/-!
# What an element holds

The innermost element that is open when a text run is read is also, once the document has been read,
the innermost one whose range encloses the run. An element that was over before the run stays over:
a later end tag can go to it only if there is nothing but blanks between. An element that was open
ends after the run. `parse_contents` puts this together with the attributes.
-/

namespace PageMarkup

open ScanState (Reads)

def Element.Encloses (e : Element) (p : Placed) : Prop :=
  e.start ≤ p.offset ∧ p.stop ≤ e.stop

instance (e : Element) (p : Placed) : Decidable (e.Encloses p) :=
  inferInstanceAs (Decidable (_ ∧ _))

/-- The token is inside the element and inside none of its children. -/
def Element.Holds (e : Element) (p : Placed) : Prop :=
  e.Encloses p ∧ ∀ c ∈ e.children, ¬ c.Encloses p

instance (e : Element) (p : Placed) : Decidable (e.Holds p) :=
  inferInstanceAs (Decidable (_ ∧ _))

-- ---------------------------------------------------------------------------
-- One innermost element
-- ---------------------------------------------------------------------------

section
variable {text : Text} {es : List Element} {e x y : Element} {p : Placed}

theorem Forest.encloses (h : Forest text es) (hx : x ∈ Element.preorderAll es) (hp : x.Holds p) :
    ∃ c ∈ es, c.Encloses p := by
  obtain ⟨c, hc, hstart, hstop⟩ := h.within hx
  exact ⟨c, hc, Nat.le_trans hstart hp.1.1, Nat.le_trans hp.1.2 hstop⟩

theorem Forest.not_holds (h : Forest text e.children) (hx : x ∈ Element.preorderAll e.children)
    (hp : x.Holds p) : ¬ e.Holds p := by
  intro he
  obtain ⟨c, hc, hencloses⟩ := h.encloses hx hp
  exact he.2 c hc hencloses

theorem Forest.not_holds_later (h : Forest text (e :: es)) (hp : p.offset < p.stop)
    (hx : x ∈ e.preorder) (hxp : x.Holds p) (hy : y ∈ Element.preorderAll es) : ¬ y.Holds p := by
  intro hyp
  obtain ⟨hrange, hbelow⟩ := h.ranged.mem List.mem_cons_self
  obtain ⟨-, hstop⟩ := hrange.within_preorder hbelow hx
  obtain ⟨c, hc, hstart, -⟩ := h.tail.encloses hy hyp
  obtain ⟨-, hover⟩ := (List.pairwise_cons.mp h.ordered).1 c hc
  obtain ⟨⟨-, hxstop⟩, -⟩ := hxp
  omega

mutual
theorem Element.holds_unique (e : Element) (h : Forest text e.children) (hp : p.offset < p.stop)
    (hx : x ∈ e.preorder) (hy : y ∈ e.preorder) (hxp : x.Holds p) (hyp : y.Holds p) : x = y := by
  cases e with
  | mk head children =>
    rw [Element.preorder_eq] at hx hy
    rcases List.mem_cons.mp hx with rfl | hx
    · rcases List.mem_cons.mp hy with rfl | hy
      · rfl
      · exact absurd hxp (h.not_holds hy hyp)
    · rcases List.mem_cons.mp hy with rfl | hy
      · exact absurd hyp (h.not_holds hx hxp)
      · exact Forest.holds_unique children h hp hx hy hxp hyp
theorem Forest.holds_unique (es : List Element) (h : Forest text es) (hp : p.offset < p.stop)
    (hx : x ∈ Element.preorderAll es) (hy : y ∈ Element.preorderAll es) (hxp : x.Holds p)
    (hyp : y.Holds p) : x = y := by
  cases es with
  | nil => cases hx
  | cons e rest =>
    rw [Element.preorderAll] at hx hy
    rcases List.mem_append.mp hx with hx | hx
    · rcases List.mem_append.mp hy with hy | hy
      · exact Element.holds_unique e (h.children List.mem_cons_self) hp hx hy hxp hyp
      · exact absurd hyp (h.not_holds_later hp hx hxp hy)
    · rcases List.mem_append.mp hy with hy | hy
      · exact absurd hxp (h.not_holds_later hp hy hyp hx)
      · exact Forest.holds_unique rest h.tail hp hx hy hxp hyp
end

end

-- ---------------------------------------------------------------------------
-- A run in a stretch of text
-- ---------------------------------------------------------------------------

theorem Text.trim_eq_nil_iff {cs : Text} : cs.trim = [] ↔ ∀ c ∈ cs, isWhiteSpace c = true := by
  constructor
  · intro htrim c hc
    refine Classical.byContradiction fun hblank => Text.trim_ne_nil ?_ htrim
    exact List.any_eq_true.mpr ⟨c, hc, by simpa using hblank⟩
  · intro hall
    rw [trim, List.dropWhile_eq_nil_iff.mpr hall]
    rfl

section
variable {text middle : Text} {t : Placed} {start stop : Nat}

theorem lexeme_isInfix_slice? (h : text.slice? start stop = some middle) (ht : t ∈ tokens text)
    (hstart : start ≤ t.offset) (hstop : t.stop ≤ stop) : t.lexeme <:+: middle := by
  obtain ⟨front, rest, htext, rfl, rfl⟩ := Text.exists_of_slice? h
  obtain ⟨front', rest', htext', hoffset⟩ := exists_append_of_mem_tokens ht
  have hsize : Text.size (front' ++ t.lexeme) = t.stop := by
    rw [Text.size_append, hoffset]
    rfl
  have hbefore : front <+: text := ⟨middle ++ rest, by rw [htext, List.append_assoc]⟩
  have hbefore' : front' <+: text := ⟨t.lexeme ++ rest', by rw [htext', List.append_assoc]⟩
  obtain ⟨gap, rfl⟩ := Text.isPrefix_of_size_le hbefore hbefore' (hoffset ▸ hstart)
  obtain ⟨gap', hgap⟩ := Text.isPrefix_of_size_le ⟨_, htext'.symm⟩ ⟨_, htext.symm⟩ (hsize ▸ hstop)
  rw [List.append_assoc, List.append_assoc] at hgap
  have hmiddle := List.append_cancel_left hgap
  exact ⟨gap, gap', by rw [List.append_assoc, hmiddle]⟩

theorem run?_eq_none_of_slice? (h : (text.slice? start stop).map Text.trim = some [])
    (ht : t ∈ tokens text) (hstart : start ≤ t.offset) (hstop : t.stop ≤ stop) : t.run? = none := by
  obtain ⟨middle, hslice, hblank⟩ := Option.map_eq_some_iff.mp h
  have hinside := lexeme_isInfix_slice? hslice ht hstart hstop
  refine if_neg fun hrun => hrun.2 (Text.trim_eq_nil_iff.mpr fun c hc => ?_)
  exact Text.trim_eq_nil_iff.mp hblank c (hinside.subset hc)

end

-- ---------------------------------------------------------------------------
-- Elements beside a run
-- ---------------------------------------------------------------------------

/-- How an element that has ended lies to a token that was read when the element numbered `inner` was
the innermost one and `count` elements had been begun. -/
structure Element.Clears (t : Placed) (inner count : Nat) (e : Element) : Prop where
  around : e.id = inner → t.stop ≤ e.stop
  ended : inner < e.id → e.id ≤ count → e.stop ≤ t.offset

/-- Elements that were over before the token are not open, and those that have ended lie as they
should. -/
structure Beside (t : Placed) (inner count : Nat) (e : Element) (above : List Element) : Prop where
  finished : Finished (Element.Clears t inner count) e above
  outside : ∀ x ∈ openElements e above, x.id ≤ inner ∨ count < x.id

theorem mem_openElements {x e : Element} {above : List Element} (h : x ∈ openElements e above) :
    x = e ∨ x ∈ above := by
  induction above generalizing e with
  | nil => cases h
  | cons parent above ih =>
    rcases List.mem_cons.mp h with rfl | h
    · exact .inl rfl
    · exact .inr (List.mem_cons.mpr (ih h))

theorem mem_begunAround {x z : Element} {above : List Element} (hx : x ∈ above) (hz : z ∈ x.preorder) :
    z ∈ begunAround above := by
  induction above with
  | nil => cases hx
  | cons parent above ih =>
    rw [begunAround, begun_eq, ← Element.preorder_eq]
    rcases List.mem_cons.mp hx with rfl | hx
    · exact List.mem_append_right _ hz
    · exact List.mem_append_left _ (ih hx)

theorem Open.stop_le {text : Text} {bound : Nat} {e x : Element} {above : List Element}
    (h : Open text bound e above) (hx : x ∈ Element.preorderAll e.children) : x.stop ≤ bound := by
  obtain ⟨hchildren, hbelow⟩ : (∀ c ∈ e.children, c.stop ≤ bound) ∧ AllRanged text e.children := by
    cases h with
    | root _ _ _ _ _ children _ below => exact ⟨children, below⟩
    | inside range below => exact ⟨fun c hc => (range.children_inside c hc).2, below⟩
  refine Element.preorderAll_induction (P := fun x => x.stop ≤ bound) hchildren ?_ hx
  intro parent hparent hle c hc
  exact Nat.le_trans ((hbelow parent hparent).children_inside c hc).2 hle

section
variable {text : Text} {t p : Placed} {inner count stop : Nat} {e child parent : Element}
  {above : List Element} {d : Draft} {before rest done todo : List Placed}

theorem Beside.push (h : Beside t inner count e (parent :: above))
    (hchildren : child.children = e.children) (hid : child.id = e.id) (hstop : t.stop ≤ child.stop) :
    Beside t inner count (parent.push child) above := by
  obtain ⟨he, habove⟩ := List.forall_mem_cons.mp h.outside
  refine ⟨h.finished.push ⟨fun _ => hstop, fun hlt hle => ?_⟩ hchildren,
    forall_openElements_congr habove id⟩
  omega

theorem Beside.closeUpTo (h : Beside t inner count e above) (name : String) (hstop : t.stop ≤ stop) :
    Beside t inner count (closeUpTo name stop e above).1 (closeUpTo name stop e above).2 := by
  fun_induction PageMarkup.closeUpTo name stop e above with
  | case1 => exact h
  | case2 => exact h
  | case3 e parent above _ ih => exact ih (h.push rfl rfl hstop)

theorem Beside.closeAll (h : Beside t inner count e above) (hstop : t.stop ≤ stop) :
    AllIn (Element.Clears t inner count) (closeAll stop e above).children := by
  fun_induction PageMarkup.closeAll stop e above with
  | case1 => exact h.finished.1
  | case2 e parent above ih => exact ih (h.push rfl rfl hstop)

theorem Beside.accept (h : Beside t inner count d.current d.above) (ht : t ∈ tokens text)
    (hrun : t.run? ≠ none) (hcount : count ≤ d.count) (hp : t.stop ≤ p.stop)
    (htag : p.kind = .endTagName → ∃ start, d.endTagOpen = some start ∧ t.stop ≤ start) :
    Beside t inner count (d.accept text p).current (d.accept text p).above := by
  have hstep := d.accept_step text p
  generalize (d.accept text p).current = e, (d.accept text p).above = above at hstep ⊢
  cases hstep with
  | stay children _ id =>
    exact ⟨h.finished.congr children, forall_openElements_congr h.outside fun hid => id ▸ hid⟩
  | begin children id =>
    refine ⟨h.finished.opened children, List.forall_mem_cons.mpr ⟨.inr ?_, h.outside⟩⟩
    omega
  | leave outer children _ stop _ id =>
    rw [outer] at h
    exact h.push children id (stop ▸ hp)
  | endTagName kind step =>
    obtain ⟨start, hopen, hle⟩ := htag kind
    rw [hopen, Option.getD_some] at step
    have hclosed := h.closeUpTo (String.ofList p.lexeme).toLower hle
    cases step with
    | @absorbed child void =>
      obtain ⟨hlast, -, -, -, -, hblank⟩ := Draft.of_voidBefore? void
      have hclears := h.finished.1 child (Element.mem_preorderAll (List.mem_of_getLast? hlast))
      have hchild : child.id ≤ inner ∨ count < child.id := by
        refine Classical.byContradiction fun hnot => ?_
        -- The run would be among the blanks between the element and its end tag.
        have hover : child.stop ≤ t.offset := hclears.ended (by omega) (by omega)
        exact hrun (run?_eq_none_of_slice? hblank ht hover hle)
      exact ⟨h.finished.pop (Draft.voidBefore?_eq_some void) rfl,
        List.forall_mem_cons.mpr ⟨hchild, forall_openElements_congr h.outside id⟩⟩
    | found void closed =>
      rw [closed] at hclosed
      exact ⟨hclosed.finished.congr rfl, forall_openElements_congr hclosed.outside id⟩
    | lost void closed =>
      rw [closed] at hclosed
      exact hclosed

theorem Inscribed.beside (h : Inscribed text before d) (hopen : Open text t.offset d.current d.above) :
    Beside t d.current.id d.count d.current d.above := by
  obtain ⟨haround, hinside⟩ := h.id_around
  refine ⟨⟨fun x hx => ⟨fun hid => ?_, fun _ _ => hopen.stop_le hx⟩, fun x hx z hz => ?_⟩, fun x hx => .inl ?_⟩
  · exact absurd hid (Nat.ne_of_gt (hinside x hx))
  · have hlt : z.id < d.current.id := by
      refine haround z (mem_begunAround hx ?_)
      rw [Element.preorder_eq]
      exact List.mem_cons_of_mem _ hz
    exact ⟨fun hid => absurd hid (Nat.ne_of_lt hlt), fun hgt => absurd hgt (Nat.lt_asymm hlt)⟩
  · rcases mem_openElements hx with rfl | hx
    · exact Nat.le_refl _
    · refine Nat.le_of_lt (haround x (mem_begunAround hx ?_))
      simp [Element.preorder_eq]

theorem Draft.count_foldl (text : Text) (d : Draft) (done : List Placed) :
    (done.foldl (accept text) d).count = d.count + done.countP (·.kind = .tagOpen) := by
  induction done generalizing d with
  | nil => rfl
  | cons p done ih =>
    rw [List.foldl_cons, ih, count_accept, List.countP_cons]
    split
    · next hkind =>
      simp only [hkind, decide_true, ↓reduceIte]
      omega
    · next hkind => simp [hkind]

theorem Draft.count_after (text : Text) (done : List Placed) :
    (after text done).count = done.countP (·.kind = .tagOpen) := by
  rw [after, count_foldl]
  exact Nat.zero_add _

theorem ScanState.Reads.isOpen {state after : ScanState} {bound : Nat}
    (hreads : Reads state .content after) (h : InOrder text bound state d) :
    Open text bound d.current d.above := by
  cases hreads with
  | nameless hin | tag hin | valueless hin | missingValue _ hin => cases hin
  | content | style | styleToEnd => exact h

theorem eq_or_mem_of_isPrefix (hsplit : tokens text = before ++ t :: rest)
    (h : tokens text = done ++ p :: todo) (hbefore : before <+: done) : t = p ∨ t ∈ done := by
  obtain ⟨mid, rfl⟩ := hbefore
  rw [h, List.append_assoc] at hsplit
  have hmid := List.append_cancel_left hsplit
  cases mid with
  | nil => exact .inl (List.cons.inj hmid).1.symm
  | cons q mid =>
    obtain ⟨rfl, -⟩ := List.cons.inj hmid
    exact .inr (by simp)

/-- Content before the name of an end tag is before its bracket, too. -/
theorem stop_le_endTagOpen (h : tokens text = done ++ p :: todo) (hp : p.kind = .endTagName)
    (ht : t ∈ done) (hcontent : t.kind = .content) :
    ∃ start, (Draft.after text done).endTagOpen = some start ∧ t.stop ≤ start := by
  have htracked := Tracked.after h
  obtain ⟨hreads, -⟩ := reads_of_scan h
  rw [hp] at hreads
  rw [hreads.of_endTagName] at htracked
  obtain ⟨-, front, q, gap, rfl, hq, hopen, hgap, -⟩ := htracked
  refine ⟨q.offset, hopen, ?_⟩
  rcases List.mem_append.mp ht with ht | ht
  · rw [List.append_assoc] at h
    exact stop_le_of_mem_before h ht
  · rcases List.mem_cons.mp ht with rfl | ht
    · cases hq.symm.trans hcontent
    · cases (hgap t ht).symm.trans hcontent

theorem Beside.after (hsplit : tokens text = before ++ t :: rest) (hrun : t.run? ≠ none)
    (h : tokens text = done ++ todo) (hbefore : before <+: done) :
    Beside t (Draft.after text before).current.id (Draft.after text before).count
      (Draft.after text done).current (Draft.after text done).above := by
  have ht : t ∈ tokens text := by simp [hsplit]
  have hcontent := Placed.kind_of_run? hrun
  obtain ⟨hreads, hoffset⟩ := reads_of_scan hsplit
  have hfirst : Beside t (Draft.after text before).current.id (Draft.after text before).count
      (Draft.after text before).current (Draft.after text before).above := by
    rw [hcontent] at hreads
    refine (Inscribed.after hsplit).beside (hreads.isOpen ?_)
    rw [hoffset]
    exact Draft.after_inOrder hsplit
  refine Draft.after_induction (motive := fun done => before <+: done →
    Beside t (Draft.after text before).current.id (Draft.after text before).count
      (Draft.after text done).current (Draft.after text done).above) ?_ ?_ h hbefore
  · intro hbefore
    obtain rfl := List.prefix_nil.mp hbefore
    exact hfirst
  intro done p todo htokens _ ih hbefore
  rcases List.prefix_concat_iff.mp hbefore with rfl | hbefore
  · exact hfirst
  rw [Draft.after_concat]
  have hplace := eq_or_mem_of_isPrefix hsplit htokens hbefore
  have hcount : (Draft.after text before).count ≤ (Draft.after text done).count := by
    rw [Draft.count_after, Draft.count_after]
    exact hbefore.sublist.countP_le
  refine (ih hbefore).accept ht hrun hcount ?_ ?_
  · rcases hplace with rfl | hmem
    · exact Nat.le_refl _
    · exact Nat.le_trans (stop_le_of_mem_before htokens hmem) (Nat.le_add_right _ _)
  · intro hkind
    rcases hplace with rfl | hmem
    · cases hcontent.symm.trans hkind
    · exact stop_le_endTagOpen htokens hkind hmem hcontent

-- ---------------------------------------------------------------------------
-- Whole documents
-- ---------------------------------------------------------------------------

theorem parse_clears (hsplit : tokens text = before ++ t :: rest) (hrun : t.run? ≠ none)
    (he : e ∈ (Document.parse text).root.preorder) :
    e.Clears t (Draft.after text before).current.id (Draft.after text before).count := by
  have hstop : t.stop ≤ text.size := stop_le_of_mem_tokens (by simp [hsplit])
  have hall := Beside.after hsplit hrun (List.append_nil (tokens text)).symm
    (by rw [hsplit]; exact List.prefix_append _ _)
  rw [Element.preorder_eq] at he
  rcases List.mem_cons.mp he with rfl | he
  · refine ⟨fun _ => (parse_root_stop text).symm ▸ hstop, fun hlt => ?_⟩
    rw [parse_root_id] at hlt
    exact absurd hlt (Nat.not_lt_zero _)
  · exact hall.closeAll hstop e he

/-- The elements begun before a token start before it, the others after it. -/
theorem start_of_id (hsplit : tokens text = before ++ t :: rest) (ht : t.kind ≠ .tagOpen)
    (he : e ∈ (Document.parse text).root.preorder) :
    (e.id ≤ (Draft.after text before).count → e.start ≤ t.offset) ∧
      ((Draft.after text before).count < e.id → t.stop ≤ e.start) := by
  rw [Draft.count_after]
  rw [Element.preorder_eq] at he
  rcases List.mem_cons.mp he with rfl | he
  · rw [parse_root_id]
    cases parse_root_isOpen text with
    | root start => exact ⟨fun _ => start ▸ Nat.zero_le _, fun hlt => absurd hlt (Nat.not_lt_zero _)⟩
  · have hmem : e.startTag ∈ startTags 0 (tokens text) := by
      rw [← elements_map_startTag]
      exact List.mem_map_of_mem he
    obtain ⟨before', p, rest', hsplit', hp, heq⟩ := exists_of_mem_startTags hmem
    have hid := (congrArg StartTag.id heq).trans (StartTag.foldl_read_place _ _).1
    have hstart := (congrArg StartTag.start heq).trans (StartTag.foldl_read_place _ _).2
    simp only [Element.startTag] at hid hstart
    rw [hid, hstart]
    rcases List.append_eq_append_iff.mp (hsplit.symm.trans hsplit') with
      ⟨mid, rfl, hrest⟩ | ⟨mid, rfl, hrest⟩
    · cases mid with
      | nil => exact absurd ((List.cons.inj hrest).1 ▸ hp) ht
      | cons q mid =>
        obtain ⟨rfl, rfl⟩ := List.cons.inj hrest
        have hle := stop_le_offset hsplit (List.mem_append_right mid List.mem_cons_self)
        rw [List.countP_append]
        exact ⟨fun hlt => by omega, fun _ => hle⟩
    · cases mid with
      | nil => exact absurd ((List.cons.inj hrest).1.symm ▸ hp) ht
      | cons q mid =>
        obtain ⟨rfl, -⟩ := List.cons.inj hrest
        have hle := stop_le_of_mem_before hsplit (List.mem_append_right before' List.mem_cons_self)
        rw [List.countP_append, List.countP_cons_of_pos (by simp [hp])]
        exact ⟨fun _ => Nat.le_trans (Nat.le_add_right _ _) hle, fun hlt => by omega⟩

theorem exists_innermost (hsplit : tokens text = before ++ rest) :
    ∃ e ∈ (Document.parse text).root.preorder, e.id = (Draft.after text before).current.id := by
  have hids : (Document.parse text).root.preorder.map (·.id) =
      List.range ((Draft.after text (tokens text)).count + 1) :=
    (Enduring.map_begun_closeAll (f := fun e => e.id) (fun _ _ _ _ _ => rfl) text.size _ _).trans
      (Inscribed.after (List.append_nil (tokens text)).symm).ids
  have hcount : (Draft.after text before).count ≤ (Draft.after text (tokens text)).count := by
    rw [Draft.count_after, Draft.count_after, hsplit]
    exact (List.sublist_append_left _ _).countP_le
  have hle := (Inscribed.after hsplit).current_le
  refine List.mem_map.mp (?_ : _ ∈ (Document.parse text).root.preorder.map (·.id))
  rw [hids, List.mem_range]
  omega

/-- The element that was the innermost one when a run was read is the innermost one around it. -/
theorem holds_of_id (hsplit : tokens text = before ++ t :: rest) (hrun : t.run? ≠ none)
    (he : e ∈ (Document.parse text).root.preorder) (hid : e.id = (Draft.after text before).current.id) :
    e.Holds t := by
  have ht : t ∈ tokens text := by simp [hsplit]
  have hlt : t.offset < t.stop := Nat.lt_add_of_pos_right (size_pos_of_mem_tokens ht)
  have hkind : t.kind ≠ .tagOpen := by simp [Placed.kind_of_run? hrun]
  have hle := (Inscribed.after hsplit).current_le
  refine ⟨⟨(start_of_id hsplit hkind he).1 (hid ▸ hle), (parse_clears hsplit hrun he).around hid⟩, ?_⟩
  rintro c hc ⟨hstart, hstop⟩
  have hmem : c ∈ (Document.parse text).root.preorder := by
    rw [Element.preorder_eq]
    exact List.mem_cons_of_mem _ (Element.child_mem_preorder _ he hc)
  have hlater := (parse_numbered text).id_lt he (Element.mem_preorderAll hc)
  rcases Nat.lt_or_ge (Draft.after text before).count c.id with hnew | hold
  · have := (start_of_id hsplit hkind hmem).2 hnew
    omega
  · have := (parse_clears hsplit hrun hmem).ended (hid ▸ hlater) hold
    omega

theorem holds_iff (hsplit : tokens text = before ++ t :: rest) (hrun : t.run? ≠ none)
    (he : e ∈ (Document.parse text).root.preorder) :
    e.Holds t ↔ e.id = (Draft.after text before).current.id := by
  refine ⟨fun hholds => ?_, holds_of_id hsplit hrun he⟩
  obtain ⟨x, hx, hid⟩ := exists_innermost hsplit
  have ht : t ∈ tokens text := by simp [hsplit]
  have hlt : t.offset < t.stop := Nat.lt_add_of_pos_right (size_pos_of_mem_tokens ht)
  have hsame := Element.holds_unique _ (parse_forest text) hlt he hx hholds
    (holds_of_id hsplit hrun hx hid)
  rw [hsame, hid]

theorem parse_text_eq (he : e ∈ (Document.parse text).root.preorder) :
    e.text = ((tokens text).filter (e.Holds ·)).filterMap Placed.run? := by
  rw [parse_runs he, runsOf, List.filterMap_filter]
  refine List.filterMap_congr fun p hp => ?_
  obtain ⟨before, rest, hsplit⟩ := List.append_of_mem hp
  by_cases hrun : p.run? = none
  · simp [hrun]
  · have hiff : e.Holds p ↔ innermostAt text p = e.id := by
      rw [innermostAt_eq hsplit, eq_comm]
      exact holds_iff hsplit hrun he
    simp [hiff]

end

/-- Nothing that is written gets lost or into another place. The attributes of the elements, in the
order of their numbers, are those that the tokens name, each in the start tag that was begun last and
with the value that follows; a value in quotes right after its name stands where the attribute says.
The text of an element, or of the root, is made of the runs that it holds, in order; and each run is
held by one of them, the innermost that is open when the run is read. -/
theorem parse_contents (text : Text) :
    let d := Document.parse text
    d.root.attributes = [] ∧ d.elements.Pairwise (fun e e' => e.id < e'.id) ∧
      (d.elements.flatMap fun e => e.attributes.map (e.start, ·)) = writtenAttributes 0 (tokens text) ∧
      (∀ e ∈ d.elements, ∀ a ∈ e.attributes, ∀ tail,
        text.suffixAt? a.stop = some ('=' :: '"' :: tail) →
          ∃ value offset, a.value = some value ∧ a.valueOffset? = some offset ∧
            text.slice? offset (offset + Text.size value.toList) = some value.toList) ∧
      (∀ e ∈ d.root.preorder, e.text = ((tokens text).filter (e.Holds ·)).filterMap Placed.run?) ∧
      ∀ before p rest, tokens text = before ++ p :: rest → p.run? ≠ none →
        ∃ e ∈ d.root.preorder, e.id = (Draft.after text before).current.id ∧
          ∀ x ∈ d.root.preorder, x.Holds p ↔ x = e := by
  intro d
  refine ⟨parse_root_attributes text, elements_pairwise_id text, flatMap_attributes_eq text,
    fun e he a ha tail => slice?_value he ha, fun e he => parse_text_eq he, ?_⟩
  intro before p rest hsplit hrun
  obtain ⟨e, he, hid⟩ := exists_innermost hsplit
  refine ⟨e, he, hid, fun x hx => ?_⟩
  rw [holds_iff hsplit hrun hx, ← hid]
  constructor
  · exact (parse_numbered text).eq_of_id_eq hx he
  · rintro rfl
    rfl

end PageMarkup
