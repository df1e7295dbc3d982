import PageMarkup.Proofs.EndTags

/-!
# Text runs

A text run goes to the element that is the innermost open one when its token is read. The elements
of a draft are numbered without gaps, so the number of an element says which runs are its own, and
what later tokens do to the tree does not matter: they leave numbers and runs alone.
-/

namespace PageMarkup

def Placed.run? (p : Placed) : Option String :=
  if p.kind = .content ∧ p.lexeme.trim ≠ [] then some (String.ofList p.lexeme.trim) else none

theorem Placed.run?_of_ne {p : Placed} (h : p.kind ≠ .content) : p.run? = none :=
  if_neg fun hp => h hp.1

theorem Placed.kind_of_run? {p : Placed} (h : p.run? ≠ none) : p.kind = .content :=
  Classical.byContradiction fun hne => h (run?_of_ne hne)

/-- The number of the innermost element that is open where the token is read. -/
def innermostAt (text : Text) (p : Placed) : Nat :=
  (Draft.after text ((tokens text).takeWhile (·.offset < p.offset))).current.id

/-- The text runs among some tokens that belong into the element with the number. -/
def runsOf (text : Text) (id : Nat) (done : List Placed) : List String :=
  done.filterMap fun p => if innermostAt text p = id then p.run? else none

def Element.inscription (e : Element) : Nat × List String :=
  (e.id, e.text)

theorem enduring_inscription : Enduring Element.inscription :=
  fun _ _ _ _ _ => rfl

def begunAround : List Element → List Element
  | [] => []
  | parent :: above => begun parent above

theorem begun_eq (e : Element) (above : List Element) :
    begun e above = begunAround above ++ e :: Element.preorderAll e.children := by
  cases above <;> simp [begun, begunAround, Element.preorder_eq]

-- ---------------------------------------------------------------------------
-- One token
-- ---------------------------------------------------------------------------

namespace Draft

variable {p : Placed}

theorem addText_eq (d : Draft) (hkind : p.kind = .content) :
    d.addText p.lexeme =
      { d with current := { d.current with text := d.current.text ++ p.run?.toList } } := by
  obtain ⟨⟨head, children⟩, above, count, endTagOpen, openTags, problems⟩ := d
  unfold addText Placed.run?
  split
  · next hblank => simp [hblank]
  · next hrun => simp [hkind, if_neg hrun]

/-- A token that begins no element adds its text run to the innermost one and changes no other text. -/
theorem inscriptions_accept (d : Draft) (text : Text) (hkind : p.kind ≠ .tagOpen) :
    (d.accept text p).elements.map Element.inscription =
      (begun { d.current with text := d.current.text ++ p.run?.toList } d.above).map
        Element.inscription := by
  have hnote := d.note_sameTree p
  rw [← hnote.current, ← hnote.above]
  unfold accept
  generalize d.note p = d
  by_cases hcontent : p.kind = .content
  · rw [hcontent]
    simp only [addText_eq d hcontent]
    rfl
  have hsame : (begun { d.current with text := d.current.text ++ p.run?.toList } d.above).map
      Element.inscription = d.elements.map Element.inscription :=
    map_begun_of_eq _ (by simp [Element.inscription, Placed.run?_of_ne hcontent]) rfl
  rw [hsame]
  cases hk : p.kind with
  | tagOpen => exact absurd hk hkind
  | content => exact absurd hk hcontent
  | tagName =>
    exact (congrArg (List.map _) (d.nameElement_sameTree _ _ _).elements).trans (map_begun_of_eq _ rfl rfl)
  | attributeName =>
    exact (congrArg (List.map _) (d.addAttribute_sameTree _ _ _).elements).trans (map_begun_of_eq _ rfl rfl)
  | attributeValue =>
    exact (congrArg (List.map _) (d.addValue_sameTree _ _ _).elements).trans (map_begun_of_eq _ rfl rfl)
  | tagClose => exact map_elements_closeStartTag enduring_inscription _
  | tagSelfClose => exact map_elements_leave enduring_inscription _ rfl rfl
  | endTagName => exact map_elements_nameEndTag enduring_inscription _ _ _ _
  | endTagClose => exact map_elements_leave enduring_inscription _ rfl rfl
  | _ => rfl

theorem inscriptions_tagOpen (d : Draft) (text : Text) (hkind : p.kind = .tagOpen) :
    (d.accept text p).elements.map Element.inscription =
      d.elements.map Element.inscription ++ [(d.count + 1, [])] := by
  have hnote := d.note_sameTree p
  rw [← hnote.elements, ← d.count_note p]
  unfold accept
  generalize d.note p = d
  rw [hkind]
  simp [elements, openElement, begun, Element.preorder_eq, Element.preorderAll, Element.inscription]

end Draft

-- ---------------------------------------------------------------------------
-- All tokens
-- ---------------------------------------------------------------------------

/-- The elements are numbered without gaps in the order in which they were begun, and their text is
what the tokens `done` give them. -/
structure Inscribed (text : Text) (done : List Placed) (d : Draft) : Prop where
  ids : d.elements.map (·.id) = List.range (d.count + 1)
  innermost_le : ∀ p ∈ done, innermostAt text p ≤ d.count
  runs : ∀ s ∈ d.elements.map Element.inscription, s.2 = runsOf text s.1 done

section
variable {text : Text} {done todo : List Placed} {p : Placed} {d : Draft} {e x : Element}
  {above : List Element}

theorem innermostAt_eq (h : tokens text = done ++ p :: todo) :
    innermostAt text p = (Draft.after text done).current.id := by
  have hpairwise := tokens_pairwise text
  have hbefore : (tokens text).takeWhile (·.offset < p.offset) = done := by
    rw [h] at hpairwise ⊢
    have hlt := (List.pairwise_append.mp hpairwise).2.2
    rw [List.takeWhile_append_of_pos]
    · simp
    · intro q hq
      exact decide_eq_true (hlt q hq p List.mem_cons_self)
  rw [innermostAt, hbefore]

theorem runsOf_concat (text : Text) (id : Nat) (done : List Placed) (p : Placed) :
    runsOf text id (done ++ [p]) =
      runsOf text id done ++ if innermostAt text p = id then p.run?.toList else [] := by
  rw [runsOf, List.filterMap_append]
  congr 1
  split
  · next hid => cases hrun : p.run? <;> simp [hid, hrun]
  · next hid => simp [hid]

theorem runsOf_concat_of_none (text : Text) (id : Nat) (done : List Placed) (hp : p.run? = none) :
    runsOf text id (done ++ [p]) = runsOf text id done := by
  simp [runsOf_concat, hp]

namespace Inscribed

theorem numbered (h : Inscribed text done d) : d.elements.Pairwise fun x y => x.id < y.id := by
  have hids := List.pairwise_lt_range (n := d.count + 1)
  rw [← h.ids] at hids
  exact List.pairwise_map.mp hids

theorem id_around (h : Inscribed text done d) :
    (∀ x ∈ begunAround d.above, x.id < d.current.id) ∧
      ∀ x ∈ Element.preorderAll d.current.children, d.current.id < x.id := by
  have hnumbered := h.numbered
  rw [Draft.elements, begun_eq] at hnumbered
  obtain ⟨-, hinside, haround⟩ := List.pairwise_append.mp hnumbered
  exact ⟨fun x hx => haround x hx d.current List.mem_cons_self, (List.pairwise_cons.mp hinside).1⟩

theorem current_le (h : Inscribed text done d) : d.current.id ≤ d.count := by
  have hmem : d.current.id ∈ d.elements.map (·.id) := by
    rw [Draft.elements, begun_eq]
    simp
  rw [h.ids, List.mem_range] at hmem
  omega

theorem tagOpen (h : Inscribed text done d) (hkind : p.kind = .tagOpen)
    (hp : innermostAt text p = d.current.id) : Inscribed text (done ++ [p]) (d.accept text p) := by
  have hview := d.inscriptions_tagOpen text hkind
  have hcount : (d.accept text p).count = d.count + 1 := by rw [d.count_accept text p, if_pos hkind]
  have hnone : p.run? = none := Placed.run?_of_ne (by simp [hkind])
  refine ⟨?_, ?_, ?_⟩
  · have hids := congrArg (List.map Prod.fst) hview
    simp only [List.map_map, List.map_append] at hids
    rw [hcount, List.range_succ, ← h.ids]
    exact hids
  · simp only [List.mem_append, List.mem_singleton]
    rintro q (hq | rfl)
    · exact hcount ▸ Nat.le_succ_of_le (h.innermost_le q hq)
    · exact hp ▸ hcount ▸ Nat.le_succ_of_le h.current_le
  · rw [hview]
    simp only [List.mem_append, List.mem_singleton]
    rintro s (hs | rfl)
    · rw [runsOf_concat_of_none text s.1 done hnone]
      exact h.runs s hs
    · rw [runsOf_concat_of_none text _ done hnone]
      refine (List.filterMap_eq_nil_iff.mpr fun q hq => if_neg ?_).symm
      exact Nat.ne_of_lt (Nat.lt_succ_of_le (h.innermost_le q hq))

theorem accept (h : Inscribed text done d) (hkind : p.kind ≠ .tagOpen)
    (hp : innermostAt text p = d.current.id) : Inscribed text (done ++ [p]) (d.accept text p) := by
  have hview := d.inscriptions_accept text hkind
  have hcount : (d.accept text p).count = d.count := by rw [d.count_accept text p, if_neg hkind]
  obtain ⟨haround, hinside⟩ := h.id_around
  refine ⟨?_, ?_, ?_⟩
  · have hids := congrArg (List.map Prod.fst) hview
    simp only [List.map_map] at hids
    rw [hcount, ← h.ids]
    exact hids.trans (map_begun_of_eq _ rfl rfl)
  · simp only [List.mem_append, List.mem_singleton]
    rintro q (hq | rfl)
    · exact hcount ▸ h.innermost_le q hq
    · exact hp ▸ hcount ▸ h.current_le
  · have hother : ∀ x ∈ d.elements, x.id ≠ d.current.id → x.text = runsOf text x.id (done ++ [p]) := by
      intro x hx hid
      rw [runsOf_concat, hp, if_neg (Ne.symm hid), List.append_nil]
      exact h.runs x.inscription (List.mem_map_of_mem hx)
    rw [hview, begun_eq]
    simp only [List.mem_map, List.mem_append, List.mem_cons]
    rintro _ ⟨x, hx | rfl | hx, rfl⟩
    · refine hother x ?_ (Nat.ne_of_lt (haround x hx))
      simp [Draft.elements, begun_eq, hx]
    · have hcurrent : d.current.inscription ∈ d.elements.map Element.inscription :=
        List.mem_map_of_mem (by simp [Draft.elements, begun_eq])
      simp only [Element.inscription, runsOf_concat, if_pos hp]
      exact congrArg (· ++ _) (h.runs _ hcurrent)
    · refine hother x ?_ (Nat.ne_of_gt (hinside x hx))
      simp [Draft.elements, begun_eq, hx]

theorem after (h : tokens text = done ++ todo) : Inscribed text done (Draft.after text done) := by
  refine Draft.after_induction (motive := fun done => Inscribed text done (Draft.after text done))
    ⟨rfl, List.forall_mem_nil _, ?_⟩ ?_ h
  · intro s hs
    obtain rfl := List.mem_singleton.mp hs
    rfl
  · intro done p todo htokens _ h
    rw [Draft.after_concat]
    by_cases hkind : p.kind = .tagOpen
    · exact h.tagOpen hkind (innermostAt_eq htokens)
    · exact h.accept hkind (innermostAt_eq htokens)

end Inscribed

/-- The text of an element is made of the runs in whose place it was the innermost open one. -/
theorem parse_runs (he : e ∈ (Document.parse text).root.preorder) :
    e.text = runsOf text e.id (tokens text) := by
  have hruns := (Inscribed.after (List.append_nil (tokens text)).symm).runs
  have hview : (Document.parse text).root.preorder.map Element.inscription =
      (Draft.after text (tokens text)).elements.map Element.inscription :=
    enduring_inscription.map_begun_closeAll text.size _ _
  rw [← hview] at hruns
  exact hruns e.inscription (List.mem_map_of_mem he)

end

end PageMarkup
