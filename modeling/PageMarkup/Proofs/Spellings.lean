import Mathlib.Data.List.TakeWhile
import PageMarkup.Proofs.Offers
import PageMarkup.Schema.Bundled

/-!
# Two spellings of a handler

A handler can be written with a colon and without. Completion goes through the attributes of an element
in the order of their declarations and notes the names that it has seen; for a handler with a colon that
it offers, it notes the other spelling, too. It does not do so for one that the element has already, so
the other spelling is offered then.
-/

namespace PageMarkup

-- ---------------------------------------------------------------------------
-- What has been seen
-- ---------------------------------------------------------------------------

namespace AttributeRule

def IsNew (events : Bool) (seen : List String) (rule : AttributeRule) : Prop :=
  rule.name ∉ seen ∧
    (rule.kind = .event → events = true ∧ (joinAtColon rule.name = rule.name ∨ joinAtColon rule.name ∉ seen))

instance (events : Bool) (seen : List String) (rule : AttributeRule) : Decidable (rule.IsNew events seen) :=
  inferInstanceAs (Decidable (_ ∧ (_ → _)))

/-- The names that have been seen after the attribute. -/
def note (events : Bool) (seen : List String) (rule : AttributeRule) : List String :=
  if rule.name ∈ seen then seen
  else if rule.kind = .event ∧ rule.IsNew events seen then joinAtColon rule.name :: rule.name :: seen
  else rule.name :: seen

theorem mem_note {events : Bool} {seen : List String} {rule : AttributeRule} {name : String} :
    name ∈ rule.note events seen ↔ name ∈ seen ∨ name = rule.name ∨
      rule.IsNew events seen ∧ rule.kind = .event ∧ joinAtColon rule.name = name := by
  rw [note]
  split
  · next hold =>
    have hnot : ¬ rule.IsNew events seen := fun hnew => hnew.1 hold
    simp only [hnot, false_and, or_false, iff_self_or]
    rintro rfl
    exact hold
  · split
    · next hnew =>
      simp only [hnew, true_and, List.mem_cons, eq_comm]
      grind
    · next hnot =>
      simp only [List.mem_cons]
      grind

end AttributeRule

section
variable {events : Bool} {seen : List String} {rules front back : List AttributeRule} {rule : AttributeRule}

theorem offer_cons (events : Bool) (seen : List String) (rule : AttributeRule) (rest : List AttributeRule) :
    offer events seen (rule :: rest) =
      (if rule.IsNew events seen then [rule] else []) ++ offer events (rule.note events seen) rest := by
  simp only [offer, AttributeRule.note, List.contains_eq_mem, decide_eq_true_eq]
  by_cases hold : rule.name ∈ seen
  · have hnot : ¬ rule.IsNew events seen := fun hnew => hnew.1 hold
    simp [hold, hnot]
  · by_cases hkind : rule.kind = .event
    · by_cases hnew : rule.IsNew events seen
      · have := hnew.2 hkind
        simp [hold, hkind, hnew]
        grind
      · simp [hold, hkind, hnew]
        simp [AttributeRule.IsNew, hold, hkind] at hnew
        grind
    · have hnew : rule.IsNew events seen := ⟨hold, fun h => absurd h hkind⟩
      simp [hold, hkind, hnew]

theorem offer_append (events : Bool) (seen : List String) (front rest : List AttributeRule) :
    offer events seen (front ++ rest) =
      offer events seen front ++ offer events (front.foldl (AttributeRule.note events) seen) rest := by
  induction front generalizing seen with
  | nil => rfl
  | cons rule front ih => rw [List.cons_append, offer_cons, offer_cons, ih, List.append_assoc, List.foldl_cons]

/-- Offering goes on with what was seen before, the names that it has gone through, and the joined names
of the handlers that it has offered. -/
theorem mem_foldl_note {name : String} :
    name ∈ rules.foldl (AttributeRule.note events) seen ↔
      name ∈ seen ∨ name ∈ rules.map AttributeRule.name ∨
        ∃ r ∈ offer events seen rules, r.kind = .event ∧ joinAtColon r.name = name := by
  induction rules generalizing seen with
  | nil => simp [offer]
  | cons rule rules ih =>
    rw [List.foldl_cons, ih, AttributeRule.mem_note, offer_cons, List.map_cons, List.mem_cons]
    constructor
    · rintro ((h | h | ⟨hnew, hkind⟩) | h | ⟨r, hr, hkind⟩)
      · exact .inl h
      · exact .inr (.inl (.inl h))
      · exact .inr (.inr ⟨rule, List.mem_append_left _ (by simp [hnew]), hkind⟩)
      · exact .inr (.inl (.inr h))
      · exact .inr (.inr ⟨r, List.mem_append_right _ hr, hkind⟩)
    · rintro (h | (h | h) | ⟨r, hr, hkind⟩)
      · exact .inl (.inl h)
      · exact .inl (.inr (.inl h))
      · exact .inr (.inl h)
      · rcases List.mem_append.mp hr with hr | hr
        · obtain ⟨hnew, hr⟩ : rule.IsNew events seen ∧ r = rule := by simpa using hr
          exact .inl (.inr (.inr ⟨hnew, hr ▸ hkind⟩))
        · exact .inr (.inr ⟨r, hr, hkind⟩)

theorem name_mem_offer_iff (hnodup : ((front ++ rule :: back).map AttributeRule.name).Nodup) :
    rule.name ∈ (offer events seen (front ++ rule :: back)).map AttributeRule.name ↔
      rule.IsNew events (front.foldl (AttributeRule.note events) seen) := by
  rw [List.map_append, List.map_cons] at hnodup
  obtain ⟨-, hback, hfront⟩ := List.nodup_append.mp hnodup
  have hnotFront : rule.name ∉ (offer events seen front).map AttributeRule.name := fun h =>
    hfront _ (((offer_sublist _ _ _).map _).subset h) _ List.mem_cons_self rfl
  have hnotBack (seen : List String) : rule.name ∉ (offer events seen back).map AttributeRule.name := fun h =>
    (List.nodup_cons.mp hback).1 (((offer_sublist _ _ _).map _).subset h)
  rw [offer_append, offer_cons, List.map_append, List.map_append, List.mem_append, List.mem_append]
  simp only [hnotFront, hnotBack, false_or, or_false]
  split
  · next hnew => simp [hnew]
  · next hnot => simp [hnot]

end

-- ---------------------------------------------------------------------------
-- Handlers
-- ---------------------------------------------------------------------------

structure Handler where
  binder : String
  event : String
  binder_mem : binder ∈ ["bind", "catch"]
  event_mem : event ∈ Schema.events.map Prod.fst

theorem forall_ne_colon {cs : List Char} (h : ':' ∉ cs) : ∀ c ∈ cs, decide (c ≠ ':') = true := by
  intro c hc
  refine decide_eq_true ?_
  rintro rfl
  exact h hc

theorem joinAtColon_append {front : String} (h : ':' ∉ front.toList) (back : String) :
    joinAtColon (front ++ ":" ++ back) = front ++ back := by
  have hfront := forall_ne_colon h
  have htext : (front ++ ":" ++ back).toList = front.toList ++ ':' :: back.toList := by simp
  rw [joinAtColon, htext, List.takeWhile_append_of_pos hfront, List.dropWhile_append_of_pos hfront]
  simp

theorem joinAtColon_of_notMem {name : String} (h : ':' ∉ name.toList) : joinAtColon name = name := by
  rw [joinAtColon, List.takeWhile_eq_self_iff.mpr (forall_ne_colon h),
    List.dropWhile_eq_nil_iff.mpr (forall_ne_colon h)]
  simp

namespace Handler

def withColon (h : Handler) : String :=
  h.binder ++ ":" ++ h.event

def joined (h : Handler) : String :=
  h.binder ++ h.event

theorem colon_notMem_binder (h : Handler) : ':' ∉ h.binder.toList := by
  have hall : ∀ binder ∈ ["bind", "catch"], ':' ∉ binder.toList := by decide
  exact hall _ h.binder_mem

theorem colon_notMem_joined (h : Handler) : ':' ∉ h.joined.toList := by
  have hall : ∀ event ∈ Schema.events.map Prod.fst, ':' ∉ event.toList := by decide +kernel
  rw [joined, String.toList_append, List.mem_append, not_or]
  exact ⟨h.colon_notMem_binder, hall _ h.event_mem⟩

theorem joinAtColon_withColon (h : Handler) : joinAtColon h.withColon = h.joined :=
  joinAtColon_append h.colon_notMem_binder _

theorem joinAtColon_joined (h : Handler) : joinAtColon h.joined = h.joined :=
  joinAtColon_of_notMem h.colon_notMem_joined

theorem colon_mem_withColon (h : Handler) : ':' ∈ h.withColon.toList := by
  simp [withColon]

theorem withColon_ne_joined (h h' : Handler) : h.withColon ≠ h'.joined := by
  intro heq
  exact h'.colon_notMem_joined (heq ▸ h.colon_mem_withColon)

theorem eq_of_joined_eq {h h' : Handler} (heq : h.joined = h'.joined) : h = h' := by
  obtain ⟨binder, event, hbinder, hevent⟩ := h
  obtain ⟨binder', event', hbinder', hevent'⟩ := h'
  have hhead := congrArg (fun name : String => name.toList.head?) heq
  simp only [List.mem_cons, List.not_mem_nil, or_false] at hbinder hbinder'
  rcases hbinder with rfl | rfl <;> rcases hbinder' with rfl | rfl
  · cases (String.append_right_inj _).mp heq
    rfl
  · simp [joined] at hhead
  · simp [joined] at hhead
  · cases (String.append_right_inj _).mp heq
    rfl

def hasBinder (name : String) : Bool :=
  ["bind", "catch"].any fun binder => binder.toList.isPrefixOf name.toList

theorem hasBinder_append (h : Handler) (rest : String) : hasBinder (h.binder ++ rest) = true := by
  refine List.any_eq_true.mpr ⟨h.binder, h.binder_mem, ?_⟩
  rw [String.toList_append]
  exact List.isPrefixOf_iff_prefix.mpr (List.prefix_append _ _)

theorem hasBinder_withColon (h : Handler) : hasBinder h.withColon = true := by
  rw [withColon, String.append_assoc]
  exact h.hasBinder_append _

theorem hasBinder_joined (h : Handler) : hasBinder h.joined = true :=
  h.hasBinder_append _

end Handler

theorem idxOf_lt_idxOf_of_append {front : List String} (ha : a ∈ front) (hb : b ∉ front) (back : List String) :
    (front ++ back).idxOf a < (front ++ back).idxOf b := by
  rw [List.idxOf_append, if_pos ha, List.idxOf_append, if_neg hb]
  exact Nat.lt_of_lt_of_le (List.idxOf_lt_length_iff.mpr ha) (Nat.le_add_left _ _)

namespace Schema

open Handler (hasBinder)

def spellings (colon : String) : List String :=
  ["bind", "catch"].flatMap fun binder => (events.map Prod.fst).map fun event => binder ++ colon ++ event

theorem mem_spellings {colon name : String} :
    name ∈ spellings colon ↔ ∃ h : Handler, name = h.binder ++ colon ++ h.event := by
  simp only [spellings, List.mem_flatMap, List.mem_map]
  constructor
  · rintro ⟨binder, hbinder, event, hevent, rfl⟩
    exact ⟨⟨binder, event, hbinder, List.mem_map.mpr hevent⟩, rfl⟩
  · rintro ⟨h, rfl⟩
    exact ⟨h.binder, h.binder_mem, h.event, List.mem_map.mp h.event_mem, rfl⟩

theorem names_eventAttributes :
    eventAttributes.map AttributeRule.name = spellings ":" ++ spellings "" := by
  decide +kernel

theorem common_kind {rule : AttributeRule} (h : rule ∈ common) :
    rule.kind = .event ∧ rule ∈ eventAttributes ∨ rule.kind ≠ .event ∧ hasBinder rule.name = false := by
  have hevents : ∀ rule ∈ eventAttributes, rule.kind = .event := by decide +kernel
  have hothers : ∀ rule ∈ globalAttributes ++ (conditionAttributes ++ loopAttributes),
      rule.kind ≠ .event ∧ hasBinder rule.name = false := by decide +kernel
  simp only [common, List.mem_append] at h
  rcases h with ((h | h) | h) | h
  · exact .inr (hothers rule (by simp [h]))
  · exact .inl ⟨hevents rule h, h⟩
  · exact .inr (hothers rule (by simp [h]))
  · exact .inr (hothers rule (by simp [h]))

theorem exists_handler {rule : AttributeRule} (h : rule ∈ common) (hkind : rule.kind = .event) :
    ∃ handler : Handler, rule.name = handler.withColon ∨ rule.name = handler.joined := by
  rcases common_kind h with ⟨-, hmem⟩ | ⟨hne, -⟩
  · have hname : rule.name ∈ eventAttributes.map AttributeRule.name := List.mem_map_of_mem hmem
    rw [names_eventAttributes, List.mem_append, mem_spellings, mem_spellings] at hname
    rcases hname with ⟨handler, hname⟩ | ⟨handler, hname⟩
    · exact ⟨handler, .inl hname⟩
    · exact ⟨handler, .inr (by rw [hname, String.append_empty]; rfl)⟩
  · exact absurd hkind hne

/-- No component declares a handler of the language, except in the spelling without a colon and as one
that only this component calls. -/
def PlainHandlers (s : Schema) : Prop :=
  ∀ tag mode, ∀ rule ∈ s.declared tag mode, rule.kind ≠ .event ∧ ∀ h : Handler, rule.name ≠ h.withColon

theorem nodup_accepted (s : Schema) (tag : String) (mode : Option String) :
    ((s.accepted tag mode).map AttributeRule.name).Nodup :=
  nodup_map_distinctBy _ _

theorem names_rules (s : Schema) (tag : String) (mode : Option String) :
    (s.rules tag mode).map AttributeRule.name =
      (s.declared tag mode).map AttributeRule.name ++ common.map AttributeRule.name :=
  List.map_append

section
variable {s : Schema} (hs : s.PlainHandlers) {tag : String} {mode : Option String} (h : Handler)

theorem names_common : common.map AttributeRule.name =
    (globalAttributes.map AttributeRule.name ++ spellings ":") ++
      (spellings "" ++ (conditionAttributes ++ loopAttributes).map AttributeRule.name) := by
  simp only [common, List.map_append, names_eventAttributes, List.append_assoc]

theorem joined_mem_common : h.joined ∈ common.map AttributeRule.name := by
  have hmem : h.joined ∈ spellings "" := mem_spellings.mpr ⟨h, by rw [String.append_empty]; rfl⟩
  rw [names_common]
  exact List.mem_append_right _ (List.mem_append_left _ hmem)

theorem withColon_before_joined :
    (common.map AttributeRule.name).idxOf h.withColon < (common.map AttributeRule.name).idxOf h.joined := by
  have hfirst : h.withColon ∈ globalAttributes.map AttributeRule.name ++ spellings ":" :=
    List.mem_append_right _ (mem_spellings.mpr ⟨h, rfl⟩)
  have hlater : h.joined ∉ globalAttributes.map AttributeRule.name ++ spellings ":" := by
    intro hmem
    rcases List.mem_append.mp hmem with hmem | hmem
    · have hglobal : (globalAttributes.map AttributeRule.name).all (!hasBinder ·) = true := by decide +kernel
      simpa [h.hasBinder_joined] using List.all_eq_true.mp hglobal _ hmem
    · obtain ⟨h', heq⟩ := mem_spellings.mp hmem
      exact h'.withColon_ne_joined h heq.symm
  rw [names_common]
  exact idxOf_lt_idxOf_of_append hfirst hlater _

theorem withColon_mem_common : h.withColon ∈ common.map AttributeRule.name :=
  List.idxOf_lt_length_iff.mp (Nat.lt_trans (withColon_before_joined h)
    (List.idxOf_lt_length_iff.mpr (joined_mem_common h)))

include hs

theorem withColon_notMem_declared (tag : String) (mode : Option String) :
    h.withColon ∉ (s.declared tag mode).map AttributeRule.name := by
  intro hmem
  obtain ⟨rule, hrule, hname⟩ := List.mem_map.mp hmem
  exact (hs tag mode rule hrule).2 h hname

theorem joined_before_withColon (hmem : h.joined ∈ (s.declared tag mode).map AttributeRule.name) :
    ((s.rules tag mode).map AttributeRule.name).idxOf h.joined <
      ((s.rules tag mode).map AttributeRule.name).idxOf h.withColon := by
  rw [names_rules]
  exact idxOf_lt_idxOf_of_append hmem (withColon_notMem_declared hs h tag mode) _

theorem withColon_before_joined_of_notMem
    (hmem : h.joined ∉ (s.declared tag mode).map AttributeRule.name) :
    ((s.rules tag mode).map AttributeRule.name).idxOf h.withColon <
      ((s.rules tag mode).map AttributeRule.name).idxOf h.joined := by
  rw [names_rules, List.idxOf_append, if_neg (withColon_notMem_declared hs h tag mode), List.idxOf_append,
    if_neg hmem]
  exact Nat.add_lt_add_right (withColon_before_joined h) _

end

end Schema

-- ---------------------------------------------------------------------------
-- Which spelling is offered
-- ---------------------------------------------------------------------------

section
variable {s : Schema} (hs : s.PlainHandlers) {tag : String} {mode : Option String} {r : AttributeRule}
  (h : Handler)

theorem mem_declared_of_name (hr : r ∈ s.accepted tag mode)
    (hname : r.name ∈ (s.declared tag mode).map AttributeRule.name) : r ∈ s.declared tag mode := by
  have hfirst := Schema.rule?_of_mem_accepted hr
  rw [Schema.rule?, Schema.rules, List.find?_append] at hfirst
  cases hfound : (s.declared tag mode).find? (·.name = r.name) with
  | none =>
    obtain ⟨r', hr', heq⟩ := List.mem_map.mp hname
    exact absurd (List.find?_eq_none.mp hfound r' hr') (by simp [heq])
  | some r' =>
    rw [hfound] at hfirst
    cases hfirst
    exact List.mem_of_find?_eq_some hfound

theorem kind_of_hasBinder (hr : r ∈ s.accepted tag mode) (hname : Handler.hasBinder r.name = true)
    (hdeclared : r.name ∉ (s.declared tag mode).map AttributeRule.name) : r.kind = .event := by
  rcases List.mem_append.mp ((distinctBy_sublist _ _).subset hr) with hr | hr
  · exact absurd (List.mem_map_of_mem hr) hdeclared
  · rcases Schema.common_kind hr with ⟨hkind, -⟩ | ⟨-, hnot⟩
    · exact hkind
    · rw [hname] at hnot
      cases hnot

include hs

/-- Every handler is one of the language, in one of its spellings. -/
theorem handler_of_mem_accepted (hr : r ∈ s.accepted tag mode) (hkind : r.kind = .event) :
    ∃ h : Handler, joinAtColon r.name = h.joined ∧ (r.name = h.withColon ∨ r.name = h.joined) := by
  have hcommon : r ∈ Schema.common := by
    rcases List.mem_append.mp ((distinctBy_sublist _ _).subset hr) with hr | hr
    · exact absurd hkind (hs tag mode r hr).1
    · exact hr
  obtain ⟨h, hname | hname⟩ := Schema.exists_handler hcommon hkind
  · exact ⟨h, by rw [hname, h.joinAtColon_withColon], .inl hname⟩
  · exact ⟨h, by rw [hname, h.joinAtColon_joined], .inr hname⟩

theorem join_ne_withColon (hr : r ∈ s.accepted tag mode) (hkind : r.kind = .event) :
    joinAtColon r.name ≠ h.withColon := by
  obtain ⟨h', hjoin, -⟩ := handler_of_mem_accepted hs hr hkind
  rw [hjoin]
  exact (h.withColon_ne_joined h').symm

theorem name_of_join (hr : r ∈ s.accepted tag mode) (hkind : r.kind = .event)
    (hjoin : joinAtColon r.name = h.joined) : r.name = h.withColon ∨ r.name = h.joined := by
  obtain ⟨h', hjoin', hname⟩ := handler_of_mem_accepted hs hr hkind
  obtain rfl := Handler.eq_of_joined_eq (hjoin'.symm.trans hjoin)
  exact hname

theorem kind_of_withColon (hr : r ∈ s.accepted tag mode) (hname : r.name = h.withColon) :
    r.kind = .event := by
  refine kind_of_hasBinder hr (hname ▸ h.hasBinder_withColon) ?_
  rw [hname]
  exact Schema.withColon_notMem_declared hs h tag mode

section
variable {front : List AttributeRule} (hfront : ∀ r ∈ front, r ∈ s.accepted tag mode) (events : Bool)
  (present : List String)
include hfront

theorem withColon_seen_iff :
    h.withColon ∈ front.foldl (AttributeRule.note events) present ↔
      h.withColon ∈ present ∨ h.withColon ∈ front.map AttributeRule.name := by
  rw [mem_foldl_note]
  refine or_congr_right (or_iff_left ?_)
  rintro ⟨r, hr, hkind, hjoin⟩
  exact join_ne_withColon hs h (hfront r ((offer_sublist _ _ _).subset hr)) hkind hjoin

theorem joined_seen_iff :
    h.joined ∈ front.foldl (AttributeRule.note events) present ↔
      h.joined ∈ present ∨ h.joined ∈ front.map AttributeRule.name ∨
        h.withColon ∈ (offer events present front).map AttributeRule.name := by
  rw [mem_foldl_note]
  refine or_congr_right ?_
  constructor
  · rintro (hmem | ⟨r, hr, hkind, hjoin⟩)
    · exact .inl hmem
    · have hmem := (offer_sublist _ _ _).subset hr
      rcases name_of_join hs h (hfront r hmem) hkind hjoin with hname | hname
      · exact .inr (hname ▸ List.mem_map_of_mem hr)
      · exact .inl (hname ▸ List.mem_map_of_mem hmem)
  · rintro (hmem | hmem)
    · exact .inl hmem
    · obtain ⟨r, hr, hname⟩ := List.mem_map.mp hmem
      refine .inr ⟨r, hr, kind_of_withColon hs h (hfront r ((offer_sublist _ _ _).subset hr)) hname, ?_⟩
      rw [hname, h.joinAtColon_withColon]

end

end

section
variable {s : Schema} (hs : s.PlainHandlers) (tag : String) (mode : Option String) (events : Bool)
  (present : List String) (h : Handler)

theorem exists_turn {name : String} (hname : name ∈ (s.rules tag mode).map AttributeRule.name) :
    ∃ front rule back, s.accepted tag mode = front ++ rule :: back ∧ rule ∈ s.accepted tag mode ∧
      (∀ r ∈ front, r ∈ s.accepted tag mode) ∧ rule.name = name ∧ name ∉ front.map AttributeRule.name ∧
      (name ∈ (offer events present (s.accepted tag mode)).map AttributeRule.name ↔
        rule.IsNew events (front.foldl (AttributeRule.note events) present)) := by
  rw [← mem_map_distinctBy] at hname
  obtain ⟨rule, hrule, rfl⟩ := List.mem_map.mp hname
  obtain ⟨front, back, hsplit⟩ := List.append_of_mem hrule
  have hnodup := s.nodup_accepted tag mode
  rw [Schema.accepted, hsplit] at hnodup
  refine ⟨front, rule, back, hsplit, hrule, fun r hr => ?_, rfl, fun hmem => ?_, ?_⟩
  · rw [Schema.accepted, hsplit]
    exact List.mem_append_left _ hr
  · rw [List.map_append, List.map_cons] at hnodup
    exact (List.nodup_append.mp hnodup).2.2 _ hmem _ List.mem_cons_self rfl
  · rw [Schema.accepted, hsplit]
    exact name_mem_offer_iff hnodup

theorem mem_names_rules {name : String} (hname : name ∈ Schema.common.map AttributeRule.name) :
    name ∈ (s.rules tag mode).map AttributeRule.name := by
  rw [Schema.names_rules]
  exact List.mem_append_right _ hname

include hs

/-- The spelling with a colon is offered unless the element has one of the two, or its component
declares the other one. -/
theorem withColon_mem_offer_iff :
    h.withColon ∈ (offer events present (s.accepted tag mode)).map AttributeRule.name ↔
      events = true ∧ h.withColon ∉ present ∧ h.joined ∉ present ∧
        h.joined ∉ (s.declared tag mode).map AttributeRule.name := by
  obtain ⟨front, rule, back, hsplit, hrule, hfront, hname, hnot, hturn⟩ :=
    exists_turn tag mode events present (mem_names_rules tag mode (Schema.withColon_mem_common h))
  have hkind : rule.kind = .event := kind_of_withColon hs h hrule hname
  have hoffered : h.withColon ∉ (offer events present front).map AttributeRule.name := fun hmem =>
    hnot (((offer_sublist _ _ _).map _).subset hmem)
  have hbefore : h.joined ∈ front.map AttributeRule.name ↔
      h.joined ∈ (s.declared tag mode).map AttributeRule.name := by
    rw [mem_map_front_distinctBy _ hsplit, hname]
    constructor
    · rintro ⟨-, hlt⟩
      by_contra hmem
      exact Nat.lt_asymm hlt (Schema.withColon_before_joined_of_notMem hs h hmem)
    · intro hmem
      exact ⟨mem_names_rules tag mode (Schema.joined_mem_common h), Schema.joined_before_withColon hs h hmem⟩
  rw [hturn, AttributeRule.IsNew, hname, withColon_seen_iff hs h hfront, h.joinAtColon_withColon,
    joined_seen_iff hs h hfront, hbefore]
  have hne := (h.withColon_ne_joined h).symm
  simp only [hkind, hnot, hoffered, hne, or_false, false_or, not_or, true_implies]
  exact and_left_comm

/-- The spelling without one is offered unless the element has it; but if the component does not declare
it, only to an element that has the one with a colon. -/
theorem joined_mem_offer_iff :
    h.joined ∈ (offer events present (s.accepted tag mode)).map AttributeRule.name ↔
      h.joined ∉ present ∧ (h.joined ∈ (s.declared tag mode).map AttributeRule.name ∨
        events = true ∧ h.withColon ∈ present) := by
  obtain ⟨front, rule, back, hsplit, hrule, hfront, hname, hnot, hturn⟩ :=
    exists_turn tag mode events present (mem_names_rules tag mode (Schema.joined_mem_common h))
  rw [hturn, AttributeRule.IsNew, hname, joined_seen_iff hs h hfront, h.joinAtColon_joined]
  by_cases hmem : h.joined ∈ (s.declared tag mode).map AttributeRule.name
  · have hkind : rule.kind ≠ .event :=
      (hs tag mode rule (mem_declared_of_name hrule (hname ▸ hmem))).1
    have hoffered : h.withColon ∉ (offer events present front).map AttributeRule.name := by
      intro hbefore
      have hlt := ((mem_map_front_distinctBy _ hsplit).mp (((offer_sublist _ _ _).map _).subset hbefore)).2
      rw [hname] at hlt
      exact Nat.lt_asymm hlt (Schema.joined_before_withColon hs h hmem)
    simp only [hmem, hkind, hnot, hoffered, or_false, false_implies, and_true, true_or]
  · have hkind : rule.kind = .event :=
      kind_of_hasBinder hrule (hname ▸ h.hasBinder_joined) (by rwa [hname])
    have hbefore : h.withColon ∈ front.map AttributeRule.name := by
      rw [mem_map_front_distinctBy _ hsplit, hname]
      exact ⟨mem_names_rules tag mode (Schema.withColon_mem_common h),
        Schema.withColon_before_joined_of_notMem hs h hmem⟩
    have hoffered : h.withColon ∈ (offer events present front).map AttributeRule.name ↔
        h.withColon ∈ (offer events present (s.accepted tag mode)).map AttributeRule.name := by
      rw [hsplit, offer_append, List.map_append, List.mem_append]
      refine (or_iff_left fun hafter => ?_).symm
      have hnodup := s.nodup_accepted tag mode
      rw [hsplit, List.map_append] at hnodup
      exact (List.nodup_append.mp hnodup).2.2 _ hbefore _ (((offer_sublist _ _ _).map _).subset hafter) rfl
    rw [hoffered, withColon_mem_offer_iff hs]
    simp only [hmem, hkind, hnot]
    grind

end

def Component.allAttributes (c : Component) : List AttributeRule :=
  c.attributes ++ c.attributes.flatMap fun rule => rule.modes.flatMap Prod.snd

theorem Component.mem_allAttributes {c : Component} {mode : String} {rule : AttributeRule}
    (h : rule ∈ c.attributesIn mode) : rule ∈ c.allAttributes := by
  rw [attributesIn] at h
  split at h
  · cases h
  · next selector hselector =>
    split at h
    · cases h
    · next equal rules hmode =>
      refine List.mem_append_right _ (List.mem_flatMap.mpr ⟨selector, List.mem_of_find?_eq_some hselector, ?_⟩)
      exact List.mem_flatMap.mpr ⟨_, List.mem_of_find?_eq_some hmode, h⟩

theorem Schema.exists_component_of_mem_declared {s : Schema} {tag : String} {mode : Option String}
    {rule : AttributeRule} (h : rule ∈ s.declared tag mode) : ∃ c ∈ s.components, rule ∈ c.allAttributes := by
  rw [declared] at h
  split at h
  · cases h
  · next component hcomponent =>
    refine ⟨component, List.mem_of_find?_eq_some hcomponent, ?_⟩
    split at h
    · exact List.mem_append_left _ h
    · rcases List.mem_append.mp h with h | h
      · exact List.mem_append_left _ h
      · exact Component.mem_allAttributes h

theorem bytes_isPrefixOf (front back : String) :
    front.toByteArray.data.toList.isPrefixOf (front ++ back).toByteArray.data.toList = true := by
  rw [String.toByteArray_append, ByteArray.data_append, Array.toList_append]
  exact List.isPrefixOf_iff_prefix.mpr (List.prefix_append _ _)

-- Bytes are compared, which the kernel is faster at than characters.
theorem Schema.bundled_plainHandlers : bundled.PlainHandlers := by
  have hall : bundled.components.all (fun c => c.allAttributes.all fun rule => rule.kind ≠ .event &&
      ["bind:", "catch:"].all fun front =>
        !front.toByteArray.data.toList.isPrefixOf rule.name.toByteArray.data.toList) = true := by
    decide +kernel
  intro tag mode rule hrule
  obtain ⟨c, hc, hmem⟩ := exists_component_of_mem_declared hrule
  have hrule := List.all_eq_true.mp (List.all_eq_true.mp hall c hc) rule hmem
  simp only [Bool.and_eq_true, decide_eq_true_eq, List.all_eq_true] at hrule
  refine ⟨hrule.1, fun h hname => ?_⟩
  have hfront : h.binder ++ ":" ∈ ["bind:", "catch:"] := by
    have hall : ∀ binder ∈ ["bind", "catch"], binder ++ ":" ∈ ["bind:", "catch:"] := by decide
    exact hall _ h.binder_mem
  have hnot := hrule.2 _ hfront
  rw [hname, Handler.withColon, bytes_isPrefixOf] at hnot
  cases hnot

end PageMarkup
