import PageMarkup.Json.Record
import PageMarkup.Schema.Codec

/-!
# Encoding and decoding schemas

Reading what was written of a schema gives it back if it is nested no deeper than there is room for,
and refuses it otherwise (`Restores`). What has been read from anywhere can be written in the same
room, since each level that is written was a level that was read.
-/

namespace PageMarkup

-- ---------------------------------------------------------------------------
-- Records and lists
-- ---------------------------------------------------------------------------

namespace Json

theorem areReadable_eq_all (room : Nat) (items : List Json) :
    areReadable room items = items.all (isReadable room) := by
  induction items with
  | nil => rfl
  | cons v items ih => rw [areReadable, ih, List.all_cons]

theorem areFieldsReadable_eq_all (room : Nat) (fields : List (String × Json)) :
    areFieldsReadable room fields = fields.all (isReadable room ·.2) := by
  induction fields with
  | nil => rfl
  | cons field fields ih => rw [areFieldsReadable, isFieldReadable, ih, List.all_cons]

@[simp]
theorem isReadable_string (room : Nat) (text : String) : isReadable room (.string text) = true := by
  rw [isReadable]

@[simp]
theorem all_isReadable_string (room : Nat) (text : Option String) :
    (text.map Json.string).all (isReadable room) = true := by
  cases text <;> simp

theorem isReadable_array (room : Nat) (items : List Json) :
    isReadable (room + 1) (.array items) = items.all (isReadable room) := by
  simp [isReadable, areReadable_eq_all]

theorem isReadable_ofFields (room : Nat) (fields : List (String × Option Json)) :
    isReadable (room + 1) (ofFields fields) = fields.all (·.2.all (isReadable room)) := by
  rw [ofFields, isReadable, areFieldsReadable_eq_all]
  simp only [Nat.zero_lt_succ, decide_true, Bool.true_and, Nat.add_sub_cancel]
  induction fields with
  | nil => rfl
  | cons field fields ih =>
    obtain ⟨name, value⟩ := field
    cases value with
    | none => simpa using ih
    | some v => simpa using congrArg (isReadable room v && ·) ih

theorem isReadable_ofFields_zero (fields : List (String × Option Json)) :
    isReadable 0 (ofFields fields) = false := by
  simp [ofFields, isReadable]

def present (fields : List (String × Option Json)) : List (String × Json) :=
  fields.filterMap fun (name, value) => value.map (name, ·)

theorem names_present_sublist (fields : List (String × Option Json)) :
    ((present fields).map Prod.fst).Sublist (fields.map Prod.fst) := by
  induction fields with
  | nil => exact .slnil
  | cons field fields ih =>
    obtain ⟨name, value⟩ := field
    cases value with
    | none => exact ih.cons name
    | some v => exact ih.cons_cons name

theorem lookup_present {fields : List (String × Option Json)} (hnodup : (fields.map Prod.fst).Nodup)
    (h : field ∈ fields) : (present fields).lookup field.1 = field.2 := by
  induction fields with
  | nil => cases h
  | cons first fields ih =>
    obtain ⟨name, value⟩ := first
    obtain ⟨hname, hrest⟩ := List.nodup_cons.mp hnodup
    rcases List.mem_cons.mp h with rfl | hmem
    · cases value with
      | none =>
        refine List.lookup_eq_none_iff.mpr ?_
        intro p hp
        have hne : name ≠ p.1 := by
          rintro rfl
          exact hname ((names_present_sublist fields).subset (List.mem_map_of_mem hp))
        simpa using hne
      | some v => simp [present]
    · have hne : (field.1 == name) = false := by
        refine beq_false_of_ne ?_
        rintro rfl
        exact hname (List.mem_map.mpr ⟨field, hmem, rfl⟩)
      rw [← ih hrest hmem]
      cases value with
      | none => rfl
      | some v => simp [present, List.lookup_cons, hne]

theorem occurrences_le_one {fields : List (String × Json)} (h : (fields.map Prod.fst).Nodup)
    (name : String) : occurrences fields name ≤ 1 := by
  have hcount := List.nodup_iff_count.mp h name
  rwa [List.count_eq_countP, List.countP_map] at hcount

/-- A record is read as it was written, with nothing for the fields that were left out. -/
theorem record?_ofFields {fields : List (String × Option Json)} (hnames : fields.map Prod.fst = names)
    (hnodup : names.Nodup) : record? names (ofFields fields) = some (fields.map Prod.snd) := by
  subst hnames
  have honce : (fields.map Prod.fst).all (occurrences (present fields) · ≤ 1) = true := by
    simp [occurrences_le_one (hnodup.sublist (names_present_sublist fields))]
  rw [ofFields, record?, ← present, if_pos honce, List.map_map]
  refine congrArg some (List.map_congr_left ?_)
  intro field hfield
  exact lookup_present hnodup hfield

end Json

theorem mapM_map_eq_ite {encode : α → Json} {decode : Json → Option α} {ok : α → Bool}
    {items : List α} (h : ∀ a ∈ items, decode (encode a) = if ok a then some a else none) :
    (items.map encode).mapM decode = if items.all ok then some items else none := by
  induction items with
  | nil => rfl
  | cons a items ih =>
    have ha := h a List.mem_cons_self
    have hitems := ih fun b hb => h b (List.mem_cons_of_mem a hb)
    rw [List.map_cons, List.mapM_cons, ha, hitems, List.all_cons]
    cases ok a <;> cases items.all ok <;> rfl

theorem exists_of_mem_mapM {f : α → Option β} {items : List α} {found : List β}
    (h : items.mapM f = some found) (hb : b ∈ found) :
    ∃ a ∈ items, f a = some b := by
  induction items generalizing found with
  | nil =>
    cases h
    cases hb
  | cons a items ih =>
    rw [List.mapM_cons] at h
    obtain ⟨first, hfirst, h⟩ := Option.bind_eq_some_iff.mp h
    obtain ⟨rest, hrest, h⟩ := Option.bind_eq_some_iff.mp h
    cases h
    rcases List.mem_cons.mp hb with rfl | hb
    · exact ⟨a, List.mem_cons_self, hfirst⟩
    · obtain ⟨a', ha', hf⟩ := ih hrest hb
      exact ⟨a', List.mem_cons_of_mem a ha', hf⟩

/-- Rules come after the rules of their modes. -/
theorem AttributeRule.induction {motive : AttributeRule → Prop}
    (h : ∀ rule, (∀ mode ∈ rule.modes, ∀ r ∈ mode.2, motive r) → motive rule) (rule : AttributeRule) :
    motive rule := by
  refine h rule ?_
  intro mode hmode r hr
  exact AttributeRule.induction h r
termination_by sizeOf rule
decreasing_by
  have hmodes := List.sizeOf_lt_of_mem hmode
  have hrules := List.sizeOf_lt_of_mem hr
  cases rule
  cases mode
  simp at *
  omega

namespace Schema

theorem encodeAttributes_eq_map (rules : List AttributeRule) :
    encodeAttributes rules = rules.map encodeAttribute := by
  induction rules with
  | nil => rfl
  | cons rule rules ih => rw [encodeAttributes, ih, List.map_cons]

theorem encodeModes_eq_map (modes : List (String × List AttributeRule)) :
    encodeModes modes = modes.map encodeMode := by
  induction modes with
  | nil => rfl
  | cons mode modes ih => rw [encodeModes, ih, List.map_cons]

theorem encodeMode_eq (mode : String × List AttributeRule) :
    encodeMode mode = .ofFields [("equal", some (.string mode.1)),
      ("attrs", some (.array (mode.2.map encodeAttribute)))] := by
  rw [encodeMode, encodeAttributes_eq_map]
  rfl

theorem encodeAttribute_eq (rule : AttributeRule) :
    encodeAttribute rule = .ofFields [("name", some (.string rule.name)),
      ("type", some (encodeKind rule.kind)), ("desc", rule.desc.map .string),
      ("defaultValue", rule.defaultValue.map .string), ("since", rule.since.map .string),
      ("subAttrs", nonempty (rule.modes.map encodeMode))] := by
  cases rule
  rw [encodeAttribute, encodeModes_eq_map]

-- ---------------------------------------------------------------------------
-- Reading what was encoded
-- ---------------------------------------------------------------------------

/-- What was written is given back if there is room for it, and refused otherwise. -/
def Restores (decode : Nat → Json → Option α) (encode : α → Json) (a : α) : Prop :=
  ∀ room, decode room (encode a) = if (encode a).isReadable room then some a else none

theorem restores_array {decodeAll : Nat → Json → Option (List α)} {decode : Nat → Json → Option α}
    {encode : α → Json} (hzero : ∀ items, decodeAll 0 (.array items) = none)
    (hsucc : ∀ room items, decodeAll (room + 1) (.array items) = items.mapM (decode room))
    {items : List α} (h : ∀ a ∈ items, Restores decode encode a) :
    Restores decodeAll (fun items => .array (items.map encode)) items := by
  intro room
  cases room with
  | zero => simp [hzero, Json.isReadable]
  | succ room =>
    simp only [hsucc, Json.isReadable_array, List.all_map]
    exact mapM_map_eq_ite fun a ha => h a ha room

theorem restores_choice (v : Choice) : Restores decodeChoice encodeChoice v := by
  intro room
  cases room with
  | zero => simp [decodeChoice, encodeChoice, Json.isReadable_ofFields_zero]
  | succ room =>
    have hrecord : Json.record? ["value", "desc"] (encodeChoice v) =
        some [some (.string v.value), v.desc.map .string] :=
      Json.record?_ofFields rfl (by decide)
    have hreadable : (encodeChoice v).isReadable (room + 1) = true := by
      rw [encodeChoice, Json.isReadable_ofFields]
      simp
    rw [decodeChoice, hrecord, if_pos hreadable]
    obtain ⟨value, desc⟩ := v
    cases desc <;> rfl

theorem restores_choices (choices : List Choice) :
    Restores decodeChoices (fun choices => .array (choices.map encodeChoice)) choices :=
  restores_array (fun _ => rfl) (fun _ _ => rfl) fun v _ => restores_choice v

theorem decodeNamedKind_enum (room : Nat) (values : Option Json) :
    decodeNamedKind room "enum" values = (values.bind (decodeChoices room)).map .enum :=
  rfl

theorem restores_kind (kind : ValueKind) : Restores decodeKind encodeKind kind := by
  intro room
  rw [decodeKind]
  by_cases hreadable : (encodeKind kind).isReadable room = true
  · rw [if_pos hreadable, if_pos hreadable]
    cases room with
    | zero => simp [encodeKind, Json.isReadable_ofFields_zero] at hreadable
    | succ room =>
      cases kind with
      | enum choices =>
        have hchoices : decodeChoices room (.array (choices.map encodeChoice)) = some choices := by
          rw [encodeKind, Json.isReadable_ofFields] at hreadable
          rw [restores_choices choices room, if_pos]
          simpa [Json.isReadable] using hreadable
        show decodeNamedKind room "enum" (some (.array (choices.map encodeChoice))) = _
        rw [decodeNamedKind_enum, Option.bind_some, hchoices, Option.map_some]
      | _ => rfl
  · rw [if_neg hreadable, if_neg hreadable]

theorem restores_attributes {rules : List AttributeRule}
    (h : ∀ rule ∈ rules, Restores decodeAttribute encodeAttribute rule) :
    Restores decodeAttributes (fun rules => .array (rules.map encodeAttribute)) rules :=
  restores_array (fun _ => by simp [decodeAttributes]) (fun _ _ => by rw [decodeAttributes]) h

theorem restores_mode {mode : String × List AttributeRule}
    (h : ∀ rule ∈ mode.2, Restores decodeAttribute encodeAttribute rule) :
    Restores decodeMode encodeMode mode := by
  intro room
  rw [encodeMode_eq]
  cases room with
  | zero =>
    rw [decodeMode, Json.isReadable_ofFields_zero]
    rfl
  | succ room =>
    have hrecord : Json.record? ["equal", "attrs"] (.ofFields [("equal", some (.string mode.1)),
        ("attrs", some (.array (mode.2.map encodeAttribute)))]) =
        some [some (.string mode.1), some (.array (mode.2.map encodeAttribute))] :=
      Json.record?_ofFields rfl (by decide)
    rw [decodeMode, hrecord, Json.isReadable_ofFields]
    have hrules : decodeAttributes room (.array (mode.2.map encodeAttribute)) = _ :=
      restores_attributes h room
    simp only [hrules]
    cases hreadable : Json.isReadable room (.array (mode.2.map encodeAttribute)) <;>
      simp [hreadable, Json.string?]

theorem decodeModes_nonempty {modes : List (String × List AttributeRule)}
    (h : ∀ mode ∈ modes, Restores decodeMode encodeMode mode) (room : Nat) :
    decodeModes room (nonempty (modes.map encodeMode)) =
      if (nonempty (modes.map encodeMode)).all (Json.isReadable room) then some modes else none := by
  cases modes with
  | nil =>
    rw [List.map_nil, nonempty, decodeModes]
    rfl
  | cons mode modes =>
    have hmodes : Restores (fun room j => decodeModes room (some j))
        (fun modes => .array (modes.map encodeMode)) (mode :: modes) :=
      restores_array (fun _ => by simp [decodeModes]) (fun _ _ => by rw [decodeModes]) h
    exact hmodes room

theorem optional?_string (text : Option String) :
    Json.optional? Json.string? (text.map .string) = some text := by
  cases text <;> rfl

theorem restores_attribute (rule : AttributeRule) : Restores decodeAttribute encodeAttribute rule := by
  induction rule using AttributeRule.induction with
  | h rule ih =>
    intro room
    rw [encodeAttribute_eq]
    cases room with
    | zero =>
      rw [decodeAttribute, Json.isReadable_ofFields_zero]
      rfl
    | succ room =>
      have hrecord : Json.record? ["name", "type", "desc", "defaultValue", "since", "subAttrs"]
          (.ofFields [("name", some (.string rule.name)), ("type", some (encodeKind rule.kind)),
            ("desc", rule.desc.map .string), ("defaultValue", rule.defaultValue.map .string),
            ("since", rule.since.map .string), ("subAttrs", nonempty (rule.modes.map encodeMode))]) =
          some [some (.string rule.name), some (encodeKind rule.kind), rule.desc.map .string,
            rule.defaultValue.map .string, rule.since.map .string,
            nonempty (rule.modes.map encodeMode)] :=
        Json.record?_ofFields rfl (by decide)
      rw [decodeAttribute, hrecord, Json.isReadable_ofFields]
      simp only [optional?_string, restores_kind rule.kind room,
        decodeModes_nonempty (fun mode hmode => restores_mode (ih mode hmode)) room]
      have heta : (⟨rule.name, rule.kind, rule.desc, rule.defaultValue, rule.since, rule.modes⟩ :
          AttributeRule) = rule := by
        cases rule
        rfl
      cases hkind : (encodeKind rule.kind).isReadable room <;>
        cases hmodes : (nonempty (rule.modes.map encodeMode)).all (Json.isReadable room) <;>
          simp [hkind, hmodes, Json.string?, heta]

theorem decodeTips_nonempty (room : Nat) (tips : List String) :
    decodeTips room (nonempty (tips.map .string)) =
      if (nonempty (tips.map .string)).all (Json.isReadable room) then some tips else none := by
  cases tips with
  | nil => rfl
  | cons tip tips =>
    have htip (text : String) : Restores (fun _ => Json.string?) .string text := by
      intro room
      simp [Json.string?]
    have htips : Restores (fun room j => decodeTips room (some j))
        (fun tips => .array (tips.map .string)) (tip :: tips) :=
      restores_array (fun _ => rfl) (fun _ _ => rfl) fun text _ => htip text
    exact htips room

theorem restores_component (component : Component) :
    Restores decodeComponent encodeComponent component := by
  intro room
  cases room with
  | zero =>
    rw [decodeComponent, encodeComponent, Json.isReadable_ofFields_zero]
    rfl
  | succ room =>
    have hrecord : Json.record? ["name", "desc", "docLink", "tips", "attrs"]
        (encodeComponent component) =
        some [some (.string component.name), component.desc.map .string,
          component.docLink.map .string, nonempty (component.tips.map .string),
          some (.array (component.attributes.map encodeAttribute))] := by
      rw [encodeComponent, encodeAttributes_eq_map]
      exact Json.record?_ofFields rfl (by decide)
    have hrules : decodeAttributes room (.array (component.attributes.map encodeAttribute)) = _ :=
      restores_attributes (fun rule _ => restores_attribute rule) room
    rw [decodeComponent, hrecord, encodeComponent, encodeAttributes_eq_map, Json.isReadable_ofFields]
    simp only [optional?_string, decodeTips_nonempty, hrules]
    cases htips : (nonempty (component.tips.map .string)).all (Json.isReadable room) <;>
      cases hreadable : Json.isReadable room (.array (component.attributes.map encodeAttribute)) <;>
        simp [htips, hreadable, Json.string?]

theorem restores_components (components : List Component) :
    Restores decodeComponents (fun components => .array (components.map encodeComponent)) components :=
  restores_array (fun _ => rfl) (fun _ _ => rfl) fun component _ => restores_component component

-- ---------------------------------------------------------------------------
-- What was read can be written
-- ---------------------------------------------------------------------------

theorem readable_of_decodeChoice (h : decodeChoice room j = some v) :
    (encodeChoice v).isReadable room = true := by
  cases room with
  | zero => cases h
  | succ room =>
    rw [encodeChoice, Json.isReadable_ofFields]
    simp

theorem readable_of_mapM {decode : Json → Option α} {encode : α → Json} {found : List α}
    (h : ∀ j a, decode j = some a → (encode a).isReadable room = true)
    (hitems : List.mapM decode items = some found) :
    Json.isReadable (room + 1) (.array (found.map encode)) = true := by
  rw [Json.isReadable_array, List.all_map]
  refine List.all_eq_true.mpr ?_
  intro a ha
  obtain ⟨j, -, hj⟩ := exists_of_mem_mapM hitems ha
  exact h j a hj

theorem readable_of_decodeChoices {choices : List Choice}
    (h : decodeChoices room j = some choices) :
    Json.isReadable room (.array (choices.map encodeChoice)) = true := by
  unfold decodeChoices at h
  split at h
  · exact readable_of_mapM (fun _ _ => readable_of_decodeChoice) h
  · cases h

theorem of_decodeKindParts (h : decodeKindParts room j = some kind) :
    ∃ room' name values, room = room' + 1 ∧ decodeNamedKind room' name values = some kind := by
  unfold decodeKindParts at h
  split at h
  · split at h
    · split at h
      · exact ⟨_, _, _, rfl, h⟩
      · cases h
    · exact ⟨_, _, _, rfl, h⟩
    · cases h
  · exact ⟨_, _, _, rfl, h⟩
  · exact ⟨_, _, _, rfl, h⟩
  · cases h

theorem of_decodeNamedKind (h : decodeNamedKind room name values = some kind) :
    (∀ choices, kind ≠ .enum choices) ∨
      ∃ j choices, kind = .enum choices ∧ decodeChoices room j = some choices := by
  unfold decodeNamedKind at h
  split at h
  case h_8 =>
    obtain ⟨choices, hchoices, rfl⟩ := Option.map_eq_some_iff.mp h
    obtain ⟨j, -, hj⟩ := Option.bind_eq_some_iff.mp hchoices
    exact .inr ⟨j, choices, rfl, hj⟩
  case h_9 => cases h
  all_goals
    cases h
    exact .inl fun choices => by simp

theorem readable_of_decodeKind (h : decodeKind room j = some kind) :
    (encodeKind kind).isReadable room = true := by
  rw [decodeKind] at h
  split at h
  · obtain ⟨room, name, values, rfl, hnamed⟩ := of_decodeKindParts h
    rcases of_decodeNamedKind hnamed with hplain | ⟨j, choices, rfl, hchoices⟩
    · cases kind with
      | enum choices => exact absurd rfl (hplain choices)
      | _ => simp [encodeKind, Json.isReadable_ofFields]
    · have hreadable := readable_of_decodeChoices hchoices
      simp [encodeKind, Json.isReadable_ofFields, hreadable]
  · cases h

theorem readable_nonempty {encode : α → Json} {items : List α}
    (h : Json.isReadable room (.array (items.map encode)) = true) :
    (nonempty (items.map encode)).all (Json.isReadable room) = true := by
  cases items with
  | nil => rfl
  | cons a items => exact h

theorem readable_attribute {rule : AttributeRule} (hkind : (encodeKind rule.kind).isReadable room = true)
    (hmodes : (nonempty (rule.modes.map encodeMode)).all (Json.isReadable room) = true) :
    (encodeAttribute rule).isReadable (room + 1) = true := by
  rw [encodeAttribute_eq, Json.isReadable_ofFields]
  simp [hkind, hmodes]

section
variable {room : Nat}
  (ih : ∀ below < room, ∀ j rule, decodeAttribute below j = some rule →
    (encodeAttribute rule).isReadable below = true)
include ih

theorem readable_of_decodeAttributes {rules : List AttributeRule} (hle : room' ≤ room)
    (h : decodeAttributes room' j = some rules) :
    Json.isReadable room' (.array (rules.map encodeAttribute)) = true := by
  unfold decodeAttributes at h
  split at h
  · next below items => exact readable_of_mapM (ih below hle) h
  · cases h

theorem readable_of_decodeMode (hle : room' ≤ room) (h : decodeMode room' j = some mode) :
    (encodeMode mode).isReadable room' = true := by
  cases room' with
  | zero => cases h
  | succ below =>
    rw [decodeMode] at h
    split at h
    · obtain ⟨name, -, h⟩ := Option.bind_eq_some_iff.mp h
      obtain ⟨rules, hrules, h⟩ := Option.bind_eq_some_iff.mp h
      cases h
      have hreadable := readable_of_decodeAttributes ih (Nat.le_of_succ_le hle) hrules
      rw [encodeMode_eq, Json.isReadable_ofFields]
      simp [hreadable]
    · cases h

theorem readable_of_decodeModes (hle : room' ≤ room) (h : decodeModes room' field = some modes) :
    (nonempty (modes.map encodeMode)).all (Json.isReadable room') = true := by
  unfold decodeModes at h
  split at h
  · cases h
    rfl
  · next below items =>
    refine readable_nonempty (readable_of_mapM ?_ h)
    intro j mode
    exact readable_of_decodeMode ih (Nat.le_of_succ_le hle)
  · cases h

end

theorem readable_of_decodeAttribute (h : decodeAttribute room j = some rule) :
    (encodeAttribute rule).isReadable room = true := by
  induction room using Nat.strongRecOn generalizing j rule with
  | ind room ih =>
    cases room with
    | zero => cases h
    | succ room =>
      rw [decodeAttribute] at h
      split at h
      · obtain ⟨name, -, h⟩ := Option.bind_eq_some_iff.mp h
        obtain ⟨kind, hkind, h⟩ := Option.bind_eq_some_iff.mp h
        obtain ⟨desc, -, h⟩ := Option.bind_eq_some_iff.mp h
        obtain ⟨defaultValue, -, h⟩ := Option.bind_eq_some_iff.mp h
        obtain ⟨since, -, h⟩ := Option.bind_eq_some_iff.mp h
        obtain ⟨modes, hmodes, h⟩ := Option.bind_eq_some_iff.mp h
        cases h
        exact readable_attribute (readable_of_decodeKind hkind)
          (readable_of_decodeModes (fun below hbelow _ _ => ih below hbelow) (Nat.le_succ room) hmodes)
      · cases h

theorem readable_of_decodeTips (h : decodeTips room field = some tips) :
    (nonempty (tips.map .string)).all (Json.isReadable room) = true := by
  unfold decodeTips at h
  split at h
  · cases h
    rfl
  · refine readable_nonempty (readable_of_mapM ?_ h)
    intro j tip _
    exact Json.isReadable_string _ tip
  · cases h

theorem readable_component {component : Component}
    (htips : (nonempty (component.tips.map .string)).all (Json.isReadable room) = true)
    (hrules : Json.isReadable room (.array (component.attributes.map encodeAttribute)) = true) :
    (encodeComponent component).isReadable (room + 1) = true := by
  rw [encodeComponent, encodeAttributes_eq_map, Json.isReadable_ofFields]
  simp [htips, hrules]

-- The list of attributes is written even if there was none, which takes another level.
theorem readable_of_decodeComponent (h : decodeComponent (room + 2) j = some component) :
    (encodeComponent component).isReadable (room + 2) = true := by
  rw [decodeComponent] at h
  split at h
  · next name desc docLink tips attrs _ =>
    obtain ⟨name, -, h⟩ := Option.bind_eq_some_iff.mp h
    obtain ⟨desc, -, h⟩ := Option.bind_eq_some_iff.mp h
    obtain ⟨docLink, -, h⟩ := Option.bind_eq_some_iff.mp h
    obtain ⟨tips, htips, h⟩ := Option.bind_eq_some_iff.mp h
    cases attrs with
    | none =>
      cases h
      exact readable_component (readable_of_decodeTips htips) rfl
    | some attrs =>
      obtain ⟨rules, hrules, h⟩ := Option.bind_eq_some_iff.mp h
      cases h
      exact readable_component (readable_of_decodeTips htips)
        (readable_of_decodeAttributes (fun _ _ _ _ => readable_of_decodeAttribute) (Nat.le_refl _)
          hrules)
  · cases h

end Schema

end PageMarkup
