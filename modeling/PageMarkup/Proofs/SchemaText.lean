import PageMarkup.Proofs.JsonText
import PageMarkup.Proofs.SchemaCodec
import PageMarkup.Schema.Bundled

/-!
# Schemas as text

A schema is written as one line of JSON. `schema_restored` says what comes back when the text is
read: the same components, in the same order, and the script element if it was not among them.
Modes inside modes count: there is a limit to how deep the text may be nested.
-/

namespace PageMarkup

namespace Schema

-- ---------------------------------------------------------------------------
-- The text of a schema
-- ---------------------------------------------------------------------------

open Json (ReadsBack readsBack_string readsBack_array readsBack_ofFields)

theorem readsBack_map_string (text : Option String) : ∀ v ∈ text.map .string, ReadsBack v := by
  intro v hv
  obtain ⟨s, -, rfl⟩ := Option.map_eq_some_iff.mp hv
  exact readsBack_string s

theorem readsBack_array_map {encode : α → Json} {items : List α}
    (h : ∀ a ∈ items, ReadsBack (encode a)) : ReadsBack (.array (items.map encode)) := by
  refine readsBack_array ?_
  intro v hv
  obtain ⟨a, ha, rfl⟩ := List.mem_map.mp hv
  exact h a ha

theorem readsBack_nonempty {encode : α → Json} {items : List α}
    (h : ∀ a ∈ items, ReadsBack (encode a)) : ∀ v ∈ nonempty (items.map encode), ReadsBack v := by
  intro v hv
  cases items with
  | nil => cases hv
  | cons a items =>
    cases hv
    exact readsBack_array_map h

theorem readsBack_choice (v : Choice) : ReadsBack (encodeChoice v) := by
  refine readsBack_ofFields ?_
  simp only [List.forall_mem_cons, Option.mem_some, forall_eq']
  exact ⟨readsBack_string _, readsBack_map_string _, List.forall_mem_nil _⟩

theorem readsBack_kind (kind : ValueKind) : ReadsBack (encodeKind kind) := by
  refine readsBack_ofFields ?_
  simp only [List.forall_mem_cons, Option.mem_some, forall_eq']
  refine ⟨readsBack_string _, ?_, List.forall_mem_nil _⟩
  cases kind with
  | enum choices =>
    intro v hv
    cases hv
    exact readsBack_array_map fun choice _ => readsBack_choice choice
  | _ => simp

theorem readsBack_mode {mode : String × List AttributeRule}
    (h : ∀ rule ∈ mode.2, ReadsBack (encodeAttribute rule)) : ReadsBack (encodeMode mode) := by
  rw [encodeMode_eq]
  refine readsBack_ofFields ?_
  simp only [List.forall_mem_cons, Option.mem_some, forall_eq']
  exact ⟨readsBack_string _, readsBack_array_map h, List.forall_mem_nil _⟩

theorem readsBack_attribute (rule : AttributeRule) : ReadsBack (encodeAttribute rule) := by
  induction rule using AttributeRule.induction with
  | h rule ih =>
    rw [encodeAttribute_eq]
    refine readsBack_ofFields ?_
    simp only [List.forall_mem_cons, Option.mem_some, forall_eq']
    exact ⟨readsBack_string _, readsBack_kind _, readsBack_map_string _, readsBack_map_string _,
      readsBack_map_string _, readsBack_nonempty fun mode hmode => readsBack_mode (ih mode hmode),
      List.forall_mem_nil _⟩

theorem readsBack_component (component : Component) : ReadsBack (encodeComponent component) := by
  rw [encodeComponent, encodeAttributes_eq_map]
  refine readsBack_ofFields ?_
  simp only [List.forall_mem_cons, Option.mem_some, forall_eq']
  exact ⟨readsBack_string _, readsBack_map_string _, readsBack_map_string _,
    readsBack_nonempty fun tip _ => readsBack_string tip,
    readsBack_array_map fun rule _ => readsBack_attribute rule, List.forall_mem_nil _⟩

-- ---------------------------------------------------------------------------
-- Loading
-- ---------------------------------------------------------------------------

def read? (text : String) : Option (List Component) :=
  (Json.parse? text).bind (decodeComponents nesting)

def load? (text : String) : Option Schema :=
  (Json.parse? text).bind decode?

def write (s : Schema) : String :=
  s.encode.compact

theorem load?_eq_map (text : String) : load? text = (read? text).map ofComponents := by
  rw [load?, read?]
  cases Json.parse? text <;> rfl

theorem read?_write (s : Schema) :
    read? s.write = if s.encode.isReadable nesting then some s.components else none := by
  have hparse : Json.parse? s.write = some s.encode :=
    Json.parse?_compact (readsBack_array_map fun component _ => readsBack_component component)
  rw [read?, hparse, Option.bind_some]
  exact restores_components s.components nesting

theorem readable_of_read? (h : read? text = some listed) :
    ∀ component ∈ listed, (encodeComponent component).isReadable (nesting - 1) = true := by
  obtain ⟨j, -, h⟩ := Option.bind_eq_some_iff.mp h
  unfold decodeComponents nesting at h
  split at h
  · next room items heq =>
    intro component hcomponent
    obtain ⟨j, -, hj⟩ := exists_of_mem_mapM h hcomponent
    cases heq
    exact readable_of_decodeComponent hj
  · cases h

theorem readable_encode {s : Schema}
    (h : ∀ component ∈ s.components, (encodeComponent component).isReadable (nesting - 1) = true) :
    s.encode.isReadable nesting = true := by
  refine (Json.isReadable_array (nesting - 1) _).trans ?_
  rw [List.all_map]
  exact List.all_eq_true.mpr h

theorem components_ofComponents (listed : List Component) :
    (ofComponents listed).components =
      if listed.any (·.name = "wxs") then listed else listed ++ [scriptComponent] := by
  rw [ofComponents]
  split <;> rfl

theorem ofComponents_idem (listed : List Component) :
    ofComponents (ofComponents listed).components = ofComponents listed := by
  by_cases h : listed.any (·.name = "wxs") = true
  · have hsame : ofComponents listed = ⟨listed⟩ := if_pos h
    rw [hsame]
    exact hsame
  · have hmore : ofComponents listed = ⟨listed ++ [scriptComponent]⟩ := if_neg h
    rw [hmore]
    refine if_pos ?_
    simp [scriptComponent]

theorem readable_of_load? (h : load? text = some s) : s.encode.isReadable nesting = true := by
  rw [load?_eq_map] at h
  obtain ⟨listed, hlisted, rfl⟩ := Option.map_eq_some_iff.mp h
  have hreadable := readable_of_read? hlisted
  have hscript : (encodeComponent scriptComponent).isReadable (nesting - 1) = true := by decide +kernel
  refine readable_encode ?_
  intro component hcomponent
  rw [components_ofComponents] at hcomponent
  split at hcomponent
  · exact hreadable component hcomponent
  · rcases List.mem_append.mp hcomponent with hcomponent | hcomponent
    · exact hreadable component hcomponent
    · rwa [List.mem_singleton.mp hcomponent]

theorem load?_write_of_load? (h : load? text = some s) : load? s.write = some s := by
  have hreadable := readable_of_load? h
  rw [load?_eq_map] at h
  obtain ⟨listed, -, rfl⟩ := Option.map_eq_some_iff.mp h
  rw [load?_eq_map, read?_write, if_pos hreadable, Option.map_some, ofComponents_idem]

end Schema

/-- Writing a list of components and reading the text gives the list back, unless it is nested too
deep, and then nothing. A schema that was loaded is never too deep: its text loads as the same
schema. Loading keeps the components in order and adds the script element last, if there is none. -/
theorem schema_restored :
    (∀ listed : List Component, Schema.read? (Schema.write ⟨listed⟩) =
      if (Schema.encode ⟨listed⟩).isReadable Schema.nesting then some listed else none) ∧
    (∀ text s, Schema.load? text = some s → Schema.load? s.write = some s) ∧
    ∀ text s, Schema.load? text = some s ↔ ∃ listed, Schema.read? text = some listed ∧
      s.components = if listed.any (·.name = "wxs") then listed else listed ++ [Schema.scriptComponent] := by
  refine ⟨fun listed => Schema.read?_write ⟨listed⟩, fun text s => Schema.load?_write_of_load?, ?_⟩
  intro text s
  rw [Schema.load?_eq_map, Option.map_eq_some_iff]
  refine exists_congr fun listed => and_congr_right fun _ => ?_
  rw [← Schema.components_ofComponents]
  constructor
  · rintro rfl
    rfl
  · intro h
    exact congrArg Schema.mk h.symm

/-- The bundled schema is the one that its own text describes. -/
theorem schema_restored_bundled :
    Schema.read? Schema.bundled.write = some Schema.bundled.components ∧
      Schema.load? Schema.bundled.write = some Schema.bundled := by
  obtain ⟨hread, hreload, hload⟩ := schema_restored
  have hlisted : Schema.read? Schema.bundled.write = some Schema.bundled.components :=
    (hread Schema.bundled.components).trans (if_pos (by decide +kernel))
  have hloaded : Schema.load? Schema.bundled.write = some Schema.bundled :=
    (hload _ _).mpr ⟨_, hlisted, (if_pos (by decide +kernel)).symm⟩
  exact ⟨hlisted, hreload _ _ hloaded⟩

def nestedRule : Nat → AttributeRule
  | 0 => { name := "a", kind := .string }
  | n + 1 => { name := "a", kind := .string, modes := [("", [nestedRule n])] }

/-- One mode inside another, 31 times. -/
def nestedComponent : Component where
  name := "t"
  attributes := [nestedRule 31]

theorem nestedComponent_refused : Schema.read? (Schema.write ⟨[nestedComponent]⟩) = none := by
  rw [Schema.read?_write]
  exact if_neg (by decide +kernel)

end PageMarkup
