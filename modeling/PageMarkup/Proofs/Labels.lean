import Mathlib.Data.List.Chain
import Mathlib.Data.List.Nodup
import PageMarkup.Proofs.Answers
import PageMarkup.Proofs.CompletionItems
import PageMarkup.Schema.Bundled

/-!
# No label twice

Items of one answer are told apart by their labels. Tags and entities are offered as their tables
list them, so this rests on the tables: entities are sorted by name, and a schema's tags must be
distinct and not look like end tags. Attributes and values are made distinct as they are offered.
-/

namespace PageMarkup

-- ---------------------------------------------------------------------------
-- Entities
-- ---------------------------------------------------------------------------

namespace Entity

def bytes (e : Entity) : List UInt8 :=
  e.name.toByteArray.data.toList

def Precedes (a b : Entity) : Prop :=
  a.bytes < b.bytes

instance : DecidableRel Precedes :=
  fun a b => inferInstanceAs (Decidable (a.bytes < b.bytes))

instance : Trans Precedes Precedes Precedes where
  trans := List.lt_trans

theorem Precedes.name_ne {a b : Entity} (h : a.Precedes b) : a.name ≠ b.name := by
  intro heq
  rw [Precedes, bytes, heq] at h
  exact List.lt_irrefl b.bytes h

-- One table at a time: the kernel cannot go through all of them at once.
theorem isChain_all : all.IsChain Precedes := by
  simp only [all, List.append_assoc]
  repeat' refine List.isChain_append.mpr ⟨?_, ?_, ?_⟩
  all_goals decide +kernel

theorem nodup_current : (current.map name).Nodup := by
  have hall : all.Pairwise (fun a b => a.name ≠ b.name) :=
    (List.isChain_iff_pairwise.mp isChain_all).imp Precedes.name_ne
  exact (List.pairwise_map.mpr hall).sublist (List.filter_sublist.map name)

end Entity

-- ---------------------------------------------------------------------------
-- Tags
-- ---------------------------------------------------------------------------

/-- Tags that cannot be mistaken for each other or for end tags. -/
structure Schema.HasPlainTags (s : Schema) : Prop where
  distinct : (s.components.map Component.name).Nodup
  noSlash : ∀ component ∈ s.components, ∀ name, component.name ≠ "/" ++ name

theorem nodup_map_prepend {names : List String} (front : String) (h : names.Nodup) :
    (names.map (front ++ ·)).Nodup :=
  h.map fun _ _ => (String.append_right_inj front).mp

namespace Completion

variable {c : Completion} {site : CompletionSite} {offered : List CompletionItem}

theorem labels_openingTags (c : Completion) (start stop : Nat) :
    (c.openingTags start stop).map CompletionItem.label = c.schema.components.map Component.name := by
  simp [openingTags_eq_map, startTag]

theorem labels_endTag (c : Completion) (start stop : Nat) (close : String) :
    (c.schema.components.map (c.endTag start stop close)).map CompletionItem.label =
      (c.schema.components.map Component.name).map ("/" ++ ·) := by
  simp [endTag]

theorem labels_reference (c : Completion) (start : Nat) (es : List Entity) :
    (es.map (c.reference start)).map CompletionItem.label = (es.map Entity.name).map ("&" ++ ·) := by
  simp [reference]

theorem labels_nodup (plain : c.schema.HasPlainTags) (h : c.items site = .ok offered) :
    (offered.map CompletionItem.label).Nodup := by
  cases site with
  | nothing =>
    cases pure_eq_ok.mp h
    exact List.nodup_nil
  | afterBracket start stop =>
    rcases of_tags h with rfl | ⟨e, -, tag, close, -, -, rfl⟩
    · rw [labels_openingTags]
      exact plain.distinct
    · rw [List.map_append, labels_openingTags]
      refine List.nodup_append.mpr ⟨plain.distinct, List.nodup_singleton _, ?_⟩
      intro name hname label hlabel
      obtain ⟨component, hcomponent, rfl⟩ := List.mem_map.mp hname
      rw [List.mem_singleton.mp hlabel, closing_label]
      exact plain.noSlash component hcomponent tag
  | tagName start stop =>
    cases pure_eq_ok.mp h
    rw [labels_openingTags]
    exact plain.distinct
  | endTag slash stop =>
    rcases of_closingTags h with ⟨e, -, tag, close, -, -, rfl⟩ | ⟨close, rfl⟩
    · exact List.nodup_singleton _
    · rw [labels_endTag]
      exact nodup_map_prepend "/" plain.distinct
  | afterStartTag offset tag =>
    cases pure_eq_ok.mp h
    rw [closeElement_eq]
    split
    · exact List.nodup_nil
    · exact List.nodup_singleton _
  | attributeName tag start stop =>
    obtain ⟨withValue, rfl⟩ := of_attributeNames h
    rw [List.map_map]
    exact (nodup_map_distinctBy AttributeRule.name _).sublist ((offer_sublist _ _ _).map _)
  | attributeValue tag name start stop =>
    cases pure_eq_ok.mp h
    rw [attributeValues_eq_map, List.map_map]
    exact nodup_map_distinctBy Choice.value _
  | content =>
    cases pure_eq_ok.mp h
    rcases c.entities_cases with hnone | ⟨start, hsome⟩
    · rw [hnone]
      exact List.nodup_nil
    · rw [hsome, labels_reference]
      exact nodup_map_prepend "&" Entity.nodup_current

end Completion

theorem Schema.bundled_hasPlainTags : bundled.HasPlainTags where
  distinct := by decide +kernel
  noSlash := by
    have hheads : bundled.components.all (·.name.toList.head? ≠ some '/') = true := by
      decide +kernel
    intro component hcomponent name heq
    have hhead := List.all_eq_true.mp hheads component hcomponent
    simp [heq] at hhead

/-- Everywhere in any text, under any options, and with any schema whose tags are plain, as those of
the bundled one are, completion answers with items of distinct labels. -/
theorem completions_labels_nodup :
    Schema.bundled.HasPlainTags ∧
      ∀ (text : Text) (s : Schema) (options : CompletionOptions) (cursor : Nat),
        cursor ≤ text.size → s.HasPlainTags →
        ∃ items, (Document.parse text).completions s options cursor = .ok items ∧
          (items.map CompletionItem.label).Nodup := by
  refine ⟨Schema.bundled_hasPlainTags, ?_⟩
  intro text s options cursor hcursor plain
  obtain ⟨items, hitems⟩ := completions_ok hcursor s options
  refine ⟨items, hitems, ?_⟩
  rcases Document.of_completions hitems with ⟨-, rfl⟩ | ⟨e, above, ts, -, -, hoffered⟩
  · exact List.nodup_nil
  · exact Completion.labels_nodup plain hoffered

theorem completions_labels_nodup_openView :
    ∃ items, (Document.parse "<view><".toList).completions Schema.bundled {} 7 = .ok items ∧
      "view" ∈ items.map CompletionItem.label ∧ "/view" ∈ items.map CompletionItem.label ∧
      (items.map CompletionItem.label).Nodup := by
  obtain ⟨items, hitems, hnodup⟩ := completions_labels_nodup.2 "<view><".toList Schema.bundled {} 7
    (by decide) Schema.bundled_hasPlainTags
  have hboth : ((Document.parse "<view><".toList).completions Schema.bundled {} 7).toOption.all
      (fun items => decide ("view" ∈ items.map CompletionItem.label) &&
        decide ("/view" ∈ items.map CompletionItem.label)) = true := by
    decide +kernel
  rw [hitems] at hboth
  obtain ⟨hview, hend⟩ : "view" ∈ items.map CompletionItem.label ∧
      "/view" ∈ items.map CompletionItem.label := by
    simpa only [Except.toOption, Option.all_some, Bool.and_eq_true, decide_eq_true_eq] using hboth
  exact ⟨items, hitems, hview, hend, hnodup⟩

end PageMarkup
