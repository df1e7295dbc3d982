import Mathlib.Data.List.Nodup
import Mathlib.Data.Set.Function
import PageMarkup.Proofs.ClosingEdits
import PageMarkup.Proofs.DocumentOrder
import PageMarkup.Proofs.Hovers
import PageMarkup.Proofs.Messages

/-!
# Repeated attributes

Names are found to be repeated one by one, and each name is reported wherever it stands in the start
tag. `repeats_reported` says what this comes to: one report for each attribute that shares its name with
another one of its element. No other report can be taken for one, as names of elements have no blanks.
-/

namespace PageMarkup

/-- The report of a repeated attribute, by its message. -/
def Diagnostic.isRepeat (x : Diagnostic) : Bool :=
  "Duplicated attribute".toList.isPrefixOf x.message.toList

/-- A place where an attribute is written: the place of its element in document order, and its own place in
the start tag. -/
structure Document.Occurrence (d : Document) where
  element : Fin d.elements.length
  index : Fin (d.elements.get element).attributes.length

namespace Document.Occurrence

variable {d : Document}

def owner (o : d.Occurrence) : Element :=
  d.elements.get o.element

def written (o : d.Occurrence) : Attribute :=
  o.owner.attributes.get o.index

/-- The element has a name, and another one of its attributes has the name of this one. -/
def Repeated (o : d.Occurrence) : Prop :=
  o.owner.tag ≠ none ∧ ∃ j, j ≠ o.index ∧ (o.owner.attributes.get j).name = o.written.name

def report (o : d.Occurrence) : Diagnostic :=
  ⟨.repeatedAttribute o.written.name, o.written.offset, o.written.stop⟩

end Document.Occurrence

-- ---------------------------------------------------------------------------
-- Which messages are such reports
-- ---------------------------------------------------------------------------

theorem Diagnostic.of_isRepeat {x : Diagnostic} (h : x.isRepeat = true) :
    (∃ name, x.defect = .repeatedAttribute name) ∨ ∃ tag, x.defect = .notAllowedInText tag ∧ ' ' ∈ tag.toList :=
  Defect.eq_of_isPrefix (List.isPrefixOf_iff_prefix.mp h)

theorem Diagnostic.not_isRepeat {x : Diagnostic} (hrepeated : ∀ name, x.defect ≠ .repeatedAttribute name)
    (hinText : ∀ tag, x.defect ≠ .notAllowedInText tag) : x.isRepeat ≠ true := by
  intro h
  rcases of_isRepeat h with ⟨name, hdefect⟩ | ⟨tag, hdefect, -⟩
  · exact hrepeated name hdefect
  · exact hinText tag hdefect

theorem Diagnostic.isRepeat_repeatedAttribute (name : String) (start stop : Nat) :
    isRepeat ⟨.repeatedAttribute name, start, stop⟩ = true := by
  have hlead : "Duplicated attribute".toList <+: (Defect.repeatedAttribute name).lead.toList := by
    rw [Defect.lead]
    decide
  exact List.isPrefixOf_iff_prefix.mpr (hlead.trans (Defect.lead_isPrefix_message _))

-- ---------------------------------------------------------------------------
-- One element
-- ---------------------------------------------------------------------------

theorem one_lt_countP_iff {p : α → Bool} {l : List α} (i : Fin l.length) (hi : p (l.get i) = true) :
    1 < l.countP p ↔ ∃ j, j ≠ i ∧ p (l.get j) = true := by
  have hcount : l.countP p = (l.eraseIdx i).countP p + 1 := by
    have hsplit : l = l.take i ++ l.get i :: l.drop (i + 1) := by simp
    calc l.countP p = (l.take i ++ l.get i :: l.drop (i + 1)).countP p := by rw [← hsplit]
      _ = (l.eraseIdx i).countP p + 1 := by
        rw [List.eraseIdx_eq_take_drop_succ, List.countP_append, List.countP_append, List.countP_cons_of_pos hi,
          Nat.add_assoc]
  rw [hcount, Nat.lt_add_left_iff_pos, List.countP_pos_iff]
  constructor
  · rintro ⟨a, ha, hp⟩
    obtain ⟨j, hj, hne, rfl⟩ := List.mem_eraseIdx_iff_getElem.mp ha
    exact ⟨⟨j, hj⟩, fun heq => hne (congrArg Fin.val heq), hp⟩
  · rintro ⟨j, hne, hp⟩
    exact ⟨l.get j, List.mem_eraseIdx_iff_getElem.mpr ⟨j, j.2, fun heq => hne (Fin.ext heq), rfl⟩, hp⟩

namespace Element

variable {e : Element} {x : Diagnostic}

theorem mem_repeatedAttributes {name : String} :
    name ∈ e.repeatedAttributes ↔ 1 < e.attributes.countP (·.name = name) := by
  rw [repeatedAttributes, List.mem_filter, decide_eq_true_iff]
  refine and_iff_right_of_imp fun hcount => ?_
  obtain ⟨a, ha, hname⟩ := List.countP_pos_iff.mp (Nat.zero_lt_of_lt hcount)
  have hmem : name ∈ (e.attributes.map Attribute.name).map id := by
    rw [List.map_id, ← of_decide_eq_true hname]
    exact List.mem_map_of_mem ha
  simpa [attributeNames] using (mem_map_distinctBy id).mpr hmem

theorem nodup_repeatedAttributes : e.repeatedAttributes.Nodup := by
  have hnames := nodup_map_distinctBy id (e.attributes.map Attribute.name)
  rw [List.map_id] at hnames
  exact hnames.filter _

/-- Exactly the attributes are reported that share their name with another one. -/
theorem mem_checkRepeats : x ∈ e.checkRepeats ↔
    ∃ i : Fin e.attributes.length, (∃ j, j ≠ i ∧ (e.attributes.get j).name = (e.attributes.get i).name) ∧
      x = ⟨.repeatedAttribute (e.attributes.get i).name, (e.attributes.get i).offset, (e.attributes.get i).stop⟩ := by
  have hrepeated (i : Fin e.attributes.length) : (e.attributes.get i).name ∈ e.repeatedAttributes ↔
      ∃ j, j ≠ i ∧ (e.attributes.get j).name = (e.attributes.get i).name := by
    simpa using mem_repeatedAttributes.trans (one_lt_countP_iff i (decide_eq_true rfl))
  rw [checkRepeats, List.mem_flatMap]
  constructor
  · rintro ⟨name, hname, hx⟩
    obtain ⟨offset, hoffset, rfl⟩ := List.mem_map.mp hx
    obtain ⟨a, ha, rfl⟩ := List.mem_map.mp hoffset
    obtain ⟨hmem, heq⟩ := List.mem_filter.mp ha
    obtain ⟨i, rfl⟩ := List.mem_iff_get.mp hmem
    obtain rfl := of_decide_eq_true heq
    exact ⟨i, (hrepeated i).mp hname, rfl⟩
  · rintro ⟨i, hother, rfl⟩
    have hmem : e.attributes.get i ∈ e.attributes.filter (·.name = (e.attributes.get i).name) :=
      List.mem_filter.mpr ⟨List.get_mem _ i, decide_eq_true rfl⟩
    exact ⟨_, (hrepeated i).mpr hother, List.mem_map.mpr ⟨_, List.mem_map_of_mem hmem, rfl⟩⟩

theorem nodup_checkRepeats (h : (e.attributes.map Attribute.offset).Nodup) : e.checkRepeats.Nodup := by
  refine List.nodup_flatMap.mpr ⟨fun name _ => ?_, nodup_repeatedAttributes.imp fun hne => ?_⟩
  · refine List.Nodup.map (fun offset offset' heq => congrArg Diagnostic.start heq) ?_
    exact h.sublist (List.filter_sublist.map Attribute.offset)
  · intro x hx hx'
    obtain ⟨offset, -, rfl⟩ := List.mem_map.mp hx
    obtain ⟨offset', -, heq⟩ := List.mem_map.mp hx'
    exact hne (Defect.repeatedAttribute.inj (congrArg Diagnostic.defect heq)).symm

-- ---------------------------------------------------------------------------
-- Reports among all defects of an element
-- ---------------------------------------------------------------------------

theorem not_isRepeat_of_mem_checkContent (h : x ∈ e.checkContent tag) : x.isRepeat ≠ true := by
  obtain ⟨-, -, rfl⟩ := mem_checkContent.mp h
  exact Diagnostic.not_isRepeat (by simp) (by simp)

theorem not_isRepeat_of_mem_checkTextChildren
    (hnames : ∀ c ∈ e.children, ∀ tag, c.tag = some tag → ' ' ∉ tag.toList)
    (h : x ∈ e.checkTextChildren tag) : x.isRepeat ≠ true := by
  intro hrepeat
  rw [checkTextChildren] at h
  split at h
  · obtain ⟨c, hc, h⟩ := List.mem_filterMap.mp h
    obtain ⟨name, hname, rfl⟩ := Option.map_eq_some_iff.mp h
    obtain ⟨htag, -⟩ := Option.filter_eq_some_iff.mp hname
    rcases Diagnostic.of_isRepeat hrepeat with ⟨_, hdefect⟩ | ⟨_, hdefect, hblank⟩
    · cases hdefect
    · cases hdefect
      exact hnames c hc name htag hblank
  · cases h

theorem not_isRepeat_of_mem_checkSource (h : x ∈ e.checkSource tag dir) : x.isRepeat ≠ true := by
  unfold checkSource at h
  split at h
  · split at h
    · split at h
      · obtain rfl := List.mem_singleton.mp h
        exact Diagnostic.not_isRepeat (by simp) (by simp)
      · cases h
    · cases h
  · cases h

theorem not_isRepeat_of_mem_checkAttributes (h : x ∈ e.checkAttributes s tag) : x.isRepeat ≠ true := by
  rw [checkAttributes] at h
  split at h
  · cases h
  · obtain ⟨a, -, h⟩ := List.mem_flatMap.mp h
    rcases Attribute.of_mem_check h with hblames | ⟨-, rfl⟩
    · cases hblames <;> exact Diagnostic.not_isRepeat (by simp) (by simp)
    · exact Diagnostic.not_isRepeat (by simp) (by simp)

def repeats (e : Element) : List Diagnostic :=
  if e.tag = none then [] else e.checkRepeats

theorem mem_repeats : x ∈ e.repeats ↔ e.tag ≠ none ∧ x ∈ e.checkRepeats := by
  rw [repeats]
  split <;> simp_all

theorem nodup_repeats (h : (e.attributes.map Attribute.offset).Nodup) : e.repeats.Nodup := by
  rw [repeats]
  split
  · exact List.nodup_nil
  · exact nodup_checkRepeats h

theorem filter_check (hnames : ∀ c ∈ e.children, ∀ tag, c.tag = some tag → ' ' ∉ tag.toList) (s : Schema)
    (dir : Option Path) : (e.check s dir).filter Diagnostic.isRepeat = e.repeats := by
  rw [check, repeats]
  cases htag : e.tag with
  | none => rfl
  | some tag =>
    have hrepeats : e.checkRepeats.filter Diagnostic.isRepeat = e.checkRepeats :=
      List.filter_eq_self.mpr fun x hx => by
        obtain ⟨i, -, rfl⟩ := mem_checkRepeats.mp hx
        exact Diagnostic.isRepeat_repeatedAttribute ..
    simp only [List.filter_append, hrepeats,
      List.filter_eq_nil_iff.mpr fun x => not_isRepeat_of_mem_checkContent,
      List.filter_eq_nil_iff.mpr fun x => not_isRepeat_of_mem_checkTextChildren hnames,
      List.filter_eq_nil_iff.mpr fun x => not_isRepeat_of_mem_checkSource,
      List.filter_eq_nil_iff.mpr fun x => not_isRepeat_of_mem_checkAttributes]
    simp

end Element

-- ---------------------------------------------------------------------------
-- Documents
-- ---------------------------------------------------------------------------

/-- Whether a file is there does not decide about an attribute. -/
theorem Diagnostic.stands_of_isRepeat {x : Diagnostic} (h : x.isRepeat = true) (has : Path → Bool) :
    x.stands has = true := by
  rcases of_isRepeat h with ⟨_, hdefect⟩ | ⟨_, hdefect, -⟩ <;> simp [stands, file?, hdefect]

theorem Document.filter_diagnostics {d : Document}
    (hnames : ∀ e ∈ d.elements, ∀ c ∈ e.children, ∀ tag, c.tag = some tag → ' ' ∉ tag.toList) (s : Schema)
    (path : Option Path) (has : Path → Bool) :
    (d.diagnostics s path has).filter Diagnostic.isRepeat = d.elements.flatMap Element.repeats := by
  have hstands : ∀ x ∈ d.suspicions s path, (x.isRepeat && x.stands has) = x.isRepeat := by
    intro x _
    cases hrepeat : x.isRepeat with
    | false => rfl
    | true => exact x.stands_of_isRepeat hrepeat has
  have hproblems : (d.problems.map fun p => (⟨.problem p.kind, p.start, p.stop⟩ : Diagnostic)).filter
      Diagnostic.isRepeat = [] := by
    refine List.filter_eq_nil_iff.mpr fun x hx => ?_
    obtain ⟨p, -, rfl⟩ := List.mem_map.mp hx
    exact Diagnostic.not_isRepeat (by simp) (by simp)
  rw [diagnostics, List.filter_filter, List.filter_congr hstands, suspicions, List.filter_append, hproblems,
    List.nil_append, List.filter_flatMap]
  exact List.flatMap_congr fun e he => Element.filter_check (hnames e he) s _

section
variable {text : Text} {e c : Element}

theorem not_mem_blank_of_child (he : e ∈ (Document.parse text).elements) (hc : c ∈ e.children)
    (htag : c.tag = some tag) : ' ' ∉ tag.toList := by
  obtain ⟨d, ds, hname, hd, hds⟩ := writes_of_mem_elements (Element.child_mem_preorderAll _ he hc) htag
  rw [hname]
  intro hblank
  rcases List.mem_cons.mp hblank with rfl | hblank
  · cases hd
  · cases hds _ hblank

theorem writtenAttributes_map_offset (start : Nat) (ts : List Placed) :
    (writtenAttributes start ts).map (·.2.offset) = (ts.filter (·.kind = .attributeName)).map (·.offset) := by
  induction ts generalizing start with
  | nil => rfl
  | cons p ts ih =>
    rw [writtenAttributes]
    split
    · next hkind => rw [ih, List.filter_cons_of_neg (by simp [hkind])]
    · next hkind => rw [List.map_cons, ih, List.filter_cons_of_pos (by simp [hkind]), List.map_cons]
    · next hkind => rw [ih, List.filter_cons_of_neg (by simpa using hkind)]

theorem attributes_pairwise_offset (text : Text) :
    ((Document.parse text).elements.flatMap (·.attributes)).Pairwise fun a b => a.offset < b.offset := by
  have hoffsets : ((Document.parse text).elements.flatMap (·.attributes)).map Attribute.offset =
      ((tokens text).filter (·.kind = .attributeName)).map (·.offset) := by
    rw [← writtenAttributes_map_offset 0, ← flatMap_attributes_eq, List.map_flatMap, List.map_flatMap]
    simp [Function.comp_def]
  have h : (((tokens text).filter (·.kind = .attributeName)).map (·.offset)).Pairwise (· < ·) :=
    List.pairwise_map.mpr ((tokens_pairwise text).filter _)
  rw [← hoffsets] at h
  exact List.pairwise_map.mp h

end

namespace Document.Occurrence

theorem owner_mem {d : Document} (o : d.Occurrence) : o.owner ∈ d.elements :=
  List.get_mem _ _

theorem written_mem {d : Document} (o : d.Occurrence) : o.written ∈ o.owner.attributes :=
  List.get_mem _ _

theorem offset_injective (text : Text) :
    Function.Injective fun o : (Document.parse text).Occurrence => o.written.offset := by
  obtain ⟨hinside, hacross⟩ := List.pairwise_flatMap.mp (attributes_pairwise_offset text)
  have hearlier {o o' : (Document.parse text).Occurrence} (hlt : o.element < o'.element) :
      o.written.offset < o'.written.offset :=
    List.pairwise_iff_get.mp hacross o.element o'.element hlt _ o.written_mem _ o'.written_mem
  rintro ⟨k, i⟩ ⟨k', i'⟩ heq
  rcases Nat.lt_trichotomy k k' with hlt | hsame | hlt
  · exact absurd heq (Nat.ne_of_lt (hearlier hlt))
  · obtain rfl := Fin.ext hsame
    have hordered := List.pairwise_iff_get.mp (hinside _ (List.get_mem _ k))
    rcases Nat.lt_trichotomy i i' with hlt | hsame | hlt
    · exact absurd heq (Nat.ne_of_lt (hordered i i' hlt))
    · rw [Fin.ext hsame]
    · exact absurd heq.symm (Nat.ne_of_lt (hordered i' i hlt))
  · exact absurd heq.symm (Nat.ne_of_lt (hearlier hlt))

theorem mem_repeats_iff {d : Document} {x : Diagnostic} :
    x ∈ d.elements.flatMap Element.repeats ↔ ∃ o : d.Occurrence, o.Repeated ∧ o.report = x := by
  rw [List.mem_flatMap]
  constructor
  · rintro ⟨e, he, hx⟩
    obtain ⟨k, rfl⟩ := List.mem_iff_get.mp he
    obtain ⟨htag, hx⟩ := Element.mem_repeats.mp hx
    obtain ⟨i, hother, rfl⟩ := Element.mem_checkRepeats.mp hx
    exact ⟨⟨k, i⟩, ⟨htag, hother⟩, rfl⟩
  · rintro ⟨o, ⟨htag, hother⟩, rfl⟩
    exact ⟨o.owner, o.owner_mem,
      Element.mem_repeats.mpr ⟨htag, Element.mem_checkRepeats.mpr ⟨o.index, hother, rfl⟩⟩⟩

end Document.Occurrence

theorem nodup_flatMap_repeats (text : Text) : ((Document.parse text).elements.flatMap Element.repeats).Nodup := by
  obtain ⟨hinside, hacross⟩ := List.pairwise_flatMap.mp (attributes_pairwise_offset text)
  have hplace {e : Element} {x : Diagnostic} (hx : x ∈ e.repeats) : ∃ a ∈ e.attributes, x.start = a.offset := by
    obtain ⟨i, -, rfl⟩ := Element.mem_checkRepeats.mp (Element.mem_repeats.mp hx).2
    exact ⟨_, List.get_mem _ i, rfl⟩
  refine List.nodup_flatMap.mpr ⟨fun e he => ?_, hacross.imp fun hlt x hx hx' => ?_⟩
  · exact Element.nodup_repeats (List.pairwise_map.mpr ((hinside e he).imp Nat.ne_of_lt))
  · obtain ⟨a, ha, hstart⟩ := hplace hx
    obtain ⟨b, hb, hstart'⟩ := hplace hx'
    exact Nat.ne_of_lt (hlt a ha b hb) (hstart.symm.trans hstart')

/-- Each attribute that shares its name with another one of its element is reported once, and nothing else
is reported as repeated. The report has the name, and its range is where the name stands in the text. No
attribute of an element is reported if their names differ. -/
theorem repeats_reported (text : Text) (s : Schema) (path : Option Path) (has : Path → Bool) :
    let d := Document.parse text
    let reports := (d.diagnostics s path has).filter Diagnostic.isRepeat
    reports.Nodup ∧
    Set.BijOn Document.Occurrence.report {o : d.Occurrence | o.Repeated} {x | x ∈ reports} ∧
    (∀ o : d.Occurrence,
      o.report.message = "Duplicated attribute \"" ++ o.written.name ++ "\"" ∧
      o.report.range text = ⟨text.positionAt o.written.offset,
        text.positionAt (o.written.offset + Text.size o.written.name.toList)⟩ ∧
      text.slice? o.written.offset (o.written.offset + Text.size o.written.name.toList) =
        some o.written.name.toList) ∧
    ∀ e ∈ d.elements, (e.attributes.map Attribute.name).Nodup →
      ∀ a ∈ e.attributes, ∀ x ∈ reports, x.start ≠ a.offset := by
  intro d reports
  have hreports : reports = d.elements.flatMap Element.repeats :=
    Document.filter_diagnostics (fun e he c hc tag => not_mem_blank_of_child he hc) s path has
  rw [hreports]
  refine ⟨nodup_flatMap_repeats text, ⟨fun o ho => ?_, fun o _ o' _ heq => ?_, fun x hx => ?_⟩,
    fun o => ⟨rfl, rfl, slice?_name o.owner_mem o.written_mem⟩, ?_⟩
  · exact Document.Occurrence.mem_repeats_iff.mpr ⟨o, ho, rfl⟩
  · exact Document.Occurrence.offset_injective text (congrArg Diagnostic.start heq)
  · exact Document.Occurrence.mem_repeats_iff.mp hx
  · intro e he hnames a ha x hx heq
    obtain ⟨o, ⟨-, j, hne, hname⟩, rfl⟩ := Document.Occurrence.mem_repeats_iff.mp hx
    obtain ⟨k, rfl⟩ := List.mem_iff_get.mp he
    obtain ⟨i, rfl⟩ := List.mem_iff_get.mp ha
    obtain rfl : o = ⟨k, i⟩ := Document.Occurrence.offset_injective text heq
    have hsame := List.inj_on_of_nodup_map hnames (List.get_mem _ j) (List.get_mem _ i) hname
    exact hne (List.nodup_iff_injective_get.mp hnames.of_map hsame)

def nestedPage : Text :=
  "<p x y x><i x>".toList

theorem repeats_reported_nestedPage :
    ((Document.parse nestedPage).diagnostics ⟨[]⟩ none fun _ => false).filter Diagnostic.isRepeat =
      [⟨.repeatedAttribute "x", 3, 4⟩, ⟨.repeatedAttribute "x", 7, 8⟩] ∧
    (∃ o : (Document.parse nestedPage).Occurrence, o.Repeated ∧ o.report = ⟨.repeatedAttribute "x", 7, 8⟩) ∧
    ∃ e ∈ (Document.parse nestedPage).elements, e.attributes = [{ name := "x", offset := 12 }] ∧
      (e.attributes.map Attribute.name).Nodup ∧
      ∀ a ∈ e.attributes, ∀ x ∈ ((Document.parse nestedPage).diagnostics ⟨[]⟩ none fun _ => false).filter
        Diagnostic.isRepeat, x.start ≠ a.offset := by
  have hreports : ((Document.parse nestedPage).diagnostics ⟨[]⟩ none fun _ => false).filter Diagnostic.isRepeat =
      [⟨.repeatedAttribute "x", 3, 4⟩, ⟨.repeatedAttribute "x", 7, 8⟩] := by decide +kernel
  obtain ⟨-, hbij, -, hnone⟩ := repeats_reported nestedPage ⟨[]⟩ none fun _ => false
  refine ⟨hreports, hbij.surjOn ?_, ?_⟩
  · rw [Set.mem_ofPred_eq, hreports]
    exact List.mem_cons_of_mem _ List.mem_cons_self
  · have hinner : (Document.parse nestedPage).elements[1]?.map (·.attributes) =
        some [{ name := "x", offset := 12 }] := by decide +kernel
    obtain ⟨e, he, hattributes⟩ := Option.map_eq_some_iff.mp hinner
    have hnames : (e.attributes.map Attribute.name).Nodup := by
      rw [hattributes]
      exact List.nodup_singleton _
    exact ⟨e, List.mem_of_getElem? he, hattributes, hnames, hnone e (List.mem_of_getElem? he) hnames⟩

end PageMarkup
