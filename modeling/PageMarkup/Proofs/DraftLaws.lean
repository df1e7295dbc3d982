import PageMarkup.Document.Draft

/-!
# Laws of drafts

Everything below a list of elements, in document order, and what each operation on a draft does to
the element that is being read and to those around it, whatever it reports.
-/

namespace PageMarkup

namespace Element

theorem preorder_eq (e : Element) : e.preorder = e :: preorderAll e.children := by
  cases e
  rw [preorder]

theorem preorderAll_append (es fs : List Element) :
    preorderAll (es ++ fs) = preorderAll es ++ preorderAll fs := by
  induction es with
  | nil => rfl
  | cons e es ih => rw [List.cons_append, preorderAll, preorderAll, ih, List.append_assoc]

theorem preorderAll_singleton (e : Element) : preorderAll [e] = e :: preorderAll e.children := by
  rw [preorderAll, preorderAll, List.append_nil, preorder_eq]

end Element

theorem map_setLastValue (f : Attribute → α) (hf : ∀ a v, f { a with value := v } = f a)
    (value : String) (attributes : List Attribute) :
    (setLastValue value attributes).map f = attributes.map f := by
  fun_induction setLastValue value attributes with
  | case1 => rfl
  | case2 a => rw [List.map_singleton, List.map_singleton, hf]
  | case3 a rest _ ih => rw [List.map_cons, List.map_cons, ih]

theorem setLastValue_append (as : List Attribute) (a : Attribute) (value : String) :
    setLastValue value (as ++ [a]) = as ++ [{ a with value := some value }] := by
  induction as with
  | nil => rfl
  | cons b as ih =>
    obtain ⟨c, cs, hcs⟩ : ∃ c cs, as ++ [a] = c :: cs := List.exists_cons_of_ne_nil (by simp)
    rw [List.cons_append, List.cons_append, ← ih, hcs, setLastValue]
    simp

-- ---------------------------------------------------------------------------
-- Reports leave the tree alone
-- ---------------------------------------------------------------------------

namespace Draft

/-- Two drafts of the same tree, in which the same end tag is being read. -/
structure SameTree (d d' : Draft) : Prop where
  current : d.current = d'.current
  above : d.above = d'.above
  endTagOpen : d.endTagOpen = d'.endTagOpen

theorem expect_sameTree (d : Draft) (ok : Bool) (kind : ProblemKind) (start stop : Nat) :
    (d.expect ok kind start stop).SameTree d := by
  unfold expect
  split <;> exact ⟨rfl, rfl, rfl⟩

theorem note_sameTree (d : Draft) (p : Placed) : (d.note p).SameTree d := by
  unfold note
  split <;> exact ⟨rfl, rfl, rfl⟩

theorem settle_sameTree (d : Draft) (name : String) (start stop : Nat) :
    (d.settle name start stop).SameTree d := by
  unfold settle
  split
  · exact ⟨rfl, rfl, rfl⟩
  · next tag rest _ =>
    obtain ⟨hcurrent, habove, hopen⟩ := expect_sameTree { d with openTags := rest } (tag.name = name)
      (.endTagMissing tag.name) tag.start tag.stop
    exact ⟨hcurrent, habove, hopen⟩

theorem nameElement_sameTree (d : Draft) (name : Text) (start stop : Nat) :
    (d.nameElement name start stop).SameTree
      { d with current := { d.current with tag := some (String.ofList name) } } := by
  obtain ⟨hcurrent, habove, hopen⟩ := expect_sameTree
    { d with
      current := { d.current with tag := some (String.ofList name) }
      openTags := ⟨(String.ofList name).toLower, start, stop⟩ :: d.openTags }
    (isValidTagName name) .tagNameCharacters start stop
  exact ⟨hcurrent, habove, hopen⟩

theorem addAttribute_sameTree (d : Draft) (name : Text) (start stop : Nat) :
    (d.addAttribute name start stop).SameTree
      { d with current := { d.current with attributes := d.current.attributes ++
        [{ name := String.ofList name, offset := start }] } } := by
  obtain ⟨hcurrent, habove, hopen⟩ := expect_sameTree d (isValidAttributeName name)
    (.attributeName (String.ofList name)) start (stop - 1)
  exact ⟨by rw [addAttribute, hcurrent], habove, hopen⟩

theorem addValue_sameTree (d : Draft) (value : Text) (start stop : Nat) :
    (d.addValue value start stop).SameTree
      { d with current := { d.current with
        attributes := setLastValue (String.ofList (unquote value)) d.current.attributes } } := by
  obtain ⟨hcurrent, habove, hopen⟩ := expect_sameTree d (isDoubleQuoted value) .valueNotQuoted
    start (stop - 1)
  exact ⟨by rw [addValue, hcurrent], habove, hopen⟩

theorem addText_cases (d : Draft) (content : Text) :
    d.addText content = d ∨
      ∃ runs, d.addText content = { d with current := { d.current with text := runs } } := by
  unfold addText
  split
  · exact .inl rfl
  · exact .inr ⟨_, rfl⟩

theorem problems_leave (d : Draft) (f : Element → Element) : (d.leave f).problems = d.problems := by
  unfold leave
  split <;> rfl

theorem openTags_leave (d : Draft) (f : Element → Element) : (d.leave f).openTags = d.openTags := by
  unfold leave
  split <;> rfl

end Draft

end PageMarkup
