/-!
# First of each key

`distinctBy key` keeps the first item of every key and the order of those it keeps.
-/

namespace PageMarkup

variable {α κ : Type} [DecidableEq κ] (key : α → κ)

def distinctBy : List α → List α
  | [] => []
  | a :: rest => a :: (distinctBy rest).filter (key · ≠ key a)

theorem distinctBy_sublist (items : List α) : (distinctBy key items).Sublist items := by
  induction items with
  | nil => exact .slnil
  | cons a rest ih => exact (List.filter_sublist.trans ih).cons_cons a

theorem nodup_map_distinctBy (items : List α) : ((distinctBy key items).map key).Nodup := by
  induction items with
  | nil => exact List.nodup_nil
  | cons a rest ih =>
    refine List.nodup_cons.mpr ⟨?_, ih.sublist (List.filter_sublist.map key)⟩
    intro h
    obtain ⟨b, hb, heq⟩ := List.mem_map.mp h
    simp [heq] at hb

theorem mem_map_distinctBy {k : κ} {items : List α} :
    k ∈ (distinctBy key items).map key ↔ k ∈ items.map key := by
  induction items with
  | nil => rfl
  | cons a rest ih =>
    simp only [distinctBy, List.map_cons, List.mem_cons, ← ih]
    by_cases hk : k = key a
    · simp [hk]
    · simp only [hk, false_or, List.mem_map, List.mem_filter]
      constructor
      · rintro ⟨b, ⟨hb, -⟩, rfl⟩
        exact ⟨b, hb, rfl⟩
      · rintro ⟨b, hb, rfl⟩
        exact ⟨b, ⟨hb, by simpa using hk⟩, rfl⟩

theorem pairwise_idxOf_distinctBy (items : List α) :
    ((distinctBy key items).map key).Pairwise fun k l =>
      (items.map key).idxOf k < (items.map key).idxOf l := by
  induction items with
  | nil => exact .nil
  | cons a rest ih =>
    have hlater {k : κ} (hk : k ∈ ((distinctBy key rest).filter (key · ≠ key a)).map key) :
        ((a :: rest).map key).idxOf k = (rest.map key).idxOf k + 1 := by
      obtain ⟨b, hb, rfl⟩ := List.mem_map.mp hk
      have hne : key b ≠ key a := by simpa using (List.mem_filter.mp hb).2
      simp [List.idxOf_cons, beq_false_of_ne hne.symm]
    refine List.pairwise_cons.mpr ⟨fun k hk => ?_, ?_⟩
    · rw [hlater hk, List.map_cons, List.idxOf_cons_self]
      exact Nat.succ_pos _
    · refine (ih.sublist (List.filter_sublist.map key)).imp_of_mem fun hk hl hlt => ?_
      rw [hlater hk, hlater hl]
      exact Nat.succ_lt_succ hlt

/-- Before an item are the keys whose first item comes before the first of its key. -/
theorem mem_map_front_distinctBy {items front back : List α} {a : α}
    (h : distinctBy key items = front ++ a :: back) {k : κ} :
    k ∈ front.map key ↔
      k ∈ items.map key ∧ (items.map key).idxOf k < (items.map key).idxOf (key a) := by
  have hmem : k ∈ items.map key ↔ k ∈ front.map key ∨ k = key a ∨ k ∈ back.map key := by
    rw [← mem_map_distinctBy, h, List.map_append, List.map_cons, List.mem_append, List.mem_cons]
  have hordered := pairwise_idxOf_distinctBy key items
  rw [h, List.map_append, List.map_cons] at hordered
  obtain ⟨-, hback, hfront⟩ := List.pairwise_append.mp hordered
  rw [hmem]
  constructor
  · intro hk
    exact ⟨.inl hk, hfront k hk _ List.mem_cons_self⟩
  · rintro ⟨hk | rfl | hk, hlt⟩
    · exact hk
    · exact absurd hlt (Nat.lt_irrefl _)
    · exact absurd ((List.pairwise_cons.mp hback).1 k hk) (Nat.lt_asymm hlt)

theorem find?_distinctBy (k : κ) (items : List α) :
    (distinctBy key items).find? (key · = k) = items.find? (key · = k) := by
  induction items with
  | nil => rfl
  | cons a rest ih =>
    by_cases h : key a = k
    · simp [distinctBy, h]
    · rw [distinctBy, List.find?_cons_of_neg (by simpa using h),
        List.find?_cons_of_neg (by simpa using h), ← ih, List.find?_filter]
      congr 1
      funext b
      by_cases hb : key b = k
      · simp [hb, Ne.symm h]
      · simp [hb]

end PageMarkup
