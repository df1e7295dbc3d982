import PageMarkup.Diagnostic.Check
import PageMarkup.Document.Draft
import PageMarkup.Path.Tree

/-!
# Where a normalized path leads

`normalize` drops a `..` that has nothing left to go up from. At the root that is right: the root is its
own parent. A path that is read from the working directory loses a step up, and leads to another place
than the path it was made from. `source_located_iff` says that this is the only way.
-/

namespace PageMarkup

def PathPart.isName : PathPart → Bool
  | .name _ => true
  | _ => false

namespace Path

/-- No step of the path leads above where it begins: up to any part of it there are at least as many
names as `..`. -/
def StaysBelow (path : Path) : Prop :=
  ∀ n, (path.take n).count .up ≤ (path.take n).countP PathPart.isName

/-- How many `..` have nothing left to go up from, after so many names. -/
def surplus : Nat → Path → Nat
  | _, [] => 0
  | 0, .up :: rest => surplus 0 rest + 1
  | depth + 1, .up :: rest => surplus depth rest
  | depth, .name _ :: rest => surplus (depth + 1) rest
  | depth, _ :: rest => surplus depth rest

structure IsEntry (value : String) : Prop where
  ne_empty : value ≠ ""
  slash : '/' ∉ value.toList
  part : part value = .name value

-- ---------------------------------------------------------------------------
-- Paths without a root
-- ---------------------------------------------------------------------------

section
variable {path : Path}

theorem locate_cons (location : List String) (part : PathPart) (path : Path) :
    locate location (part :: path) = locate (step location part) path :=
  rfl

/-- What lies below the location does not depend on it, and the surplus goes up from it. -/
theorem locate_append (h : .root ∉ path) (names location : List String) :
    locate (names ++ location) path = locate names path ++ location.drop (surplus names.length path) := by
  induction path generalizing names location with
  | nil => simp [locate, surplus]
  | cons part rest ih =>
    obtain ⟨hpart, hrest⟩ : part ≠ .root ∧ .root ∉ rest := by simpa [eq_comm] using h
    simp only [locate_cons]
    cases part with
    | root => exact absurd rfl hpart
    | here => exact ih hrest names location
    | name value => exact ih hrest (value :: names) location
    | up =>
      cases names with
      | nil => simpa [surplus, step] using ih hrest [] location.tail
      | cons value names => simpa [surplus, step] using ih hrest names location

/-- Folding follows the path from what it began with, where that is not a name. -/
theorem foldl_fold (h : .root ∉ path) (names : List String) (base : Path)
    (hbase : ∀ value, base.head? ≠ some (.name value)) :
    path.foldl fold (names.map .name ++ base) = (path.locate names).map .name ++ base := by
  induction path generalizing names with
  | nil => rfl
  | cons part rest ih =>
    obtain ⟨hpart, hrest⟩ : part ≠ .root ∧ .root ∉ rest := by simpa [eq_comm] using h
    rw [List.foldl_cons, locate_cons, ← ih hrest]
    congr 1
    cases part with
    | root => exact absurd rfl hpart
    | here => rfl
    | name value => rfl
    | up =>
      cases names with
      | cons value names => rfl
      | nil =>
        cases base with
        | nil => rfl
        | cons first base =>
          cases first with
          | name value => exact absurd rfl (hbase value)
          | _ => rfl

theorem normalize_of_relative (h : .root ∉ path) :
    path.normalize = ((path.locate []).map .name).reverse := by
  simpa [normalize] using foldl_fold h [] [] (by simp)

theorem normalize_root (h : .root ∉ path) :
    normalize (.root :: path) = .root :: ((path.locate []).map .name).reverse := by
  simpa [normalize, fold] using foldl_fold h [] [.root] (by simp)

theorem locate_reverse_names (location names : List String) :
    locate location (names.map .name).reverse = names ++ location := by
  simp [locate, List.foldl_reverse, List.foldr_map, step]

theorem surplus_eq_zero_iff (h : .root ∉ path) (depth : Nat) :
    surplus depth path = 0 ↔
      ∀ n, (path.take n).count .up ≤ depth + (path.take n).countP PathPart.isName := by
  induction path generalizing depth with
  | nil => simp [surplus]
  | cons part rest ih =>
    obtain ⟨hpart, hrest⟩ : part ≠ .root ∧ .root ∉ rest := by simpa [eq_comm] using h
    have hsplit (p : Path → Prop) (hnil : p []) :
        (∀ n, p ((part :: rest).take n)) ↔ ∀ n, p (part :: rest.take n) := by
      refine ⟨fun hall n => hall (n + 1), fun hall n => ?_⟩
      cases n with
      | zero => exact hnil
      | succ n => exact hall n
    rw [hsplit (fun front => front.count .up ≤ depth + front.countP PathPart.isName) (Nat.zero_le _)]
    cases part with
    | root => exact absurd rfl hpart
    | here =>
      simp only [surplus, ih hrest]
      refine forall_congr' fun n => ?_
      rw [List.count_cons_of_ne (by simp), List.countP_cons_of_neg (by simp [PathPart.isName])]
    | name value =>
      simp only [surplus, ih hrest]
      refine forall_congr' fun n => ?_
      rw [List.count_cons_of_ne (by simp), List.countP_cons_of_pos (by simp [PathPart.isName])]
      omega
    | up =>
      cases depth with
      | zero =>
        refine ⟨by simp [surplus], fun hall => ?_⟩
        exact absurd (hall 0) (by simp [PathPart.isName])
      | succ depth =>
        simp only [surplus, ih hrest]
        refine forall_congr' fun n => ?_
        rw [List.count_cons_self, List.countP_cons_of_neg (by simp [PathPart.isName])]
        omega

theorem mem_locate {value : String} {names : List String} (h : value ∈ path.locate names) :
    value ∈ names ∨ .name value ∈ path := by
  induction path generalizing names with
  | nil => exact .inl h
  | cons part rest ih =>
    rcases ih h with hstep | hrest
    · cases part with
      | root => cases hstep
      | here => exact .inl hstep
      | up => exact .inl (List.mem_of_mem_tail hstep)
      | name first =>
        rcases List.mem_cons.mp hstep with rfl | hnames
        · exact .inr List.mem_cons_self
        · exact .inl hnames
    · exact .inr (List.mem_cons_of_mem _ hrest)

end

-- ---------------------------------------------------------------------------
-- Paths that are read
-- ---------------------------------------------------------------------------

/-- Only the first part may be the root, and the names can be read again. -/
structure Readable (path : Path) : Prop where
  root : .root ∉ path.tail
  names : ∀ value, .name value ∈ path → IsEntry value

theorem slash_notMem_of_mem_splitOn {cs piece : List Char} (h : piece ∈ cs.splitOn '/') : '/' ∉ piece := by
  induction cs generalizing piece with
  | nil => simp_all
  | cons c cs ih =>
    rw [List.splitOn_cons_eq_if_modifyHead] at h
    split at h
    · rcases List.mem_cons.mp h with rfl | h
      · simp
      · exact ih h
    · next hc =>
      have hne : c ≠ '/' := by simpa using hc
      cases hrest : cs.splitOn '/' with
      | nil => exact absurd hrest (List.splitOn_ne_nil _ _)
      | cons first pieces =>
        rw [hrest] at h ih
        rcases List.mem_cons.mp h with rfl | h
        · exact List.not_mem_cons_of_ne_of_not_mem hne.symm (ih List.mem_cons_self)
        · exact ih (List.mem_cons_of_mem _ h)

theorem mem_of_mem_tidy {path : Path} {part : PathPart} (h : part ∈ tidy path) : part ∈ path := by
  cases path with
  | nil => exact h
  | cons first rest =>
    rcases List.mem_cons.mp h with rfl | h
    · exact List.mem_cons_self
    · exact List.mem_cons_of_mem _ (List.mem_filter.mp h).1

theorem tail_tidy (path : Path) : (tidy path).tail = path.tail.filter (· ≠ .here) := by
  cases path <;> rfl

theorem part_ne_root (value : String) : part value ≠ .root := by
  rw [part]
  split
  · simp
  · split <;> simp

theorem part_eq_name {value value' : String} (h : part value = .name value') : value = value' := by
  rw [part] at h
  split at h
  · cases h
  · split at h
    · cases h
    · exact PathPart.name.inj h

theorem ofString_readable (written : String) : (ofString written).Readable where
  root := by
    have hnames (pieces : List (List Char)) (last : Prop) [Decidable last] : .root ∉
        pieces.map (fun cs => part (String.ofList cs)) ++ (if last then [.here] else []) := by
      intro h
      rcases List.mem_append.mp h with h | h
      · obtain ⟨piece, -, hpart⟩ := List.mem_map.mp h
        exact part_ne_root _ hpart
      · split at h <;> simp at h
    rw [ofString, tail_tidy]
    intro h
    replace h := (List.mem_filter.mp h).1
    simp only [steps, List.append_assoc] at h
    split at h
    · exact hnames _ _ h
    · exact hnames _ _ (List.mem_of_mem_tail h)
  names value h := by
    replace h := mem_of_mem_tidy h
    have hpiece : .name value ∈ ((written.toList.splitOn '/').filter (· ≠ [])).map
        fun cs => part (String.ofList cs) := by
      simp only [steps, List.mem_append] at h
      rcases h with (h | h) | h
      · split at h <;> simp at h
      · exact h
      · split at h <;> simp at h
    obtain ⟨piece, hmem, hpart⟩ := List.mem_map.mp hpiece
    obtain ⟨hmem, hne⟩ := List.mem_filter.mp hmem
    obtain rfl := part_eq_name hpart
    refine ⟨?_, ?_, hpart⟩
    · simpa using hne
    · rw [String.toList_ofList]
      exact slash_notMem_of_mem_splitOn hmem

theorem Readable.parent {path dir : Path} (h : path.Readable) (hdir : path.parent? = some dir) :
    dir.Readable := by
  obtain rfl : path.dropLast = dir := by
    rw [parent?] at hdir
    split at hdir
    · cases hdir
    · cases hdir
    · exact Option.some.inj hdir
  refine ⟨fun hroot => h.root ?_, fun value hmem => h.names value ((List.dropLast_sublist _).subset hmem)⟩
  rw [List.tail_dropLast] at hroot
  exact (List.dropLast_sublist _).subset hroot

theorem root_notMem_of_relative {path : Path} (h : path.Readable) (hrelative : path.isAbsolute = false) :
    .root ∉ path := by
  cases path with
  | nil => simp
  | cons first rest =>
    cases first with
    | root => cases hrelative
    | _ => simpa using h.root

theorem Readable.join {dir path : Path} (hdir : dir.Readable) (h : path.Readable) :
    (dir.join path).Readable := by
  rw [Path.join]
  split
  · exact h
  · next hrelative =>
    have hroot := root_notMem_of_relative h (by simpa using hrelative)
    constructor
    · rw [tail_tidy]
      intro hmem
      replace hmem := (List.mem_filter.mp hmem).1
      cases dir with
      | nil => exact h.root hmem
      | cons first rest =>
        rcases List.mem_append.mp hmem with hmem | hmem
        · exact hdir.root hmem
        · exact hroot hmem
    · intro value hmem
      rcases List.mem_append.mp (mem_of_mem_tidy hmem) with hmem | hmem
      · exact hdir.names value hmem
      · exact h.names value hmem

theorem map_segment_names (names : List String) : (names.map PathPart.name).map segment = names := by
  rw [List.map_map]
  exact List.map_id names

theorem toText_names (names : List String) : toText (names.map .name) = "/".intercalate names := by
  rw [toText, map_segment_names]
  cases names <;> simp

theorem toText_root {names : List String} (h : names ≠ []) :
    toText (.root :: names.map .name) = "/".intercalate ("" :: names) := by
  rw [toText, List.map_cons, map_segment_names]
  · rfl
  · simpa using h

theorem steps_of_toList {text : String} {pieces : List (List Char)} (hne : pieces ≠ [])
    (h : ∀ piece ∈ pieces, '/' ∉ piece) (htext : text.toList = ['/'].intercalate pieces) :
    steps text = (if text.toList.head? = some '/' then [.root] else []) ++
      (pieces.filter (· ≠ [])).map (fun cs => part (String.ofList cs)) ++
      (if text.toList.getLast? = some '/' then [.here] else []) := by
  rw [steps, htext, List.splitOn_intercalate _ h hne]

theorem map_part_names {names : List String} (h : ∀ value ∈ names, IsEntry value) :
    ((names.map String.toList).filter (· ≠ [])).map (fun cs => part (String.ofList cs)) =
      names.map .name := by
  rw [List.filter_eq_self.mpr, List.map_map]
  · exact List.map_congr_left fun value hvalue => by simpa using (h value hvalue).part
  · intro piece hpiece
    obtain ⟨value, hvalue, rfl⟩ := List.mem_map.mp hpiece
    simpa using (h value hvalue).ne_empty

theorem slash_notMem_names {names : List String} (h : ∀ value ∈ names, IsEntry value) :
    ∀ piece ∈ names.map String.toList, '/' ∉ piece := by
  intro piece hpiece
  obtain ⟨value, hvalue, rfl⟩ := List.mem_map.mp hpiece
  exact (h value hvalue).slash

theorem tidy_names (first : PathPart) (names : List String) (last : Prop) [Decidable last] :
    tidy (first :: names.map .name ++ if last then [.here] else []) = first :: names.map .name := by
  rw [List.cons_append, tidy, List.filter_append, List.filter_eq_self.mpr]
  · split <;> simp
  · simp

/-- A path without `.` and `..` is read back as it was written. -/
theorem ofString_toText_names {names : List String} (h : ∀ value ∈ names, IsEntry value) :
    ofString (toText (names.map .name)) = names.map .name := by
  cases names with
  | nil => rfl
  | cons first names =>
    have htext : (toText ((first :: names).map .name)).toList =
        ['/'].intercalate ((first :: names).map String.toList) := by
      rw [toText_names, String.toList_intercalate]
      rfl
    have hhead : (toText ((first :: names).map .name)).toList.head? ≠ some '/' := by
      obtain ⟨hne, hslash, -⟩ := h first List.mem_cons_self
      cases hfirst : first.toList with
      | nil => exact absurd (by simpa using hfirst) hne
      | cons c cs =>
        rw [hfirst] at hslash
        have hc : c ≠ '/' := (List.ne_of_not_mem_cons hslash).symm
        rw [htext, List.map_cons, hfirst]
        cases names with
        | nil => simpa using hc
        | cons second names => simpa [List.intercalate_cons_cons] using hc
    rw [ofString, steps_of_toList (by simp) (slash_notMem_names h) htext, if_neg hhead, map_part_names h]
    exact tidy_names _ _ _

theorem ofString_toText_root {names : List String} (h : ∀ value ∈ names, IsEntry value) :
    ofString (toText (.root :: names.map .name)) = .root :: names.map .name := by
  cases names with
  | nil => rfl
  | cons first names =>
    have htext : (toText (.root :: (first :: names).map .name)).toList =
        ['/'].intercalate ([] :: (first :: names).map String.toList) := by
      rw [toText_root (by simp), String.toList_intercalate]
      rfl
    have hhead : (toText (.root :: (first :: names).map .name)).toList.head? = some '/' := by
      rw [htext, List.map_cons, List.intercalate_cons_cons]
      rfl
    have hslash : ∀ piece ∈ [] :: (first :: names).map String.toList, '/' ∉ piece :=
      List.forall_mem_cons.mpr ⟨List.not_mem_nil, slash_notMem_names h⟩
    rw [ofString, steps_of_toList (by simp) hslash htext, if_pos hhead, List.filter_cons_of_neg (by simp),
      map_part_names h]
    exact tidy_names _ _ _

theorem eq_drop_iff {l : List α} : l = l.drop n ↔ l = [] ∨ n = 0 := by
  constructor
  · intro h
    have hlength := congrArg List.length h
    rw [List.length_drop] at hlength
    cases l with
    | nil => exact .inl rfl
    | cons a l =>
      rw [List.length_cons] at hlength
      exact .inr (by omega)
  · rintro (rfl | rfl) <;> simp

section
variable {path : Path}

theorem Readable.cases (h : path.Readable) :
    .root ∉ path ∧ path.isAbsolute = false ∨
      ∃ rest, path = .root :: rest ∧ .root ∉ rest := by
  cases path with
  | nil => exact .inl ⟨by simp, rfl⟩
  | cons first rest =>
    cases first with
    | root => exact .inr ⟨rest, rfl, h.root⟩
    | _ => exact .inl ⟨by simpa using h.root, rfl⟩

theorem Readable.locate_normalize_iff (h : path.Readable) (location : List String) :
    path.normalize.locate location = path.locate location ↔
      path.isAbsolute = true ∨ location = [] ∨ path.StaysBelow := by
  rcases h.cases with ⟨hroot, hrelative⟩ | ⟨rest, rfl, hroot⟩
  · have hlocate := locate_append hroot [] location
    rw [List.nil_append, List.length_nil] at hlocate
    have hstays : path.StaysBelow ↔ surplus 0 path = 0 := by
      simpa [StaysBelow] using (surplus_eq_zero_iff hroot 0).symm
    rw [normalize_of_relative hroot, locate_reverse_names, hlocate, List.append_cancel_left_eq, hrelative,
      hstays, eq_drop_iff]
    simp
  · rw [normalize_root hroot, locate_cons, locate_cons, locate_reverse_names]
    simp [step, isAbsolute]

theorem Readable.normalize_normalize (h : path.Readable) : path.normalize.normalize = path.normalize := by
  have hplain (names : List String) : .root ∉ (names.map PathPart.name).reverse := by simp
  rcases h.cases with ⟨hroot, -⟩ | ⟨rest, rfl, hroot⟩
  · rw [normalize_of_relative hroot, normalize_of_relative (hplain _), locate_reverse_names, List.append_nil]
  · rw [normalize_root hroot, normalize_root (hplain _), locate_reverse_names, List.append_nil]

theorem Readable.ofString_toText (h : path.Readable) : ofString path.normalize.toText = path.normalize := by
  have hnames (rest : Path) (hrest : ∀ value, .name value ∈ rest → IsEntry value) :
      ∀ value ∈ (rest.locate []).reverse, IsEntry value := by
    intro value hvalue
    rcases mem_locate (List.mem_reverse.mp hvalue) with hnil | hmem
    · cases hnil
    · exact hrest value hmem
  rcases h.cases with ⟨hroot, -⟩ | ⟨rest, rfl, hroot⟩
  · rw [normalize_of_relative hroot, ← List.map_reverse]
    exact ofString_toText_names (hnames path h.names)
  · rw [normalize_root hroot, ← List.map_reverse]
    exact ofString_toText_root (hnames rest fun value hmem => h.names value (List.mem_cons_of_mem _ hmem))

end

end Path

/-- The path that a page's `include` or `import` is checked for. It leads where the source leads, step
by step from the directory of the page, if and only if it is absolute, or the working directory is the
root, or no step leads above the working directory. In any case normalizing is finished after one time,
and the path is read as it is written. -/
theorem source_located_iff (location : List String) (page source : String) {dir : Path}
    (hdir : (Path.ofString page).parent? = some dir) :
    let target := dir.join (.ofString source)
    (target.normalize.locate location = target.locate location ↔
        target.isAbsolute = true ∨ location = [] ∨ target.StaysBelow) ∧
      target.normalize.normalize = target.normalize ∧
      Path.ofString target.normalize.toText = target.normalize := by
  intro target
  have htarget : target.Readable :=
    ((Path.ofString_readable page).parent hdir).join (Path.ofString_readable source)
  exact ⟨htarget.locate_normalize_iff location, htarget.normalize_normalize, htarget.ofString_toText⟩

/-- A page one level deep whose source goes up twice, from the directory `/srv/site`. -/
theorem source_located_iff_twoUp :
    ∃ dir, (Path.ofString "pages/index.wxml").parent? = some dir ∧
      let target := dir.join (.ofString "../../head.wxml")
      target.normalize.toText = "head.wxml" ∧
      target.normalize.locate ["site", "srv"] ≠ target.locate ["site", "srv"] ∧
      target.normalize.normalize = target.normalize := by
  have hdir : (Path.ofString "pages/index.wxml").parent? = some [.name "pages"] := by decide +kernel
  obtain ⟨hiff, hnormal, -⟩ := source_located_iff ["site", "srv"] "pages/index.wxml" "../../head.wxml" hdir
  refine ⟨_, hdir, by decide +kernel, fun hsame => ?_, hnormal⟩
  rcases hiff.mp hsame with habsolute | hroot | hstays
  · exact absurd habsolute (by decide +kernel)
  · cases hroot
  · exact absurd (hstays 3) (by decide +kernel)

def siteTree : FileTree where
  workingDirectory := ["site", "srv"]
  files := [(["head.wxml", "site", "srv"], .empty)]

def outsidePage : Text :=
  "<include src=\"../head.wxml\"/>".toList

/-- Nothing is reported, although the file that the source names is not there: another one is looked
for. -/
theorem outsidePage_unreported :
    (Path.ofString "index.wxml").parent? = some [] ∧
      let target := Path.join [] (.ofString "../head.wxml")
      target.normalize.locate siteTree.workingDirectory ≠ target.locate siteTree.workingDirectory ∧
      siteTree.entry? (target.locate siteTree.workingDirectory) = none ∧
      (Document.parse outsidePage).diagnostics ⟨[]⟩ (some (.ofString "index.wxml")) siteTree.asFiles.has =
        [] := by
  refine ⟨by decide +kernel, by decide +kernel, rfl, by decide +kernel⟩

end PageMarkup
