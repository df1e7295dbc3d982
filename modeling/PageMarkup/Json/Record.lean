import PageMarkup.Json.Basic

/-!
# Reading records

A record is an object with known field names; other fields are ignored. An array that lists the
fields in order is accepted too.
-/

namespace PageMarkup.Json

def occurrences (fields : List (String × Json)) (name : String) : Nat :=
  fields.countP (·.1 = name)

mutual
/-- The value with every field name at most once in an object; of equal names the last counts. -/
def settled : Json → Json
  | .array items => .array (settledItems items)
  | .object fields => .object (settledFields fields)
  | .null => .null
  | .bool b => .bool b
  | .integer n => .integer n
  | .decimal d => .decimal d
  | .string s => .string s
  | .unreadable => .unreadable
def settledItems : List Json → List Json
  | [] => []
  | item :: items => settled item :: settledItems items
def settledFields : List (String × Json) → List (String × Json)
  | [] => []
  | field :: fields =>
    if occurrences fields field.1 = 0 then settledField field :: settledFields fields
    else settledFields fields
def settledField : String × Json → String × Json
  | (name, value) => (name, settled value)
end

theorem occurrences_eq_zero_iff {fields : List (String × Json)} {name : String} :
    occurrences fields name = 0 ↔ fields.reverse.lookup name = none := by
  simp only [occurrences, List.countP_eq_zero, decide_eq_true_eq, List.lookup_eq_none_iff, bne_iff_ne,
    List.mem_reverse, ne_comm]

theorem lookup_settledFields (name : String) (fields : List (String × Json)) :
    (settledFields fields).lookup name = (fields.reverse.lookup name).map settled := by
  induction fields with
  | nil => rfl
  | cons field fields ih =>
    obtain ⟨key, value⟩ := field
    rw [settledFields, List.reverse_cons, List.lookup_append]
    by_cases hname : name = key
    · subst hname
      split
      · next hfresh => simp [settledField, occurrences_eq_zero_iff.mp hfresh]
      · next hrepeated =>
        obtain ⟨last, hlast⟩ := Option.ne_none_iff_exists'.mp (mt occurrences_eq_zero_iff.mpr hrepeated)
        rw [ih, hlast, Option.some_or]
    · have hne : (name == key) = false := beq_eq_false_iff_ne.mpr hname
      have hother : ([(key, value)] : List (String × Json)).lookup name = none := by
        rw [List.lookup_cons, hne, List.lookup_nil]
      rw [hother, Option.or_none, ← ih]
      split
      · rw [settledField, List.lookup_cons, hne]
      · rfl

theorem occurrences_cons (field : String × Json) (fields : List (String × Json)) (name : String) :
    occurrences (field :: fields) name = occurrences fields name + if field.1 = name then 1 else 0 := by
  simp [occurrences, List.countP_cons]

theorem occurrences_settledFields (name : String) (fields : List (String × Json)) :
    occurrences (settledFields fields) name = min 1 (occurrences fields name) := by
  induction fields with
  | nil => rfl
  | cons field fields ih =>
    obtain ⟨key, value⟩ := field
    rw [settledFields, occurrences_cons]
    by_cases hfresh : occurrences fields key = 0
    · rw [if_pos hfresh, settledField, occurrences_cons, ih]
      by_cases hname : key = name
      · subst hname
        simp [hfresh]
      · simp [hname]
    · rw [if_neg hfresh, ih]
      by_cases hname : key = name
      · subst hname
        simp only [if_true]
        omega
      · simp [hname]

/-- The values of the named fields, in the order of the names; refused if one occurs twice. -/
def record? (names : List String) : Json → Option (List (Option Json))
  | .object fields =>
    if names.all (occurrences fields · ≤ 1) then some (names.map (List.lookup · fields)) else none
  | .array items =>
    if items.length ≤ names.length then
      some (items.map some ++ List.replicate (names.length - items.length) none)
    else none
  | _ => none

/-- Once it is settled, an object is read whatever it repeats. -/
theorem record?_settled (names : List String) (fields : List (String × Json)) :
    (settled (.object fields)).record? names =
      some (names.map fun name => (fields.reverse.lookup name).map settled) := by
  have honce : names.all (occurrences (settledFields fields) · ≤ 1) = true := by
    refine List.all_eq_true.mpr fun name _ => decide_eq_true ?_
    rw [occurrences_settledFields]
    exact Nat.min_le_left _ _
  simp only [settled, record?, honce, if_true, lookup_settledFields]

def string? : Json → Option String
  | .string s => some s
  | _ => none

def bool? : Json → Option Bool
  | .bool b => some b
  | _ => none

def array? : Json → Option (List Json)
  | .array items => some items
  | _ => none

def isNull : Json → Bool
  | .null => true
  | _ => false

def isObject : Json → Bool
  | .object _ => true
  | _ => false

/-- A name from a fixed set, which may also be the only field of an object, without a value. -/
def name? : Json → Option String
  | .string s => some s
  | .object [(s, .null)] => some s
  | _ => none

def word? (low high : Int) : Json → Option Int
  | .integer n => if low ≤ n ∧ n < high then some n else none
  | _ => none

def unsigned32? (j : Json) : Option Nat :=
  (j.word? 0 0x100000000).map Int.toNat

def signed32? : Json → Option Int :=
  word? (-0x80000000) 0x80000000

def optional? (read : Json → Option α) : Option Json → Option (Option α)
  | none => some none
  | some .null => some none
  | some j => (read j).map some

end PageMarkup.Json
