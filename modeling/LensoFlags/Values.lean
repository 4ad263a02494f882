import LensoFlags.Columns
import LensoFlags.Rollout
import LensoFlags.Lib.Numeral

/-!
# Values of variants

`valid_value` accepts five shapes of records, one for each type. Another description of a value
stands beside it: the schema that clients check a served value against.

Results:
1. `validValue_iff`: the values that are accepted.
2. `served_conforms_iff`: which of them the schema accepts.
-/

namespace LensoFlags

/-! ## Accepted values -/

/-- A value of one type, within the bounds of the validator. -/
inductive Typed (rt : Runtime) : ValueType → ValueRecord → Prop
  | boolean (b : Bool) : Typed rt .boolean ⟨"boolean", some b, none, none, none, none⟩
  | string (s : String) (h : s.utf8ByteSize ≤ 4000) :
      Typed rt .string ⟨"string", none, some s, none, none, none⟩
  | integer (s : String) (n : Int) (h : Decimal.parseI64 s = some n) :
      Typed rt .integer ⟨"integer", none, none, some s, none, none⟩
  | double (x : F64) (h : x.isFinite = true) :
      Typed rt .double ⟨"double", none, none, none, some x, none⟩
  | json (fields : List (String × Json))
      (h : ((Json.object fields).render rt).utf8ByteSize ≤ 16384) :
      Typed rt .json ⟨"json", none, none, none, none, some fields⟩

theorem all_none {α β γ δ : Type} {a : Option α} {b : Option β} {c : Option γ} {d : Option δ}
    (h : a.isSome.toNat + b.isSome.toNat + c.isSome.toNat + d.isSome.toNat = 0) :
    a = none ∧ b = none ∧ c = none ∧ d = none := by
  have hnone : ∀ {α : Type} {o : Option α}, o.isSome.toNat = 0 → o = none := by
    intro α o ho
    cases o with
    | none => rfl
    | some a => cases ho
  exact ⟨hnone (by omega), hnone (by omega), hnone (by omega), hnone (by omega)⟩

theorem validValue_iff {rt : Runtime} {valueType : String} {value : ValueRecord} :
    validValue rt valueType value = true ↔
      ∃ t : ValueType, valueType = t.wireName ∧ Typed rt t value := by
  constructor
  · intro h
    obtain ⟨_, b, s, i, x, j⟩ := value
    unfold validValue at h
    simp only [Bool.and_eq_true, beq_iff_eq] at h
    obtain ⟨⟨hpresent, rfl⟩, hvalue⟩ := h
    -- The field of the type is there, so that no other one is.
    split at hvalue
    · obtain ⟨b, rfl⟩ := Option.isSome_iff_exists.mp hvalue
      simp only [Option.isSome_some, Bool.toNat_true] at hpresent
      obtain ⟨rfl, rfl, rfl, rfl⟩ := @all_none _ _ _ _ s i x j (by omega)
      exact ⟨.boolean, rfl, .boolean b⟩
    · obtain ⟨s, rfl, hs⟩ := (Option.any_eq_true _ _).mp hvalue
      simp only [Option.isSome_some, Bool.toNat_true] at hpresent
      obtain ⟨rfl, rfl, rfl, rfl⟩ := @all_none _ _ _ _ b i x j (by omega)
      exact ⟨.string, rfl, .string s (of_decide_eq_true hs)⟩
    · obtain ⟨i, rfl, hi⟩ := (Option.any_eq_true _ _).mp hvalue
      simp only [Option.isSome_some, Bool.toNat_true] at hpresent
      obtain ⟨rfl, rfl, rfl, rfl⟩ := @all_none _ _ _ _ b s x j (by omega)
      obtain ⟨n, hn⟩ := Option.isSome_iff_exists.mp hi
      exact ⟨.integer, rfl, .integer i n hn⟩
    · obtain ⟨x, rfl, hx⟩ := (Option.any_eq_true _ _).mp hvalue
      simp only [Option.isSome_some, Bool.toNat_true] at hpresent
      obtain ⟨rfl, rfl, rfl, rfl⟩ := @all_none _ _ _ _ b s i j (by omega)
      exact ⟨.double, rfl, .double x hx⟩
    · obtain ⟨fields, rfl, hfields⟩ := (Option.any_eq_true _ _).mp hvalue
      simp only [Option.isSome_some, Bool.toNat_true] at hpresent
      obtain ⟨rfl, rfl, rfl, rfl⟩ := @all_none _ _ _ _ b s i x (by omega)
      exact ⟨.json, rfl, .json fields (of_decide_eq_true hfields)⟩
    · cases hvalue
  · rintro ⟨t, rfl, ht⟩
    cases ht with
    | boolean b => rfl
    | string s h => exact decide_eq_true h
    | integer s n h =>
      change (Decimal.parseI64 s).isSome = true
      rw [h]
      rfl
    | double x h => exact h
    | json fields h => exact decide_eq_true h

/-! ## The schema of a served value -/

def orNull (check : Json → Prop) (v : Json) : Prop := v = .null ∨ check v

/-- `^(?:-[0-9]+|[0-9]+)$`. -/
def IntegerPattern (s : String) : Prop :=
  ∃ cs, (cs ≠ [] ∧ cs.all Char.isDigit = true) ∧ (s.toList = '-' :: cs ∨ s.toList = cs)

/-- The properties of `flag-value.schema.json`. -/
def flagValueProperties : List (String × (Json → Prop)) :=
  [("value_type", fun v => ∃ t : ValueType, v = .string t.wireName),
    ("boolean_value", orNull fun v => ∃ b, v = .bool b),
    ("string_value", orNull fun v => ∃ s, v = .string s ∧ s.length ≤ 4000),
    ("integer_value", orNull fun v => ∃ s, v = .string s ∧ IntegerPattern s),
    ("double_value", orNull fun v => ∃ n, v = .number n),
    ("json_value", orNull fun v => ∃ fields, v = .object fields)]

/-- An object with all of the properties and no other. -/
def Conforms (properties : List (String × (Json → Prop))) (v : Json) : Prop :=
  ∃ fields, v = .object fields ∧
    (∀ property ∈ properties, ∃ v, fields.lookup property.1 = some v ∧ property.2 v) ∧
    ∀ field ∈ fields, field.1 ∈ properties.map (·.1)

/-- The field of a type is there. -/
def ValueRecord.has (value : ValueRecord) : ValueType → Bool
  | .boolean => value.booleanValue.isSome
  | .string => value.stringValue.isSome
  | .integer => value.integerValue.isSome
  | .double => value.doubleValue.isSome
  | .json => value.jsonValue.isSome

/-- What clients are promised of a value. -/
structure ValueRecord.Served (value : ValueRecord) : Prop where
  schema : Conforms flagValueProperties value.toValue
  only : ∃ t : ValueType, value.valueType = t.wireName ∧ ∀ t', value.has t' = true ↔ t' = t
  range : ∀ s, value.integerValue = some s → ∃ n, Decimal.Denotes s n ∧ Decimal.InI64 n

/-- The integer is written without a plus sign. -/
def ValueRecord.Unsigned (value : ValueRecord) : Prop :=
  ∀ s, value.integerValue = some s → s.toList.head? ≠ some '+'

theorem integerPattern_iff {s : String} : IntegerPattern s ↔ ∃ n, Decimal.Denotes s n := by
  constructor
  · rintro ⟨cs, ⟨hne, hall⟩, hs | hs⟩
    · exact ⟨_, cs, _, Decimal.digits?_eq_some.mpr ⟨hne, hall, rfl⟩, .inl ⟨hs, rfl⟩⟩
    · exact ⟨_, cs, _, Decimal.digits?_eq_some.mpr ⟨hne, hall, rfl⟩, .inr ⟨hs, rfl⟩⟩
  · rintro ⟨n, cs, m, hm, hs⟩
    obtain ⟨hne, hall, -⟩ := Decimal.digits?_eq_some.mp hm
    exact ⟨cs, ⟨hne, hall⟩, hs.imp And.left And.left⟩

/-- The object of a record has the six properties, and each is checked by itself. -/
theorem conforms_toValue {value : ValueRecord} :
    Conforms flagValueProperties value.toValue ↔
      (∃ t : ValueType, value.valueType = t.wireName) ∧
        (∀ s, value.stringValue = some s → s.length ≤ 4000) ∧
        ∀ s, value.integerValue = some s → IntegerPattern s := by
  constructor
  · rintro ⟨fields, hfields, hproperties, -⟩
    cases hfields
    simp only [flagValueProperties, List.forall_mem_cons] at hproperties
    -- The properties come in the order of the schema: type, boolean, string, integer, double, JSON.
    obtain ⟨⟨_, htype, t, rfl⟩, -, ⟨_, hstring, hs⟩, ⟨_, hinteger, hi⟩, -⟩ := hproperties
    refine ⟨⟨t, Json.string.inj (Option.some.inj htype)⟩, fun s hvalue => ?_, fun s hvalue => ?_⟩
    · cases (congrArg (some ∘ toValue Json.string) hvalue).symm.trans hstring
      rcases hs with hs | ⟨_, hs, hlength⟩
      · cases hs
      · cases hs
        exact hlength
    · cases (congrArg (some ∘ toValue Json.string) hvalue).symm.trans hinteger
      rcases hi with hi | ⟨_, hi, hpattern⟩
      · cases hi
      · cases hi
        exact hpattern
  · rintro ⟨⟨t, ht⟩, hstring, hinteger⟩
    refine ⟨_, rfl, ?_, by simp [flagValueProperties]⟩
    simp only [flagValueProperties, List.forall_mem_cons]
    refine ⟨⟨_, rfl, t, congrArg Json.string ht⟩, ⟨_, rfl, ?_⟩, ⟨_, rfl, ?_⟩, ⟨_, rfl, ?_⟩,
      ⟨_, rfl, ?_⟩, ⟨_, rfl, ?_⟩, List.forall_mem_nil _⟩
    · cases value.booleanValue with
      | none => exact .inl rfl
      | some b => exact .inr ⟨b, rfl⟩
    · cases hvalue : value.stringValue with
      | none => exact .inl rfl
      | some s => exact .inr ⟨s, rfl, hstring s hvalue⟩
    · cases hvalue : value.integerValue with
      | none => exact .inl rfl
      | some s => exact .inr ⟨s, rfl, hinteger s hvalue⟩
    · cases value.doubleValue with
      | none => exact .inl rfl
      | some x =>
        by_cases hx : x.isFinite
        · exact .inr ⟨.float x, if_pos hx⟩
        · exact .inl (if_neg hx)
    · cases value.jsonValue with
      | none => exact .inl rfl
      | some fields => exact .inr ⟨fields, rfl⟩

/-- The record of a response is written as the record of the store is. -/
theorem castValue_toJson {rt : Runtime} {t : ValueType} {value : ValueRecord}
    (h : Typed rt t value) :
    ∃ published, castValue value = some published ∧ published.toJson = value.toValue := by
  cases h with
  | boolean b => exact ⟨_, rfl, rfl⟩
  | string s => exact ⟨_, rfl, rfl⟩
  | integer s n => exact ⟨_, rfl, rfl⟩
  | double x h =>
    refine ⟨_, rfl, ?_⟩
    simp only [PublishedValue.toJson, ValueRecord.toValue, toValue, Json.option, Option.filter,
      f64Value, if_pos h]
    rfl
  | json fields => exact ⟨_, rfl, rfl⟩

/-- Of an accepted value, only the sign of an integer is open. -/
theorem served_iff_unsigned {rt : Runtime} {t : ValueType} {value : ValueRecord}
    (h : Typed rt t value) : value.Served ↔ value.Unsigned := by
  constructor
  · intro hserved s hs
    obtain ⟨n, hn, -⟩ := hserved.range s hs
    exact hn.head
  · intro hunsigned
    have hinteger : ∀ s, value.integerValue = some s →
        ∃ n, Decimal.Denotes s n ∧ Decimal.InI64 n := by
      intro s hs
      cases h with
      | integer i n hn =>
        cases hs
        exact ⟨n, Decimal.denotes_of_parseI64 (hunsigned s rfl) hn⟩
      | _ => cases hs
    refine ⟨conforms_toValue.mpr ⟨⟨t, ?_⟩, fun s hs => ?_, fun s hs => ?_⟩, ⟨t, ?_⟩, hinteger⟩
    · cases h <;> rfl
    · cases h with
      | string text hsize =>
        cases hs
        exact Nat.le_trans (Bytes.length_le_utf8ByteSize s) hsize
      | _ => cases hs
    · obtain ⟨n, hn, -⟩ := hinteger s hs
      exact integerPattern_iff.mpr ⟨n, hn⟩
    · cases h <;> exact ⟨rfl, by rintro (_ | _ | _ | _ | _) <;> simp [ValueRecord.has]⟩

/-- An accepted value, and a value that any evaluation of an accepted ruleset chooses, is what the
schema says unless it is an integer with a plus sign. -/
theorem served_conforms_iff (rt : Runtime) :
    (∀ valueType value, validValue rt valueType value = true →
      (value.Served ↔ value.Unsigned) ∧
        ∃ published, castValue value = some published ∧ published.toJson = value.toValue) ∧
    ∀ valueType definition org environmentKey flagKey targetingKey attributes variant reason,
      validateRuleset rt valueType definition = .ok () →
      chooseVariant rt org environmentKey flagKey targetingKey attributes definition =
        .ok (variant, reason) →
      (variant.value.Served ↔ variant.value.Unsigned) := by
  constructor
  · intro valueType value h
    obtain ⟨t, -, ht⟩ := validValue_iff.mp h
    exact ⟨served_iff_unsigned ht, castValue_toJson ht⟩
  · intro valueType definition org environmentKey flagKey targetingKey attributes variant reason
      hvalid hchoose
    obtain ⟨_, _, hchosen, hmem⟩ :=
      chooseVariant_of_valid hvalid org environmentKey flagKey targetingKey attributes
    cases hchosen.symm.trans hchoose
    obtain ⟨t, -, ht⟩ := validValue_iff.mp ((validateRuleset_eq_ok.mp hvalid).1.typed _ hmem)
    exact served_iff_unsigned ht

def integerValue (text : String) : ValueRecord :=
  ⟨"integer", none, none, some text, none, none⟩

theorem served_conforms_five : (integerValue "-5").Served :=
  (((served_conforms_iff (Runtime.atEpoch [])).1 "integer" (integerValue "-5") (by decide)).1).mpr
    fun s hs => by
      cases hs
      decide

/-- The parser takes a plus sign, the pattern does not. -/
theorem plusFive_accepted :
    validValue (Runtime.atEpoch []) "integer" (integerValue "+5") = true ∧
      ¬(integerValue "+5").Served :=
  ⟨by decide, fun h => (h.range "+5" rfl).elim fun _ hn => absurd hn.1.head (by decide)⟩

end LensoFlags
