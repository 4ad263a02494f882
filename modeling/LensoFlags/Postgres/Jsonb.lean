import LensoFlags.Columns
import LensoFlags.Postgres.Sessions
import LensoFlags.Validation

/-!
# Rulesets in a `jsonb` column

`publish_ruleset` turns a definition into a JSON value and binds it to `ruleset_json`, `evaluate_one`
reads the column back into a value and a definition. The column keeps a number as a `numeric`, whose
text is its plain decimal, so a double that `serde_json` writes with an exponent can come back as an
integer with all its digits, or not at all: the parser gives up on a decimal whose digits before the
point overflow as a double.

1. `Column.jsonb`: the column.
2. `size_reread`: how far the text of a value grows over it.
-/

namespace LensoFlags

/-! ## The column -/

/-- A `numeric`: the coefficient with `scale` digits behind the point. -/
structure Numeric where
  negative : Bool
  coefficient : ℕ
  scale : ℕ

/-- The `numeric` of a literal has its exact value; zero has no sign. -/
def Literal.numeric (l : Literal) : Numeric :=
  let places := (l.fraction : Int) - l.exponent.getD 0
  { negative := l.negative && l.digits != 0
    coefficient := l.digits * 10 ^ (-places).toNat
    scale := places.toNat }

/-- The plain decimal of a `numeric`. -/
def Numeric.literal (v : Numeric) : Literal := ⟨v.negative, v.coefficient, v.scale, none⟩

/-- `!value.contains('\0')`. -/
def nulFree (s : String) : Bool := !s.toList.contains '\x00'

/-- A `jsonb` column, whose strings have no `U+0000`. -/
def Column.jsonb : Column where
  keep := fun l => l.numeric.literal
  takes := nulFree
  keep_ofInt := by
    intro n
    have hsign : (decide (n < 0) && n.natAbs != 0) = decide (n < 0) := by
      by_cases h : n < 0
      · have hne : n ≠ 0 := by omega
        simp [h, hne]
      · simp [h]
    simp [Literal.ofInt, Literal.numeric, Numeric.literal, hsign]

/-- The columns `ruleset_json` and `response_json`. -/
abbrev Codec.jsonb {rt : Runtime} (doubles : Doubles rt) : Codec := Codec.column doubles .jsonb

section Doubles

variable {rt : Runtime} {doubles : Doubles rt} {column : Column}

/-! ## Sizes -/

variable (doubles) (column) in
/-- How many bytes a double gains in the column. One that comes back as an integer has all its
digits then; any other is written as the double that is read. -/
def F64.growth (x : F64) : Int :=
  let l := column.keep (doubles.literal x)
  if l.isInteger then
    (toString l.integer).utf8ByteSize - (doubles.literal x).text.utf8ByteSize
  else (doubles.read l).elim 0 fun y =>
    (rt.formatDouble y).utf8ByteSize - (rt.formatDouble x).utf8ByteSize

variable (doubles) (column) in
/-- Only doubles gain any. -/
def Number.growth : Number → Int
  | .float x => if x.isFinite then x.growth doubles column else 0
  | _ => 0

variable (doubles) (column) in
mutual

/-- How many bytes the text of a value gains in the column, number by number. -/
def Json.growth : Json → Int
  | .number n => n.growth doubles column
  | .array elements => Json.growthElements elements
  | .object fields => Json.growthFields fields
  | _ => 0

def Json.growthElements : List Json → Int
  | [] => 0
  | v :: vs => v.growth + Json.growthElements vs

def Json.growthFields : List (String × Json) → Int
  | [] => 0
  | (_, v) :: fs => v.growth + Json.growthFields fs

end

/-- What `serde_json` makes of an integer it can hold. -/
theorem number_of_isInteger {l : Literal} (h : l.isInteger = true) {n : Number}
    (hn : l.number doubles = some n) : n.integer = some l.integer ∧ l.integer.natAbs < 2 ^ 64 := by
  rw [Literal.number, if_pos h] at hn
  obtain ⟨negative, digits, fraction, exponent⟩ := l
  have hfits := (Bool.and_eq_true_iff.mp h).2
  cases negative with
  | true =>
    obtain ⟨hpos, hle⟩ : 0 < digits ∧ digits ≤ 2 ^ 63 := of_decide_eq_true hfits
    cases hn
    have hint : (Int64.ofInt (-digits)).toInt = -digits := Int64.toInt_ofInt_of_le (by omega) (by omega)
    refine ⟨congrArg some hint, ?_⟩
    change (-(digits : Int)).natAbs < 2 ^ 64
    omega
  | false =>
    have hlt : digits < 2 ^ 64 := of_decide_eq_true hfits
    cases hn
    have hnat : (UInt64.ofNat digits).toNat = digits := UInt64.toNat_ofNat_of_lt' hlt
    refine ⟨congrArg (fun n : ℕ => some (n : Int)) hnat, ?_⟩
    change (digits : Int).natAbs < 2 ^ 64
    omega

theorem number_of_not_isInteger {l : Literal} (h : ¬l.isInteger = true) {n : Number}
    (hn : l.number doubles = some n) : ∃ x, doubles.read l = some x ∧ n = .float x := by
  rw [Literal.number, if_neg h] at hn
  obtain ⟨x, hx, rfl⟩ := Option.map_eq_some_iff.mp hn
  exact ⟨x, hx, rfl⟩

theorem size_float {x : F64} (h : x.isFinite = true) {n : Number}
    (hn : (column.keep (doubles.literal x)).number doubles = some n) :
    ((renderNumber rt n).utf8ByteSize : Int) =
      (rt.formatDouble x).utf8ByteSize + x.growth doubles column := by
  unfold F64.growth
  by_cases hinteger : (column.keep (doubles.literal x)).isInteger = true
  · rw [renderNumber_integer (number_of_isInteger hinteger hn).1, doubles.written x h]
    simp only [if_pos hinteger]
    omega
  · obtain ⟨y, hy, rfl⟩ := number_of_not_isInteger hinteger hn
    simp only [if_neg hinteger, hy, Option.elim_some, renderNumber,
      if_pos (doubles.read_finite _ y hy)]
    omega

theorem size_number (n : Number) {w : Json} (hw : n.reread doubles column = some w) :
    ((w.render rt).utf8ByteSize : Int) =
      (renderNumber rt n).utf8ByteSize + n.growth doubles column := by
  cases n with
  | posInt n =>
    rw [reread_posInt] at hw
    cases hw
    exact (add_zero _).symm
  | negInt n =>
    by_cases h : n < 0
    · rw [reread_negInt h] at hw
      cases hw
      exact (add_zero _).symm
    · have hle : 0 ≤ n.toInt := by simpa using Int64.le_iff_toInt_le.mp (Int64.not_lt.mp h)
      have hnat : (n.toUInt64.toNat : Int) = n.toInt := by
        rw [Int64.toNat_toUInt64_of_le (Int64.not_lt.mp h), Int64.toNatClampNeg]
        omega
      have htext : toString n.toUInt64.toNat = toString n.toInt := by
        rw [← hnat]
        rfl
      rw [reread_negInt_of_le h] at hw
      cases hw
      change ((toString n.toUInt64.toNat).utf8ByteSize : Int) = (toString n.toInt).utf8ByteSize + 0
      rw [htext, add_zero]
  | float x =>
    unfold Number.reread Number.literal at hw
    by_cases h : x.isFinite = true
    · simp only [if_pos h] at hw
      obtain ⟨m, hm, rfl⟩ := Option.map_eq_some_iff.mp hw
      simp only [Number.growth, renderNumber, if_pos h, Json.render]
      exact size_float h hm
    · simp only [if_neg h] at hw
      cases hw
      simp only [Number.growth, renderNumber, if_neg h, Json.render]
      rfl

/-- The bytes of joined texts. -/
theorem size_intercalate_cons (a b : String) (texts : List String) :
    (",".intercalate (a :: b :: texts)).utf8ByteSize =
      a.utf8ByteSize + 1 + (",".intercalate (b :: texts)).utf8ByteSize := by
  rw [String.intercalate_cons_cons, String.utf8ByteSize_append, String.utf8ByteSize_append]
  rfl

mutual

/-- The text of a value grows by its growth. -/
theorem size_reread (v : Json) {w : Json} (hw : v.reread doubles column = some w) :
    ((w.render rt).utf8ByteSize : Int) =
      (v.render rt).utf8ByteSize + v.growth doubles column := by
  cases v with
  | null => cases hw; exact (add_zero _).symm
  | bool b => cases hw; exact (add_zero _).symm
  | string s => cases hw; exact (add_zero _).symm
  | number n => exact size_number n hw
  | array elements =>
    obtain ⟨ws, hws, rfl⟩ := Option.map_eq_some_iff.mp hw
    have h := size_elements elements hws
    simp only [Json.render, Json.growth, String.utf8ByteSize_append]
    push_cast
    omega
  | object fields =>
    obtain ⟨gs, hgs, rfl⟩ := Option.map_eq_some_iff.mp hw
    have h := size_fields fields hgs
    simp only [Json.render, Json.growth, String.utf8ByteSize_append]
    push_cast
    omega

theorem size_elements (vs : List Json) {ws : List Json}
    (hws : Json.rereadElements doubles column vs = some ws) :
    ((",".intercalate (Json.renderElements rt ws)).utf8ByteSize : Int) =
      (",".intercalate (Json.renderElements rt vs)).utf8ByteSize +
        Json.growthElements doubles column vs := by
  cases vs with
  | nil => cases hws; rfl
  | cons v vs =>
    obtain ⟨w, hw, htail⟩ := Option.bind_eq_some_iff.mp hws
    obtain ⟨rest, hrest, rfl⟩ := Option.map_eq_some_iff.mp htail
    have hv := size_reread v hw
    cases vs with
    | nil =>
      cases hrest
      simp only [Json.renderElements, Json.growthElements, String.intercalate_singleton, add_zero]
      exact hv
    | cons v' vs =>
      have hvs := size_elements (v' :: vs) hrest
      obtain ⟨w', -, hmore⟩ := Option.bind_eq_some_iff.mp hrest
      obtain ⟨ws, -, rfl⟩ := Option.map_eq_some_iff.mp hmore
      simp only [Json.renderElements, Json.growthElements, size_intercalate_cons] at hvs ⊢
      push_cast
      omega

theorem size_fields (fs : List (String × Json)) {gs : List (String × Json)}
    (hgs : Json.rereadFields doubles column fs = some gs) :
    ((",".intercalate (Json.renderFields rt gs)).utf8ByteSize : Int) =
      (",".intercalate (Json.renderFields rt fs)).utf8ByteSize +
        Json.growthFields doubles column fs := by
  cases fs with
  | nil => cases hgs; rfl
  | cons f fs =>
    obtain ⟨k, v⟩ := f
    obtain ⟨w, hw, htail⟩ := Option.bind_eq_some_iff.mp hgs
    obtain ⟨rest, hrest, rfl⟩ := Option.map_eq_some_iff.mp htail
    have hv := size_reread v hw
    cases fs with
    | nil =>
      cases hrest
      simp only [Json.renderFields, Json.growthFields, String.intercalate_singleton,
        String.utf8ByteSize_append, add_zero]
      push_cast
      omega
    | cons f' fs =>
      obtain ⟨l, v'⟩ := f'
      have hfs := size_fields ((l, v') :: fs) hrest
      obtain ⟨w', -, hmore⟩ := Option.bind_eq_some_iff.mp hrest
      obtain ⟨gs, -, rfl⟩ := Option.map_eq_some_iff.mp hmore
      simp only [Json.renderFields, Json.growthFields, size_intercalate_cons,
        String.utf8ByteSize_append] at hfs ⊢
      push_cast at hfs ⊢
      omega

end

end Doubles

end LensoFlags
