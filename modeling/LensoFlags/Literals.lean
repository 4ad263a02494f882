import LensoFlags.JsonText
import Mathlib.Algebra.Order.Ring.Int
import Mathlib.Algebra.Order.Ring.Nat

/-!
# Numbers in a text

A JSON text has the digits of a number. `serde_json` reads an integer of 64 bits as it is written,
and any other number as a double near it, which need not be the one it was written for: the feature
`float_roundtrip` is off.

1. `Doubles`: what is taken from the crates that write and read doubles.
2. `number_ofInt_of_nonneg`, `number_ofInt_of_neg`: an integer that was written is read as itself.
3. `renderNumber_literal`: a number is rendered as its digits.
4. `canonical_json`: what is read has canonical numbers.
5. `json_document`: a value that was written is read with its doubles read again.
-/

namespace LensoFlags

/-! ## Literals -/

/-- `digits` with the last `fraction` of them behind the point, and an exponent if there is one. -/
structure Literal where
  negative : Bool
  digits : ℕ
  fraction : ℕ
  exponent : Option Int
  deriving DecidableEq

def plainDecimal (coefficient scale : ℕ) : String :=
  if scale = 0 then toString coefficient
  else
    let digits := toString (coefficient % 10 ^ scale)
    toString (coefficient / 10 ^ scale) ++ "." ++
      "".pushn '0' (scale - digits.length) ++ digits

/-- `serde_json` writes the sign of an exponent, a plus sign too. -/
def exponentText (exponent : Int) : String :=
  "e" ++ (if exponent < 0 then "" else "+") ++ toString exponent

def Literal.text (l : Literal) : String :=
  (if l.negative then "-" else "") ++ plainDecimal l.digits l.fraction ++
    l.exponent.elim "" exponentText

def Literal.ofInt (n : Int) : Literal := ⟨decide (n < 0), n.natAbs, 0, none⟩

/-- Written as an integer that `serde_json` can hold. It reads `-0` as a double. -/
def Literal.isInteger (l : Literal) : Bool :=
  l.fraction = 0 && l.exponent.isNone &&
    if l.negative then decide (0 < l.digits ∧ l.digits ≤ 2 ^ 63) else decide (l.digits < 2 ^ 64)

def Literal.integer (l : Literal) : Int := if l.negative then -l.digits else l.digits

/-- How the crates write and read doubles. -/
structure Doubles (rt : Runtime) where
  literal : F64 → Literal
  /-- `serde_json` on a number that it holds as a double; `none` is a number out of its range. -/
  read : Literal → Option F64
  /-- `as f64`. -/
  ofInteger : Int → F64
  written : ∀ x, x.isFinite → rt.formatDouble x = (literal x).text
  marked : ∀ x, x.isFinite → (literal x).fraction ≠ 0 ∨ (literal x).exponent ≠ none
  /-- What is written can be read, if not as what it was. -/
  readable : ∀ x, x.isFinite → ∃ y, read (literal x) = some y
  read_finite : ∀ l x, read l = some x → x.isFinite
  ofInteger_finite : ∀ n, n.natAbs < 2 ^ 64 → (ofInteger n).isFinite

section Doubles

variable {rt : Runtime} (doubles : Doubles rt)

/-- The text of a number; a double that is not finite has none. -/
def Number.literal : Number → Option Literal
  | .posInt n => some (.ofInt n.toNat)
  | .negInt n => some (.ofInt n.toInt)
  | .float x => if x.isFinite then some (doubles.literal x) else none

/-- `serde_json` on a number. -/
def Literal.number (l : Literal) : Option Number :=
  if l.isInteger then
    some (if l.negative then .negInt (.ofInt l.integer) else .posInt (.ofNat l.digits))
  else (doubles.read l).map .float

/-! ## Documents -/

/-- A JSON text, with the fields of an object and the digits of a number as they stand. -/
inductive Document
  | null
  | bool (b : Bool)
  | number (l : Literal)
  | string (s : String)
  | array (elements : List Document)
  | object (fields : List (String × Document))

mutual

/-- What `serde_json` writes of a value. -/
def Json.document : Json → Document
  | .null => .null
  | .bool b => .bool b
  | .number n => (n.literal doubles).elim .null .number
  | .string s => .string s
  | .array elements => .array (Json.documentElements elements)
  | .object fields => .object (Json.documentFields fields)

def Json.documentElements : List Json → List Document
  | [] => []
  | v :: vs => v.document :: Json.documentElements vs

def Json.documentFields : List (String × Json) → List (String × Document)
  | [] => []
  | (k, v) :: fs => (k, v.document) :: Json.documentFields fs

end

mutual

/-- The numbers of a text as `serde_json` reads them. -/
def Document.json : Document → Option Json
  | .null => some .null
  | .bool b => some (.bool b)
  | .number l => (l.number doubles).map .number
  | .string s => some (.string s)
  | .array elements => (Document.jsonElements elements).map .array
  | .object fields => (Document.jsonFields fields).map .object

def Document.jsonElements : List Document → Option (List Json)
  | [] => some []
  | d :: ds => d.json.bind fun v => (Document.jsonElements ds).map (v :: ·)

def Document.jsonFields : List (String × Document) → Option (List (String × Json))
  | [] => some []
  | (k, d) :: fs => d.json.bind fun v => (Document.jsonFields fs).map ((k, v) :: ·)

end

/-! ## Integers -/

variable {doubles}

theorem Literal.isInteger_ofInt_of_nonneg {n : Int} (h : 0 ≤ n) (hlt : n < 2 ^ 64) :
    (Literal.ofInt n).isInteger = true := by
  have hsign : decide (n < 0) = false := decide_eq_false (by omega)
  have hdigits : n.natAbs < 2 ^ 64 := by omega
  unfold Literal.isInteger Literal.ofInt
  rw [hsign]
  exact decide_eq_true hdigits

theorem Literal.isInteger_ofInt_of_neg {n : Int} (h : n < 0) (hle : -2 ^ 63 ≤ n) :
    (Literal.ofInt n).isInteger = true := by
  have hdigits : 0 < n.natAbs ∧ n.natAbs ≤ 2 ^ 63 := by omega
  unfold Literal.isInteger Literal.ofInt
  rw [decide_eq_true h]
  exact decide_eq_true hdigits

theorem number_ofInt_of_nonneg {n : ℕ} (h : n < 2 ^ 64) :
    (Literal.ofInt n).number doubles = some (.posInt (.ofNat n)) := by
  have hpos : ¬(n : Int) < 0 := by omega
  rw [Literal.number, if_pos (Literal.isInteger_ofInt_of_nonneg (by omega) (by omega))]
  simp [Literal.ofInt, hpos]

theorem number_ofInt_of_neg {n : Int} (h : n < 0) (hle : -2 ^ 63 ≤ n) :
    (Literal.ofInt n).number doubles = some (.negInt (.ofInt n)) := by
  have habs : -(n.natAbs : Int) = n := by omega
  rw [Literal.number, if_pos (Literal.isInteger_ofInt_of_neg h hle)]
  simp only [Literal.ofInt, Literal.integer, decide_eq_true h, if_true, habs]

/-- What is hashed and measured of a number are the digits of the text. -/
theorem renderNumber_literal {n : Number} :
    renderNumber rt n = (n.literal doubles).elim "null" Literal.text := by
  have hinteger : ∀ n : Int, toString n = (Literal.ofInt n).text := by
    intro n
    unfold Literal.text Literal.ofInt
    rw [Int.toString_eq_repr, Int.repr_eq_if]
    by_cases h : n < 0
    · rw [if_neg (by omega)]
      have htoNat : (-n).toNat = n.natAbs := by omega
      simp [h, plainDecimal, htoNat]
    · rw [if_pos (by omega)]
      have htoNat : n.toNat = n.natAbs := by omega
      simp [h, plainDecimal, htoNat]
  cases n with
  | posInt n => exact hinteger n.toNat
  | negInt n => exact hinteger n.toInt
  | float x =>
    by_cases h : x.isFinite = true
    · simp only [renderNumber, Number.literal, if_pos h]
      exact doubles.written x h
    · simp only [renderNumber, Number.literal, if_neg h]
      rfl

/-! ## Values that were read -/

theorem canonical_number {l : Literal} {n : Number} (h : l.number doubles = some n) :
    n.Canonical := by
  unfold Literal.number at h
  split at h
  · next hinteger =>
    obtain ⟨negative, digits, fraction, exponent⟩ := l
    have hfits := (Bool.and_eq_true_iff.mp hinteger).2
    cases negative with
    | true =>
      obtain ⟨hpos, hle⟩ : 0 < digits ∧ digits ≤ 2 ^ 63 := of_decide_eq_true hfits
      have hint : (Int64.ofInt (-digits)).toInt = -digits :=
        Int64.toInt_ofInt_of_le (by omega) (by omega)
      cases h
      change Int64.ofInt (-digits) < 0
      rw [Int64.lt_iff_toInt_lt, hint]
      change -(digits : Int) < 0
      omega
    | false =>
      cases h
      trivial
  · obtain ⟨x, hx, rfl⟩ := Option.map_eq_some_iff.mp h
    exact doubles.read_finite l x hx

mutual

/-- What is read has canonical numbers. -/
theorem canonical_json : ∀ {d : Document} {v : Json}, d.json doubles = some v → v.Canonical
  | .null, _, h => by cases h; trivial
  | .bool _, _, h => by cases h; trivial
  | .string _, _, h => by cases h; trivial
  | .number l, _, h => by
    obtain ⟨n, hn, rfl⟩ := Option.map_eq_some_iff.mp h
    exact canonical_number hn
  | .array _, _, h => by
    obtain ⟨vs, hvs, rfl⟩ := Option.map_eq_some_iff.mp h
    exact canonical_jsonElements hvs
  | .object _, _, h => by
    obtain ⟨fs, hfs, rfl⟩ := Option.map_eq_some_iff.mp h
    exact canonical_jsonFields hfs

theorem canonical_jsonElements : ∀ {ds : List Document} {vs : List Json},
    Document.jsonElements doubles ds = some vs → Json.CanonicalElements vs
  | [], _, h => by cases h; trivial
  | _ :: _, _, h => by
    obtain ⟨v, hv, h⟩ := Option.bind_eq_some_iff.mp h
    obtain ⟨vs, hvs, rfl⟩ := Option.map_eq_some_iff.mp h
    exact ⟨canonical_json hv, canonical_jsonElements hvs⟩

theorem canonical_jsonFields : ∀ {ds : List (String × Document)} {fs : List (String × Json)},
    Document.jsonFields doubles ds = some fs → Json.CanonicalFields fs
  | [], _, h => by cases h; trivial
  | (_, _) :: _, _, h => by
    obtain ⟨v, hv, h⟩ := Option.bind_eq_some_iff.mp h
    obtain ⟨fs, hfs, rfl⟩ := Option.map_eq_some_iff.mp h
    exact ⟨canonical_json hv, canonical_jsonFields hfs⟩

end

/-! ## Written and read again -/

variable (doubles) in
/-- The double that is read from the digits of another. -/
def F64.relayed (x : F64) : F64 := (doubles.read (doubles.literal x)).getD x

variable (doubles) in
def Number.relayed : Number → Number
  | .float x => .float (x.relayed doubles)
  | n => n

variable (doubles) in
mutual

/-- The value with every double read again. -/
def Json.relayed : Json → Json
  | .number n => .number (n.relayed doubles)
  | .array elements => .array (Json.relayedElements elements)
  | .object fields => .object (Json.relayedFields fields)
  | v => v

def Json.relayedElements : List Json → List Json
  | [] => []
  | v :: vs => v.relayed :: Json.relayedElements vs

def Json.relayedFields : List (String × Json) → List (String × Json)
  | [] => []
  | (k, v) :: fs => (k, v.relayed) :: Json.relayedFields fs

end

theorem relayedElements_eq (vs : List Json) :
    Json.relayedElements doubles vs = vs.map (Json.relayed doubles) := by
  induction vs with
  | nil => rfl
  | cons v vs ih => exact congrArg (List.cons _) ih

theorem relayedFields_eq (fs : List (String × Json)) :
    Json.relayedFields doubles fs = fs.map (Prod.map id (Json.relayed doubles)) := by
  induction fs with
  | nil => rfl
  | cons f fs ih => exact congrArg (List.cons _) ih

/-- What is written of a double is no integer. -/
theorem number_literal_float {x : F64} (h : x.isFinite = true) :
    (doubles.literal x).number doubles = some (.float (x.relayed doubles)) := by
  obtain ⟨y, hy⟩ := doubles.readable x h
  have hinteger : ¬(doubles.literal x).isInteger = true := by
    intro hinteger
    obtain ⟨hplain, -⟩ := Bool.and_eq_true_iff.mp hinteger
    obtain ⟨hfraction, hexponent⟩ := Bool.and_eq_true_iff.mp hplain
    rcases doubles.marked x h with hmarked | hmarked
    · exact hmarked (of_decide_eq_true hfraction)
    · exact hmarked (Option.isNone_iff_eq_none.mp hexponent)
  rw [Literal.number, if_neg hinteger, F64.relayed, hy]
  rfl

theorem json_number_document {n : Number} (h : n.Canonical) :
    ((n.literal doubles).elim .null Document.number).json doubles =
      some (.number (n.relayed doubles)) := by
  cases n with
  | posInt n =>
    change ((Literal.ofInt n.toNat).number doubles).map Json.number = _
    rw [number_ofInt_of_nonneg n.toNat_lt, UInt64.ofNat_toNat]
    rfl
  | negInt n =>
    have hneg : n.toInt < 0 := by simpa using Int64.lt_iff_toInt_lt.mp h
    change ((Literal.ofInt n.toInt).number doubles).map Json.number = _
    rw [number_ofInt_of_neg hneg n.le_toInt, Int64.ofInt_toInt]
    rfl
  | float x =>
    have hfinite : x.isFinite = true := h
    rw [Number.literal, if_pos hfinite]
    change ((doubles.literal x).number doubles).map Json.number = _
    rw [number_literal_float hfinite]
    rfl

mutual

/-- What is read of the text of a value. -/
theorem json_document : ∀ {v : Json}, v.Canonical →
    (v.document doubles).json doubles = some (v.relayed doubles)
  | .null, _ => rfl
  | .bool _, _ => rfl
  | .string _, _ => rfl
  | .number _, h => json_number_document h
  | .array _, h => congrArg (Option.map Json.array) (json_documentElements h)
  | .object _, h => congrArg (Option.map Json.object) (json_documentFields h)

theorem json_documentElements : ∀ {vs : List Json}, Json.CanonicalElements vs →
    Document.jsonElements doubles (Json.documentElements doubles vs) =
      some (Json.relayedElements doubles vs)
  | [], _ => rfl
  | _ :: _, h => by
    rw [Json.documentElements, Document.jsonElements, json_document h.1, json_documentElements h.2]
    rfl

theorem json_documentFields : ∀ {fs : List (String × Json)}, Json.CanonicalFields fs →
    Document.jsonFields doubles (Json.documentFields doubles fs) =
      some (Json.relayedFields doubles fs)
  | [], _ => rfl
  | (_, _) :: _, h => by
    rw [Json.documentFields, Document.jsonFields, json_document h.1, json_documentFields h.2]
    rfl

end

end Doubles

/-! ## Samples -/

/-- `0.5`. -/
def half : F64 := ⟨0x3FE0000000000000⟩

/-- `1e16`. -/
def tenToSixteen : F64 := ⟨0x4341C37937E08000⟩

/-- `f64::MAX`. -/
def greatest : F64 := ⟨0x7FEFFFFFFFFFFFFF⟩

/-- `7.101215824554616e260`, which is read as the double above it. -/
def drifting : F64 := ⟨0x761717C13CCBD1B8⟩

/-- `7.101215824554617e260`, and so is this one. -/
def drifted : F64 := ⟨0x761717C13CCBD1B9⟩

/-- `7.101215824554618e260`, and so is this one. -/
def driftedTwice : F64 := ⟨0x761717C13CCBD1BA⟩

/-- `7.101215824554619e260`, which is read as itself. -/
def settled : F64 := ⟨0x761717C13CCBD1BB⟩

def sampleLiteral (x : F64) : Literal :=
  if x = half then ⟨false, 5, 1, none⟩
  else if x = tenToSixteen then ⟨false, 1, 0, some 16⟩
  else if x = greatest then ⟨false, 17976931348623157, 16, some 308⟩
  else if x = drifting then ⟨false, 7101215824554616, 15, some 260⟩
  else if x = drifted then ⟨false, 7101215824554617, 15, some 260⟩
  else if x = driftedTwice then ⟨false, 7101215824554618, 15, some 260⟩
  else if x = settled then ⟨false, 7101215824554619, 15, some 260⟩
  else ⟨false, 0, 1, none⟩

theorem sampleLiteral_marked (x : F64) :
    (sampleLiteral x).fraction ≠ 0 ∨ (sampleLiteral x).exponent ≠ none := by
  unfold sampleLiteral
  split_ifs <;> simp

/-- What the parser makes of the decimals of these doubles, with an exponent and without. -/
def sampleRead (l : Literal) : Option F64 :=
  if l = ⟨false, 5, 1, none⟩ then some half
  else if l = ⟨false, 1, 0, some 16⟩ then some tenToSixteen
  else if l = ⟨false, 17976931348623157, 16, some 308⟩ then some greatest
  else if l = ⟨false, 7101215824554616, 15, some 260⟩ then some drifted
  else if l = ⟨false, 7101215824554617, 15, some 260⟩ then some driftedTwice
  else if l = ⟨false, 7101215824554618, 15, some 260⟩ then some settled
  else if l = ⟨false, 7101215824554619, 15, some 260⟩ then some settled
  else if l = ⟨false, 17976931348623157 * 10 ^ 292, 0, none⟩ then none
  else some ⟨0⟩

/-- The runtime at the Unix epoch, writing the samples. -/
def Runtime.sample : Runtime :=
  { Runtime.atEpoch [] with formatDouble := fun x => (sampleLiteral x).text }

def Doubles.sample : Doubles Runtime.sample where
  literal := sampleLiteral
  read := sampleRead
  ofInteger := fun n => if n = 10 ^ 16 then tenToSixteen else ⟨0⟩
  written := fun _ _ => rfl
  marked := fun x _ => sampleLiteral_marked x
  readable := by
    intro x _
    have hmarked := sampleLiteral_marked x
    unfold sampleRead
    generalize sampleLiteral x = l at hmarked
    by_cases hplain : l = ⟨false, 17976931348623157 * 10 ^ 292, 0, none⟩
    · rw [hplain] at hmarked
      exact absurd hmarked (by simp)
    · rw [if_neg hplain]
      split_ifs <;> exact ⟨_, rfl⟩
  read_finite := by
    intro l x h
    unfold sampleRead at h
    split_ifs at h <;> cases h <;> decide
  ofInteger_finite := by
    intro n _
    split_ifs <;> decide

end LensoFlags
