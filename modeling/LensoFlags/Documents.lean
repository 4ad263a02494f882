import LensoFlags.Lib.Entries
import LensoFlags.Lib.Table
import LensoFlags.Service
import Mathlib.Data.String.Basic

/-!
# JSON documents

A document is a JSON value as it stands in a text: the fields of an object in their order, and a name
perhaps more than once. `serde_json` reads it as a value of its own, whose objects are maps in the
order of insertion, or at once as a struct of the wire.

1. `Json.value_value`: a value is a document that is read as itself.
2. `Stable`: what is read of a document is also read of its value, and of any other arrangement.
3. `Commutes`: the same for what holds values itself.
-/

namespace LensoFlags

/-! ## Values -/

mutual

/-- The document with maps for its objects. -/
def Json.arrange (m : List (String × Json) → List (String × Json)) : Json → Json
  | .array elements => .array (Json.arrangeElements m elements)
  | .object fields => .object (m (Json.arrangeFields m fields))
  | v => v

def Json.arrangeElements (m : List (String × Json) → List (String × Json)) :
    List Json → List Json
  | [] => []
  | v :: vs => v.arrange m :: Json.arrangeElements m vs

def Json.arrangeFields (m : List (String × Json) → List (String × Json)) :
    List (String × Json) → List (String × Json)
  | [] => []
  | (k, v) :: fs => (k, v.arrange m) :: Json.arrangeFields m fs

end

/-- The `serde_json::Value` of a document, with the feature `preserve_order`. Of the fields of one
name the last one counts, at the place of the first. -/
def Json.value : Json → Json := Json.arrange Entries.inOrder

/-- The document without the order of its fields. -/
def Json.sorted : Json → Json := Json.arrange Entries.ofList

theorem arrangeElements_eq (m : List (String × Json) → List (String × Json)) (vs : List Json) :
    Json.arrangeElements m vs = vs.map (Json.arrange m) := by
  induction vs with
  | nil => rfl
  | cons v vs ih => exact congrArg (List.cons _) ih

theorem arrangeFields_eq (m : List (String × Json) → List (String × Json))
    (fs : List (String × Json)) :
    Json.arrangeFields m fs = fs.map (Prod.map id (Json.arrange m)) := by
  induction fs with
  | nil => rfl
  | cons f fs ih => exact congrArg (List.cons _) ih

/-- The maps of a document: the last field of a name counts, and neither the values nor an earlier
map of the same fields makes a difference. -/
structure Arrangement (m : List (String × Json) → List (String × Json)) : Prop where
  last : Entries.LastCounts m
  map : ∀ (f : Json → Json) fs, m (fs.map (Prod.map id f)) = (m fs).map (Prod.map id f)
  again : ∀ fs, m (Entries.inOrder fs) = m fs

theorem arrangement_value : Arrangement Entries.inOrder where
  last := Entries.lastCounts_inOrder
  map := Entries.inOrder_map
  again := Entries.inOrder_of_lastCounts Entries.lastCounts_inOrder

theorem arrangement_sorted : Arrangement Entries.ofList where
  last := Entries.lastCounts_ofList
  map := Entries.ofList_map
  again := Entries.ofList_of_lastCounts Entries.lastCounts_inOrder

section Arrange

variable {m m' : List (String × Json) → List (String × Json)}

mutual

/-- One arrangement after another. -/
theorem Json.arrange_arrange
    (hm : ∀ (f : Json → Json) fs, m (fs.map (Prod.map id f)) = (m fs).map (Prod.map id f))
    (hm' : ∀ (f : Json → Json) fs, m' (fs.map (Prod.map id f)) = (m' fs).map (Prod.map id f))
    (v : Json) : (v.arrange m').arrange m = v.arrange (m ∘ m') := by
  cases v with
  | array elements => exact congrArg Json.array (Json.arrangeElements_arrange hm hm' elements)
  | object fields =>
    change Json.object (m (Json.arrangeFields m (m' (Json.arrangeFields m' fields)))) =
      Json.object (m (m' (Json.arrangeFields (m ∘ m') fields)))
    rw [arrangeFields_eq m (m' _), ← hm', ← arrangeFields_eq m,
      Json.arrangeFields_arrange hm hm' fields]
  | _ => rfl

theorem Json.arrangeElements_arrange
    (hm : ∀ (f : Json → Json) fs, m (fs.map (Prod.map id f)) = (m fs).map (Prod.map id f))
    (hm' : ∀ (f : Json → Json) fs, m' (fs.map (Prod.map id f)) = (m' fs).map (Prod.map id f))
    (vs : List Json) : Json.arrangeElements m (Json.arrangeElements m' vs) =
      Json.arrangeElements (m ∘ m') vs := by
  cases vs with
  | nil => rfl
  | cons v vs =>
    exact congrArg₂ List.cons (v.arrange_arrange hm hm') (Json.arrangeElements_arrange hm hm' vs)

theorem Json.arrangeFields_arrange
    (hm : ∀ (f : Json → Json) fs, m (fs.map (Prod.map id f)) = (m fs).map (Prod.map id f))
    (hm' : ∀ (f : Json → Json) fs, m' (fs.map (Prod.map id f)) = (m' fs).map (Prod.map id f))
    (fs : List (String × Json)) : Json.arrangeFields m (Json.arrangeFields m' fs) =
      Json.arrangeFields (m ∘ m') fs := by
  cases fs with
  | nil => rfl
  | cons f fs =>
    exact congrArg₂ List.cons (congrArg (Prod.mk f.1) (f.2.arrange_arrange hm hm'))
      (Json.arrangeFields_arrange hm hm' fs)

end

/-- An arranged document is a value. -/
theorem Arrangement.value_arrange (hm : Arrangement m) (v : Json) :
    (v.arrange m).value = v.arrange m := by
  rw [Json.value, v.arrange_arrange Entries.inOrder_map hm.map]
  exact congrArg (fun m => v.arrange m) (funext (Entries.inOrder_of_lastCounts hm.last))

theorem Arrangement.arrange_value (hm : Arrangement m) (v : Json) :
    v.value.arrange m = v.arrange m := by
  rw [Json.value, v.arrange_arrange hm.map Entries.inOrder_map]
  exact congrArg (fun m => v.arrange m) (funext hm.again)

end Arrange

theorem Json.value_value (v : Json) : v.value.value = v.value :=
  arrangement_value.value_arrange v

theorem map_eq_self_iff {f : Json → Json} {fields : List (String × Json)} :
    fields.map (Prod.map id f) = fields ↔ ∀ field ∈ fields, f field.2 = field.2 := by
  constructor
  · intro h field hfield
    have hsame := List.map_inj_left.mp (h.trans (List.map_id fields).symm)
    exact congrArg Prod.snd (hsame field hfield)
  · intro h
    refine (List.map_inj_left.mpr fun field hfield => ?_).trans (List.map_id fields)
    exact Prod.ext rfl (h field hfield)

def Json.asBool : Json → Option Bool
  | .bool b => some b
  | _ => none

def Json.asString : Json → Option String
  | .string s => some s
  | _ => none

def Json.asI64 : Json → Option Int64
  | .number (.posInt n) => if n.toNat < 2 ^ 63 then some n.toInt64 else none
  | .number (.negInt n) => some n
  | _ => none

def Json.asObject : Json → Option (List (String × Json))
  | .object fields => some fields
  | _ => none

def Json.asList {α : Type} (f : Json → Option α) : Json → Option (List α)
  | .array elements => optionAll f elements
  | _ => none

/-- A field of a struct. -/
def fieldValue {α : Type} (f : Json → Option α) (name : String) (fields : List (String × Json)) :
    Option α :=
  (fields.lookup name).bind f

/-- An `Option`. -/
def Json.asOption {α : Type} (f : Json → Option α) : Json → Option (Option α)
  | .null => some none
  | v => (f v).map some

/-- A `BTreeMap<String, Value>`. Its own fields are sorted, those of its values are not. -/
def Json.asMap : Json → Option (List (String × Json))
  | .object fields => some (Entries.ofList (fields.map (Prod.map id Json.value)))
  | _ => none

/-- The name of a variant without fields: a string, or an object with nothing under the name. -/
def Json.asVariant : Json → Option String
  | .string name => some name
  | .object [(name, .null)] => some name
  | _ => none

/-- `as f64` on an integer. -/
def Number.toF64 (ofInteger : Int → F64) : Number → F64
  | .posInt n => ofInteger n.toNat
  | .negInt n => ofInteger n.toInt
  | .float x => x

def Json.asDouble (ofInteger : Int → F64) : Json → Option F64
  | .number n => some (n.toF64 ofInteger)
  | _ => none

/-- The only field of the name. A missing one and a second one are errors, others do not matter. -/
def onlyField (fields : List (String × Json)) (name : String) : Option (String × Json) :=
  match fields.filter fun field => decide (field.1 = name) with
  | [field] => some field
  | _ => none

/-- The fields of a derived `Deserialize`, all of them required: those of an object, or an array of
their values in the order of the declaration. -/
def structFields (names : List String) : Json → Option (List (String × Json))
  | .object fields => optionAll (onlyField fields) names
  | .array elements => if elements.length = names.length then some (names.zip elements) else none
  | _ => none

/-! ## Reading of values -/

section Stable

variable {m : List (String × Json) → List (String × Json)}

variable (m) in
/-- What is read of a document is also read of the arranged one. -/
def Stable {α : Type} (f : Json → Option α) : Prop :=
  ∀ v a, f v = some a → f (v.arrange m) = some a

variable (m) in
/-- Reading commutes with the arrangement: the values of what is read are arranged as well. -/
def Commutes {α : Type} (f : Json → Option α) (g : α → α) : Prop :=
  ∀ v a, f v = some a → f (v.arrange m) = some (g a)

theorem Stable.commutes {α : Type} {f : Json → Option α} (h : Stable m f) : Commutes m f id := h

theorem stable_asBool : Stable m Json.asBool := by
  intro v a h
  cases v <;> cases h
  rfl

theorem stable_asString : Stable m Json.asString := by
  intro v a h
  cases v <;> cases h
  rfl

theorem stable_asI64 : Stable m Json.asI64 := by
  intro v a h
  cases v with
  | number n => exact h
  | _ => cases h

theorem stable_asDouble (ofInteger : Int → F64) : Stable m (Json.asDouble ofInteger) := by
  intro v a h
  cases v with
  | number n => exact h
  | _ => cases h

theorem stable_asVariant (hm : Arrangement m) : Stable m Json.asVariant := by
  intro v a h
  unfold Json.asVariant at h
  split at h
  · exact h
  · next name =>
    have hone : m [(name, Json.null)] = [(name, .null)] :=
      Entries.singleton_of_lastCounts hm.last (name, .null)
    change (Json.object (m [(name, Json.null)])).asVariant = _
    rw [hone]
    exact h
  · cases h

/-- The entries of a map, arranged. -/
def arrangeMap (m : List (String × Json) → List (String × Json)) (fields : List (String × Json)) :
    List (String × Json) :=
  fields.map (Prod.map id (Json.arrange m))

theorem commutes_asMap (hm : Arrangement m) : Commutes m Json.asMap (arrangeMap m) := by
  intro v fields h
  cases v with
  | object entries =>
    cases h
    change some (Entries.ofList ((m (Json.arrangeFields m entries)).map (Prod.map id Json.value))) =
      some ((Entries.ofList (entries.map (Prod.map id Json.value))).map
        (Prod.map id (Json.arrange m)))
    rw [arrangeFields_eq, ← hm.map, Entries.ofList_of_lastCounts hm.last, ← Entries.ofList_map,
      List.map_map, List.map_map]
    refine congrArg (fun fs => some (Entries.ofList fs)) (List.map_congr_left fun field _ => ?_)
    exact Prod.ext rfl ((hm.value_arrange field.2).trans (hm.arrange_value field.2).symm)
  | _ => cases h

theorem arrange_ne_null {v : Json} (h : v ≠ .null) : v.arrange m ≠ .null := by
  cases v with
  | null => exact absurd rfl h
  | _ => nofun

theorem asOption_of_ne {α : Type} {f : Json → Option α} {v : Json} (h : v ≠ .null) :
    v.asOption f = (f v).map some := by
  cases v with
  | null => exact absurd rfl h
  | _ => rfl

theorem Commutes.asOption {α : Type} {f : Json → Option α} {g : α → α} (hf : Commutes m f g) :
    Commutes m (Json.asOption f) (Option.map g) := by
  intro v a h
  by_cases hnull : v = .null
  · subst hnull
    cases h
    rfl
  · rw [asOption_of_ne hnull, Option.map_eq_some_iff] at h
    obtain ⟨b, hb, rfl⟩ := h
    rw [asOption_of_ne (arrange_ne_null hnull), hf v b hb]
    rfl

theorem Stable.asOption {α : Type} {f : Json → Option α} (hf : Stable m f) :
    Stable m (Json.asOption f) := by
  intro v a h
  rw [hf.commutes.asOption v a h, Option.map_id]
  rfl

theorem Commutes.asList {α : Type} {f : Json → Option α} {g : α → α} (hf : Commutes m f g) :
    Commutes m (Json.asList f) (List.map g) := by
  intro v as h
  cases v with
  | array elements =>
    change optionAll f (Json.arrangeElements m elements) = _
    rw [arrangeElements_eq, optionAll_eq_some, List.forall₂_map_left_iff, List.forall₂_map_right_iff]
    exact (optionAll_eq_some.mp h).imp hf
  | _ => cases h

theorem Stable.asList {α : Type} {f : Json → Option α} (hf : Stable m f) :
    Stable m (Json.asList f) := by
  intro v as h
  rw [hf.commutes.asList v as h, List.map_id]

theorem onlyField_arrange (hm : Arrangement m) {fields : List (String × Json)} {name : String}
    {field : String × Json} (h : onlyField fields name = some field) :
    onlyField (m (Json.arrangeFields m fields)) name = some (field.1, field.2.arrange m) := by
  have hone : fields.filter (fun field => decide (field.1 = name)) = [field] := by
    unfold onlyField at h
    split at h
    · next heq => rw [heq, Option.some.inj h]
    · cases h
  have harranged : (arrangeMap m fields).filter (fun field => decide (field.1 = name)) =
      [(field.1, field.2.arrange m)] := by
    rw [arrangeMap, List.filter_map]
    exact congrArg (List.map _) hone
  unfold onlyField
  rw [hm.last, arrangeFields_eq]
  rw [arrangeMap] at harranged
  rw [harranged]
  rfl

theorem structFields_arrange (hm : Arrangement m) {names : List String} {doc : Json}
    {fields : List (String × Json)} (h : structFields names doc = some fields) :
    structFields names (doc.arrange m) = some (arrangeMap m fields) := by
  cases doc with
  | object entries =>
    refine optionAll_eq_some.mpr (List.forall₂_map_right_iff.mpr ?_)
    exact (optionAll_eq_some.mp h).imp fun name field hfield => onlyField_arrange hm hfield
  | array elements =>
    change (if elements.length = names.length then _ else _) = _ at h
    change (if (Json.arrangeElements m elements).length = names.length then _ else _) = _
    rw [arrangeElements_eq, List.length_map]
    split at h
    · next hlength =>
      cases h
      rw [if_pos hlength, List.zip_map_right]
      rfl
    · cases h
  | _ => cases h

theorem lookup_arrange {name : String} {v : Json} {fields : List (String × Json)}
    (h : fields.lookup name = some v) :
    (arrangeMap m fields).lookup name = some (v.arrange m) := by
  induction fields with
  | nil => cases h
  | cons field fields ih =>
    obtain ⟨key, w⟩ := field
    change (match name == key with | true => some (w.arrange m) | false => _) = _
    rw [List.lookup_cons] at h
    cases hkey : name == key with
    | true =>
      rw [hkey] at h
      cases h
      rfl
    | false =>
      rw [hkey] at h
      exact ih h

/-! ### The fields of a struct -/

variable (m) in
/-- What is read of the fields of a struct, `k` before and `k'` after they were arranged. -/
def CommutesFields {α : Type} (k k' : List (String × Json) → Option α) (g : α → α) : Prop :=
  ∀ fields a, k fields = some a → k' (arrangeMap m fields) = some (g a)

theorem CommutesFields.done {α : Type} {g : α → α} {a a' : α} (h : a' = g a) :
    CommutesFields m (fun _ => pure a) (fun _ => pure a') g := by
  intro fields b hb
  rw [← Option.some.inj hb, ← h]
  rfl

theorem CommutesFields.field {α β : Type} {f : Json → Option α} {g : α → α} {name : String}
    {k k' : α → List (String × Json) → Option β} {r : β → β} (hf : Commutes m f g)
    (hk : ∀ a, CommutesFields m (k a) (k' (g a)) r) :
    CommutesFields m (fun fields => fieldValue f name fields >>= fun a => k a fields)
      (fun fields => fieldValue f name fields >>= fun a => k' a fields) r := by
  intro fields b h
  obtain ⟨a, ha, hb⟩ := Option.bind_eq_some_iff.mp h
  obtain ⟨v, hv, ha⟩ := Option.bind_eq_some_iff.mp ha
  refine Option.bind_eq_some_iff.mpr ⟨g a, ?_, hk a fields b hb⟩
  rw [fieldValue, lookup_arrange hv]
  exact hf v a ha

theorem Commutes.struct {α : Type} {names : List String}
    {k : List (String × Json) → Option α} {g : α → α} (hm : Arrangement m)
    (hk : CommutesFields m k k g) : Commutes m (fun doc => structFields names doc >>= k) g := by
  intro doc a h
  obtain ⟨fields, hfields, ha⟩ := Option.bind_eq_some_iff.mp h
  exact Option.bind_eq_some_iff.mpr ⟨_, structFields_arrange hm hfields, hk fields a ha⟩

theorem Stable.struct {α : Type} {names : List String}
    {k : List (String × Json) → Option α} (hm : Arrangement m)
    (hk : CommutesFields m k k id) : Stable m fun doc => structFields names doc >>= k :=
  Commutes.struct hm hk

theorem Commutes.map {α β : Type} {f : Json → Option α} {g : α → α} {wrap : α → β} {g' : β → β}
    (hf : Commutes m f g) (hwrap : ∀ a, wrap (g a) = g' (wrap a)) :
    Commutes m (fun doc => (f doc).map wrap) g' := by
  intro v b h
  obtain ⟨a, ha, rfl⟩ := Option.map_eq_some_iff.mp h
  exact Option.map_eq_some_iff.mpr ⟨g a, hf v a ha, hwrap a⟩

theorem Stable.bind {α β : Type} {f : Json → Option α} (hf : Stable m f) (g : α → Option β) :
    Stable m fun doc => (f doc).bind g := by
  intro v b h
  obtain ⟨a, ha, hb⟩ := Option.bind_eq_some_iff.mp h
  exact Option.bind_eq_some_iff.mpr ⟨a, hf v a ha, hb⟩

end Stable

/-! ## Reading what was written -/

theorem asI64_i64 (n : Int64) : (Json.i64 n).asI64 = some n := by
  unfold Json.i64
  split
  · rfl
  · next h =>
    have hlt : n.toInt < 2 ^ 63 := n.toInt_lt
    have hnat : n.toUInt64.toNat < 2 ^ 63 := by
      rw [Int64.toNat_toUInt64_of_le (Int64.not_lt.mp h), Int64.toNatClampNeg]
      omega
    exact if_pos hnat

theorem asOption_option {α : Type} {f : Json → Option α} {g : α → Json} {o : Option α}
    (h : ∀ a, o = some a → g a ≠ .null ∧ f (g a) = some a) :
    (Json.option g o).asOption f = some o := by
  cases o with
  | none => rfl
  | some a =>
    obtain ⟨hne, hread⟩ := h a rfl
    rw [Json.option, asOption_of_ne hne, hread]
    rfl

theorem asList_map {α : Type} {f : Json → Option α} {g : α → Json} {as : List α}
    (h : ∀ a ∈ as, f (g a) = some a) : (Json.array (as.map g)).asList f = some as := by
  refine optionAll_eq_some.mpr (List.forall₂_map_left_iff.mpr ?_)
  exact List.forall₂_same.mpr h

theorem exists_of_asList {α : Type} {f : Json → Option α} {v : Json} {as : List α}
    (h : v.asList f = some as) {a : α} (ha : a ∈ as) :
    ∃ elements, v = .array elements ∧ ∃ w ∈ elements, f w = some a := by
  cases v with
  | array elements =>
    exact ⟨elements, rfl, Table.exists_of_mem_right (optionAll_eq_some.mp h) ha⟩
  | _ => cases h

end LensoFlags
