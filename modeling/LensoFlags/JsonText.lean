import LensoFlags.Json
import LensoFlags.Lib.Decimal
import LensoFlags.Lib.Readable

/-!
# The text of a JSON value determines it

The digests of the service are over the text `serde_json` writes. What the text says of a value
hangs on the float printer only where the value has doubles.

1. `reads_string`: a string and what follows it, from the escapes.
2. `Printed`: what is taken from the float printer.
3. `Json.reads`, `Json.render_inj`: a value and what follows it.
-/

namespace LensoFlags

open Readable

/-! ## Strings -/

def hexValue (c : Char) : ℕ := if c.toNat < 97 then c.toNat - 48 else c.toNat - 87

/-- The character an escape of two characters stands for. -/
def namedEscape (c : Char) : Char :=
  if c = 'n' then '\n'
  else if c = 'r' then '\r'
  else if c = 't' then '\t'
  else if c = 'b' then Char.ofNat 8
  else if c = 'f' then Char.ofNat 12
  else c

/-- One character of a string from its escape, and what follows. -/
def unescape : List Char → Option (Char × List Char)
  | [] => none
  | [c] => some (c, [])
  | c :: kind :: rest =>
      if c ≠ '\\' then some (c, kind :: rest)
      else if kind = 'u' then
        match rest with
        | _ :: _ :: high :: low :: rest => some (Char.ofNat (16 * hexValue high + hexValue low), rest)
        | _ => none
      else some (namedEscape kind, rest)

theorem hexValue_hexDigit : ∀ n < 32,
    Char.ofNat (16 * hexValue (hexDigit (n / 16)) + hexValue (hexDigit (n % 16))) =
      Char.ofNat n := by decide

theorem unescape_of_ne {c : Char} (h : c ≠ '\\') (rest : List Char) :
    unescape (c :: rest) = some (c, rest) := by
  cases rest with
  | nil => rfl
  | cons kind rest => exact if_pos h

theorem escaped_toList (high low : Char) :
    ("\\u00" ++ String.ofList [high, low]).toList = ['\\', 'u', '0', '0', high, low] := by
  simp

theorem unescape_escapeChar (c : Char) (rest : List Char) :
    unescape ((escapeChar c).toList ++ rest) = some (c, rest) := by
  unfold escapeChar
  split_ifs with hquote hbackslash hn hr ht hb hf hcontrol
  · rw [hquote]; rfl
  · rw [hbackslash]; rfl
  · rw [hn]; rfl
  · rw [hr]; rfl
  · rw [ht]; rfl
  · rw [show c = Char.ofNat 8 from Char.toNat_inj.mp hb]; rfl
  · rw [show c = Char.ofNat 12 from Char.toNat_inj.mp hf]; rfl
  · have hvalue := hexValue_hexDigit c.toNat hcontrol
    rw [Char.ofNat_toNat] at hvalue
    rw [escaped_toList]
    exact congrArg (fun c => some (c, rest)) hvalue
  · rw [String.toList_ofList]
    exact unescape_of_ne hbackslash rest

/-- No escape begins with the closing quote. -/
theorem opens_escapeChar (c : Char) : Opens '"' (fun c => (escapeChar c).toList) c := by
  change ∃ y rest, (escapeChar c).toList = y :: rest ∧ y ≠ '"'
  unfold escapeChar
  split_ifs with hquote hbackslash hn hr ht hb hf hcontrol
  case neg => exact ⟨c, [], String.toList_ofList, hquote⟩
  all_goals first
    | exact ⟨'\\', _, rfl, by decide⟩
    | exact ⟨'\\', _, escaped_toList _ _, by decide⟩

theorem renderString_toList (s : String) : (renderString s).toList =
    '"' :: terminated '"' (fun c => (escapeChar c).toList) s.toList := by
  simp [renderString, terminated, List.flatMap_map]

theorem reads_string (s : String) :
    Reads (fun _ => True) Anything (fun s => (renderString s).toList) s := by
  have hchars : Reads (fun _ => True) Anything
      (terminated '"' fun c => (escapeChar c).toList) s.toList :=
    (reads_terminated (P := fun _ => True) (fun _ _ => trivial)
      (fun c _ => reads_of_decode (fun c _ => unescape_escapeChar c) trivial)
      (fun c _ => opens_escapeChar c) (fun _ => trivial) fun _ _ _ => trivial).mono
        (fun _ _ _ _ => trivial) fun _ _ => trivial
  intro t rest rest' _ _ _ heq
  simp only [renderString_toList, List.cons_append] at heq
  obtain ⟨hlist, hrests⟩ :=
    hchars t.toList rest rest' trivial trivial trivial (List.cons.inj heq).2
  exact ⟨String.toList_inj.mp hlist, hrests⟩

/-! ## Numbers -/

def IsNumberChar (c : Char) : Prop := c.isDigit ∨ c ∈ ['-', '+', '.', 'e']

instance (c : Char) : Decidable (IsNumberChar c) := inferInstanceAs (Decidable (_ ∨ _))

/-- The float printer on finite doubles: the characters of a number, a point or an exponent among
them, and no two doubles alike. -/
structure Printed (rt : Runtime) : Prop where
  number : ∀ x, x.isFinite → ∀ c ∈ (rt.formatDouble x).toList, IsNumberChar c
  marked : ∀ x, x.isFinite → '.' ∈ (rt.formatDouble x).toList ∨ 'e' ∈ (rt.formatDouble x).toList
  distinct : ∀ x y, x.isFinite → y.isFinite → rt.formatDouble x = rt.formatDouble y → x = y

/-- The invariant of `serde_json::Number`. -/
def Number.Canonical : Number → Prop
  | .posInt _ => True
  | .negInt n => n < 0
  | .float x => x.isFinite

theorem digits_chars (n : ℕ) : ∀ c ∈ n.repr.toList, c.isDigit := by
  intro c hc
  rw [Nat.toList_repr] at hc
  exact Nat.isDigit_of_mem_toDigits (b := 10) (n := n) (by decide) (by decide) hc

theorem integer_chars (n : Int) : ∀ c ∈ (toString n).toList, c.isDigit ∨ c = '-' := by
  intro c hc
  rw [Int.toString_eq_repr, Int.repr_eq_if] at hc
  split at hc
  · exact .inl (digits_chars _ c hc)
  · rw [String.toList_append] at hc
    rcases List.mem_append.mp hc with hminus | hdigits
    · exact .inr (List.mem_singleton.mp hminus)
    · exact .inl (digits_chars _ c hdigits)

theorem integer_ne_nil (n : Int) : (toString n).toList ≠ [] := by
  rw [Int.toString_eq_repr, Int.repr_eq_if]
  split
  · rw [Nat.toList_repr]
    exact Nat.toDigits_ne_nil
  · rw [String.toList_append]
    exact List.cons_ne_nil _ _

section Printed

variable {rt : Runtime}

/-- The integer a number is, if it is one. -/
def Number.integer : Number → Option Int
  | .posInt n => some n.toNat
  | .negInt n => some n.toInt
  | .float _ => none

theorem renderNumber_integer {n : Number} {i : Int} (h : n.integer = some i) :
    renderNumber rt n = toString i := by
  cases n with
  | posInt n => cases h; rfl
  | negInt n => cases h; rfl
  | float x => cases h

theorem integer_inj {m n : Number} (hm : m.Canonical) (hn : n.Canonical) {i : Int}
    (hmi : m.integer = some i) (hni : n.integer = some i) : m = n := by
  cases m with
  | posInt m =>
    cases n with
    | posInt n =>
      cases hmi
      exact congrArg Number.posInt (UInt64.toNat_inj.mp (by injection hni with h; omega)).symm
    | negInt n =>
      cases hmi
      injection hni with h
      have hneg := Int64.lt_iff_toInt_lt.mp hn
      rw [h] at hneg
      exact absurd hneg (by simp)
    | float x => cases hni
  | negInt m =>
    cases n with
    | posInt n =>
      cases hni
      injection hmi with h
      have hneg := Int64.lt_iff_toInt_lt.mp hm
      rw [h] at hneg
      exact absurd hneg (by simp)
    | negInt n =>
      cases hmi
      injection hni with h
      exact congrArg Number.negInt (Int64.toInt_inj.mp h).symm
    | float x => cases hni
  | float x => cases hmi

theorem number_chars (hprinted : Printed rt) {n : Number} (h : n.Canonical) :
    ∀ c ∈ (renderNumber rt n).toList, IsNumberChar c := by
  have hinteger : ∀ i : Int, ∀ c ∈ (toString i).toList, IsNumberChar c := fun i c hc =>
    (integer_chars i c hc).imp id fun hminus => by rw [hminus]; decide
  cases n with
  | posInt n => exact hinteger n.toNat
  | negInt n => exact hinteger n.toInt
  | float x =>
    have hfinite : x.isFinite = true := h
    rw [renderNumber, if_pos hfinite]
    exact hprinted.number x hfinite

/-- No integer is written as a double is. -/
theorem integer_ne_double (hprinted : Printed rt) {x : F64} (hx : x.isFinite) (i : Int) :
    toString i ≠ rt.formatDouble x := by
  intro heq
  have hnot : ∀ c ∈ (rt.formatDouble x).toList, c.isDigit ∨ c = '-' := by
    rw [← heq]
    exact integer_chars i
  rcases hprinted.marked x hx with hpoint | hexponent
  · exact absurd (hnot _ hpoint) (by decide)
  · exact absurd (hnot _ hexponent) (by decide)

theorem renderNumber_inj (hprinted : Printed rt) {m n : Number} (hm : m.Canonical)
    (hn : n.Canonical) (h : renderNumber rt m = renderNumber rt n) : m = n := by
  have hfloat : ∀ {x : F64}, x.isFinite → renderNumber rt (.float x) = rt.formatDouble x :=
    fun hx => if_pos hx
  cases hmi : m.integer with
  | some i =>
    rw [renderNumber_integer hmi] at h
    cases hni : n.integer with
    | some j =>
      rw [renderNumber_integer hni] at h
      rw [Decimal.toString_inj h] at hmi
      exact integer_inj hm hn hmi hni
    | none =>
      cases n with
      | float x => exact absurd (h.trans (hfloat hn)) (integer_ne_double hprinted hn i)
      | _ => cases hni
  | none =>
    cases m with
    | float x =>
      rw [hfloat hm] at h
      cases hni : n.integer with
      | some j =>
        rw [renderNumber_integer hni] at h
        exact absurd h.symm (integer_ne_double hprinted hm j)
      | none =>
        cases n with
        | float y => rw [hprinted.distinct x y hm hn (h.trans (hfloat hn))]
        | _ => cases hni
    | _ => cases hmi

theorem reads_number (hprinted : Printed rt) {n : Number} (hn : n.Canonical) :
    Reads Number.Canonical (Ends IsNumberChar) (fun n => (renderNumber rt n).toList) n :=
  reads_run (fun _ hm heq => renderNumber_inj hprinted hn hm (String.toList_inj.mp heq))
    (fun _ hm => number_chars hprinted hm) hn

/-! ## Values -/

mutual

/-- Every number of the value is canonical. -/
def Json.Canonical : Json → Prop
  | .number n => n.Canonical
  | .array elements => Json.CanonicalElements elements
  | .object fields => Json.CanonicalFields fields
  | _ => True

def Json.CanonicalElements : List Json → Prop
  | [] => True
  | v :: vs => Json.Canonical v ∧ Json.CanonicalElements vs

def Json.CanonicalFields : List (String × Json) → Prop
  | [] => True
  | (_, v) :: fs => Json.Canonical v ∧ Json.CanonicalFields fs

end

theorem canonicalElements_iff {vs : List Json} :
    Json.CanonicalElements vs ↔ ∀ v ∈ vs, v.Canonical := by
  induction vs with
  | nil => exact iff_of_true trivial fun _ h => nomatch h
  | cons v vs ih => rw [Json.CanonicalElements, ih, List.forall_mem_cons]

theorem canonicalFields_iff {fs : List (String × Json)} :
    Json.CanonicalFields fs ↔ ∀ f ∈ fs, f.2.Canonical := by
  induction fs with
  | nil => exact iff_of_true trivial fun _ h => nomatch h
  | cons f fs ih => rw [Json.CanonicalFields, ih, List.forall_mem_cons]

theorem listed_intercalate {α : Type} (code : α → String) (close : Char) (xs : List α) :
    (",".intercalate (xs.map code)).toList ++ [close] =
      listed ',' close (fun x => (code x).toList) xs := by
  cases xs with
  | nil => rfl
  | cons x xs =>
    rw [listed]
    induction xs generalizing x with
    | nil => simp [terminated]
    | cons y ys ih =>
      rw [List.map_cons, List.map_cons, String.intercalate_cons_cons, String.toList_append,
        String.toList_append, List.append_assoc, ← List.map_cons, ih]
      simp [terminated]

variable (rt) in
def fieldText (field : String × Json) : String :=
  renderString field.1 ++ ":" ++ field.2.render rt

theorem renderElements_eq (vs : List Json) :
    Json.renderElements rt vs = vs.map (Json.render rt) := by
  induction vs with
  | nil => rfl
  | cons v vs ih => rw [Json.renderElements, ih, List.map_cons]

theorem renderFields_eq (fs : List (String × Json)) :
    Json.renderFields rt fs = fs.map (fieldText rt) := by
  induction fs with
  | nil => rfl
  | cons f fs ih =>
    rw [Json.renderFields, ih, List.map_cons]
    rfl

theorem render_array_toList (vs : List Json) : ((Json.array vs).render rt).toList =
    '[' :: listed ',' ']' (fun v => (v.render rt).toList) vs := by
  rw [Json.render, String.toList_append, String.toList_append, renderElements_eq,
    List.append_assoc, ← listed_intercalate]
  rfl

theorem render_object_toList (fs : List (String × Json)) : ((Json.object fs).render rt).toList =
    '\x7b' :: listed ',' '\x7d' (fun f => (fieldText rt f).toList) fs := by
  rw [Json.render, String.toList_append, String.toList_append, renderFields_eq,
    List.append_assoc, ← listed_intercalate]
  rfl

/-- What the text of a value begins with, `0` for the first character of any number. -/
def Json.initial : Json → Char
  | .null => 'n'
  | .bool true => 't'
  | .bool false => 'f'
  | .number _ => '0'
  | .string _ => '"'
  | .array _ => '['
  | .object _ => '\x7b'

def initialOf (c : Char) : Char := if IsNumberChar c then '0' else c

theorem opens_number (hprinted : Printed rt) {n : Number} (h : n.Canonical) :
    ∃ c rest, (renderNumber rt n).toList = c :: rest ∧ IsNumberChar c := by
  have hchars := number_chars hprinted h
  have hne : (renderNumber rt n).toList ≠ [] := by
    cases hi : n.integer with
    | some i =>
      rw [renderNumber_integer hi]
      exact integer_ne_nil i
    | none =>
      cases n with
      | float x =>
        have hfinite : x.isFinite = true := h
        rw [renderNumber, if_pos hfinite]
        rcases hprinted.marked x hfinite with hpoint | hexponent
        · exact List.ne_nil_of_mem hpoint
        · exact List.ne_nil_of_mem hexponent
      | _ => cases hi
  cases hlist : (renderNumber rt n).toList with
  | nil => exact absurd hlist hne
  | cons c rest => exact ⟨c, rest, rfl, hchars c (by rw [hlist]; exact List.mem_cons_self)⟩

theorem render_initial (hprinted : Printed rt) {v : Json} (h : v.Canonical) :
    ∃ c rest, (v.render rt).toList = c :: rest ∧ initialOf c = v.initial := by
  cases v with
  | null => exact ⟨'n', _, by rw [Json.render]; rfl, rfl⟩
  | bool b =>
    cases b with
    | true => exact ⟨'t', _, by rw [Json.render]; rfl, rfl⟩
    | false => exact ⟨'f', _, by rw [Json.render]; rfl, rfl⟩
  | number n =>
    obtain ⟨c, rest, htext, hc⟩ := opens_number hprinted h
    exact ⟨c, rest, by rw [Json.render, htext], if_pos hc⟩
  | string s => exact ⟨'"', _, by rw [Json.render, renderString_toList], rfl⟩
  | array vs => exact ⟨'[', _, render_array_toList vs, rfl⟩
  | object fs => exact ⟨'\x7b', _, render_object_toList fs, rfl⟩

theorem initial_ne (v : Json) : v.initial ≠ ']' := by
  rcases v with _ | (_ | _) | _ | _ | _ | _ <;> simp [Json.initial]

/-- No value begins as a list of values ends. -/
theorem opens_render (hprinted : Printed rt) {v : Json} (h : v.Canonical) :
    Opens ']' (fun v => (v.render rt).toList) v := by
  obtain ⟨c, rest, htext, hc⟩ := render_initial hprinted h
  refine ⟨c, rest, htext, ?_⟩
  rintro rfl
  exact initial_ne v hc.symm

/-- Values of one kind, the same literal if they are one. -/
inductive Json.Alike : Json → Json → Prop
  | null : Json.Alike .null .null
  | bool {b : Bool} : Json.Alike (.bool b) (.bool b)
  | number {m n : Number} : Json.Alike (.number m) (.number n)
  | string {s t : String} : Json.Alike (.string s) (.string t)
  | array {vs ws : List Json} : Json.Alike (.array vs) (.array ws)
  | object {fs gs : List (String × Json)} : Json.Alike (.object fs) (.object gs)

theorem alike_of_initial {v w : Json} (h : v.initial = w.initial) : v.Alike w := by
  rcases v with _ | (_ | _) | _ | _ | _ | _ <;> rcases w with _ | (_ | _) | _ | _ | _ | _ <;>
    first | constructor | simp only [Json.initial, Char.reduceEq] at h

/-- Two texts with one beginning are of values of one kind. -/
theorem alike_of_text (hprinted : Printed rt) {v w : Json} (hv : v.Canonical) (hw : w.Canonical)
    {rest rest' : List Char} (h : (v.render rt).toList ++ rest = (w.render rt).toList ++ rest') :
    v.Alike w := by
  obtain ⟨c, more, hvtext, hvinitial⟩ := render_initial hprinted hv
  obtain ⟨d, more', hwtext, hwinitial⟩ := render_initial hprinted hw
  rw [hvtext, hwtext] at h
  exact alike_of_initial (by rw [← hvinitial, ← hwinitial, (List.cons.inj h).1])

theorem opens_field (field : String × Json) :
    Opens '\x7d' (fun f => (fieldText rt f).toList) field := by
  refine ⟨'"', terminated '"' (fun c => (escapeChar c).toList) field.1.toList ++
    ':' :: (field.2.render rt).toList, ?_, by decide⟩
  simp [fieldText, renderString_toList]

/-- A field is told if its value is. -/
theorem reads_field {name : String} {v : Json}
    (h : Reads Json.Canonical (Ends IsNumberChar) (fun v => (v.render rt).toList) v) :
    Reads (fun f : String × Json => f.2.Canonical) (Ends IsNumberChar)
      (fun f => (fieldText rt f).toList) (name, v) := by
  have hseq := (reads_string name).seq (h.behind ':') fun _ _ _ _ => trivial
  rintro ⟨name', w⟩ rest rest' hw hrest hrest' heq
  refine hseq (name', w) rest rest' ⟨trivial, hw⟩ hrest hrest' ?_
  simpa [fieldText] using heq

mutual

/-- The text tells a value and what follows it, unless the text of a number goes on there. -/
theorem Json.reads (hprinted : Printed rt) : ∀ v : Json, v.Canonical →
    Reads Json.Canonical (Ends IsNumberChar) (fun v => (v.render rt).toList) v
  | .null, hv => by
    intro w rest rest' hw _ _ h
    cases alike_of_text hprinted hv hw h
    exact ⟨rfl, List.append_cancel_left h⟩
  | .bool b, hv => by
    intro w rest rest' hw _ _ h
    cases alike_of_text hprinted hv hw h
    exact ⟨rfl, List.append_cancel_left h⟩
  | .number n, hv => by
    intro w rest rest' hw hrest hrest' h
    cases alike_of_text hprinted hv hw h
    obtain ⟨rfl, hrests⟩ := reads_number hprinted hv _ rest rest' hw hrest hrest' h
    exact ⟨rfl, hrests⟩
  | .string s, hv => by
    intro w rest rest' hw _ _ h
    cases alike_of_text hprinted hv hw h
    obtain ⟨rfl, hrests⟩ := reads_string s _ rest rest' trivial trivial trivial h
    exact ⟨rfl, hrests⟩
  | .array vs, hv => by
    intro w rest rest' hw _ _ h
    cases alike_of_text hprinted hv hw h
    simp only [render_array_toList, List.cons_append] at h
    have hlist := reads_listed ',' (canonicalElements_iff.mp hv)
      (Json.reads_elements hprinted vs hv) (fun _ => opens_render hprinted) (by decide)
      (fun _ => ends_cons (by decide)) fun _ => ends_cons (by decide)
    obtain ⟨rfl, hrests⟩ :=
      hlist _ rest rest' (canonicalElements_iff.mp hw) trivial trivial (List.cons.inj h).2
    exact ⟨rfl, hrests⟩
  | .object fs, hv => by
    intro w rest rest' hw _ _ h
    cases alike_of_text hprinted hv hw h
    simp only [render_object_toList, List.cons_append] at h
    have hlist := reads_listed ',' (canonicalFields_iff.mp hv)
      (Json.reads_fields hprinted fs hv) (fun f _ => opens_field f) (by decide)
      (fun _ => ends_cons (by decide)) fun _ => ends_cons (by decide)
    obtain ⟨rfl, hrests⟩ :=
      hlist _ rest rest' (canonicalFields_iff.mp hw) trivial trivial (List.cons.inj h).2
    exact ⟨rfl, hrests⟩

theorem Json.reads_elements (hprinted : Printed rt) : ∀ vs : List Json, Json.CanonicalElements vs →
    ∀ v ∈ vs, Reads Json.Canonical (Ends IsNumberChar) (fun v => (v.render rt).toList) v
  | [], _ => fun _ hmem => absurd hmem List.not_mem_nil
  | v :: vs, h => fun w hmem => by
    rcases List.mem_cons.mp hmem with heq | hmem
    · rw [heq]
      exact Json.reads hprinted v h.1
    · exact Json.reads_elements hprinted vs h.2 w hmem

theorem Json.reads_fields (hprinted : Printed rt) : ∀ fs : List (String × Json),
    Json.CanonicalFields fs → ∀ f ∈ fs, Reads (fun f : String × Json => f.2.Canonical)
      (Ends IsNumberChar) (fun f => (fieldText rt f).toList) f
  | [], _ => fun _ hmem => absurd hmem List.not_mem_nil
  | (name, v) :: fs, h => fun f hmem => by
    rcases List.mem_cons.mp hmem with heq | hmem
    · rw [heq]
      exact reads_field (Json.reads hprinted v h.1)
    · exact Json.reads_fields hprinted fs h.2 f hmem

end

/-- Values with one text are equal. -/
theorem Json.render_inj (hprinted : Printed rt) {v w : Json} (hv : v.Canonical) (hw : w.Canonical)
    (h : v.render rt = w.render rt) : v = w :=
  (Json.reads hprinted v hv).inj ends_nil hw (congrArg String.toList h)

end Printed

end LensoFlags
