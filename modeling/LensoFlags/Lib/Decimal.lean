import Mathlib.Data.List.Basic
import Std.Data.String.ToInt

/-!
# Decimal texts of fixed-width integers

`parseI64` is the integer parser of Rust's `str::parse::<i64>`: an optional single sign, then one
or more ASCII digits, failing outside the range of `i64`.

Results:
1. `parseI64_toString`: the decimal text of a non-negative `i64` parses back to it.
2. `toString_inj`: two integers with one decimal text are equal.
3. `tag_inj`: `key:index` determines both parts, whatever separators and digits `key` holds.
-/

namespace Decimal

def i64Min : Int := -9223372036854775808

def i64Max : Int := 9223372036854775807

/-- `n` is a value of `i64`. -/
def InI64 (n : Int) : Prop := i64Min ≤ n ∧ n ≤ i64Max

instance (n : Int) : Decidable (InI64 n) := inferInstanceAs (Decidable (_ ∧ _))

/-- One or more ASCII digits, read in base ten. -/
def digits? (cs : List Char) : Option ℕ :=
  if cs ≠ [] ∧ cs.all Char.isDigit then some (Nat.ofDigitChars 10 cs 0) else none

def checked (n : Int) : Option Int :=
  if InI64 n then some n else none

/-- `str::parse::<i64>`. -/
def parseI64 (s : String) : Option Int :=
  match s.toList with
  | '-' :: cs => (digits? cs).bind fun n => checked (-n)
  | '+' :: cs => (digits? cs).bind fun n => checked n
  | cs => (digits? cs).bind fun n => checked n

/-! ## Decimal texts parse back -/

theorem digits?_toDigits (n : ℕ) : digits? (Nat.toDigits 10 n) = some n := by
  have hall : (Nat.toDigits 10 n).all Char.isDigit := by
    rw [List.all_eq_true]
    intro c hc
    exact Nat.isDigit_of_mem_toDigits (by decide) (by decide) hc
  simp [digits?, hall]

theorem head_toDigits_isDigit {n : ℕ} {c : Char} {cs : List Char}
    (h : Nat.toDigits 10 n = c :: cs) : c.isDigit = true :=
  Nat.isDigit_of_mem_toDigits (b := 10) (n := n) (by decide) (by decide)
    (by rw [h]; exact List.mem_cons_self)

/-- A text of digits takes the branch of `parseI64` without a sign. -/
theorem parseI64_toDigits {s : String} {n : ℕ} (hs : s.toList = Nat.toDigits 10 n) :
    parseI64 s = checked n := by
  unfold parseI64
  rw [hs]
  split
  · next cs hcs => exact absurd (head_toDigits_isDigit hcs) (by decide)
  · next cs hcs => exact absurd (head_toDigits_isDigit hcs) (by decide)
  · rw [digits?_toDigits]
    rfl

theorem toString_ofNat_toList (n : ℕ) : (toString (n : Int)).toList = Nat.toDigits 10 n := by
  rw [Int.toString_eq_repr]
  exact Nat.toList_repr

theorem parseI64_toString {n : Int} (h0 : 0 ≤ n) (h1 : n ≤ i64Max) :
    parseI64 (toString n) = some n := by
  obtain ⟨m, rfl⟩ := Int.eq_ofNat_of_zero_le h0
  have hrange : InI64 (m : Int) := ⟨by unfold i64Min; omega, h1⟩
  rw [parseI64_toDigits (toString_ofNat_toList m), checked, if_pos hrange]

/-- What parses back from a decimal text is the number. -/
theorem eq_of_parseI64_toString {m n : Int} (h0 : 0 ≤ n) (h : parseI64 (toString n) = some m) :
    m = n := by
  obtain ⟨k, rfl⟩ := Int.eq_ofNat_of_zero_le h0
  rw [parseI64_toDigits (toString_ofNat_toList k), checked] at h
  split at h
  · exact (Option.some.inj h).symm
  · cases h

theorem toString_inj {m n : Int} (h : toString m = toString n) : m = n :=
  Int.repr_injective (by simpa [Int.toString_eq_repr] using h)

/-! ## Tagged keys -/

/-- The text `key:index`. -/
def tag (key : String) (index : ℕ) : String := key ++ ":" ++ toString index

theorem colon_notMem_toDigits (n : ℕ) : ':' ∉ Nat.toDigits 10 n := by
  intro h
  exact absurd (Nat.isDigit_of_mem_toDigits (by decide) (by decide) h) (by decide)

theorem tag_toList (key : String) (index : ℕ) :
    (tag key index).toList = key.toList ++ ':' :: Nat.toDigits 10 index := by
  simp [tag]

/-- Two lists split at their first separator have equal parts. -/
theorem append_sep_inj {α : Type} {a : α} : ∀ {x x' z z' : List α}, a ∉ x → a ∉ x' →
    x ++ a :: z = x' ++ a :: z' → x = x' ∧ z = z'
  | [], [], _, _, _, _, h => ⟨rfl, (List.cons.inj h).2⟩
  | [], _ :: _, _, _, _, hx', h => absurd ((List.cons.inj h).1 ▸ List.mem_cons_self) hx'
  | _ :: _, [], _, _, hx, _, h => absurd ((List.cons.inj h).1 ▸ List.mem_cons_self) hx
  | _ :: _, _ :: _, _, _, hx, hx', h => by
    obtain ⟨hhead, htail⟩ := List.cons.inj h
    obtain ⟨hxs, hz⟩ := append_sep_inj (fun hm => hx (List.mem_cons_of_mem _ hm))
      (fun hm => hx' (List.mem_cons_of_mem _ hm)) htail
    exact ⟨by rw [hhead, hxs], hz⟩

/-- The digits after the last separator hold no separator, so they are the index and what
precedes them is the key. -/
theorem tag_inj {k k' : String} {i i' : ℕ} (h : tag k i = tag k' i') : k = k' ∧ i = i' := by
  have hl : k.toList ++ ':' :: Nat.toDigits 10 i = k'.toList ++ ':' :: Nat.toDigits 10 i' := by
    rw [← tag_toList, ← tag_toList, h]
  have hr := congrArg List.reverse hl
  simp only [List.reverse_append, List.reverse_cons, List.append_assoc, List.singleton_append] at hr
  obtain ⟨hd, hk⟩ := append_sep_inj (by simpa using colon_notMem_toDigits i)
    (by simpa using colon_notMem_toDigits i') hr
  have hdigits : Nat.toDigits 10 i = Nat.toDigits 10 i' := List.reverse_injective hd
  have hi : i = i' := by
    rw [← Nat.ofDigitChars_ten_toDigits (n := i), hdigits, Nat.ofDigitChars_ten_toDigits]
  exact ⟨String.toList_inj.mp (List.reverse_injective hk), hi⟩

end Decimal
