import LensoFlags.Lib.Decimal
import Mathlib.Data.List.Induction

/-!
# Spellings of a number

The integer parser reads more than decimal texts: a sign may stand first, and zeros before the
digits.

Results:
1. `parseI64_eq_some`: the texts that parse.
2. `parseI64_pos_iff`: those of a positive number are its decimal text behind a sign and zeros.
-/

namespace Decimal

/-! ## Digits -/

theorem exists_digitChar {c : Char} (h : c.isDigit = true) : ∃ k < 10, c = Nat.digitChar k := by
  obtain ⟨hlow, hhigh⟩ := Char.isDigit_iff_toNat.mp h
  change 48 ≤ c.toNat at hlow
  change c.toNat ≤ 57 at hhigh
  refine ⟨c.toNat - 48, by omega, Char.toNat_inj.mp ?_⟩
  rw [Nat.toNat_digitChar_of_lt_ten (by omega)]
  omega

theorem digits?_eq_some {cs : List Char} {n : ℕ} :
    digits? cs = some n ↔ cs ≠ [] ∧ cs.all Char.isDigit ∧ Nat.ofDigitChars 10 cs 0 = n := by
  unfold digits?
  split
  · next h => simp [h.1, h.2]
  · next h =>
    refine iff_of_false nofun fun ⟨hne, hall, _⟩ => h ⟨hne, hall⟩

theorem ofDigitChars_pos {c : Char} {cs : List Char} (hc : c.isDigit = true) (hzero : c ≠ '0') :
    0 < Nat.ofDigitChars 10 (c :: cs) 0 := by
  obtain ⟨k, hk, rfl⟩ := exists_digitChar hc
  have hk0 : k ≠ 0 := by
    rintro rfl
    exact hzero rfl
  rw [Nat.ofDigitChars_cons_digitChar_of_lt_ten hk, Nat.ofDigitChars_eq_ofDigitChars_zero]
  have hk' : 0 < 10 * 0 + k := by omega
  exact Nat.add_pos_left (Nat.mul_pos (Nat.pow_pos (by decide)) hk') _

/-- Digits without a leading zero are the decimal text of what they denote. -/
theorem toDigits_ofDigitChars {c : Char} (hc : c.isDigit = true) (hzero : c ≠ '0') :
    ∀ {cs : List Char}, cs.all Char.isDigit →
      Nat.toDigits 10 (Nat.ofDigitChars 10 (c :: cs) 0) = c :: cs := by
  intro cs
  induction cs using List.reverseRecOn with
  | nil =>
    intro _
    obtain ⟨k, hk, rfl⟩ := exists_digitChar hc
    rw [Nat.ofDigitChars_cons_digitChar_of_lt_ten hk, Nat.ofDigitChars_nil, Nat.mul_zero,
      Nat.zero_add]
    exact Nat.toDigits_of_lt_base hk
  | append_singleton cs d ih =>
    intro hall
    rw [List.all_append, Bool.and_eq_true] at hall
    obtain ⟨k, hk, rfl⟩ := exists_digitChar (List.all_eq_true.mp hall.2 d List.mem_cons_self)
    have hpos := @ofDigitChars_pos c cs hc hzero
    rw [← List.cons_append, Nat.ofDigitChars_append,
      Nat.ofDigitChars_cons_digitChar_of_lt_ten hk, Nat.ofDigitChars_nil,
      ← Nat.toDigits_append_toDigits (by decide) hpos hk, ih hall.1, Nat.toDigits_of_lt_base hk]

theorem toDigits_head_ne_zero {n : ℕ} (hn : 0 < n) {cs : List Char} :
    Nat.toDigits 10 n ≠ '0' :: cs := by
  induction n using Nat.strongRecOn generalizing cs with
  | ind n ih =>
    rw [Nat.toDigits_eq_if (by decide)]
    split
    · next hlt =>
      intro h
      have hzero := congrArg Char.toNat (List.cons.inj h).1
      rw [Nat.toNat_digitChar_of_lt_ten hlt] at hzero
      change 48 + n = 48 at hzero
      omega
    · next hge =>
      obtain ⟨c, tail, hdigits⟩ :=
        List.exists_cons_of_ne_nil (Nat.toDigits_ne_nil (n := n / 10) (b := 10))
      intro h
      rw [hdigits] at h
      obtain ⟨rfl, -⟩ := List.cons.inj h
      exact ih (n / 10) (by omega) (by omega) hdigits

/-! ## Spellings -/

/-- The decimal text of a number, behind a plus sign or none and some zeros. -/
def spelled (plus : Bool) (zeros n : ℕ) : List Char :=
  (if plus then ['+'] else []) ++ List.replicate zeros '0' ++ Nat.toDigits 10 n

/-- The zeros before the first other digit. -/
theorem exists_zeros : ∀ {cs : List Char}, cs.all Char.isDigit →
    0 < Nat.ofDigitChars 10 cs 0 →
    ∃ zeros, cs = List.replicate zeros '0' ++ Nat.toDigits 10 (Nat.ofDigitChars 10 cs 0)
  | [], _, hpos => absurd hpos (by decide)
  | c :: cs, hall, hpos => by
    rw [List.all_cons, Bool.and_eq_true] at hall
    by_cases hc : c = '0'
    · subst hc
      have hrest : Nat.ofDigitChars 10 ('0' :: cs) 0 = Nat.ofDigitChars 10 cs 0 :=
        Nat.ofDigitChars_cons
      rw [hrest] at hpos ⊢
      obtain ⟨zeros, hzeros⟩ := exists_zeros hall.2 hpos
      exact ⟨zeros + 1, congrArg ('0' :: ·) hzeros⟩
    · exact ⟨0, (toDigits_ofDigitChars hall.1 hc hall.2).symm⟩

theorem digits?_pos_iff {cs : List Char} {n : ℕ} (hn : 0 < n) :
    digits? cs = some n ↔ ∃ zeros, cs = List.replicate zeros '0' ++ Nat.toDigits 10 n := by
  rw [digits?_eq_some]
  constructor
  · rintro ⟨-, hall, rfl⟩
    exact exists_zeros hall hn
  · rintro ⟨zeros, rfl⟩
    refine ⟨by simp, ?_, ?_⟩
    · rw [List.all_append, Bool.and_eq_true, List.all_eq_true, List.all_eq_true]
      refine ⟨fun c hc => ?_, fun c hc => ?_⟩
      · rw [List.eq_of_mem_replicate hc]
        decide
      · exact Nat.isDigit_of_mem_toDigits (by decide) (by decide) hc
    · rw [Nat.ofDigitChars_append, Nat.ofDigitChars_replicate_zero, Nat.mul_zero,
        Nat.ofDigitChars_ten_toDigits]

theorem checked_eq_some {m n : Int} : checked m = some n ↔ InI64 m ∧ m = n := by
  unfold checked
  split
  · next h => simp [h]
  · next h => simp [h]

theorem digits?_cons_of_not {c : Char} {cs : List Char} (h : c.isDigit = false) :
    digits? (c :: cs) = none := by
  refine Option.eq_none_iff_forall_ne_some.mpr fun n hn => ?_
  have hall := (digits?_eq_some.mp hn).2.1
  rw [List.all_cons, h] at hall
  cases hall

/-- The texts that parse: a sign or none, digits, and a number of `i64`. -/
theorem parseI64_eq_some {s : String} {n : Int} :
    parseI64 s = some n ↔ InI64 n ∧
      ((∃ cs m, s.toList = '-' :: cs ∧ digits? cs = some m ∧ n = -m) ∨
        (∃ cs m, s.toList = '+' :: cs ∧ digits? cs = some m ∧ n = m) ∨
        ∃ m : ℕ, digits? s.toList = some m ∧ n = m) := by
  -- The first character decides; a sign is no digit, so the other spellings cannot apply.
  unfold parseI64
  split
  · next cs hcs =>
    rw [Option.bind_eq_some_iff, hcs]
    constructor
    · rintro ⟨m, hm, hn⟩
      obtain ⟨hin, rfl⟩ := checked_eq_some.mp hn
      exact ⟨hin, .inl ⟨cs, m, rfl, hm, rfl⟩⟩
    · rintro ⟨hin, ⟨_, m, heq, hm, rfl⟩ | ⟨_, _, heq, -, -⟩ | ⟨_, hm, -⟩⟩
      · cases heq
        exact ⟨m, hm, checked_eq_some.mpr ⟨hin, rfl⟩⟩
      · cases heq
      · rw [digits?_cons_of_not (by decide)] at hm
        cases hm
  · next cs hcs =>
    rw [Option.bind_eq_some_iff, hcs]
    constructor
    · rintro ⟨m, hm, hn⟩
      obtain ⟨hin, rfl⟩ := checked_eq_some.mp hn
      exact ⟨hin, .inr (.inl ⟨cs, m, rfl, hm, rfl⟩)⟩
    · rintro ⟨hin, ⟨_, _, heq, -, -⟩ | ⟨_, m, heq, hm, rfl⟩ | ⟨_, hm, -⟩⟩
      · cases heq
      · cases heq
        exact ⟨m, hm, checked_eq_some.mpr ⟨hin, rfl⟩⟩
      · rw [digits?_cons_of_not (by decide)] at hm
        cases hm
  · next hminus hplus =>
    rw [Option.bind_eq_some_iff]
    constructor
    · rintro ⟨m, hm, hn⟩
      obtain ⟨hin, rfl⟩ := checked_eq_some.mp hn
      exact ⟨hin, .inr (.inr ⟨m, hm, rfl⟩)⟩
    · rintro ⟨hin, ⟨cs, _, heq, -, -⟩ | ⟨cs, _, heq, -, -⟩ | ⟨m, hm, rfl⟩⟩
      · exact absurd heq (hminus cs)
      · exact absurd heq (hplus cs)
      · exact ⟨m, hm, checked_eq_some.mpr ⟨hin, rfl⟩⟩

theorem parseI64_pos_iff {s : String} {n : ℕ} (hn : 0 < n) :
    parseI64 s = some (n : Int) ↔
      (n : Int) ≤ i64Max ∧ ∃ plus zeros, s.toList = spelled plus zeros n := by
  have hin : InI64 n ↔ (n : Int) ≤ i64Max :=
    ⟨And.right, fun h => ⟨by unfold i64Min; omega, h⟩⟩
  rw [parseI64_eq_some, hin]
  refine and_congr_right fun _ => ?_
  constructor
  · rintro (⟨_, _, -, -, hm⟩ | ⟨cs, m, hs, hm, hnm⟩ | ⟨m, hm, hnm⟩)
    · omega
    · obtain rfl := Int.ofNat_inj.mp hnm
      obtain ⟨zeros, rfl⟩ := (digits?_pos_iff hn).mp hm
      exact ⟨true, zeros, hs⟩
    · obtain rfl := Int.ofNat_inj.mp hnm
      obtain ⟨zeros, hs⟩ := (digits?_pos_iff hn).mp hm
      exact ⟨false, zeros, hs⟩
  · rintro ⟨plus, zeros, hs⟩
    have hdigits := (digits?_pos_iff hn).mpr ⟨zeros, rfl⟩
    cases plus
    · exact .inr (.inr ⟨n, by rw [hs]; exact hdigits, rfl⟩)
    · exact .inr (.inl ⟨_, n, hs, hdigits, rfl⟩)

/-- A spelling that starts with neither is the decimal text. -/
theorem spelled_plain {plus : Bool} {zeros n : ℕ} (h : ¬(plus = true ∨ 0 < zeros)) :
    spelled plus zeros n = Nat.toDigits 10 n := by
  obtain ⟨hplus, hzeros⟩ := not_or.mp h
  obtain rfl : plus = false := by simpa using hplus
  obtain rfl : zeros = 0 := by omega
  rfl

theorem digits?_unsigned {zeros n : ℕ} (hn : 0 < n) :
    digits? (List.replicate zeros '0' ++ Nat.toDigits 10 n) = some n :=
  (digits?_pos_iff hn).mpr ⟨zeros, rfl⟩

/-- Digits behind a minus sign or none, and what they denote. -/
def Denotes (s : String) (n : Int) : Prop :=
  ∃ cs m, digits? cs = some m ∧ (s.toList = '-' :: cs ∧ n = -m ∨ s.toList = cs ∧ n = m)

theorem denotes_of_parseI64 {s : String} {n : Int} (hplus : s.toList.head? ≠ some '+')
    (h : parseI64 s = some n) : Denotes s n ∧ InI64 n := by
  obtain ⟨hin, ⟨cs, m, hs, hm, hn⟩ | ⟨cs, m, hs, -, -⟩ | ⟨m, hm, hn⟩⟩ := parseI64_eq_some.mp h
  · exact ⟨⟨cs, m, hm, .inl ⟨hs, hn⟩⟩, hin⟩
  · exact absurd (by rw [hs]; rfl) hplus
  · exact ⟨⟨_, m, hm, .inr ⟨rfl, hn⟩⟩, hin⟩

/-- Nothing that starts with a plus sign is denoted so. -/
theorem Denotes.head {s : String} {n : Int} (h : Denotes s n) : s.toList.head? ≠ some '+' := by
  intro hplus
  obtain ⟨tail, hs⟩ := List.head?_eq_some_iff.mp hplus
  obtain ⟨cs, m, hm, ⟨heq, -⟩ | ⟨heq, -⟩⟩ := h
  · rw [hs] at heq
    cases heq
  · rw [← heq, hs, digits?_cons_of_not (by decide)] at hm
    cases hm

/-- A text spells one number. -/
theorem spelled_inj {plus plus' : Bool} {zeros zeros' m n : ℕ} (hm : 0 < m) (hn : 0 < n)
    (h : spelled plus zeros m = spelled plus' zeros' n) : m = n := by
  have hleft := @digits?_unsigned zeros m hm
  have hright := @digits?_unsigned zeros' n hn
  unfold spelled at h
  rw [List.append_assoc, List.append_assoc] at h
  cases plus <;> cases plus'
  · rw [List.append_cancel_left h, hright] at hleft
    exact (Option.some.inj hleft).symm
  · have hplus : List.replicate zeros '0' ++ Nat.toDigits 10 m =
        '+' :: (List.replicate zeros' '0' ++ Nat.toDigits 10 n) := h
    rw [hplus, digits?_cons_of_not (by decide)] at hleft
    cases hleft
  · have hplus : '+' :: (List.replicate zeros '0' ++ Nat.toDigits 10 m) =
        List.replicate zeros' '0' ++ Nat.toDigits 10 n := h
    rw [← hplus, digits?_cons_of_not (by decide)] at hright
    cases hright
  · rw [List.append_cancel_left h, hright] at hleft
    exact (Option.some.inj hleft).symm

/-- A decimal text starts with neither. -/
theorem spelled_ne_toDigits {plus : Bool} {zeros m n : ℕ} (hm : 0 < m)
    (h : plus = true ∨ 0 < zeros) : spelled plus zeros n ≠ Nat.toDigits 10 m := by
  intro heq
  cases plus with
  | true => exact absurd (head_toDigits_isDigit heq.symm) (by decide)
  | false =>
    cases zeros with
    | zero => simp at h
    | succ zeros => exact toDigits_head_ne_zero hm heq.symm

end Decimal
