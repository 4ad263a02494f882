import LensoFlags.Lib.Decimal

/-!
# Texts as bytes

UTF-8 writes an ASCII character as its own byte, and every other character without a byte below
128. So a text that is free of an ASCII character has bytes that are free of it, and texts with a
terminator after each can be told apart again.

Results:
1. `mem_bytes`: the ASCII bytes of a text are its ASCII characters.
2. `terminated_inj`: the parts of a sequence of terminated parts.
-/

namespace Bytes

theorem toUTF8_data (s : String) :
    s.toUTF8.data.toList = s.toList.flatMap String.utf8EncodeChar := by
  change s.toByteArray.data.toList = _
  rw [← String.utf8Encode_toList, List.utf8Encode, List.data_toByteArray, List.toList_toArray]

theorem data_inj {s t : String} (h : s.toUTF8.data.toList = t.toUTF8.data.toList) : s = t :=
  String.toByteArray_inj.mp (ByteArray.ext (Array.toList_inj.mp h))

theorem toList_loop (bytes : ByteArray) (n : ℕ) : ∀ (i : ℕ) (acc : List UInt8),
    bytes.size - i = n → ByteArray.toList.loop bytes i acc =
      acc.reverse ++ bytes.data.toList.drop i := by
  induction n with
  | zero =>
    intro i acc hi
    have hend : bytes.data.toList.length ≤ i := by
      rw [Array.length_toList]
      exact Nat.le_of_sub_eq_zero hi
    rw [ByteArray.toList.loop, if_neg (by omega), List.drop_eq_nil_of_le hend, List.append_nil]
  | succ n ih =>
    intro i acc hi
    have hlt : i < bytes.data.toList.length := by
      rw [Array.length_toList]
      change i < bytes.size
      omega
    have hget : bytes.get! i = bytes.data.toList[i] := by
      change bytes.data[i]! = _
      rw [Array.getElem_toList]
      exact getElem!_pos ..
    rw [ByteArray.toList.loop, if_pos (by omega), ih _ _ (by omega), hget,
      List.drop_eq_getElem_cons hlt]
    simp

/-- The list of the bytes is read off one by one. -/
theorem toList_eq (bytes : ByteArray) : bytes.toList = bytes.data.toList := by
  rw [ByteArray.toList, toList_loop bytes _ 0 [] rfl]
  rfl

/-- A character has at least one byte. -/
theorem length_le_utf8ByteSize (s : String) : s.length ≤ s.utf8ByteSize := by
  have hsize : s.utf8ByteSize = (s.toList.flatMap String.utf8EncodeChar).length := by
    rw [← toUTF8_data, Array.length_toList]
    rfl
  rw [hsize, ← String.length_toList]
  generalize s.toList = cs
  induction cs with
  | nil => exact Nat.le_refl 0
  | cons c cs ih =>
    have hc : 0 < (String.utf8EncodeChar c).length :=
      List.length_pos_iff.mpr String.utf8EncodeChar_ne_nil
    rw [List.flatMap_cons, List.length_append, List.length_cons]
    omega

/-! ## ASCII -/

theorem utf8EncodeChar_ascii {c : Char} (h : c.toNat < 128) :
    String.utf8EncodeChar c = [UInt8.ofNat c.toNat] := by
  exact if_pos (Nat.le_of_lt_succ h)

/-- The leading and the continuation bytes of a character that is not ASCII have their top bit. -/
theorem le_of_mem_utf8EncodeChar {c : Char} {b : UInt8} (h : 128 ≤ c.toNat)
    (hb : b ∈ String.utf8EncodeChar c) : 128 ≤ b.toNat := by
  unfold String.utf8EncodeChar at hb
  rw [if_neg (by change ¬c.toNat ≤ 127; omega)] at hb
  split at hb
  · simp only [List.mem_cons, List.not_mem_nil, or_false] at hb
    rcases hb with rfl | rfl
    all_goals rw [UInt8.toNat_ofNat']; omega
  · split at hb
    all_goals simp only [List.mem_cons, List.not_mem_nil, or_false] at hb
    · rcases hb with rfl | rfl | rfl
      all_goals rw [UInt8.toNat_ofNat']; omega
    · rcases hb with rfl | rfl | rfl | rfl
      all_goals rw [UInt8.toNat_ofNat']; omega

theorem toNat_ofNat_ascii {c : Char} (h : c.toNat < 128) :
    (UInt8.ofNat c.toNat).toNat = c.toNat :=
  UInt8.toNat_ofNat_of_lt' (Nat.lt_trans h (by decide))

theorem mem_utf8EncodeChar {c d : Char} (hd : d.toNat < 128) :
    UInt8.ofNat d.toNat ∈ String.utf8EncodeChar c ↔ c = d := by
  have hbyte := toNat_ofNat_ascii hd
  by_cases hc : c.toNat < 128
  · rw [utf8EncodeChar_ascii hc, List.mem_singleton]
    constructor
    · intro h
      refine (Char.toNat_inj.mp ?_).symm
      rw [← hbyte, h, toNat_ofNat_ascii hc]
    · rintro rfl
      rfl
  · constructor
    · intro h
      have := le_of_mem_utf8EncodeChar (Nat.le_of_not_lt hc) h
      omega
    · rintro rfl
      exact absurd hd hc

theorem mem_bytes {s : String} {c : Char} (hc : c.toNat < 128) :
    UInt8.ofNat c.toNat ∈ s.toUTF8.data.toList ↔ c ∈ s.toList := by
  rw [toUTF8_data, List.mem_flatMap]
  constructor
  · rintro ⟨d, hd, hmem⟩
    exact (mem_utf8EncodeChar hc).mp hmem ▸ hd
  · exact fun h => ⟨c, h, (mem_utf8EncodeChar hc).mpr rfl⟩

/-- The first byte of a character tells whether it is ASCII. -/
theorem ascii_of_bytes {s : String} (h : ∀ b ∈ s.toUTF8.data.toList, b.toNat < 128) :
    ∀ c ∈ s.toList, c.toNat < 128 := by
  intro c hc
  by_contra hlarge
  obtain ⟨b, hb⟩ := List.exists_mem_of_ne_nil _ (String.utf8EncodeChar_ne_nil (c := c))
  have hmem : b ∈ s.toUTF8.data.toList := by
    rw [toUTF8_data]
    exact List.mem_flatMap.mpr ⟨c, hc, hb⟩
  have hle := le_of_mem_utf8EncodeChar (Nat.le_of_not_lt hlarge) hb
  exact absurd (h b hmem) (Nat.not_lt.mpr hle)

theorem bytes_of_ascii {s : String} (h : ∀ c ∈ s.toList, c.toNat < 128) :
    s.toUTF8.data.toList = s.toList.map fun c => UInt8.ofNat c.toNat := by
  rw [toUTF8_data]
  revert h
  generalize s.toList = cs
  intro h
  induction cs with
  | nil => rfl
  | cons c cs ih =>
    rw [List.flatMap_cons, utf8EncodeChar_ascii (h c List.mem_cons_self),
      ih fun d hd => h d (List.mem_cons_of_mem _ hd)]
    rfl

theorem utf8ByteSize_of_ascii {s : String} (h : ∀ c ∈ s.toList, c.toNat < 128) :
    s.utf8ByteSize = s.length := by
  have hsize : s.utf8ByteSize = s.toUTF8.data.toList.length := by
    rw [Array.length_toList]
    rfl
  rw [hsize, bytes_of_ascii h, List.length_map, String.length_toList]

/-! ## Terminated parts -/

/-- The parts, each followed by the terminator. -/
def terminated {α : Type} (terminator : α) (parts : List (List α)) : List α :=
  parts.flatMap (· ++ [terminator])

/-- No part holds the terminator, so that the first terminator ends the first part. -/
theorem terminated_inj {α : Type} {a : α} : ∀ {parts parts' : List (List α)},
    (∀ part ∈ parts, a ∉ part) → (∀ part ∈ parts', a ∉ part) →
    terminated a parts = terminated a parts' → parts = parts'
  | [], [], _, _, _ => rfl
  | [], _ :: _, _, _, h => by simp [terminated] at h
  | _ :: _, [], _, _, h => by simp [terminated] at h
  | part :: parts, part' :: parts', hfree, hfree', h => by
    have hsplit : part ++ a :: terminated a parts = part' ++ a :: terminated a parts' := by
      simpa [terminated] using h
    obtain ⟨rfl, hrest⟩ := Decimal.append_sep_inj (hfree part List.mem_cons_self)
      (hfree' part' List.mem_cons_self) hsplit
    rw [terminated_inj (fun p hp => hfree p (List.mem_cons_of_mem _ hp))
      (fun p hp => hfree' p (List.mem_cons_of_mem _ hp)) hrest]

end Bytes
