import Mathlib.Data.List.Basic
import Mathlib.Algebra.Order.BigOperators.Group.List
import Mathlib.Algebra.Order.Ring.Nat
import Mathlib.Order.Interval.Finset.Nat

/-!
# Choice by weight

A list of weights lays half-open intervals end to end from zero. `pick` is the position of the
interval a point falls into, the number of weights for a point beyond them all.

1. `pick_eq_iff`, `pick_eq_length_iff`: the intervals are the ones between the prefix sums.
2. `card_pick`, `card_pick_length`: how many points fall into each.
3. `pick_set_of_le`, `pick_set_of_lt`: raising one weight keeps the points up to it and moves the
   later ones no further back.
-/

namespace LensoFlags.Weighted

def pick : List ℕ → ℕ → ℕ
  | [], _ => 0
  | w :: ws, point => if point < w then 0 else pick ws (point - w) + 1

theorem pick_cons_of_lt {w point : ℕ} {ws : List ℕ} (h : point < w) : pick (w :: ws) point = 0 :=
  if_pos h

theorem pick_cons_of_le {w point : ℕ} {ws : List ℕ} (h : w ≤ point) :
    pick (w :: ws) point = pick ws (point - w) + 1 :=
  if_neg (Nat.not_lt.mpr h)

/-- The end of the first `i` intervals. -/
def bound (ws : List ℕ) (i : ℕ) : ℕ := (ws.take i).sum

@[simp] theorem bound_zero (ws : List ℕ) : bound ws 0 = 0 := by simp [bound]

@[simp] theorem bound_length (ws : List ℕ) : bound ws ws.length = ws.sum := by simp [bound]

@[simp] theorem bound_cons (w : ℕ) (ws : List ℕ) (i : ℕ) :
    bound (w :: ws) (i + 1) = w + bound ws i := by simp [bound]

theorem bound_succ {ws : List ℕ} {i : ℕ} (hi : i < ws.length) :
    bound ws (i + 1) = bound ws i + ws[i] := by
  unfold bound
  rw [List.take_succ_eq_append_getElem hi, List.sum_append, List.sum_singleton]

theorem bound_mono {ws : List ℕ} {i j : ℕ} (h : i ≤ j) : bound ws i ≤ bound ws j := by
  induction ws generalizing i j with
  | nil => simp [bound]
  | cons w ws ih =>
    cases i with
    | zero => simp
    | succ i =>
      obtain ⟨j, rfl⟩ : ∃ j', j = j' + 1 := ⟨j - 1, by omega⟩
      have := ih (Nat.le_of_succ_le_succ h)
      simpa using this

theorem bound_le_sum (ws : List ℕ) (i : ℕ) : bound ws i ≤ ws.sum := by
  rcases Nat.le_total i ws.length with h | h
  · exact bound_length ws ▸ bound_mono h
  · rw [bound, List.take_of_length_le h]

/-! ## 1. The interval of a point -/

theorem pick_le_length (ws : List ℕ) (point : ℕ) : pick ws point ≤ ws.length := by
  induction ws generalizing point with
  | nil => exact Nat.le_refl 0
  | cons w ws ih =>
    rcases Nat.lt_or_ge point w with h | h
    · rw [pick_cons_of_lt h]
      exact Nat.zero_le _
    · rw [pick_cons_of_le h]
      exact Nat.succ_le_succ (ih _)

theorem bound_pick_le (ws : List ℕ) (point : ℕ) : bound ws (pick ws point) ≤ point := by
  induction ws generalizing point with
  | nil => exact Nat.zero_le _
  | cons w ws ih =>
    rcases Nat.lt_or_ge point w with h | h
    · rw [pick_cons_of_lt h, bound_zero]
      exact Nat.zero_le _
    · rw [pick_cons_of_le h, bound_cons]
      exact Nat.add_le_of_le_sub' h (ih _)

theorem lt_bound_pick {ws : List ℕ} {point : ℕ} (hpick : pick ws point < ws.length) :
    point < bound ws (pick ws point + 1) := by
  induction ws generalizing point with
  | nil => cases hpick
  | cons w ws ih =>
    rcases Nat.lt_or_ge point w with h | h
    · rw [pick_cons_of_lt h, bound_cons, bound_zero]
      exact h
    · rw [pick_cons_of_le h] at hpick ⊢
      rw [bound_cons]
      exact (Nat.sub_lt_iff_lt_add' h).mp (ih (Nat.lt_of_succ_lt_succ hpick))

theorem pick_eq_iff {ws : List ℕ} {point i : ℕ} (hi : i < ws.length) :
    pick ws point = i ↔ bound ws i ≤ point ∧ point < bound ws (i + 1) := by
  constructor
  · rintro rfl
    exact ⟨bound_pick_le ws point, lt_bound_pick hi⟩
  · rintro ⟨hlow, hhigh⟩
    -- Any other interval ends before this one starts, or starts after it ends.
    rcases Nat.lt_trichotomy (pick ws point) i with h | h | h
    · have hend := lt_bound_pick (Nat.lt_trans h hi)
      exact absurd (Nat.lt_of_lt_of_le hend (bound_mono h)) (Nat.not_lt.mpr hlow)
    · exact h
    · have hstart := bound_pick_le ws point
      exact absurd (Nat.lt_of_lt_of_le hhigh (bound_mono h)) (Nat.not_lt.mpr hstart)

theorem pick_eq_length_iff {ws : List ℕ} {point : ℕ} :
    pick ws point = ws.length ↔ ws.sum ≤ point := by
  constructor
  · intro h
    have := bound_pick_le ws point
    rwa [h, bound_length] at this
  · intro h
    by_contra hne
    have hlt := Nat.lt_of_le_of_ne (pick_le_length ws point) hne
    have hend := lt_bound_pick hlt
    exact absurd (Nat.lt_of_lt_of_le hend (bound_le_sum ..)) (Nat.not_lt.mpr h)

/-- Each point falls into one interval, or beyond all of them. -/
theorem existsUnique_position (ws : List ℕ) (point : ℕ) :
    ∃! i, i ≤ ws.length ∧ bound ws i ≤ point ∧ (i < ws.length → point < bound ws (i + 1)) := by
  refine ⟨pick ws point, ⟨pick_le_length .., bound_pick_le .., lt_bound_pick⟩, ?_⟩
  rintro i ⟨hle, hlow, hhigh⟩
  rcases Nat.lt_or_eq_of_le hle with hlt | rfl
  · exact ((pick_eq_iff hlt).mpr ⟨hlow, hhigh hlt⟩).symm
  · rw [bound_length] at hlow
    exact (pick_eq_length_iff.mpr hlow).symm

/-! ## 2. Counting points -/

theorem card_pick {ws : List ℕ} {i n : ℕ} (hi : i < ws.length) (hsum : ws.sum ≤ n) :
    ((Finset.range n).filter fun point => pick ws point = i).card = ws[i] := by
  have hinterval : (Finset.range n).filter (fun point => pick ws point = i) =
      Finset.Ico (bound ws i) (bound ws (i + 1)) := by
    ext point
    have := bound_le_sum ws (i + 1)
    simp only [Finset.mem_filter, Finset.mem_range, Finset.mem_Ico, pick_eq_iff hi]
    omega
  rw [hinterval, Nat.card_Ico, bound_succ hi, Nat.add_sub_cancel_left]

theorem card_pick_length {ws : List ℕ} {n : ℕ} :
    ((Finset.range n).filter fun point => pick ws point = ws.length).card = n - ws.sum := by
  have hinterval : (Finset.range n).filter (fun point => pick ws point = ws.length) =
      Finset.Ico ws.sum n := by
    ext point
    simp only [Finset.mem_filter, Finset.mem_range, Finset.mem_Ico, pick_eq_length_iff]
    omega
  rw [hinterval, Nat.card_Ico]

/-! ## 3. Raising one weight -/

theorem pick_mono {ws : List ℕ} {p q : ℕ} (h : p ≤ q) : pick ws p ≤ pick ws q := by
  induction ws generalizing p q with
  | nil => exact Nat.le_refl 0
  | cons w ws ih =>
    rcases Nat.lt_or_ge p w with hp | hp
    · rw [pick_cons_of_lt hp]
      exact Nat.zero_le _
    · rw [pick_cons_of_le hp, pick_cons_of_le (Nat.le_trans hp h)]
      exact Nat.succ_le_succ (ih (Nat.sub_le_sub_right h w))

theorem pick_set_of_le {ws : List ℕ} {k w point : ℕ} (hk : k < ws.length) (hw : ws[k] ≤ w)
    (hpick : pick ws point ≤ k) : pick (ws.set k w) point = pick ws point := by
  induction ws generalizing k point with
  | nil => rfl
  | cons v ws ih =>
    rcases Nat.lt_or_ge point v with h | h
    · -- The point is in the first interval, which at most grows.
      rw [pick_cons_of_lt h]
      cases k with
      | zero => exact pick_cons_of_lt (Nat.lt_of_lt_of_le h hw)
      | succ k => exact pick_cons_of_lt h
    · rw [pick_cons_of_le h] at hpick ⊢
      cases k with
      | zero => cases hpick
      | succ k =>
        rw [List.set_cons_succ, pick_cons_of_le h,
          ih (Nat.lt_of_succ_lt_succ hk) hw (Nat.le_of_succ_le_succ hpick)]

theorem pick_set_of_lt {ws : List ℕ} {k w point : ℕ} (hk : k < ws.length) (hw : ws[k] ≤ w)
    (hpick : k < pick ws point) :
    k ≤ pick (ws.set k w) point ∧ pick (ws.set k w) point ≤ pick ws point := by
  induction ws generalizing k point with
  | nil => cases hk
  | cons v ws ih =>
    rcases Nat.lt_or_ge point v with h | h
    · rw [pick_cons_of_lt h] at hpick
      cases hpick
    · rw [pick_cons_of_le h] at hpick ⊢
      cases k with
      | zero =>
        refine ⟨Nat.zero_le _, ?_⟩
        rw [List.set_cons_zero]
        rcases Nat.lt_or_ge point w with hpoint | hpoint
        · rw [pick_cons_of_lt hpoint]
          exact Nat.zero_le _
        · rw [pick_cons_of_le hpoint]
          exact Nat.succ_le_succ (pick_mono (Nat.sub_le_sub_left hw point))
      | succ k =>
        rw [List.set_cons_succ, pick_cons_of_le h]
        obtain ⟨hlow, hhigh⟩ := ih (Nat.lt_of_succ_lt_succ hk) hw (Nat.lt_of_succ_lt_succ hpick)
        exact ⟨Nat.succ_le_succ hlow, Nat.succ_le_succ hhigh⟩

end LensoFlags.Weighted
