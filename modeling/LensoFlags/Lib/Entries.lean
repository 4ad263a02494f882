import Mathlib.Data.List.Induction
import Mathlib.Data.List.Sort
import Mathlib.Order.Lattice

/-!
# Maps as lists of entries

A map is the list of its entries: in the order of their keys, or in the order in which the keys came.
`ofList` and `inOrder` build the one and the other from entries in any order, of which the last one of
a key counts.

Results:
1. `sorted_ofList`, `ofList_of_sorted`: the maps of the first kind are the sorted lists.
2. `distinct_inOrder`, `inOrder_of_distinct`: those of the second kind have every key once.
3. `lastCounts_ofList`, `lastCounts_inOrder`: the entry of a key is the last one.
4. `ofList_of_lastCounts`, `inOrder_of_lastCounts`: a map of one kind from one of another.
5. `ofList_map`, `inOrder_map`: the values can be mapped before or after.
-/

namespace Entries

variable {κ β γ : Type} [LinearOrder κ]

/-- The keys rise. -/
def Sorted (entries : List (κ × β)) : Prop := entries.Pairwise fun e e' => e.1 < e'.1

/-- The map with another value of the key. -/
def insert (k : κ) (v : β) : List (κ × β) → List (κ × β)
  | [] => [(k, v)]
  | (k', v') :: entries =>
      if k < k' then (k, v) :: (k', v') :: entries
      else if k = k' then (k, v) :: entries
      else (k', v') :: insert k v entries

def ofList (entries : List (κ × β)) : List (κ × β) :=
  entries.foldl (fun map e => insert e.1 e.2 map) []

/-! ## Insertion -/

theorem key_of_mem_insert {k : κ} {v : β} {entries : List (κ × β)} {e : κ × β}
    (h : e ∈ insert k v entries) : e = (k, v) ∨ e ∈ entries := by
  induction entries with
  | nil => exact .inl (List.mem_singleton.mp h)
  | cons e' entries ih =>
    unfold insert at h
    split_ifs at h
    · exact List.mem_cons.mp h
    · rcases List.mem_cons.mp h with rfl | h
      · exact .inl rfl
      · exact .inr (List.mem_cons_of_mem _ h)
    · rcases List.mem_cons.mp h with rfl | h
      · exact .inr List.mem_cons_self
      · exact (ih h).imp_right (List.mem_cons_of_mem _)

theorem sorted_insert {k : κ} {v : β} {entries : List (κ × β)} (h : Sorted entries) :
    Sorted (insert k v entries) := by
  induction entries with
  | nil => exact List.pairwise_singleton _ _
  | cons e entries ih =>
    obtain ⟨hhead, htail⟩ := List.pairwise_cons.mp h
    unfold insert
    split_ifs with hlt heq
    · refine List.pairwise_cons.mpr ⟨fun e' he' => ?_, h⟩
      rcases List.mem_cons.mp he' with rfl | he'
      · exact hlt
      · exact hlt.trans (hhead e' he')
    · exact List.pairwise_cons.mpr ⟨fun e' he' => heq ▸ hhead e' he', htail⟩
    · refine List.pairwise_cons.mpr ⟨fun e' he' => ?_, ih htail⟩
      rcases key_of_mem_insert he' with rfl | he'
      · exact lt_of_le_of_ne (not_lt.mp hlt) (Ne.symm heq)
      · exact hhead e' he'

/-- The entries of a key after an insertion. -/
theorem filter_insert {k : κ} {v : β} {entries : List (κ × β)} (h : Sorted entries) (k' : κ) :
    (insert k v entries).filter (fun e => decide (e.1 = k')) =
      if k = k' then [(k, v)] else entries.filter fun e => decide (e.1 = k') := by
  induction entries with
  | nil => simp only [insert, List.filter_cons, List.filter_nil, decide_eq_true_eq]
  | cons e entries ih =>
    obtain ⟨hhead, htail⟩ := List.pairwise_cons.mp h
    have hnone : ∀ k'', k'' ≤ e.1 →
        entries.filter (fun e' => decide (e'.1 = k'')) = [] := by
      intro k'' hle
      refine List.filter_eq_nil_iff.mpr fun e' he' heq => ?_
      exact absurd (of_decide_eq_true heq) (ne_of_gt (hle.trans_lt (hhead e' he')))
    unfold insert
    by_cases hlt : k < e.1
    · rw [if_pos hlt, List.filter_cons]
      by_cases hkey : k = k'
      · subst hkey
        rw [if_pos (decide_eq_true rfl), if_pos rfl, List.filter_cons,
          if_neg (by simpa using hlt.ne'), hnone k hlt.le]
      · rw [if_neg (by simpa using hkey), if_neg hkey]
    · by_cases heq : k = e.1
      · rw [if_neg hlt, if_pos heq, List.filter_cons]
        by_cases hkey : k = k'
        · subst hkey
          rw [if_pos (decide_eq_true rfl), if_pos rfl, hnone k heq.le]
        · have hnot : ¬e.1 = k' := heq ▸ hkey
          rw [if_neg (by simpa using hkey), if_neg hkey, List.filter_cons,
            if_neg (by simpa using hnot)]
      · rw [if_neg hlt, if_neg heq, List.filter_cons, ih htail]
        by_cases hkey : k = k'
        · subst hkey
          rw [if_neg (by simpa using Ne.symm heq), if_pos rfl, if_pos rfl]
        · rw [if_neg hkey, if_neg hkey, List.filter_cons]

theorem insert_map (f : β → γ) (k : κ) (v : β) (entries : List (κ × β)) :
    insert k (f v) (entries.map (Prod.map id f)) = (insert k v entries).map (Prod.map id f) := by
  induction entries with
  | nil => rfl
  | cons e entries ih =>
    simp only [List.map_cons, insert, Prod.map_fst, Prod.map_snd, id_eq]
    split_ifs
    · rfl
    · rfl
    · rw [List.map_cons, ih]
      rfl

/-- A key above all others is inserted at the end. -/
theorem insert_of_gt {k : κ} {v : β} {entries : List (κ × β)} (h : ∀ e ∈ entries, e.1 < k) :
    insert k v entries = entries ++ [(k, v)] := by
  induction entries with
  | nil => rfl
  | cons e entries ih =>
    have hlt := h e List.mem_cons_self
    unfold insert
    rw [if_neg hlt.not_gt, if_neg (ne_of_gt hlt), ih fun e' he' => h e' (List.mem_cons_of_mem _ he')]
    rfl

/-! ## Maps from entries -/

theorem ofList_append (entries : List (κ × β)) (e : κ × β) :
    ofList (entries ++ [e]) = insert e.1 e.2 (ofList entries) := by
  rw [ofList, List.foldl_append]
  rfl

theorem sorted_ofList (entries : List (κ × β)) : Sorted (ofList entries) := by
  induction entries using List.reverseRecOn with
  | nil => exact List.Pairwise.nil
  | append_singleton entries e ih =>
    rw [ofList_append]
    exact sorted_insert ih

theorem mem_of_mem_ofList {entries : List (κ × β)} {e : κ × β} (h : e ∈ ofList entries) :
    e ∈ entries := by
  induction entries using List.reverseRecOn with
  | nil => exact h
  | append_singleton entries e' ih =>
    rw [ofList_append] at h
    rcases key_of_mem_insert h with rfl | h
    · exact List.mem_append_right _ (List.mem_singleton_self _)
    · exact List.mem_append_left _ (ih h)

theorem ofList_of_sorted {entries : List (κ × β)} (h : Sorted entries) : ofList entries = entries := by
  induction entries using List.reverseRecOn with
  | nil => rfl
  | append_singleton entries e ih =>
    obtain ⟨hentries, -, hlast⟩ := List.pairwise_append.mp h
    rw [ofList_append, ih hentries]
    exact insert_of_gt fun e' he' => hlast e' he' e (List.mem_singleton_self e)

/-- The entry of a key is the last one there was. -/
def LastCounts [DecidableEq κ] (map : List (κ × β) → List (κ × β)) : Prop :=
  ∀ entries k, (map entries).filter (fun e => decide (e.1 = k)) =
    (entries.filter fun e => decide (e.1 = k)).getLast?.toList

theorem lastCounts_ofList : LastCounts (@ofList κ β _) := by
  intro entries k
  induction entries using List.reverseRecOn with
  | nil => rfl
  | append_singleton entries e ih =>
    rw [ofList_append, filter_insert (sorted_ofList entries), List.filter_append]
    by_cases hkey : e.1 = k
    · subst hkey
      simp
    · simp [hkey, ih]

theorem ofList_map (f : β → γ) (entries : List (κ × β)) :
    ofList (entries.map (Prod.map id f)) = (ofList entries).map (Prod.map id f) := by
  induction entries using List.reverseRecOn with
  | nil => rfl
  | append_singleton entries e ih =>
    rw [List.map_append, List.map_singleton, ofList_append, ofList_append, ih]
    exact insert_map f e.1 e.2 (ofList entries)

/-! ## Maps in the order of insertion -/

section Distinct

variable {κ β γ : Type} [DecidableEq κ]

/-- No key comes twice. -/
def Distinct (entries : List (κ × β)) : Prop := entries.Pairwise fun e e' => e.1 ≠ e'.1

/-- The map with another value of the key, in the place of the one it had. -/
def put (k : κ) (v : β) : List (κ × β) → List (κ × β)
  | [] => [(k, v)]
  | (k', v') :: entries => if k = k' then (k, v) :: entries else (k', v') :: put k v entries

def inOrder (entries : List (κ × β)) : List (κ × β) :=
  entries.foldl (fun map e => put e.1 e.2 map) []

theorem key_of_mem_put {k : κ} {v : β} {entries : List (κ × β)} {e : κ × β}
    (h : e ∈ put k v entries) : e = (k, v) ∨ e ∈ entries := by
  induction entries with
  | nil => exact .inl (List.mem_singleton.mp h)
  | cons e' entries ih =>
    unfold put at h
    split_ifs at h
    · rcases List.mem_cons.mp h with rfl | h
      · exact .inl rfl
      · exact .inr (List.mem_cons_of_mem _ h)
    · rcases List.mem_cons.mp h with rfl | h
      · exact .inr List.mem_cons_self
      · exact (ih h).imp_right (List.mem_cons_of_mem _)

theorem distinct_put {k : κ} {v : β} {entries : List (κ × β)} (h : Distinct entries) :
    Distinct (put k v entries) := by
  induction entries with
  | nil => exact List.pairwise_singleton _ _
  | cons e entries ih =>
    obtain ⟨hhead, htail⟩ := List.pairwise_cons.mp h
    unfold put
    split_ifs with heq
    · exact List.pairwise_cons.mpr ⟨fun e' he' => heq ▸ hhead e' he', htail⟩
    · refine List.pairwise_cons.mpr ⟨fun e' he' => ?_, ih htail⟩
      rcases key_of_mem_put he' with rfl | he'
      · exact Ne.symm heq
      · exact hhead e' he'

/-- The entries of a key after another value was put. -/
theorem filter_put {k : κ} {v : β} {entries : List (κ × β)} (h : Distinct entries) (k' : κ) :
    (put k v entries).filter (fun e => decide (e.1 = k')) =
      if k = k' then [(k, v)] else entries.filter fun e => decide (e.1 = k') := by
  induction entries with
  | nil => simp only [put, List.filter_cons, List.filter_nil, decide_eq_true_eq]
  | cons e entries ih =>
    obtain ⟨hhead, htail⟩ := List.pairwise_cons.mp h
    unfold put
    by_cases heq : k = e.1
    · have hnone : entries.filter (fun e' => decide (e'.1 = k)) = [] :=
        List.filter_eq_nil_iff.mpr fun e' he' hkey =>
          hhead e' he' (heq.symm.trans (of_decide_eq_true hkey).symm)
      rw [if_pos heq, List.filter_cons]
      by_cases hkey : k = k'
      · subst hkey
        rw [if_pos (decide_eq_true rfl), if_pos rfl, hnone]
      · have hnot : ¬e.1 = k' := heq ▸ hkey
        rw [if_neg (by simpa using hkey), if_neg hkey, List.filter_cons,
          if_neg (by simpa using hnot)]
    · rw [if_neg heq, List.filter_cons, ih htail]
      by_cases hkey : k = k'
      · subst hkey
        rw [if_neg (by simpa using Ne.symm heq), if_pos rfl, if_pos rfl]
      · rw [if_neg hkey, if_neg hkey, List.filter_cons]

theorem put_map (f : β → γ) (k : κ) (v : β) (entries : List (κ × β)) :
    put k (f v) (entries.map (Prod.map id f)) = (put k v entries).map (Prod.map id f) := by
  induction entries with
  | nil => rfl
  | cons e entries ih =>
    simp only [List.map_cons, put, Prod.map_fst, Prod.map_snd, id_eq]
    split_ifs
    · rfl
    · rw [List.map_cons, ih]
      rfl

/-- A new key is put at the end. -/
theorem put_of_ne {k : κ} {v : β} {entries : List (κ × β)} (h : ∀ e ∈ entries, e.1 ≠ k) :
    put k v entries = entries ++ [(k, v)] := by
  induction entries with
  | nil => rfl
  | cons e entries ih =>
    unfold put
    rw [if_neg (Ne.symm (h e List.mem_cons_self)), ih fun e' he' => h e' (List.mem_cons_of_mem _ he')]
    rfl

theorem inOrder_append (entries : List (κ × β)) (e : κ × β) :
    inOrder (entries ++ [e]) = put e.1 e.2 (inOrder entries) := by
  rw [inOrder, List.foldl_append]
  rfl

theorem distinct_inOrder (entries : List (κ × β)) : Distinct (inOrder entries) := by
  induction entries using List.reverseRecOn with
  | nil => exact List.Pairwise.nil
  | append_singleton entries e ih =>
    rw [inOrder_append]
    exact distinct_put ih

theorem mem_of_mem_inOrder {entries : List (κ × β)} {e : κ × β} (h : e ∈ inOrder entries) :
    e ∈ entries := by
  induction entries using List.reverseRecOn with
  | nil => exact h
  | append_singleton entries e' ih =>
    rw [inOrder_append] at h
    rcases key_of_mem_put h with rfl | h
    · exact List.mem_append_right _ (List.mem_singleton_self _)
    · exact List.mem_append_left _ (ih h)

theorem inOrder_of_distinct {entries : List (κ × β)} (h : Distinct entries) :
    inOrder entries = entries := by
  induction entries using List.reverseRecOn with
  | nil => rfl
  | append_singleton entries e ih =>
    obtain ⟨hentries, -, hlast⟩ := List.pairwise_append.mp h
    rw [inOrder_append, ih hentries]
    exact put_of_ne fun e' he' => hlast e' he' e (List.mem_singleton_self e)

theorem lastCounts_inOrder : LastCounts (@inOrder κ β _) := by
  intro entries k
  induction entries using List.reverseRecOn with
  | nil => rfl
  | append_singleton entries e ih =>
    rw [inOrder_append, filter_put (distinct_inOrder entries), List.filter_append]
    by_cases hkey : e.1 = k
    · subst hkey
      simp
    · simp [hkey, ih]

theorem inOrder_map (f : β → γ) (entries : List (κ × β)) :
    inOrder (entries.map (Prod.map id f)) = (inOrder entries).map (Prod.map id f) := by
  induction entries using List.reverseRecOn with
  | nil => rfl
  | append_singleton entries e ih =>
    rw [List.map_append, List.map_singleton, inOrder_append, inOrder_append, ih]
    exact put_map f e.1 e.2 (inOrder entries)

/-- A list with one entry for a key at most. -/
theorem distinct_of_filter {entries : List (κ × β)}
    (h : ∀ k, (entries.filter fun e => decide (e.1 = k)).length ≤ 1) : Distinct entries := by
  induction entries with
  | nil => exact List.Pairwise.nil
  | cons e entries ih =>
    refine List.pairwise_cons.mpr ⟨fun e' he' heq => ?_, ih fun k => ?_⟩
    · have hone := h e.1
      rw [List.filter_cons, if_pos (decide_eq_true rfl), List.length_cons] at hone
      have hnone := List.eq_nil_of_length_eq_zero (Nat.le_zero.mp (Nat.le_of_succ_le_succ hone))
      exact List.filter_eq_nil_iff.mp hnone e' he' (decide_eq_true heq.symm)
    · have hall := h k
      rw [List.filter_cons] at hall
      split at hall
      · exact Nat.le_of_succ_le hall
      · exact hall

/-- A map has every key once. -/
theorem inOrder_of_lastCounts {map : List (κ × β) → List (κ × β)} (h : LastCounts map)
    (entries : List (κ × β)) : inOrder (map entries) = map entries := by
  refine inOrder_of_distinct (distinct_of_filter fun k => ?_)
  rw [h entries k]
  cases (entries.filter fun e => decide (e.1 = k)).getLast? <;> simp

theorem singleton_of_lastCounts {map : List (κ × β) → List (κ × β)} (h : LastCounts map)
    (e : κ × β) : map [e] = [e] := by
  have hkeys : ∀ e' ∈ map [e], e'.1 = e.1 := by
    intro e' he'
    by_contra hne
    have hnone := h [e] e'.1
    rw [List.filter_cons, if_neg (by simpa using Ne.symm hne)] at hnone
    exact List.filter_eq_nil_iff.mp hnone e' he' (decide_eq_true rfl)
  have hself := h [e] e.1
  rw [List.filter_eq_self.mpr fun e' he' => decide_eq_true (hkeys e' he')] at hself
  rw [hself, List.filter_cons, if_pos (decide_eq_true rfl)]
  rfl

end Distinct

/-! ## One map from another -/

/-- Sorted entries are told by the entries of each key. -/
theorem sorted_ext {entries entries' : List (κ × β)} (h : Sorted entries) (h' : Sorted entries')
    (hfilter : ∀ k, entries.filter (fun e => decide (e.1 = k)) =
      entries'.filter fun e => decide (e.1 = k)) : entries = entries' := by
  have hnodup : ∀ {es : List (κ × β)}, Sorted es → es.Nodup := fun hes =>
    hes.imp fun hlt heq => hlt.ne (congrArg Prod.fst heq)
  have hmem : ∀ e, e ∈ entries ↔ e ∈ entries' := by
    intro e
    have hkey : ∀ es : List (κ × β), e ∈ es ↔ e ∈ es.filter fun e' => decide (e'.1 = e.1) :=
      fun es => by simp
    rw [hkey entries, hfilter e.1, ← hkey entries']
  exact ((List.perm_ext_iff_of_nodup (hnodup h) (hnodup h')).mpr hmem).eq_of_pairwise
    (fun _ _ _ _ hlt hgt => absurd hgt hlt.not_gt) h h'

theorem ofList_of_lastCounts {map : List (κ × β) → List (κ × β)} (h : LastCounts map)
    (entries : List (κ × β)) : ofList (map entries) = ofList entries := by
  refine sorted_ext (sorted_ofList _) (sorted_ofList _) fun k => ?_
  rw [lastCounts_ofList, lastCounts_ofList, h entries k]
  cases (entries.filter fun e => decide (e.1 = k)).getLast? <;> rfl

end Entries
