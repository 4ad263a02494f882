import Mathlib.Data.List.Basic
import Mathlib.Data.List.Forall2
import Mathlib.Data.List.Nodup
import Mathlib.Data.List.Sort

/-!
# Keyed tables

A table is the list of its rows, newest first: an `INSERT` of a checked row is a cons, an `UPDATE`
of one row replaces every row with its key.

Results: what `lookup` finds after each of the two (`lookup_cons`, `lookup_replace_self`,
`lookup_replace_of_ne`), and that both keep the keys unique (`nodup_cons_of_lookup`,
`keys_replace`).
-/

namespace Table

variable {Row Key : Type} [DecidableEq Key] {key : Row → Key}

/-- The row with key `k`. -/
def lookup (key : Row → Key) (k : Key) (rows : List Row) : Option Row :=
  rows.find? fun row => key row = k

/-- Every row with the key of `row` becomes `row`. -/
def replace (key : Row → Key) (row : Row) (rows : List Row) : List Row :=
  rows.map fun other => if key other = key row then row else other

/-- `ORDER BY` an integer column. -/
def orderBy (column : Row → Int) (rows : List Row) : List Row :=
  rows.insertionSort fun a b => column a ≤ column b

theorem mem_orderBy {column : Row → Int} {row : Row} {rows : List Row} :
    row ∈ orderBy column rows ↔ row ∈ rows :=
  List.mem_insertionSort _

theorem orderBy_map {Row' : Type} (column : Row' → Int) (f : Row → Row') (rows : List Row) :
    orderBy column (rows.map f) = (orderBy (fun row => column (f row)) rows).map f :=
  (List.map_insertionSort _ _ f rows fun _ _ _ _ => Iff.rfl).symm

/-! ## Lookups -/

@[simp] theorem lookup_nil (k : Key) : lookup key k [] = none := rfl

theorem lookup_cons (k : Key) (row : Row) (rows : List Row) :
    lookup key k (row :: rows) = if key row = k then some row else lookup key k rows := by
  unfold lookup
  rw [List.find?_cons]
  by_cases h : key row = k <;> simp [h]

theorem lookup_cons_self (row : Row) (rows : List Row) :
    lookup key (key row) (row :: rows) = some row := by
  rw [lookup_cons, if_pos rfl]

theorem lookup_cons_of_ne {k : Key} {row : Row} (rows : List Row) (h : key row ≠ k) :
    lookup key k (row :: rows) = lookup key k rows := by
  rw [lookup_cons, if_neg h]

theorem mem_of_lookup {k : Key} {row : Row} {rows : List Row} (h : lookup key k rows = some row) :
    row ∈ rows :=
  List.mem_of_find?_eq_some h

theorem key_of_lookup {k : Key} {row : Row} {rows : List Row} (h : lookup key k rows = some row) :
    key row = k := by
  simpa using List.find?_some h

theorem lookup_eq_none {k : Key} {rows : List Row} :
    lookup key k rows = none ↔ ∀ row ∈ rows, key row ≠ k := by
  simp [lookup]

theorem lookup_of_mem {row : Row} {rows : List Row} (hn : (rows.map key).Nodup) (hm : row ∈ rows) :
    lookup key (key row) rows = some row := by
  cases hl : lookup key (key row) rows with
  | none => exact absurd rfl (lookup_eq_none.mp hl row hm)
  | some found =>
    rw [List.inj_on_of_nodup_map hn (mem_of_lookup hl) hm (key_of_lookup hl)]

/-- Tables with the same rows of a key find the same one. -/
theorem lookup_congr {k : Key} {rows rows' : List Row} (hn : (rows.map key).Nodup)
    (h : ∀ row, key row = k → (row ∈ rows ↔ row ∈ rows')) : lookup key k rows = lookup key k rows' := by
  cases hl : lookup key k rows' with
  | none =>
    rw [lookup_eq_none] at hl ⊢
    exact fun row hrow hk => hl row ((h row hk).mp hrow) hk
  | some row =>
    have hk := key_of_lookup hl
    rw [← hk]
    exact lookup_of_mem hn ((h row hk).mpr (mem_of_lookup hl))

/-- The lookup of a mapped table, when the map keeps the keys. -/
theorem lookup_map {Row' : Type} {key' : Row' → Key} (f : Row → Row')
    (hf : ∀ row, key' (f row) = key row) (k : Key) (rows : List Row) :
    lookup key' k (rows.map f) = (lookup key k rows).map f := by
  induction rows with
  | nil => rfl
  | cons row rows ih =>
    rw [List.map_cons, lookup_cons, lookup_cons, hf, ih]
    split <;> rfl

/-- The association list of some rows finds what the table finds. -/
theorem lookup_assoc {Name Value : Type} [DecidableEq Name] {p : Row → Bool} {name : Row → Name}
    {value : Row → Value} {k : Key} {n : Name} {rows : List Row}
    (h : ∀ row ∈ rows, key row = k ↔ p row = true ∧ name row = n) :
    ((rows.filter p).map fun row => (name row, value row)).lookup n =
      (lookup key k rows).map value := by
  induction rows with
  | nil => rfl
  | cons row rows ih =>
    have hrow := h row List.mem_cons_self
    have ih := ih fun r hr => h r (List.mem_cons_of_mem _ hr)
    by_cases hk : key row = k
    · obtain ⟨hp, hn⟩ := hrow.mp hk
      rw [List.filter_cons_of_pos hp, List.map_cons, List.lookup_cons, hn, beq_self_eq_true,
        lookup_cons, if_pos hk]
      rfl
    · rw [lookup_cons_of_ne _ hk, ← ih]
      by_cases hp : p row
      · have hn : (n == name row) = false := by
          rw [beq_eq_false_iff_ne]
          exact fun hn => hk (hrow.mpr ⟨hp, hn.symm⟩)
        rw [List.filter_cons_of_pos hp, List.map_cons, List.lookup_cons, hn]
      · rw [List.filter_cons_of_neg hp]

/-- With unique keys, a filter by key is the lookup. -/
theorem filter_key {rows : List Row} (hn : (rows.map key).Nodup) (k : Key) :
    (rows.filter fun row => key row = k) = (lookup key k rows).toList := by
  induction rows with
  | nil => rfl
  | cons row rows ih =>
    rw [List.map_cons, List.nodup_cons] at hn
    by_cases hk : key row = k
    · subst hk
      rw [List.filter_cons_of_pos (by simp), lookup_cons_self, ih hn.2,
        lookup_eq_none.mpr fun other hother heq => hn.1 (List.mem_map.mpr ⟨other, hother, heq⟩)]
      rfl
    · rw [List.filter_cons_of_neg (by simpa using hk), lookup_cons_of_ne _ hk, ih hn.2]

/-! ## Replacement -/

@[simp] theorem replace_nil (row : Row) : replace key row [] = [] := rfl

theorem replace_cons (row other : Row) (rows : List Row) :
    replace key row (other :: rows) =
      (if key other = key row then row else other) :: replace key row rows := rfl

theorem lookup_replace_self {row old : Row} {rows : List Row}
    (h : lookup key (key row) rows = some old) :
    lookup key (key row) (replace key row rows) = some row := by
  induction rows with
  | nil => cases h
  | cons other rows ih =>
    rw [replace_cons]
    by_cases hk : key other = key row
    · rw [if_pos hk, lookup_cons_self]
    · rw [lookup_cons_of_ne _ hk] at h
      rw [if_neg hk, lookup_cons_of_ne _ hk, ih h]

theorem lookup_replace_of_ne {k : Key} {row : Row} (rows : List Row) (h : key row ≠ k) :
    lookup key k (replace key row rows) = lookup key k rows := by
  induction rows with
  | nil => rfl
  | cons other rows ih =>
    rw [replace_cons]
    by_cases hk : key other = key row
    · rw [if_pos hk, lookup_cons_of_ne _ h, lookup_cons_of_ne _ (hk.trans_ne h), ih]
    · rw [if_neg hk, lookup_cons, lookup_cons, ih]

theorem lookup_replace (k : Key) (row : Row) (rows : List Row) :
    lookup key k (replace key row rows) =
      if key row = k then (lookup key k rows).map fun _ => row else lookup key k rows := by
  split
  · next hk =>
    subst hk
    cases hl : lookup key (key row) rows with
    | some old => exact lookup_replace_self hl
    | none =>
      rw [lookup_eq_none] at hl
      rw [Option.map_none, lookup_eq_none]
      intro other hother
      obtain ⟨old, hold, rfl⟩ := List.mem_map.mp hother
      rw [if_neg (hl old hold)]
      exact hl old hold
  · next hk => exact lookup_replace_of_ne rows hk

theorem replace_eq_self {row : Row} {rows : List Row} (h : lookup key (key row) rows = none) :
    replace key row rows = rows := by
  rw [lookup_eq_none] at h
  exact (List.map_congr_left fun other hother => if_neg (h other hother)).trans (List.map_id' rows)

theorem keys_replace (row : Row) (rows : List Row) :
    (replace key row rows).map key = rows.map key := by
  rw [replace, List.map_map]
  apply List.map_congr_left
  intro other _
  by_cases hk : key other = key row <;> simp [hk]

/-- A column that the new row shares with the old one stays. -/
theorem map_replace {α : Type} {f : Row → α} {row old : Row} {rows : List Row}
    (hn : (rows.map key).Nodup) (hold : lookup key (key row) rows = some old)
    (hf : f row = f old) : (replace key row rows).map f = rows.map f := by
  rw [replace, List.map_map]
  refine List.map_congr_left fun other hother => ?_
  by_cases hk : key other = key row
  · have hsame : other = old := List.inj_on_of_nodup_map hn hother (mem_of_lookup hold)
      (hk.trans (key_of_lookup hold).symm)
    rw [Function.comp, if_pos hk, hf, hsame]
  · simp only [Function.comp, if_neg hk]

theorem mem_replace {row other : Row} {rows : List Row} (h : other ∈ replace key row rows) :
    other = row ∨ (other ∈ rows ∧ key other ≠ key row) := by
  obtain ⟨old, hold, rfl⟩ := List.mem_map.mp h
  by_cases hk : key old = key row
  · exact .inl (by simp [hk])
  · exact .inr (by simp [hk, hold])

theorem nodup_cons_of_lookup {row : Row} {rows : List Row} (hn : (rows.map key).Nodup)
    (h : lookup key (key row) rows = none) : ((row :: rows).map key).Nodup := by
  rw [List.map_cons, List.nodup_cons]
  refine ⟨fun hm => ?_, hn⟩
  obtain ⟨other, hother, hk⟩ := List.mem_map.mp hm
  exact lookup_eq_none.mp h other hother hk

theorem replace_map {Row' : Type} {key' : Row' → Key} (f : Row → Row')
    (hf : ∀ row, key' (f row) = key row) (row : Row) (rows : List Row) :
    (replace key row rows).map f = replace key' (f row) (rows.map f) := by
  rw [replace, replace, List.map_map, List.map_map]
  apply List.map_congr_left
  intro other _
  by_cases hk : key other = key row <;> simp [hf, hk]

/-- Replacing a row outside a filter that depends on the key alone leaves the filtered rows. -/
theorem filter_replace_of_neg {p : Row → Bool} {row : Row} {rows : List Row}
    (hp : ∀ a b : Row, key a = key b → p a = p b) (h : p row = false) :
    (replace key row rows).filter p = rows.filter p := by
  induction rows with
  | nil => rfl
  | cons other rows ih =>
    rw [replace_cons]
    by_cases hk : key other = key row
    · rw [if_pos hk, List.filter_cons_of_neg (by simp [h]),
        List.filter_cons_of_neg (by simp [hp _ _ hk, h]), ih]
    · rw [if_neg hk, List.filter_cons, List.filter_cons, ih]

omit [DecidableEq Key] in
/-- A change of rows outside `p`. -/
theorem filter_map_of_fixed {p : Row → Bool} {f : Row → Row} (hp : ∀ row, p (f row) = p row)
    (hf : ∀ row, p row = true → f row = row) (rows : List Row) :
    (rows.map f).filter p = rows.filter p := by
  have hcomp : p ∘ f = p := funext hp
  rw [List.filter_map, hcomp]
  exact (List.map_congr_left fun row hrow => hf row (List.mem_filter.mp hrow).2).trans
    (List.map_id _)

omit [DecidableEq Key] in
/-- Tables that agree on `p` have the same rows of it. -/
theorem mem_congr_of_filter {p : Row → Bool} {rows rows' : List Row}
    (h : rows'.filter p = rows.filter p) {row : Row} (hp : p row = true) :
    row ∈ rows ↔ row ∈ rows' := by
  have hmem : ∀ l : List Row, row ∈ l ↔ row ∈ l.filter p := fun l => by
    rw [List.mem_filter, and_iff_left hp]
  rw [hmem rows, hmem rows', h]

/-! ## A group of rows in two tables -/

/-- Every row of the group in one table has one in the other that is related to it. -/
structure Matched (group : Row → Prop) (R : Row → Row → Prop) (rows rows' : List Row) : Prop where
  left : ∀ row ∈ rows, group row → ∃ row' ∈ rows', R row row'
  right : ∀ row' ∈ rows', group row' → ∃ row ∈ rows, R row row'

section Matched

variable {group : Row → Prop} {R : Row → Row → Prop} {rows rows' : List Row}

omit [DecidableEq Key] in
theorem Matched.cons (h : Matched group R rows rows') {row row' : Row} (hrow : R row row') :
    Matched group R (row :: rows) (row' :: rows') := by
  constructor
  · intro a ha hgroup
    rcases List.mem_cons.mp ha with rfl | ha
    · exact ⟨row', List.mem_cons_self, hrow⟩
    · obtain ⟨b, hb, hab⟩ := h.left a ha hgroup
      exact ⟨b, List.mem_cons_of_mem _ hb, hab⟩
  · intro b hb hgroup
    rcases List.mem_cons.mp hb with rfl | hb
    · exact ⟨row, List.mem_cons_self, hrow⟩
    · obtain ⟨a, ha, hab⟩ := h.right b hb hgroup
      exact ⟨a, List.mem_cons_of_mem _ ha, hab⟩

theorem matched_of_lookup (hn : (rows.map key).Nodup) (hn' : (rows'.map key).Nodup)
    (h : ∀ row, group row →
      Option.Rel R (lookup key (key row) rows) (lookup key (key row) rows')) :
    Matched group R rows rows' := by
  constructor
  · intro row hrow hgroup
    have hrel := h row hgroup
    rw [lookup_of_mem hn hrow] at hrel
    generalize hl : lookup key (key row) rows' = found at hrel
    cases hrel with
    | some hR => exact ⟨_, mem_of_lookup hl, hR⟩
  · intro row hrow hgroup
    have hrel := h row hgroup
    rw [lookup_of_mem hn' hrow] at hrel
    generalize hl : lookup key (key row) rows = found at hrel
    cases hrel with
    | some hR => exact ⟨_, mem_of_lookup hl, hR⟩

theorem rel_lookup_cons {row row' : Row} {k : Key}
    (h : Option.Rel R (lookup key k rows) (lookup key k rows')) (hkey : key row = key row')
    (hrow : R row row') : Option.Rel R (lookup key k (row :: rows)) (lookup key k (row' :: rows')) := by
  rw [lookup_cons, lookup_cons, ← hkey]
  split
  · exact .some hrow
  · exact h

theorem rel_lookup_replace {row row' : Row} {k : Key}
    (h : Option.Rel R (lookup key k rows) (lookup key k rows')) (hkey : key row = key row')
    (hrow : R row row') :
    Option.Rel R (lookup key k (replace key row rows)) (lookup key k (replace key row' rows')) := by
  rw [lookup_replace, lookup_replace, ← hkey]
  split
  · generalize lookup key k rows = found at h
    generalize lookup key k rows' = found' at h
    cases h with
    | some => exact .some hrow
    | none => exact .none
  · exact h

end Matched

/-! ## Two tables row by row -/

section Rows

variable {Row' : Type} {key' : Row' → Key} {R : Row → Row' → Prop} {rows : List Row}
  {rows' : List Row'}

theorem map_eq_of_rel {α : Type} {o : Option Row} {o' : Option Row'} {f : Row → α} {g : Row' → α}
    (h : Option.Rel R o o') (hR : ∀ a b, R a b → f a = g b) : o.map f = o'.map g := by
  cases h with
  | some hab => rw [Option.map_some, Option.map_some, hR _ _ hab]
  | none => rfl

theorem isSome_eq_of_rel {o : Option Row} {o' : Option Row'} (h : Option.Rel R o o') :
    o.isSome = o'.isSome := by
  cases h with
  | some => rfl
  | none => rfl

theorem lookup_forall₂ (hR : ∀ a b, R a b → key a = key' b) (k : Key)
    (h : List.Forall₂ R rows rows') : Option.Rel R (lookup key k rows) (lookup key' k rows') := by
  induction h with
  | nil => exact .none
  | @cons a b _ _ hab _ ih =>
    rw [lookup_cons, lookup_cons, ← hR a b hab]
    split
    · exact .some hab
    · exact ih

theorem replace_forall₂ (hR : ∀ a b, R a b → key a = key' b) {row : Row} {row' : Row'}
    (hrow : R row row') (h : List.Forall₂ R rows rows') :
    List.Forall₂ R (replace key row rows) (replace key' row' rows') := by
  induction h with
  | nil => exact .nil
  | @cons a b _ _ hab _ ih =>
    rw [replace_cons, replace_cons, ← hR a b hab, ← hR row row' hrow]
    split
    · exact .cons hrow ih
    · exact .cons hab ih

theorem exists_of_mem_right (h : List.Forall₂ R rows rows') {row' : Row'} (hmem : row' ∈ rows') :
    ∃ row ∈ rows, R row row' := by
  induction h with
  | nil => cases hmem
  | cons hab _ ih =>
    rcases List.mem_cons.mp hmem with rfl | hmem
    · exact ⟨_, List.mem_cons_self, hab⟩
    · obtain ⟨row, hrow, hR⟩ := ih hmem
      exact ⟨row, List.mem_cons_of_mem _ hrow, hR⟩

theorem forall₂_trans {α β γ : Type} {S : α → β → Prop} {T : β → γ → Prop} {U : α → γ → Prop}
    (hcomp : ∀ a b c, S a b → T b c → U a c) {as : List α} {bs : List β} {cs : List γ}
    (h : List.Forall₂ S as bs) (h' : List.Forall₂ T bs cs) : List.Forall₂ U as cs := by
  induction h generalizing cs with
  | nil =>
    cases h'
    exact .nil
  | cons hab _ ih =>
    cases h' with
    | cons hbc hrest => exact .cons (hcomp _ _ _ hab hbc) (ih hrest)

omit [DecidableEq Key] in
/-- Rows paired by a unique key, both newest first, are in the same order by their numbers. -/
theorem ordered_forall₂ {column : Row → Int} {column' : Row' → Int}
    (h : List.Forall₂ R rows rows') (hR : ∀ a b, R a b → key a = key' b)
    (hn : (rows.map key).Nodup) (hdesc : rows.Pairwise fun a b => column b < column a)
    (hdesc' : rows'.Pairwise fun a b => column' b < column' a) {a b : Row} {a' b' : Row'}
    (ha : a ∈ rows) (ha' : a' ∈ rows') (hkey : key a = key' a')
    (hb : b ∈ rows) (hb' : b' ∈ rows') (hkeyb : key b = key' b') :
    column a < column b ↔ column' a' < column' b' := by
  induction h with
  | nil => cases ha
  | @cons x y xs ys hxy hrest ih =>
    rw [List.map_cons, List.nodup_cons] at hn
    obtain ⟨hx, hn⟩ := hn
    obtain ⟨hbelow, hdesc⟩ := List.pairwise_cons.mp hdesc
    obtain ⟨hbelow', hdesc'⟩ := List.pairwise_cons.mp hdesc'
    -- A row of the rest is paired within the rest.
    have hpaired : ∀ {r r'}, r ∈ x :: xs → r' ∈ y :: ys → key r = key' r' →
        (r = x ∧ r' = y) ∨ (r ∈ xs ∧ r' ∈ ys) := by
      intro r r' hr hr' hrr
      rcases List.mem_cons.mp hr with rfl | hr
      · rcases List.mem_cons.mp hr' with rfl | hr'
        · exact .inl ⟨rfl, rfl⟩
        · obtain ⟨z, hz, hzr⟩ := exists_of_mem_right hrest hr'
          exact absurd (List.mem_map.mpr ⟨z, hz, (hR _ _ hzr).trans hrr.symm⟩) hx
      · rcases List.mem_cons.mp hr' with rfl | hr'
        · exact absurd (List.mem_map.mpr ⟨r, hr, hrr.trans (hR _ _ hxy).symm⟩) hx
        · exact .inr ⟨hr, hr'⟩
    rcases hpaired ha ha' hkey with ⟨rfl, rfl⟩ | ⟨hxs, hys⟩
    · rcases hpaired hb hb' hkeyb with ⟨rfl, rfl⟩ | ⟨hxsb, hysb⟩
      · simp
      · have := hbelow b hxsb
        have := hbelow' b' hysb
        omega
    · rcases hpaired hb hb' hkeyb with ⟨rfl, rfl⟩ | ⟨hxsb, hysb⟩
      · exact iff_of_true (hbelow a hxs) (hbelow' a' hys)
      · exact ih hn hdesc hdesc' hxs hys hxsb hysb

/-- Rows in a relation, when those they come from are in one. -/
theorem pairwise_of_forall₂ {α β : Type} {S : α → β → Prop} {P : α → α → Prop} {Q : β → β → Prop}
    {as : List α} {bs : List β} (h : List.Forall₂ S as bs) (has : as.Pairwise P)
    (hPQ : ∀ a a' b b', P a a' → S a b → S a' b' → Q b b') : bs.Pairwise Q := by
  induction h with
  | nil => exact .nil
  | @cons a b as bs hab hrest ih =>
    obtain ⟨hfirst, has⟩ := List.pairwise_cons.mp has
    refine .cons (fun b' hb' => ?_) (ih has)
    obtain ⟨a', ha', hab'⟩ := exists_of_mem_right hrest hb'
    exact hPQ a a' b b' (hfirst a' ha') hab hab'

theorem head_forall₂ (h : List.Forall₂ R rows rows') : Option.Rel R rows.head? rows'.head? := by
  cases h with
  | nil => exact .none
  | cons hab _ => exact .some hab

/-- Rows in the same order by a column that orders both tables alike. -/
theorem orderBy_forall₂ {column : Row → Int} {column' : Row' → Int}
    (hR : ∀ a a' b b', R a a' → R b b' → (column a < column b ↔ column' a' < column' b'))
    (h : List.Forall₂ R rows rows') :
    List.Forall₂ R (orderBy column rows) (orderBy column' rows') := by
  have hinsert : ∀ {a a' bs bs'}, R a a' → List.Forall₂ R bs bs' →
      List.Forall₂ R (bs.orderedInsert (fun a b => column a ≤ column b) a)
        (bs'.orderedInsert (fun a b => column' a ≤ column' b) a') := by
    intro a a' bs bs' ha hbs
    induction hbs with
    | nil => exact .cons ha .nil
    | @cons b b' _ _ hb hrest ih =>
      have hle : column a ≤ column b ↔ column' a' ≤ column' b' := by
        have := hR b b' a a' hb ha
        omega
      rw [List.orderedInsert_cons, List.orderedInsert_cons]
      by_cases h : column a ≤ column b
      · rw [if_pos h, if_pos (hle.mp h)]
        exact .cons ha (.cons hb hrest)
      · rw [if_neg h, if_neg (mt hle.mpr h)]
        exact .cons hb ih
  induction h with
  | nil => exact .nil
  | cons hab _ ih => exact hinsert hab ih

end Rows

/-- Tables whose parts are paired row by row. -/
theorem matched_of_forall₂ {Row : Type} {group : Row → Prop} {R : Row → Row → Prop}
    {rows rows' : List Row} {part part' : Row → List Row}
    (hpart : ∀ row, part row ⊆ rows ∧ (row ∈ rows → row ∈ part row))
    (hpart' : ∀ row, part' row ⊆ rows' ∧ (row ∈ rows' → row ∈ part' row))
    (h : ∀ row, group row → List.Forall₂ R (part row) (part' row)) : Matched group R rows rows' := by
  constructor
  · intro row hrow hgroup
    obtain ⟨row', hrow', hR⟩ := exists_of_mem_right (h row hgroup).flip ((hpart row).2 hrow)
    exact ⟨row', (hpart' row).1 hrow', hR⟩
  · intro row hrow hgroup
    obtain ⟨row', hrow', hR⟩ := exists_of_mem_right (h row hgroup) ((hpart' row).2 hrow)
    exact ⟨row', (hpart row).1 hrow', hR⟩

/-- Rows paired one by one over a common key are paired one to one. -/
theorem existsUnique_of_forall₂ {α β Key : Type} {R : α → β → Prop} {f : α → Key} {g : β → Key}
    {as : List α} {bs : List β} (h : List.Forall₂ R as bs) (hR : ∀ a b, R a b → f a = g b)
    (hn : (as.map f).Nodup) :
    (∀ a ∈ as, ∃! b, b ∈ bs ∧ R a b) ∧ ∀ b ∈ bs, ∃! a, a ∈ as ∧ R a b := by
  have hkeys : as.map f = bs.map g := by
    rw [← List.forall₂_eq_eq_eq, List.forall₂_map_left_iff, List.forall₂_map_right_iff]
    exact h.imp hR
  have hn' : (bs.map g).Nodup := hkeys ▸ hn
  have hright : ∀ a ∈ as, ∃ b ∈ bs, R a b := by
    clear hkeys hn hn'
    induction h with
    | nil => nofun
    | cons hab _ ih =>
      rintro a ha
      rcases List.mem_cons.mp ha with rfl | ha
      · exact ⟨_, List.mem_cons_self, hab⟩
      · obtain ⟨b, hb, hab⟩ := ih a ha
        exact ⟨b, List.mem_cons_of_mem _ hb, hab⟩
  constructor
  · intro a ha
    obtain ⟨b, hb, hab⟩ := hright a ha
    exact ⟨b, ⟨hb, hab⟩, fun b' hb' =>
      List.inj_on_of_nodup_map hn' hb'.1 hb ((hR a b' hb'.2).symm.trans (hR a b hab))⟩
  · intro b hb
    obtain ⟨a, ha, hkey⟩ := List.mem_map.mp (hkeys ▸ List.mem_map_of_mem (f := g) hb)
    obtain ⟨b', hb', hab⟩ := hright a ha
    cases List.inj_on_of_nodup_map hn' hb' hb ((hR a b' hab).symm.trans hkey)
    exact ⟨a, ⟨ha, hab⟩, fun a' ha' =>
      List.inj_on_of_nodup_map hn ha'.1 ha ((hR a' b ha'.2).trans (hR a b hab).symm)⟩

end Table
