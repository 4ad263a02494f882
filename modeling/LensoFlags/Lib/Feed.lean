import LensoFlags.Lib.Table

/-!
# Numbered feeds

A feed is a table whose rows carry a number. A reader takes it a page at a time, in the order of the
numbers, and continues above the last number it has seen.

`Grows` relates two versions of a feed: every row keeps its number, and every new row is numbered
above all the old ones. Then a reader misses nothing behind it.

A reader that stands at the number of a row, with a row above it, holds a cursor (`Reached`). Where
new rows may be numbered below old ones, `Follows` is what its pages still rest on, and `InOrder`
says when it holds.

Results:
1. `Grows.refl`, `Grows.trans`: versions of a feed in turn.
2. `Grows.append`, `Grows.replace`: what an insertion and an update have to respect.
3. `Grows.behind`: no row appears at or below a number that was given out.
4. `Follows.trans`, `follows_iff`: the same of cursors, one version at a time.
5. `reached_of_page`, `mem_of_page`, `page_of_reached`: the cursors are those of pages, and pages
   are without gaps.
-/

namespace Feed

variable {Row Key : Type} {key : Row → Key} {seq : Row → Int} {rows rows' rows'' : List Row}

structure Grows (key : Row → Key) (seq : Row → Int) (rows rows' : List Row) : Prop where
  kept : ∀ row ∈ rows, ∃ row' ∈ rows', key row' = key row ∧ seq row' = seq row
  ahead : ∀ row' ∈ rows', (∃ row ∈ rows, key row = key row' ∧ seq row = seq row') ∨
    ∀ row ∈ rows, seq row < seq row'

theorem Grows.refl (key : Row → Key) (seq : Row → Int) (rows : List Row) :
    Grows key seq rows rows where
  kept := fun row hrow => ⟨row, hrow, rfl, rfl⟩
  ahead := fun row hrow => .inl ⟨row, hrow, rfl, rfl⟩

theorem Grows.trans (h : Grows key seq rows rows') (h' : Grows key seq rows' rows'') :
    Grows key seq rows rows'' where
  kept := by
    intro row hrow
    obtain ⟨row', hrow', hkey, hseq⟩ := h.kept row hrow
    obtain ⟨row'', hrow'', hkey', hseq'⟩ := h'.kept row' hrow'
    exact ⟨row'', hrow'', hkey'.trans hkey, hseq'.trans hseq⟩
  ahead := by
    intro row'' hrow''
    rcases h'.ahead row'' hrow'' with ⟨row', hrow', hkey', hseq'⟩ | habove
    · rcases h.ahead row' hrow' with ⟨row, hrow, hkey, hseq⟩ | habove
      · exact .inl ⟨row, hrow, hkey.trans hkey', hseq.trans hseq'⟩
      · refine .inr fun row hrow => ?_
        rw [← hseq']
        exact habove row hrow
    · -- An old row still has its number in the version between.
      refine .inr fun row hrow => ?_
      obtain ⟨row', hrow', -, hseq⟩ := h.kept row hrow
      rw [← hseq]
      exact habove row' hrow'

/-- New rows above every old one join the feed. -/
theorem Grows.append (key : Row → Key) {new : List Row}
    (h : ∀ row ∈ new, ∀ old ∈ rows, seq old < seq row) : Grows key seq rows (new ++ rows) where
  kept := fun row hrow => ⟨row, List.mem_append_right new hrow, rfl, rfl⟩
  ahead := by
    intro row hrow
    rcases List.mem_append.mp hrow with hnew | hold
    · exact .inr (h row hnew)
    · exact .inl ⟨row, hold, rfl, rfl⟩

/-- A row is updated and keeps its number. -/
theorem Grows.replace [DecidableEq Key] {row old : Row} (hn : (rows.map key).Nodup)
    (hold : Table.lookup key (key row) rows = some old) (hseq : seq row = seq old) :
    Grows key seq rows (Table.replace key row rows) := by
  have hmem : old ∈ rows := Table.mem_of_lookup hold
  have hkey : key old = key row := Table.key_of_lookup hold
  refine ⟨fun other hother => ?_, fun row' hrow' => .inl ?_⟩
  · refine ⟨_, List.mem_map_of_mem hother, ?_⟩
    by_cases hk : key other = key row
    · have hsame : other = old := List.inj_on_of_nodup_map hn hother hmem (hk.trans hkey.symm)
      rw [if_pos hk, hsame]
      exact ⟨hkey.symm, hseq⟩
    · rw [if_neg hk]
      exact ⟨rfl, rfl⟩
  · rcases Table.mem_replace hrow' with rfl | ⟨hmem', -⟩
    · exact ⟨old, hmem, hkey, hseq.symm⟩
    · exact ⟨row', hmem', rfl, rfl⟩

/-- Nothing appears behind a reader that has got as far as `row`. -/
theorem Grows.behind (h : Grows key seq rows rows') {row row' : Row} (hrow : row ∈ rows)
    (hrow' : row' ∈ rows') (hle : seq row' ≤ seq row) :
    ∃ old ∈ rows, key old = key row' ∧ seq old = seq row' := by
  rcases h.ahead row' hrow' with hold | habove
  · exact hold
  · exact absurd (habove row hrow) (not_lt.mpr hle)

/-- Rows carried over to another table, with their keys and numbers. -/
theorem Grows.map {Row' Key' : Type} {key' : Row' → Key'} {seq' : Row' → Int} {f : Row → Row'}
    (h : Grows key seq rows rows') (hkey : ∀ a b, key a = key b → key' (f a) = key' (f b))
    (hseq : ∀ a, seq' (f a) = seq a) : Grows key' seq' (rows.map f) (rows'.map f) where
  kept := by
    intro row hrow
    obtain ⟨old, hold, rfl⟩ := List.mem_map.mp hrow
    obtain ⟨new, hnew, hk, hs⟩ := h.kept old hold
    exact ⟨f new, List.mem_map_of_mem hnew, hkey _ _ hk, by rw [hseq, hseq, hs]⟩
  ahead := by
    intro row hrow
    obtain ⟨new, hnew, rfl⟩ := List.mem_map.mp hrow
    rcases h.ahead new hnew with ⟨old, hold, hk, hs⟩ | habove
    · exact .inl ⟨f old, List.mem_map_of_mem hold, hkey _ _ hk, by rw [hseq, hseq, hs]⟩
    · refine .inr (List.forall_mem_map.mpr fun old hold => ?_)
      rw [hseq, hseq]
      exact habove old hold

/-! ## Cursors -/

/-- Where a reader of the rows of `p` can stand: at the number of a row, with a row above it. -/
def Reached (p : Row → Prop) (seq : Row → Int) (rows : List Row) (n : Int) : Prop :=
  ∃ row ∈ rows, ∃ next ∈ rows, p row ∧ p next ∧ seq row = n ∧ n < seq next

/-- Rows keep their numbers, and no row of `p` appears behind a cursor. -/
structure Follows (p : Row → Prop) (key : Row → Key) (seq : Row → Int) (rows rows' : List Row) :
    Prop where
  kept : ∀ row ∈ rows, ∃ row' ∈ rows', key row' = key row ∧ seq row' = seq row
  behind : ∀ n, Reached p seq rows n → ∀ row' ∈ rows', p row' → seq row' ≤ n →
    ∃ row ∈ rows, key row = key row' ∧ seq row = seq row'

/-- Of two old rows of its group, a new row is numbered above the lower one. -/
def InOrder {Group : Type} (group : Row → Group) (key : Row → Key) (seq : Row → Int)
    (rows rows' : List Row) : Prop :=
  ∀ row' ∈ rows', (∀ row ∈ rows, key row ≠ key row') → ∀ row ∈ rows, ∀ next ∈ rows,
    group row = group row' → group next = group row' → seq row < seq next → seq row < seq row'

section Follows

variable {p : Row → Prop}

theorem Follows.refl (p : Row → Prop) (key : Row → Key) (seq : Row → Int) (rows : List Row) :
    Follows p key seq rows rows where
  kept := fun row hrow => ⟨row, hrow, rfl, rfl⟩
  behind := fun _ _ row hrow _ _ => ⟨row, hrow, rfl, rfl⟩

/-- A cursor stays one. -/
theorem Follows.reached (hp : ∀ a b, key a = key b → p a → p b) (h : Follows p key seq rows rows')
    {n : Int} (hn : Reached p seq rows n) : Reached p seq rows' n := by
  obtain ⟨row, hrow, next, hnext, hprow, hpnext, hseq, hlt⟩ := hn
  obtain ⟨row', hrow', hkey, hseq'⟩ := h.kept row hrow
  obtain ⟨next', hnext', hkey', hseqn⟩ := h.kept next hnext
  exact ⟨row', hrow', next', hnext', hp _ _ hkey.symm hprow, hp _ _ hkey'.symm hpnext,
    hseq'.trans hseq, by rw [hseqn]; exact hlt⟩

theorem Follows.trans (hp : ∀ a b, key a = key b → p a → p b) (h : Follows p key seq rows rows')
    (h' : Follows p key seq rows' rows'') : Follows p key seq rows rows'' where
  kept := by
    intro row hrow
    obtain ⟨row', hrow', hkey, hseq⟩ := h.kept row hrow
    obtain ⟨row'', hrow'', hkey', hseq'⟩ := h'.kept row' hrow'
    exact ⟨row'', hrow'', hkey'.trans hkey, hseq'.trans hseq⟩
  behind := by
    intro n hn row'' hrow'' hprow hle
    obtain ⟨row', hrow', hkey', hseq'⟩ := h'.behind n (h.reached hp hn) row'' hrow'' hprow hle
    obtain ⟨row, hrow, hkey, hseq⟩ := h.behind n hn row' hrow' (hp _ _ hkey'.symm hprow)
      (by rw [hseq']; exact hle)
    exact ⟨row, hrow, hkey.trans hkey', hseq.trans hseq'⟩

/-- No reader of any group is passed by exactly when new rows come in order. -/
theorem follows_iff {Group : Type} {group : Row → Group}
    (hkept : ∀ row ∈ rows, ∃ row' ∈ rows', key row' = key row ∧ seq row' = seq row)
    (hn : (rows'.map key).Nodup) :
    (∀ g, Follows (fun row => group row = g) key seq rows rows') ↔
      InOrder group key seq rows rows' := by
  constructor
  · intro h row' hrow' hnew row hrow next hnext hgroup hgroup' hlt
    by_contra hle
    obtain ⟨old, hold, hkey, -⟩ := (h (group row')).behind (seq row)
      ⟨row, hrow, next, hnext, hgroup, hgroup', rfl, hlt⟩ row' hrow' rfl (not_lt.mp hle)
    exact hnew old hold hkey
  · refine fun h g => ⟨hkept, ?_⟩
    rintro n ⟨row, hrow, next, hnext, hgroup, hgroup', rfl, hlt⟩ row' hrow' hg hle
    by_contra hnone
    push Not at hnone
    refine absurd (h row' hrow' (fun old hold hkey => ?_) row hrow next hnext (hgroup.trans hg.symm)
      (hgroup'.trans hg.symm) hlt) (not_lt.mpr hle)
    -- A row with an old key is the old row, with its number.
    obtain ⟨same, hsame, hkey', hseq⟩ := hkept old hold
    have heq : same = row' := List.inj_on_of_nodup_map hn hsame hrow' (hkey'.trans hkey)
    exact hnone old hold hkey (hseq.symm.trans (by rw [heq]))

end Follows

/-! ## Pages -/

section Pages

variable {p : Row → Prop} {q : Row → Bool}

theorem pairwise_orderBy (seq : Row → Int) (rows : List Row) :
    (Table.orderBy seq rows).Pairwise fun a b => seq a ≤ seq b :=
  List.pairwise_insertionSort _ _

/-- The cursor of a page is a row's number, and the row after it is above. -/
theorem reached_of_page (hn : (rows.map seq).Nodup) (hq : ∀ row, q row = true → p row) {limit : ℕ}
    {row : Row}
    (h : ((Table.orderBy seq (rows.filter q)).take limit).dropLast.getLast? = some row) :
    Reached p seq rows (seq row) := by
  obtain ⟨before, hbefore⟩ := List.getLast?_eq_some_iff.mp h
  generalize hpage : (Table.orderBy seq (rows.filter q)).take limit = rowsOf at h hbefore
  have hne : rowsOf ≠ [] := by
    rintro rfl
    cases h
  have hsplit := List.dropLast_append_getLast hne
  rw [hbefore] at hsplit
  have hsub : rowsOf.Sublist (Table.orderBy seq (rows.filter q)) := by
    rw [← hpage]
    exact List.take_sublist _ _
  have hmem : ∀ r ∈ rowsOf, r ∈ rows ∧ q r = true := fun r hr =>
    List.mem_filter.mp (Table.mem_orderBy.mp (hsub.mem hr))
  have hrow : row ∈ rowsOf := by
    rw [← hsplit]
    simp
  have hlast : rowsOf.getLast hne ∈ rowsOf := List.getLast_mem hne
  have hle : seq row ≤ seq (rowsOf.getLast hne) := by
    have hpairwise := (pairwise_orderBy seq (rows.filter q)).sublist hsub
    rw [← hsplit, List.pairwise_append] at hpairwise
    exact hpairwise.2.2 row (by simp) _ (List.mem_singleton_self _)
  have hlt : seq row ≠ seq (rowsOf.getLast hne) := by
    have hnodup : (rowsOf.map seq).Nodup := by
      refine List.Nodup.sublist (hsub.map seq) ?_
      exact ((List.perm_insertionSort _ _).map seq).nodup_iff.mpr
        (hn.sublist (List.filter_sublist.map seq))
    rw [← hsplit, List.map_append, List.nodup_append] at hnodup
    exact hnodup.2.2 _ (List.mem_map_of_mem (by simp)) _ (List.mem_map_of_mem
      (List.mem_singleton_self _))
  exact ⟨row, (hmem row hrow).1, _, (hmem _ hlast).1, hq _ (hmem row hrow).2, hq _ (hmem _ hlast).2,
    rfl, lt_of_le_of_ne hle hlt⟩

/-- A page has every row between its start and its cursor. -/
theorem mem_of_page (hn : (rows.map seq).Nodup) {limit : ℕ} {row other : Row}
    (h : ((Table.orderBy seq (rows.filter q)).take limit).dropLast.getLast? = some row)
    (hother : other ∈ rows) (hq : q other = true) (hle : seq other ≤ seq row) :
    other ∈ ((Table.orderBy seq (rows.filter q)).take limit).dropLast := by
  have hmem : other ∈ Table.orderBy seq (rows.filter q) :=
    Table.mem_orderBy.mpr (List.mem_filter.mpr ⟨hother, hq⟩)
  have hprefix : ((Table.orderBy seq (rows.filter q)).take limit).dropLast <+:
      Table.orderBy seq (rows.filter q) := (List.dropLast_prefix _).trans (List.take_prefix ..)
  have hrow := List.mem_of_getLast? h
  generalize ((Table.orderBy seq (rows.filter q)).take limit).dropLast = page at hprefix hrow ⊢
  obtain ⟨rest, hsplit⟩ := hprefix
  rw [← hsplit] at hmem
  refine (List.mem_append.mp hmem).resolve_right fun hrest => ?_
  -- What comes after the page is above all of it.
  have hpairwise := pairwise_orderBy seq (rows.filter q)
  rw [← hsplit, List.pairwise_append] at hpairwise
  have hsame : seq row = seq other := le_antisymm (hpairwise.2.2 row hrow other hrest) hle
  have hnodup : ((page ++ rest).map seq).Nodup := by
    rw [hsplit]
    exact ((List.perm_insertionSort _ _).map seq).nodup_iff.mpr
      (hn.sublist (List.filter_sublist.map seq))
  rw [List.map_append, List.nodup_append] at hnodup
  exact hnodup.2.2 _ (List.mem_map_of_mem hrow) _ (List.mem_map_of_mem hrest) hsame

/-- A page of one row from just below a cursor gives the cursor. -/
theorem page_of_reached {n : Int} (h : Reached (fun row => q row = true) seq rows n) :
    ∃ row next, seq row = n ∧
      (Table.orderBy seq (rows.filter fun row => q row && decide (n - 1 < seq row))).take 2 =
        [row, next] := by
  obtain ⟨row, hrow, next, hnext, hqrow, hqnext, rfl, hlt⟩ := h
  have hpairwise := pairwise_orderBy seq
    (rows.filter fun other => q other && decide (seq row - 1 < seq other))
  have hmem : ∀ r, r ∈ Table.orderBy seq
      (rows.filter fun other => q other && decide (seq row - 1 < seq other)) ↔
        r ∈ rows ∧ q r = true ∧ seq row - 1 < seq r := by
    intro r
    rw [Table.mem_orderBy, List.mem_filter, Bool.and_eq_true, decide_eq_true_eq]
  generalize Table.orderBy seq
    (rows.filter fun other => q other && decide (seq row - 1 < seq other)) = sorted
    at hpairwise hmem ⊢
  have hrow' := (hmem row).mpr ⟨hrow, hqrow, by omega⟩
  have hnext' := (hmem next).mpr ⟨hnext, hqnext, by omega⟩
  cases sorted with
  | nil => cases hrow'
  | cons first rest =>
    have hfirst := ((hmem first).mp List.mem_cons_self).2.2
    have hle : seq first ≤ seq row := by
      rcases List.mem_cons.mp hrow' with rfl | hrest
      · exact le_rfl
      · exact (List.pairwise_cons.mp hpairwise).1 row hrest
    cases rest with
    | nil =>
      rw [List.mem_singleton] at hnext'
      subst hnext'
      omega
    | cons second rest => exact ⟨first, second, by omega, rfl⟩

end Pages

end Feed
