import LensoFlags.Lib.Feed

/-!
# Reading a feed to its end

A reader takes page after page of the rows that satisfy `q`, each from where the page before ended.
`IsPage` says what a page of a table is, `Paging` how pages follow each other; the table may have
changed between two of them.

Results:
1. `isPage_probe`: one row more than asked for tells whether there is another page.
2. `Paging.exhausts`: from a table that does not change, the pages concatenate to its rows.
3. `Paging.once`: a row that is there all the time, with its number, comes once.
-/

namespace Feed

variable {Row Key : Type} {key : Row → Key} {seq : Row → Int} {q : Row → Bool} {rows : List Row}

/-! ## Rows above a number -/

/-- The rows of `q` above `after`, in the order of their numbers. -/
def above (seq : Row → Int) (q : Row → Bool) (rows : List Row) (after : Int) : List Row :=
  Table.orderBy seq (rows.filter fun row => q row && decide (after < seq row))

theorem mem_above {after : Int} {row : Row} :
    row ∈ above seq q rows after ↔ row ∈ rows ∧ q row = true ∧ after < seq row := by
  rw [above, Table.mem_orderBy, List.mem_filter, Bool.and_eq_true, decide_eq_true_eq]

theorem above_perm (seq : Row → Int) (q : Row → Bool) (rows : List Row) (after : Int) :
    (above seq q rows after).Perm (rows.filter fun row => q row && decide (after < seq row)) :=
  List.perm_insertionSort _ _

/-- A column without repetitions has none above a number. -/
theorem nodup_above {α : Type} {column : Row → α} (hn : (rows.map column).Nodup) (after : Int) :
    ((above seq q rows after).map column).Nodup :=
  ((above_perm seq q rows after).map column).nodup_iff.mpr
    (hn.sublist (List.filter_sublist.map column))

theorem ascending_above (hn : (rows.map seq).Nodup) (after : Int) :
    ((above seq q rows after).map seq).Pairwise (· < ·) := by
  rw [List.pairwise_map]
  have hdistinct := List.pairwise_map.mp (@nodup_above _ seq q rows _ seq hn after)
  exact ((pairwise_orderBy seq _).and hdistinct).imp fun h => lt_of_le_of_ne h.1 h.2

/-- Two ascending lists of the same rows are equal. -/
theorem eq_of_ascending {l l' : List Row} (h : (l.map seq).Pairwise (· < ·))
    (h' : (l'.map seq).Pairwise (· < ·)) (hmem : ∀ row, row ∈ l ↔ row ∈ l') : l = l' := by
  rw [List.pairwise_map] at h h'
  have hnodup : ∀ {l : List Row}, l.Pairwise (fun a b => seq a < seq b) → l.Nodup :=
    fun h => h.imp fun hlt heq => absurd (heq ▸ hlt) (lt_irrefl _)
  have hperm : l.Perm l' := (List.perm_ext_iff_of_nodup (hnodup h) (hnodup h')).mpr hmem
  exact hperm.eq_of_pairwise (fun a b _ _ hab hba => absurd hab (not_lt.mpr hba.le)) h h'

/-- Tables with the same rows of `q` have the same ones above a number. -/
theorem above_congr {rows' : List Row} (hn : (rows.map seq).Nodup) (hn' : (rows'.map seq).Nodup)
    (h : ∀ row, q row = true → (row ∈ rows ↔ row ∈ rows')) (after : Int) :
    above seq q rows after = above seq q rows' after := by
  refine eq_of_ascending (ascending_above hn after) (ascending_above hn' after) fun row => ?_
  rw [mem_above, mem_above]
  exact and_congr_left fun hrow => h row hrow.1

/-! ## Pages -/

/-- The first rows above `after`, and the number from which there are more. -/
structure IsPage (seq : Row → Int) (q : Row → Bool) (rows : List Row) (after : Int)
    (kept : List Row) (next : Option Int) : Prop where
  first : kept <+: above seq q rows after
  last : next = none → kept = above seq q rows after
  more : ∀ n, next = some n → kept ≠ above seq q rows after ∧ ∃ row, kept.getLast? = some row ∧
    seq row = n

/-- One row more than the limit is fetched, and left out. -/
theorem isPage_probe {after : Int} {limit : ℕ} (hlimit : 0 < limit) {fetched : List Row}
    (hfetched : fetched = (above seq q rows after).take (limit + 1)) :
    if limit < fetched.length then
      IsPage seq q rows after fetched.dropLast (fetched.dropLast.getLast?.map seq)
    else IsPage seq q rows after fetched none := by
  have hstarts : fetched <+: above seq q rows after := hfetched ▸ List.take_prefix ..
  split
  · next hmore =>
    have hlength : fetched.dropLast.length = fetched.length - 1 := List.length_dropLast
    refine ⟨(List.dropLast_prefix _).trans hstarts, fun hnone => ?_, fun n hn => ⟨fun heq => ?_, ?_⟩⟩
    · rw [Option.map_eq_none_iff, List.getLast?_eq_none_iff] at hnone
      rw [hnone, List.length_nil] at hlength
      omega
    · have hle := hstarts.length_le
      rw [← heq] at hle
      omega
    · exact Option.map_eq_some_iff.mp hn
  · next hmore =>
    refine ⟨hstarts, fun _ => ?_, fun n hn => by cases hn⟩
    rw [hfetched, List.take_of_length_le]
    rw [hfetched, List.length_take] at hmore
    omega

section Pages

variable {after : Int} {kept : List Row} {next : Option Int}

/-- What is above `after` is on the page or above its end. -/
theorem IsPage.split (hn : (rows.map seq).Nodup) {n : Int}
    (h : IsPage seq q rows after kept (some n)) :
    after < n ∧ above seq q rows after = kept ++ above seq q rows n := by
  obtain ⟨-, row, hrow, rfl⟩ := h.more n rfl
  obtain ⟨rest, hsplit⟩ := h.first
  obtain ⟨before, hbefore⟩ := List.getLast?_eq_some_iff.mp hrow
  have hmem : row ∈ above seq q rows after := by
    rw [← hsplit, hbefore]
    simp
  have hlt := (mem_above.mp hmem).2.2
  have hascending := ascending_above (q := q) hn after
  refine ⟨hlt, ?_⟩
  rw [← hsplit, List.append_cancel_left_eq]
  rw [← hsplit, List.map_append, List.pairwise_append] at hascending
  obtain ⟨hkept, hrest, hacross⟩ := hascending
  refine eq_of_ascending hrest (ascending_above hn _) fun other => ?_
  rw [mem_above]
  constructor
  · intro hother
    have habove : other ∈ above seq q rows after := by
      rw [← hsplit]
      exact List.mem_append_right _ hother
    obtain ⟨hrows, hq, -⟩ := mem_above.mp habove
    exact ⟨hrows, hq, hacross _ (List.mem_map_of_mem (List.mem_of_getLast? hrow)) _
      (List.mem_map_of_mem hother)⟩
  · rintro ⟨hrows, hq, hgt⟩
    have habove : other ∈ kept ++ rest := by
      rw [hsplit]
      exact mem_above.mpr ⟨hrows, hq, hlt.trans hgt⟩
    refine (List.mem_append.mp habove).resolve_left fun hother => ?_
    -- The page ends with its highest row.
    rw [hbefore, List.map_append, List.pairwise_append] at hkept
    rw [hbefore] at hother
    rcases List.mem_append.mp hother with hother | hother
    · exact absurd (hkept.2.2 _ (List.mem_map_of_mem hother) _ (List.mem_singleton_self _))
        (not_lt.mpr hgt.le)
    · rw [List.mem_singleton.mp hother] at hgt
      exact lt_irrefl _ hgt

/-- The rows of a page lie between its start and its end. -/
theorem IsPage.mem_iff (hn : (rows.map seq).Nodup) (h : IsPage seq q rows after kept next)
    {row : Row} :
    row ∈ kept ↔ row ∈ rows ∧ q row = true ∧ after < seq row ∧ ∀ n, next = some n → seq row ≤ n := by
  cases hnext : next with
  | none =>
    rw [h.last hnext, mem_above]
    simp
  | some n =>
    subst hnext
    obtain ⟨hlt, hsplit⟩ := h.split hn
    have habove : row ∈ above seq q rows after ↔ row ∈ kept ∨ row ∈ above seq q rows n := by
      rw [hsplit, List.mem_append]
    have hapart : row ∈ kept → row ∉ above seq q rows n := by
      intro hkept hrest
      have hnodup : ((above seq q rows after).map seq).Nodup := nodup_above hn after
      rw [hsplit, List.map_append, List.nodup_append] at hnodup
      exact hnodup.2.2 _ (List.mem_map_of_mem hkept) _ (List.mem_map_of_mem hrest) rfl
    rw [mem_above, mem_above] at habove
    rw [mem_above] at hapart
    simp only [Option.some.injEq, forall_eq']
    constructor
    · intro hkept
      obtain ⟨hrow, hq, hafter⟩ := habove.mpr (.inl hkept)
      exact ⟨hrow, hq, hafter, not_lt.mp fun hgt => hapart hkept ⟨hrow, hq, hgt⟩⟩
    · rintro ⟨hrow, hq, hafter, hle⟩
      exact (habove.mp ⟨hrow, hq, hafter⟩).resolve_right fun hrest =>
        absurd hrest.2.2 (not_lt.mpr hle)

end Pages

/-! ## Page after page -/

/-- A page with the table it was read from. -/
structure Turn (Row : Type) where
  rows : List Row
  kept : List Row
  next : Option Int

/-- The pages of one reader so far; each but the last has told where to go on. -/
inductive Paging (seq : Row → Int) (q : Row → Bool) : Int → List (Turn Row) → Prop
  | last {after : Int} {turn : Turn Row} :
      IsPage seq q turn.rows after turn.kept turn.next → Paging seq q after [turn]
  | more {after n : Int} {turn : Turn Row} {turns : List (Turn Row)} :
      IsPage seq q turn.rows after turn.kept turn.next → turn.next = some n →
      Paging seq q n turns → Paging seq q after (turn :: turns)

section Paging

variable {after : Int} {turns : List (Turn Row)}

theorem Paging.ne_nil (h : Paging seq q after turns) : turns ≠ [] := by
  cases h <;> exact List.cons_ne_nil _ _

/-- From one table, the pages are its rows up to the last one read. They are all of them exactly if
the last page does not tell where to go on, which comes to pass. -/
theorem Paging.exhausts (h : Paging seq q after turns) (hn : (rows.map seq).Nodup)
    (hrows : ∀ turn ∈ turns, turn.rows = rows) :
    turns.flatMap Turn.kept <+: above seq q rows after ∧
      (turns.getLast?.bind Turn.next = none ↔
        turns.flatMap Turn.kept = above seq q rows after) ∧
      turns.length ≤ (above seq q rows after).length + 1 := by
  induction h with
  | @last after turn hpage =>
    rw [hrows turn List.mem_cons_self] at hpage
    rw [List.flatMap_cons, List.flatMap_nil, List.append_nil, List.getLast?_singleton,
      Option.bind_some]
    refine ⟨hpage.first, ⟨hpage.last, fun heq => ?_⟩, by simp⟩
    cases hnext : turn.next with
    | none => rfl
    | some n => exact absurd heq (hpage.more n hnext).1
  | @more after n turn turns hpage hnext hrest ih =>
    rw [hrows turn List.mem_cons_self, hnext] at hpage
    obtain ⟨hstarts, hend, hlength⟩ := ih fun other hm => hrows other (List.mem_cons_of_mem _ hm)
    obtain ⟨-, hsplit⟩ := hpage.split hn
    obtain ⟨-, row, hrow, -⟩ := hpage.more n rfl
    have hne : turn.kept ≠ [] := List.ne_nil_of_mem (List.mem_of_getLast? hrow)
    have hpos := List.length_pos_of_ne_nil hne
    rw [hsplit, List.flatMap_cons, List.getLast?_cons_of_ne_nil hrest.ne_nil]
    refine ⟨(List.prefix_append_right_inj _).mpr hstarts,
      hend.trans (List.append_cancel_left_eq ..).symm.to_iff, ?_⟩
    rw [List.length_cons, List.length_append]
    omega

/-- How often a page has a row: once between its start and its end. -/
theorem IsPage.count [DecidableEq Key] {kept : List Row} {next : Option Int}
    (h : IsPage seq q rows after kept next) (hn : (rows.map seq).Nodup)
    (hkeys : (rows.map key).Nodup) {row : Row} (hrow : row ∈ rows) (hq : q row = true) :
    (kept.map key).count (key row) =
      if after < seq row ∧ ∀ n, next = some n → seq row ≤ n then 1 else 0 := by
  have hsub := h.first.sublist.map key
  have hnodup : (kept.map key).Nodup := (nodup_above hkeys after).sublist hsub
  split
  · next hbetween =>
    exact List.count_eq_one_of_mem hnodup
      (List.mem_map_of_mem ((h.mem_iff hn).mpr ⟨hrow, hq, hbetween⟩))
  · next hbetween =>
    refine List.count_eq_zero.mpr fun hm => hbetween ?_
    obtain ⟨other, hother, hkey⟩ := List.mem_map.mp hm
    obtain ⟨hrows, -, hbounds⟩ := (h.mem_iff hn).mp hother
    rwa [List.inj_on_of_nodup_map hkeys hrows hrow hkey] at hbounds

/-- The table may change, but the row is in it each time, with its key and number. -/
theorem Paging.once [DecidableEq Key] (h : Paging seq q after turns) {k : Key} {n : Int}
    (hn : ∀ turn ∈ turns, (turn.rows.map seq).Nodup ∧ (turn.rows.map key).Nodup)
    (hrow : ∀ turn ∈ turns, ∃ row ∈ turn.rows, key row = k ∧ seq row = n ∧ q row = true)
    (hlast : turns.getLast?.bind Turn.next = none) :
    ((turns.flatMap Turn.kept).map key).count k = if after < n then 1 else 0 := by
  induction h with
  | @last after turn hpage =>
    obtain ⟨row, hmem, rfl, rfl, hq⟩ := hrow turn List.mem_cons_self
    obtain ⟨hseqs, hkeys⟩ := hn turn List.mem_cons_self
    rw [List.getLast?_singleton, Option.bind_some] at hlast
    rw [List.flatMap_cons, List.flatMap_nil, List.append_nil, hpage.count hseqs hkeys hmem hq, hlast]
    simp
  | @more after m turn turns hpage hnext hrest ih =>
    obtain ⟨row, hmem, hkey, hseq, hq⟩ := hrow turn List.mem_cons_self
    obtain ⟨hseqs, hkeys⟩ := hn turn List.mem_cons_self
    rw [List.getLast?_cons_of_ne_nil hrest.ne_nil] at hlast
    rw [hnext] at hpage
    have hlt := (hpage.split hseqs).1
    have hcount := hpage.count hseqs hkeys hmem hq
    rw [List.flatMap_cons, List.map_append, List.count_append,
      ih (fun other hm => hn other (List.mem_cons_of_mem _ hm))
        (fun other hm => hrow other (List.mem_cons_of_mem _ hm)) hlast, ← hkey, hcount, hseq]
    simp only [Option.some.injEq, forall_eq']
    -- The number is on this page, on a later one or before both.
    split <;> split <;> split <;> omega

end Paging

end Feed
