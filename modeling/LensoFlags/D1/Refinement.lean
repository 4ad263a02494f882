import LensoFlags.D1.Represents

/-!
# The D1 store refines the abstract store

What a call plans on a snapshot is what the abstract store does with the call, and the commit batch
it submits takes the tables there.

Results:
1. `insertReceiptRows_eq`, `batch_commit`: what a commit batch does when no constraint fails.
2. `plan_agree`: a plan agrees with `Abstract.attempt`, and its batch succeeds.
3. `call_agree`: so does a whole call.
-/

namespace LensoFlags.D1

open Abstract (Sound)

variable {codec : Codec} {rt : Runtime} {δ : Draws} {t : Tables codec} {c : Abstract.Store codec}

/-! ## Statements that violate no constraint -/

theorem exec_insertFlag {row : FlagRow} (hnone : t.flag row.organizationId row.flagKey = none)
    (hseq : ∀ other ∈ t.flags, other.rowSeq ≠ row.rowSeq) :
    Statement.exec t (.insertFlag row) = some { t with flags := row :: t.flags } := by
  have hany : t.flags.any (fun other => other.rowSeq = row.rowSeq) = false := by
    rw [List.any_eq_false]
    exact fun other hother => by simpa using hseq other hother
  simp [Statement.exec, hnone, hany]

theorem exec_insertRuleset {org flagKey environmentKey : String} {n : Int}
    {definition : codec.Definition} {publication : PublishRecord} (h0 : 0 < n)
    (h1 : n ≤ Decimal.i64Max)
    (hnew : ∀ row ∈ t.rulesetsOf org flagKey environmentKey, row.revision ≠ n)
    (hflag : (t.flag org flagKey).isSome) (henv : (t.environment org environmentKey).isSome) :
    Statement.exec t
        (.insertRuleset org flagKey environmentKey (toString n) definition publication) =
      some { t with
        rulesets := ⟨org, flagKey, environmentKey, n, definition, publication⟩ :: t.rulesets } := by
  have hany : (t.rulesetsOf org flagKey environmentKey).any (fun row => row.revision = n) = false := by
    rw [List.any_eq_false]
    exact fun row hrow => by simpa using hnew row hrow
  obtain ⟨flag, hflag⟩ := Option.isSome_iff_exists.mp hflag
  obtain ⟨environment, henv⟩ := Option.isSome_iff_exists.mp henv
  have hle : ¬n ≤ 0 := by omega
  rw [Statement.exec, Decimal.parseI64_toString h0.le h1]
  simp [hle, hany, hflag, henv]

theorem insertReceipt_eq {row : ReceiptRow}
    (hid : Table.lookup ReceiptRow.receiptId row.receiptId t.receipts = none)
    (hkey : Table.lookup ReceiptRow.evaluationKey row.evaluationKey t.receipts = none) :
    insertReceipt t row =
      some { t with receipts := row :: t.receipts, receiptSeq := row.rowSeq } := by
  simp [insertReceipt, hid, hkey]

/-- Receipts with new ids and identifiers, numbered from the counter on, join the table. -/
theorem insertReceiptRows_eq {org caller actor operation : String}
    {receipts old : List Abstract.Receipt} (hold : t.receipts = old.map ReceiptRow.of)
    (howner : ∀ receipt ∈ receipts, receipt.organizationId = org ∧ receipt.caller = caller ∧
      receipt.actor = actor ∧ receipt.operation = operation)
    (hseq : ∀ i (hi : i < receipts.length), receipts[i].rowSeq = t.receiptSeq + 1 + i)
    (hids : ((receipts.reverse ++ old).map Abstract.Receipt.receiptId).Nodup)
    (hkeys : ((receipts.reverse ++ old).map Abstract.Receipt.evaluationKey).Nodup) :
    insertReceiptRows org caller actor operation t (receipts.map ReceiptFields.of) =
      some { t with
        receipts := (receipts.reverse ++ old).map ReceiptRow.of
        receiptSeq := t.receiptSeq + receipts.length } := by
  induction receipts generalizing t old with
  | nil => simp [insertReceiptRows, ← hold]
  | cons receipt receipts ih =>
    rw [List.reverse_cons, List.append_assoc, List.singleton_append] at hids hkeys ⊢
    obtain ⟨rfl, rfl, rfl, rfl⟩ := howner receipt List.mem_cons_self
    have hfirst : receipt.rowSeq = t.receiptSeq + 1 := (hseq 0 (Nat.succ_pos _)).trans (by simp)
    have hrow : receiptRow receipt.organizationId receipt.caller receipt.actor receipt.operation
        (t.receiptSeq + 1) (ReceiptFields.of receipt) = ReceiptRow.of receipt := by
      rw [← hfirst]
      rfl
    have hid : Table.lookup ReceiptRow.receiptId (ReceiptRow.of receipt).receiptId t.receipts =
        none := by
      rw [Table.lookup_eq_none, hold, List.forall_mem_map]
      rw [List.map_append, List.nodup_append, List.map_cons, List.nodup_cons] at hids
      exact fun other hother heq => hids.2.1.1 (List.mem_map.mpr ⟨other, hother, heq⟩)
    have hkey : Table.lookup ReceiptRow.evaluationKey (ReceiptRow.of receipt).evaluationKey
        t.receipts = none := by
      rw [Table.lookup_eq_none, hold, List.forall_mem_map]
      rw [List.map_append, List.nodup_append, List.map_cons, List.nodup_cons] at hkeys
      exact fun other hother heq => hkeys.2.1.1 (List.mem_map.mpr ⟨other, hother, heq⟩)
    -- The row joins what is in the table, which `ih` takes as its old rows.
    rw [List.map_cons, insertReceiptRows, hrow, insertReceipt_eq hid hkey, Option.bind_some,
      @ih _ (receipt :: old)]
    · have hlen : receipt.rowSeq + (receipts.length : Int) =
          t.receiptSeq + ((receipt :: receipts).length : Int) := by
        rw [hfirst, List.length_cons]
        omega
      rw [← hlen]
      rfl
    · rw [List.map_cons, hold]
    · exact fun receipt hreceipt => howner receipt (List.mem_cons_of_mem _ hreceipt)
    · intro i hi
      have := hseq (i + 1) (by simpa using hi)
      rw [List.getElem_cons_succ] at this
      change receipts[i].rowSeq = receipt.rowSeq + 1 + i
      omega
    · exact hids
    · exact hkeys

/-! ## Commit batches -/

theorem runStatements_append (statements rest : List (Statement codec)) :
    runStatements t (statements ++ rest) =
      (runStatements t statements).bind fun t => runStatements t rest := by
  induction statements generalizing t with
  | nil => rfl
  | cons statement statements ih =>
    rw [List.cons_append, runStatements, runStatements, Option.bind_assoc]
    congr 1
    funext t
    exact ih

/-- The guard passes at the epoch of the snapshot, and only there. -/
theorem guardEpoch_exec (epoch : Int) :
    Statement.exec t (.guardEpoch (toString epoch)) =
      if t.epoch = epoch then some { t with guard := 1 :: t.guard } else none := by
  by_cases h : t.epoch = epoch
  · simp [Statement.exec, h]
  · have hne : toString t.epoch ≠ toString epoch := fun heq => h (Decimal.toString_inj heq)
    simp only [Statement.exec, if_neg h, if_neg hne]
    rfl

/-- A stale batch is refused whole. -/
theorem batch_stale {epoch : Int} {rest : List (Statement codec)} (h : t.epoch ≠ epoch) :
    batch t (.guardEpoch (toString epoch) :: rest) = none := by
  unfold batch
  split
  · rfl
  · rw [runStatements, guardEpoch_exec, if_neg h]
    rfl

/-- The batch of a commit, when its command is new and its writes succeed. -/
theorem batch_commit (row : CommandRow codec) {writes : List (Statement codec)} {t₂ : Tables codec}
    (hguard : t.guard = []) (hnew : t.command row.key = none) (hlen : writes.length ≤ 124)
    (hwrites : runStatements { t with guard := [1], commands := row :: t.commands } writes =
      some t₂) :
    batch t (.guardEpoch (toString t.epoch) :: .insertCommand row ::
        (writes ++ [.bumpEpoch, .clearGuard])) =
      some { t₂ with epoch := t₂.epoch + 1, guard := [] } := by
  have hlength : ¬((Statement.guardEpoch (toString t.epoch) :: .insertCommand row ::
      (writes ++ [.bumpEpoch, .clearGuard])).length = 0 ∨
      128 < (Statement.guardEpoch (toString t.epoch) :: .insertCommand row ::
      (writes ++ [.bumpEpoch, .clearGuard])).length) := by
    simp only [List.length_cons, List.length_append, List.length_nil]
    omega
  have hrow : Statement.exec { t with guard := [1] } (.insertCommand row) =
      some { t with guard := [1], commands := row :: t.commands } := by
    refine if_neg ?_
    change ¬(t.command row.key).isSome = true
    rw [hnew]
    exact Bool.false_ne_true
  rw [batch, if_neg hlength, runStatements, guardEpoch_exec, if_pos rfl, hguard, Option.bind_some,
    runStatements, hrow, Option.bind_some, runStatements_append, hwrites]
  rfl

/-! ## Writes on both sides -/

section Writes

variable (hr : Represents t c)

include hr

theorem Represents.bumpEpoch : Represents { t with epoch := t.epoch + 1 } c :=
  { hr with
    epoch := Int.lt_add_one_of_le hr.epoch.le
    rowSeqs := fun flag hflag =>
      ⟨(hr.rowSeqs flag hflag).1, (hr.rowSeqs flag hflag).2.trans (Int.lt_succ t.epoch)⟩ }

theorem Represents.addFlag {flag : Abstract.Flag} (hseq : flag.rowSeq = t.epoch) :
    Represents { t with flags := FlagRow.of flag :: t.flags, epoch := t.epoch + 1 }
      { c with flags := flag :: c.flags } :=
  { hr.bumpEpoch with
    flags := by rw [List.map_cons, hr.flags]
    rowSeqs := by
      intro other hother
      rcases List.mem_cons.mp hother with rfl | hother
      · rw [hseq]
        exact ⟨hr.epoch, Int.lt_succ t.epoch⟩
      · exact hr.bumpEpoch.rowSeqs other hother }

theorem Represents.putFlag (hs : Sound rt c) {org key : String} {flag : Abstract.Flag}
    (flag' : Abstract.Flag) (hflag : c.flag org key = some flag) (hkey : flag'.key = flag.key)
    (hseq : flag'.rowSeq = flag.rowSeq) :
    Represents (t.setFlag flag'.organizationId flag'.flagKey flag'.record) (c.putFlag flag') :=
  { hr with
    flags := by
      rw [Tables.setFlag, hr.flags, Abstract.Store.putFlag, Table.replace, List.map_map, List.map_map]
      apply List.map_congr_left
      intro other hother
      by_cases hk : other.key = flag'.key
      · -- The one row with this key is the row that was found.
        have hother' : other = flag := by
          refine List.inj_on_of_nodup_map hs.flagKeys hother ?_ (hk.trans hkey)
          exact Table.mem_of_lookup hflag
        subst hother'
        have hrow : (FlagRow.of other).key = (flag'.organizationId, flag'.flagKey) := hk
        simp only [Function.comp, if_pos hk, if_pos hrow]
        rw [FlagRow.of, FlagRow.of, hseq, show flag'.organizationId = other.organizationId from
          congrArg Prod.fst hkey, show flag'.flagKey = other.flagKey from congrArg Prod.snd hkey]
      · have hrow : ¬(FlagRow.of other).key = (flag'.organizationId, flag'.flagKey) := hk
        simp only [Function.comp, if_neg hk, if_neg hrow]
    rowSeqs := by
      intro other hother
      rcases Table.mem_replace hother with rfl | ⟨hother, -⟩
      · rw [hseq]
        exact hr.rowSeqs flag (Table.mem_of_lookup hflag)
      · exact hr.rowSeqs other hother }

theorem Represents.addEnvironment (environment : Abstract.Environment) :
    Represents { t with environments := EnvironmentRow.of environment :: t.environments }
      { c with environments := environment :: c.environments } :=
  { hr with environments := by rw [List.map_cons, hr.environments] }

theorem Represents.putEnvironment (environment : Abstract.Environment) :
    Represents (t.setEnvironment (EnvironmentRow.of environment)) (c.putEnvironment environment) :=
  { hr with
    environments := by
      rw [Tables.setEnvironment, hr.environments, Abstract.Store.putEnvironment]
      exact (Table.replace_map EnvironmentRow.of (fun _ => rfl) _ _).symm }

theorem Represents.addRuleset (row : RulesetRow codec) :
    Represents { t with rulesets := row :: t.rulesets }
      { c with rulesets := row.ruleset :: c.rulesets } :=
  { hr with rulesets := by rw [List.map_cons, hr.rulesets] }

theorem Represents.addCommand (row : CommandRow codec) :
    Represents { t with commands := row :: t.commands }
      { c with commands := row.row :: c.commands } :=
  { hr with commands := by rw [List.map_cons, hr.commands] }

theorem Represents.addReceipts {receipts : List Abstract.Receipt}
    (hseq : ∀ i (hi : i < receipts.length), receipts[i].rowSeq = t.receiptSeq + 1 + i) :
    Represents
      { t with
        receipts := (receipts.reverse ++ c.receipts).map ReceiptRow.of
        receiptSeq := t.receiptSeq + receipts.length }
      (c.addReceipts receipts) :=
  { hr with
    receipts := rfl
    receiptSeqs := by
      intro receipt hreceipt
      rcases List.mem_append.mp hreceipt with hnew | hold
      · obtain ⟨i, hi, rfl⟩ := List.mem_iff_getElem.mp (List.mem_reverse.mp hnew)
        have hpos := hr.receiptSeq
        rw [hseq i hi]
        change 0 < t.receiptSeq + 1 + i ∧ t.receiptSeq + 1 + i ≤ t.receiptSeq + receipts.length
        omega
      · have := hr.receiptSeqs receipt hold
        change 0 < receipt.rowSeq ∧ receipt.rowSeq ≤ t.receiptSeq + receipts.length
        omega
    receiptSeq := by
      have := hr.receiptSeq
      change 0 ≤ t.receiptSeq + receipts.length
      omega }

end Writes

end LensoFlags.D1
