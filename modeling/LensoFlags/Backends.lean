import LensoFlags.Abstract.Paired
import LensoFlags.Abstract.Room
import LensoFlags.Calls
import LensoFlags.D1.Plan
import LensoFlags.Postgres.Refinement

/-!
# The two backends

PostgreSQL and D1 implement one store. The same calls, one after another from the empty store, are
answered alike and leave tables that are alike. The row numbers of a run stand for each other by the
rows that carry them, and keep their order.

Results:
1. `Lockstep.together`: what a run of both backends keeps.
2. `backends_agree`: the two backends answer alike.
-/

namespace LensoFlags

variable {codec codec' : Codec} {describe : Postgres.DbError → String} {rt : Runtime}

/-! ## Calls one after another -/

/-- What a method of the store returns. -/
inductive Reply
  | answer (answer : Answer)
  | flag (record : FlagRecord)
  | flags (records : List FlagRecord)
  | receipts (records : List ReceiptRecord)

variable (describe rt) in
/-- One call of `PostgresStore`, run alone. -/
def Postgres.serve (δ : Draws) (t : Postgres.Tables codec) :
    StoreCall → Except StorageError Reply × Postgres.Tables codec
  | .write call =>
      let (result, t) := (Postgres.store codec describe rt).alone δ t call
      (result.map .answer, t)
  | .getFlag org flagKey => ((Postgres.getFlag rt t org flagKey).map .flag, t)
  | .listFlags org includeArchived after limit =>
      ((Postgres.listFlags describe rt t org includeArchived after limit).map .flags, t)
  | .listReceipts org flagKey environmentKey after limit =>
      ((Postgres.listReceipts describe rt t org flagKey environmentKey after limit).map .receipts, t)

variable (rt) in
/-- One call of `D1Store`, run alone over a transport that does not fail. -/
def D1.serve (δ : Draws) (t : D1.Tables codec) :
    StoreCall → Except StorageError Reply × D1.Tables codec
  | .write call =>
      let (result, t) := D1.call rt δ t call
      (result.map .answer, t)
  | .getFlag org flagKey => ((D1.getFlag t org flagKey).map .flag, t)
  | .listFlags org includeArchived after limit =>
      (.ok (.flags (D1.listFlags t org includeArchived after limit)), t)
  | .listReceipts org flagKey environmentKey after limit =>
      ((D1.listReceipts t org flagKey environmentKey after limit).map .receipts, t)

/-! ## Alike -/

/-- The same call; a cursor is renamed. -/
inductive StoreCall.Alike (ρ : Renaming) : StoreCall → StoreCall → Prop
  | write (call : Call) : Alike ρ (.write call) (.write call)
  | getFlag (org flagKey : String) : Alike ρ (.getFlag org flagKey) (.getFlag org flagKey)
  | listFlags (org : String) (includeArchived : Bool) {after after' : Option Int} (limit : Int) :
      Cuts ρ.flagSeq after after' →
      Alike ρ (.listFlags org includeArchived after limit) (.listFlags org includeArchived after' limit)
  | listReceipts (org : String) (flagKey environmentKey : Option String)
      {after after' : Option Int} (limit : Int) : Cuts ρ.receiptSeq after after' →
      Alike ρ (.listReceipts org flagKey environmentKey after limit)
        (.listReceipts org flagKey environmentKey after' limit)

inductive Reply.Alike (ρ : Renaming) : Reply → Reply → Prop
  | answer {a a' : Answer} : a.Alike ρ a' → Alike ρ (.answer a) (.answer a')
  | flag {r r' : FlagRecord} : r.Alike ρ r' → Alike ρ (.flag r) (.flag r')
  | flags {rs rs' : List FlagRecord} :
      List.Forall₂ (FlagRecord.Alike ρ) rs rs' → Alike ρ (.flags rs) (.flags rs')
  | receipts {rs rs' : List ReceiptRecord} :
      List.Forall₂ (ReceiptRecord.Alike ρ) rs rs' → Alike ρ (.receipts rs) (.receipts rs')

/-- Replies that are alike, or one domain failure. -/
inductive Same (ρ : Renaming) : Except StorageError Reply → Except StorageError Reply → Prop
  | ok {r r' : Reply} : r.Alike ρ r' → Same ρ (.ok r) (.ok r')
  | domain (failure : DomainFailure) :
      Same ρ (.error (.domain failure)) (.error (.domain failure))

/-- The numbers and ids that the two backends gave to the same rows. -/
def counterparts (t : Postgres.Tables codec) (t' : D1.Tables codec') : Renaming where
  time _ _ := True
  receiptId a a' := ∃ row ∈ t.receipts, ∃ row' ∈ t'.receipts,
    row.evaluationKey = row'.evaluationKey ∧ row.receiptId = a ∧ row'.receiptId = a'
  flagSeq a a' := ∃ row ∈ t.flags, ∃ row' ∈ t'.flags,
    row.key = row'.key ∧ row.rowSeq = a ∧ row'.rowSeq = a'
  receiptSeq a a' := ∃ row ∈ t.receipts, ∃ row' ∈ t'.receipts,
    row.evaluationKey = row'.evaluationKey ∧ row.rowSeq = a ∧ row'.rowSeq = a'

/-- The tables hold rows that are alike. -/
def Related (rt : Runtime) (t : Postgres.Tables codec) (t' : D1.Tables codec') : Prop :=
  ∃ c c', Postgres.Represents rt t c ∧ D1.Represents t' c' ∧ c.Alike (counterparts t t') c'

/-! ## Runs of both -/

/-- A call of both backends: what each of them drew and replied. -/
structure Exchanged where
  call : StoreCall
  call' : StoreCall
  draws : Draws
  draws' : Draws
  reply : Except StorageError Reply
  reply' : Except StorageError Reply

/-- The draws of one more call: its UUIDs are new, and the sequences of PostgreSQL count upwards. -/
structure Upward (t : Postgres.Tables codec) (t' : D1.Tables codec') (δ δ' : Draws) : Prop where
  distinct : δ.Distinct
  distinct' : δ'.Distinct
  unused : ∀ row ∈ t.receipts, ∀ i, row.receiptId ≠ (δ i).uuid
  unused' : ∀ row ∈ t'.receipts, ∀ i, row.receiptId ≠ (δ' i).uuid
  positive : ∀ i, 0 < (δ i).flagSeq ∧ 0 < (δ i).receiptSeq
  ascending : ∀ i j, i < j → (δ i).receiptSeq < (δ j).receiptSeq
  flagSeq : ∀ row ∈ t.flags, ∀ i, row.rowSeq < (δ i).flagSeq
  receiptSeq : ∀ row ∈ t.receipts, ∀ i, row.rowSeq < (δ i).receiptSeq

/-- The revisions are below the largest integer, as are the counters of D1. -/
structure Room (t : Postgres.Tables codec) (t' : D1.Tables codec') : Prop where
  flags : ∀ row ∈ t.flags, row.revision < Decimal.i64Max
  environments : ∀ row ∈ t.environments, row.revision < Decimal.i64Max
  rulesets : ∀ row ∈ t.rulesets, row.rulesetRevision < Decimal.i64Max
  epoch : t'.epoch < Decimal.i64Max
  receiptSeq : t'.receiptSeq < Decimal.i64Max

variable (describe rt) in
/-- The same calls run one after another from the empty store on both backends, newest first. -/
inductive Lockstep : List Exchanged → Postgres.Tables codec → D1.Tables codec' → Prop
  | start : Lockstep [] .empty .empty
  | next {log : List Exchanged} {t : Postgres.Tables codec} {t' : D1.Tables codec'}
      {call call' : StoreCall} {δ δ' : Draws} :
      Lockstep log t t' → call.Lawful rt → call.Alike (counterparts t t') call' → Room t t' →
      Upward t t' δ δ' →
      Lockstep
        (⟨call, call', δ, δ', (Postgres.serve describe rt δ t call).1, (D1.serve rt δ' t' call').1⟩
          :: log)
        (Postgres.serve describe rt δ t call).2 (D1.serve rt δ' t' call').2

/-! ## The invariant -/

/-- The tables hold stores that pair their rows, and every reply was alike. -/
structure Together (rt : Runtime) (log : List Exchanged) (t : Postgres.Tables codec)
    (t' : D1.Tables codec') (c : Abstract.Store codec) (c' : Abstract.Store codec') : Prop where
  represents : Postgres.Represents rt t c
  represents' : D1.Represents t' c'
  pairs : Abstract.Pairs rt c c'
  same : ∀ e ∈ log, Same (Abstract.pairing c c') e.reply e.reply'

variable {log : List Exchanged} {t : Postgres.Tables codec} {t' : D1.Tables codec'}
  {c : Abstract.Store codec} {c' : Abstract.Store codec'} {δ δ' : Draws} {call : Call}

theorem counterparts_eq (hr : Postgres.Represents rt t c) (hr' : D1.Represents t' c') :
    counterparts t t' = Abstract.pairing c c' := by
  unfold counterparts Abstract.pairing
  rw [← hr.rows.flags, ← hr.rows.receipts, hr'.flags, hr'.receipts]
  simp only [List.mem_map, exists_exists_and_eq_and]
  rfl

/-- What a call of PostgreSQL draws is fresh for its store, and above it. -/
theorem Upward.postgres (hδ : Upward t t' δ δ') (hr : Postgres.Represents rt t c)
    (operation : Operation) :
    (Postgres.stamp rt δ operation).Fresh c ∧ (Postgres.stamp rt δ operation).Above c := by
  have hflags : ∀ flag ∈ c.flags, ∀ i, flag.rowSeq < (δ i).flagSeq := by
    rw [← hr.rows.flags]
    exact List.forall_mem_map.mpr hδ.flagSeq
  have hreceipts : ∀ receipt ∈ c.receipts, ∀ i, receipt.receiptId ≠ (δ i).uuid ∧
      receipt.rowSeq < (δ i).receiptSeq := by
    rw [← hr.rows.receipts]
    exact List.forall_mem_map.mpr fun row hrow i =>
      ⟨hδ.unused row hrow i, hδ.receiptSeq row hrow i⟩
  have hascending : ∀ i j, i < j →
      ((Postgres.stamp rt δ operation).evaluation i).rowSeq <
        ((Postgres.stamp rt δ operation).evaluation j).rowSeq :=
    fun i j hij => hδ.ascending _ _ (by omega)
  refine ⟨⟨⟨fun i receipt hreceipt => (hreceipts receipt hreceipt _).1, fun i j hij => ?_⟩,
    ⟨(hδ.positive _).1, fun flag hflag => (hflags flag hflag _).ne⟩,
    fun i => ⟨(hδ.positive _).2, fun receipt hreceipt => (hreceipts receipt hreceipt _).2.ne⟩,
    fun i j hij => ?_⟩, fun flag hflag => hflags flag hflag _,
    fun receipt hreceipt i => (hreceipts receipt hreceipt _).2, hascending⟩
  · have hposition := hδ.distinct _ _ hij
    omega
  · rcases Nat.lt_trichotomy i j with hlt | heq | hlt
    · exact absurd hij (hascending i j hlt).ne
    · exact heq
    · exact absurd hij (hascending j i hlt).ne'

theorem Upward.d1 (hδ : Upward t t' δ δ') (hr : D1.Represents t' c') :
    (D1.stamp rt δ' t').Fresh c' ∧ (D1.stamp rt δ' t').Above c' := by
  have hunused : ∀ receipt ∈ c'.receipts, ∀ i, receipt.receiptId ≠ (δ' i).uuid := by
    have h := hδ.unused'
    rw [hr.receipts] at h
    exact List.forall_mem_map.mp h
  refine ⟨⟨⟨fun i receipt hreceipt => hunused receipt hreceipt i, hδ.distinct'⟩,
    hr.freshSeqs rt δ'⟩, fun flag hflag => (hr.rowSeqs flag hflag).2, fun receipt hreceipt i => ?_,
    fun i j hij => ?_⟩
  · have hle := (hr.receiptSeqs receipt hreceipt).2
    show receipt.rowSeq < t'.receiptSeq + 1 + i
    omega
  · show t'.receiptSeq + 1 + i < t'.receiptSeq + 1 + j
    omega

theorem Reply.Alike.mono {ρ ρ' : Renaming} (hρ : ρ.Le ρ') {r r' : Reply} (h : r.Alike ρ r') :
    r.Alike ρ' r' := by
  cases h with
  | answer h => exact .answer (h.mono hρ)
  | flag h => exact .flag (h.mono hρ)
  | flags h => exact .flags (h.imp fun _ _ h => h.mono hρ)
  | receipts h => exact .receipts (h.imp fun _ _ h => h.mono hρ)

theorem Same.mono {ρ ρ' : Renaming} (hρ : ρ.Le ρ') {x x' : Except StorageError Reply}
    (h : Same ρ x x') : Same ρ' x x' := by
  cases h with
  | ok h => exact .ok (h.mono hρ)
  | domain failure => exact .domain failure

/-- An exchange that changes neither store. -/
theorem Together.stay (h : Together rt log t t' c c') {t₁ : Postgres.Tables codec}
    {t₁' : D1.Tables codec'} {e : Exchanged} (hr : Postgres.Represents rt t₁ c)
    (hr' : D1.Represents t₁' c') (hsame : Same (Abstract.pairing c c') e.reply e.reply') :
    Together rt (e :: log) t₁ t₁' c c' :=
  { represents := hr
    represents' := hr'
    pairs := h.pairs
    same := List.forall_mem_cons.mpr ⟨hsame, h.same⟩ }

theorem valueTypes_of_lawful {valueType : String} (h : ∃ known : ValueType, valueType = known.wireName) :
    valueType ∈ Postgres.valueTypes := by
  obtain ⟨known, rfl⟩ := h
  cases known <;> decide

theorem Room.abstract (h : Room t t') (hr : Postgres.Represents rt t c) : Abstract.Room c := by
  obtain ⟨hflags, henvironments, hrulesets, -⟩ := hr.rows
  refine ⟨?_, ?_, ?_⟩
  · rw [← hflags]
    exact List.forall_mem_map.mpr h.flags
  · rw [← henvironments]
    exact List.forall_mem_map.mpr h.environments
  · rw [← hrulesets]
    exact List.forall_mem_map.mpr h.rulesets

theorem exists_of_isDomain {e : StorageError} (h : e.isDomain = true) :
    ∃ failure, e = .domain failure := by
  cases e with
  | domain failure => exact ⟨failure, rfl⟩
  | _ => cases h

section Write

open Abstract (Faithful)

variable (hcodec : Faithful codec rt) (hcodec' : Faithful codec' rt) (h : Together rt log t t' c c')
  (hδ : Upward t t' δ δ') (hroom : Room t t')

include hcodec hcodec' h hδ hroom

theorem Together.write (hlawful : call.operation.Lawful rt) :
    ∃ c₁ c₁', Together rt
      (⟨.write call, .write call, δ, δ', (Postgres.serve describe rt δ t (.write call)).1,
        (D1.serve rt δ' t' (.write call)).1⟩ :: log)
      (Postgres.serve describe rt δ t (.write call)).2 (D1.serve rt δ' t' (.write call)).2 c₁ c₁' := by
  obtain ⟨hfresh, habove⟩ := hδ.postgres h.represents call.operation
  obtain ⟨hfresh', habove'⟩ := hδ.d1 h.represents'
  have hpostgres : Agree (· = ·) ((Postgres.store codec describe rt).alone δ t call).1
        (Abstract.exec rt (Postgres.stamp rt δ call.operation) c call).1 ∧
      Postgres.Represents rt ((Postgres.store codec describe rt).alone δ t call).2
        (Abstract.exec rt (Postgres.stamp rt δ call.operation) c call).2 := by
    -- The backends differ from the abstract store on value types and documents that no call has.
    rcases Postgres.alone_cases describe h.represents h.pairs.sound hfresh with
      hagree | ⟨_, _, _, _, _, _, hop, htype, -⟩
    · exact hagree
    · rw [hop] at hlawful
      exact absurd (valueTypes_of_lawful hlawful) htype
  have hd1 : Agree (· = ·) (D1.call rt δ' t' call).1
        (Abstract.exec rt (D1.stamp rt δ' t') c' call).1 ∧
      D1.Represents (D1.call rt δ' t' call).2
        (Abstract.exec rt (D1.stamp rt δ' t') c' call).2 := by
    rcases D1.call_cases h.represents' h.pairs.sound' hfresh' hroom.epoch.le call with
      hagree | ⟨-, ruleset, hruleset, hnone⟩
    · exact hagree
    · obtain ⟨_, definition, -, hencode, hvalid⟩ := h.pairs.sound'.typed ruleset hruleset
      rw [hcodec'.exact.definitions hvalid hencode] at hnone
      cases hnone
  have hpairs : Agree _ (Abstract.attempt rt (Postgres.stamp rt δ call.operation) c call)
      (Abstract.attempt rt (D1.stamp rt δ' t') c' call) :=
    Abstract.attempt_pairs hcodec hcodec' h.pairs
  have hdomain : InDomain (Abstract.attempt rt (Postgres.stamp rt δ call.operation) c call) :=
    Abstract.attempt_inDomain hcodec h.pairs.sound (hroom.abstract h.represents)
      h.pairs.alike.replayable
  -- Both abstract stores take the same branch, so each backend ends as its own does.
  cases hx : Abstract.attempt rt (Postgres.stamp rt δ call.operation) c call with
  | error e =>
    obtain ⟨failure, rfl⟩ := exists_of_isDomain (hdomain e hx)
    rw [hx] at hpairs
    have hx' := hpairs.of_domain
    simp only [Abstract.exec, hx] at hpostgres
    simp only [Abstract.exec, hx'] at hd1
    refine ⟨c, c', h.stay hpostgres.2 hd1.2 ?_⟩
    simp only [Postgres.serve, D1.serve, hpostgres.1.symm.of_domain, hd1.1.symm.of_domain]
    exact .domain failure
  | ok done =>
    obtain ⟨answer, c₁⟩ := done
    rw [hx] at hpairs
    obtain ⟨⟨answer', c₁'⟩, hx', halike, hstore⟩ := hpairs.of_ok
    simp only [Abstract.exec, hx] at hpostgres
    simp only [Abstract.exec, hx'] at hd1
    have hreply := hpostgres.1.eq_ok
    have hreply' := hd1.1.eq_ok
    have hle := (Abstract.attempt_grows h.pairs.sound hx).pairing_le
      (Abstract.attempt_grows h.pairs.sound' hx')
    refine ⟨c₁, c₁',
      { represents := hpostgres.2
        represents' := hd1.2
        pairs :=
          { alike := hstore
            sound := Abstract.attempt_sound h.pairs.sound hfresh hx
            sound' := Abstract.attempt_sound h.pairs.sound' hfresh' hx'
            descends := Abstract.attempt_descends h.pairs.sound habove h.pairs.descends hx
            descends' := Abstract.attempt_descends h.pairs.sound' habove' h.pairs.descends' hx' }
        same := List.forall_mem_cons.mpr ⟨?same, fun e he => (h.same e he).mono hle⟩ }⟩
    case same =>
      simp only [Postgres.serve, D1.serve, hreply, hreply']
      exact .ok (.answer halike)

end Write

theorem Together.getFlag (h : Together rt log t t' c c') (org flagKey : String) :
    Together rt
      (⟨.getFlag org flagKey, .getFlag org flagKey, δ, δ',
        (Postgres.serve describe rt δ t (.getFlag org flagKey)).1,
        (D1.serve rt δ' t' (.getFlag org flagKey)).1⟩ :: log) t t' c c' := by
  refine h.stay h.represents h.represents' ?_
  have hagree := Abstract.getFlag_alike h.pairs.alike org flagKey
  simp only [Postgres.serve, D1.serve, h.represents.rows.getFlag, h.represents'.getFlag]
  have hfailure : ∀ e, Abstract.getFlag c org flagKey = .error e → e = .domain .notFound := by
    intro e he
    unfold Abstract.getFlag at he
    cases hflag : c.flag org flagKey with
    | none =>
      rw [hflag] at he
      cases he
      rfl
    | some flag =>
      rw [hflag] at he
      cases he
  cases hx : Abstract.getFlag c org flagKey with
  | error e =>
    cases hfailure e hx
    rw [hx] at hagree
    rw [hagree.of_domain]
    exact .domain .notFound
  | ok record =>
    rw [hx] at hagree
    obtain ⟨record', hx', halike⟩ := hagree.of_ok
    rw [hx']
    exact .ok (.flag halike)

/-- One more call of both. -/
theorem Together.next (hcodec : Abstract.Faithful codec rt) (hcodec' : Abstract.Faithful codec' rt)
    (h : Together rt log t t' c c') (hδ : Upward t t' δ δ') (hroom : Room t t')
    {call call' : StoreCall} (hlawful : call.Lawful rt)
    (hcall : call.Alike (counterparts t t') call') :
    ∃ c₁ c₁', Together rt
      (⟨call, call', δ, δ', (Postgres.serve describe rt δ t call).1, (D1.serve rt δ' t' call').1⟩
        :: log)
      (Postgres.serve describe rt δ t call).2 (D1.serve rt δ' t' call').2 c₁ c₁' := by
  rw [counterparts_eq h.represents h.represents'] at hcall
  have hρ := h.pairs.orderPreserving
  cases hcall with
  | write call => exact h.write hcodec hcodec' hδ hroom hlawful
  | getFlag org flagKey => exact ⟨c, c', h.getFlag org flagKey⟩
  | listFlags org includeArchived limit hcuts =>
    have hlimit : 0 ≤ limit := by
      have := hlawful.2
      omega
    refine ⟨c, c', h.stay h.represents h.represents' ?_⟩
    simp only [Postgres.serve, D1.serve, h.represents.rows.listFlags describe org includeArchived _
      hlimit, h.represents'.listFlags org includeArchived _ hlimit]
    exact .ok (.flags (Abstract.listFlags_alike h.pairs.alike hρ org includeArchived hcuts _))
  | listReceipts org flagKey environmentKey limit hcuts =>
    have hlimit : 0 ≤ limit := by
      have := hlawful.2
      omega
    have hfits : ∀ receipt ∈ c'.receipts, receipt.rowSeq ≤ Decimal.i64Max := fun receipt hmem =>
      (h.represents'.receiptSeqs receipt hmem).2.trans hroom.receiptSeq.le
    refine ⟨c, c', h.stay h.represents h.represents' ?_⟩
    simp only [Postgres.serve, D1.serve, h.represents.rows.listReceipts describe org flagKey
      environmentKey _ hlimit, h.represents'.listReceipts hfits org flagKey environmentKey _ hlimit]
    exact .ok (.receipts
      (Abstract.listReceipts_alike h.pairs.alike hρ org flagKey environmentKey hcuts _))

theorem Lockstep.together (hcodec : Abstract.Faithful codec rt) (hcodec' : Abstract.Faithful codec' rt)
    (h : Lockstep describe rt log t t') : ∃ c c', Together rt log t t' c c' := by
  induction h with
  | start =>
    exact ⟨.empty, .empty,
      { represents := .empty
        represents' := .empty
        pairs := .empty
        same := fun _ h => absurd h List.not_mem_nil }⟩
  | next _ hlawful hcall hroom hδ ih =>
    obtain ⟨c, c', h⟩ := ih
    exact h.next hcodec hcodec' hδ hroom hlawful hcall

/-- The two backends answer alike and keep alike tables. One renaming does for the whole run: it
keeps the order of row numbers, and every reply so far is alike under it. -/
theorem backends_agree (hexact : codec.Exact rt) (htotal : codec.Total)
    (hexact' : codec'.Exact rt) (htotal' : codec'.Total) {log : List Exchanged} {t : Postgres.Tables codec}
    {t' : D1.Tables codec'} (h : Lockstep describe rt log t t') :
    (counterparts t t').OrderPreserving ∧ Related rt t t' ∧
      ∀ e ∈ log, Same (counterparts t t') e.reply e.reply' := by
  obtain ⟨c, c', h⟩ := h.together ⟨hexact, htotal⟩ ⟨hexact', htotal'⟩
  have heq := counterparts_eq h.represents h.represents'
  refine ⟨?_, ⟨c, c', h.represents, h.represents', ?_⟩, ?_⟩
  · rw [heq]
    exact h.pairs.orderPreserving
  · rw [heq]
    exact h.pairs.alike
  · rw [heq]
    exact h.same

/-- The draws of the call after `n` others, each of fewer than a hundred. -/
def Draws.after (n : ℕ) : Draws :=
  fun i =>
    { now := 0
      later := 0
      uuid := Decimal.tag (toString n) i
      flagSeq := 100 * n + i + 1
      receiptSeq := 100 * n + i + 1 }

theorem upward_after {t : Postgres.Tables codec} {t' : D1.Tables codec'} {n : ℕ}
    (hreceipts : t.receipts = []) (hreceipts' : t'.receipts = [])
    (hflags : ∀ row ∈ t.flags, row.rowSeq ≤ 100 * n) :
    Upward t t' (Draws.after n) (Draws.after n) where
  distinct _ _ h := (Decimal.tag_inj h).2
  distinct' _ _ h := (Decimal.tag_inj h).2
  unused := by
    rw [hreceipts]
    exact fun _ h => absurd h List.not_mem_nil
  unused' := by
    rw [hreceipts']
    exact fun _ h => absurd h List.not_mem_nil
  positive i := by
    simp only [Draws.after]
    omega
  ascending i j hij := by
    simp only [Draws.after]
    omega
  flagSeq row hrow i := by
    have hle := hflags row hrow
    simp only [Draws.after]
    omega
  receiptSeq := by
    rw [hreceipts]
    exact fun _ h => absurd h List.not_mem_nil

theorem cuts_none {t : Postgres.Tables codec} {t' : D1.Tables codec'}
    (hpos : ∀ row ∈ t.flags, 0 < row.rowSeq) (hpos' : ∀ row ∈ t'.flags, 0 < row.rowSeq) :
    Cuts (counterparts t t').flagSeq none none := by
  rintro _ _ ⟨row, hrow, row', hrow', -, rfl, rfl⟩
  exact iff_of_true (hpos row hrow) (hpos' row' hrow')

/-- A flag that is created, created again, and listed. -/
theorem backends_agree_listed :
    ∃ (log : List Exchanged) (t : Postgres.Tables Codec.verbatim) (t' : D1.Tables Codec.verbatim),
      log.map (·.reply.isOk) = [true, false, true] ∧
      (counterparts t t').OrderPreserving ∧ Related (.atEpoch []) t t' ∧
      ∀ e ∈ log, Same (counterparts t t') e.reply e.reply' := by
  have hcreated := @Lockstep.next Codec.verbatim Codec.verbatim (fun _ => "") (.atEpoch []) [] _ _
    (.write ⟨⟨"caller", "actor", "key-1", [1]⟩,
      .createFlag "org" "flag" "Flag" none "boolean"⟩) _ (.after 0) (.after 0)
    .start ⟨.boolean, rfl⟩ (.write _) ⟨by decide, by decide, by decide, by decide, by decide⟩
    (upward_after rfl rfl (by decide))
  have hrepeated := @Lockstep.next Codec.verbatim Codec.verbatim (fun _ => "") (.atEpoch []) _ _ _
    (.write ⟨⟨"caller", "actor", "key-2", [2]⟩,
      .createFlag "org" "flag" "Flag" none "boolean"⟩) _ (.after 1) (.after 1)
    hcreated ⟨.boolean, rfl⟩ (.write _) ⟨by decide, by decide, by decide, by decide, by decide⟩
    (upward_after rfl rfl (by decide))
  have hlisted := @Lockstep.next Codec.verbatim Codec.verbatim (fun _ => "") (.atEpoch []) _ _ _
    (.listFlags "org" false none 2) _ (.after 2) (.after 2)
    hrepeated ⟨fun _ h => absurd h.symm (Option.some_ne_none _), le_rfl⟩
    (.listFlags "org" false 2 (cuts_none (by decide) (by decide)))
    ⟨by decide, by decide, by decide, by decide, by decide⟩ (upward_after rfl rfl (by decide))
  exact ⟨_, _, _, rfl, backends_agree (Codec.verbatim_exact _) Codec.verbatim_total
    (Codec.verbatim_exact _) Codec.verbatim_total hlisted⟩

end LensoFlags
