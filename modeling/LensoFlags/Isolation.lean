import LensoFlags.Abstract.Owned
import LensoFlags.Backends
import LensoFlags.D1.Tenants
import LensoFlags.Evaluations
import LensoFlags.Postgres.Tenants

/-!
# Isolation of tenants

A call of one organization leaves the rows of the others, and what it returns and does depends on
the rows of its own organization and on its command row only. The command rows are keyed without
the organization; a replay is of the call's own organization when request hashes do not collide.

Results:
1. `Postgres.isolated`, `D1.isolated`: in each backend.
2. `tenants_isolated`: in both, with what a step of the concurrent backends changes.
-/

namespace LensoFlags

variable {codec : Codec} {describe : Postgres.DbError → String} {rt : Runtime} {ρ : Renaming}

theorem Reply.alike_refl (hρ : ρ.Refl) (r : Reply) : r.Alike ρ r := by
  cases r with
  | answer answer =>
    cases answer with
    | replayed response => exact .answer (.replayed (hρ.response response))
    | fresh response => exact .answer (.fresh (hρ.response response))
  | flag record => exact .flag (hρ.flag record)
  | flags records => exact .flags (List.forall₂_same.mpr fun record _ => hρ.flag record)
  | receipts records => exact .receipts (List.forall₂_same.mpr fun record _ => hρ.receipt record)

theorem tally_reply {x y : Except StorageError Reply} (hρ : ρ.Refl) (h : x = y) :
    Tally (Reply.Alike ρ) x y := by
  subst h
  cases x with
  | ok r => exact .ok (r.alike_refl hρ)
  | error e => exact .error e

/-- A request of the log with the command's hash is the command's request. -/
def Collisionless (log : List (Serial.Entry Call Draws Answer)) (call : Call) : Prop :=
  ∀ e ∈ log, e.call.command.hash = call.command.hash → e.call.operation = call.operation

theorem Collisionless.history {log : List (Serial.Entry Call Draws Answer)} {call : Call}
    (h : Collisionless log call) : ∀ entry ∈ history log,
      entry.1.command.hash = call.command.hash → entry.1.operation = call.operation := by
  intro entry hentry hhash
  obtain ⟨e, he, heq⟩ := List.mem_filterMap.mp hentry
  cases hvalue : e.value with
  | replayed response =>
    rw [hvalue] at heq
    cases heq
  | fresh response =>
    rw [hvalue] at heq
    cases heq
    exact h e he hhash

/-! ## PostgreSQL -/

namespace Postgres

variable {s s' : State codec describe rt} {δ δ' : Draws}

/-- The rows of two databases stand for each other. -/
def between (t t' : Tables codec) : Renaming :=
  .remade (t.receipts.map (·.receiptId)) (t'.receipts.map (·.receiptId)) (t.flags.map (·.rowSeq))
    (t'.flags.map (·.rowSeq)) (t.receipts.map (·.rowSeq)) (t'.receipts.map (·.rowSeq))

/-- The tables agree on what a call of the organization reads. -/
structure Tables.AgreeFor (call : StoreCall) (t t' : Tables codec) : Prop where
  rows : t.Agree call.organizationId t'
  command : ∀ write, call = .write write → t.command write.commandKey = t'.command write.commandKey

/-- What a call of an organization leaves, and what it depends on. -/
structure Isolated (s : State codec describe rt) (call : StoreCall) (δ : Draws) : Prop where
  /-- The rows of every other organization are unchanged. -/
  elsewhere : s.store.Elsewhere call.organizationId (serve describe rt δ s.store call).2
  /-- In a state that agrees for the call, it returns alike and leaves the rows alike. -/
  alike : ∀ (s' : State codec describe rt) (δ' : Draws), Reachable s' → Unused s' δ' →
    codec.Blind rt δ δ' → s.store.AgreeFor call s'.store →
    Tally (Reply.Alike (between s.store s'.store)) (serve describe rt δ s.store call).1
        (serve describe rt δ' s'.store call).1 ∧
      (serve describe rt δ s.store call).2.Alike rt (between s.store s'.store)
        call.organizationId (serve describe rt δ' s'.store call).2
  /-- A replay returns records of the organization. -/
  owned : ∀ write response, call = .write write → codec.KeepsIds → Collisionless s.log write →
    (serve describe rt δ s.store call).1 = .ok (.answer (.replayed response)) →
    response.Of call.organizationId fun id =>
      ∃ row ∈ s.store.receipts, row.receiptId = id ∧ row.organizationId = call.organizationId

theorem Unused.unshared (hi : Inv s) (hδ : Unused s δ) : ∀ e ∈ s.log, Unshared δ e.draws := by
  intro e he
  obtain ⟨t, ht, -, hdraws, -⟩ := hi.locking.logged e he
  rw [← hdraws]
  exact hδ.2 _ t ht

section Content

variable {log log' : List (Serial.Entry Call Draws Answer)} {t t' : Tables codec}
  {c c' : Abstract.Store codec} (hc : Content rt log t c) (hc' : Content rt log' t' c')
  (hlog : ∀ e ∈ log, Unshared δ e.draws) (hlog' : ∀ e ∈ log', Unshared δ' e.draws)

include hc

theorem Content.keyed : KeyedRows t := .of_represents hc.represents hc.sound

include hlog

/-- No row has a value of new draws. -/
theorem Content.new : (∀ row ∈ t.flags, ∀ i, row.rowSeq ≠ (δ i).flagSeq) ∧
    ∀ row ∈ t.receipts, ∀ i, row.receiptId ≠ (δ i).uuid ∧ row.rowSeq ≠ (δ i).receiptSeq := by
  constructor
  · intro row hrow i heq
    have hmem : row.flag rt ∈ c.flags := by
      rw [← hc.represents.rows.flags]
      exact List.mem_map_of_mem hrow
    obtain ⟨e, he, n, hn⟩ := hc.sequenced.flags _ hmem
    exact ((hlog e he).2 i n).1 (heq.symm.trans hn)
  · intro row hrow i
    have hmem : row.receipt rt ∈ c.receipts := by
      rw [← hc.represents.rows.receipts]
      exact List.mem_map_of_mem hrow
    obtain ⟨e, he, n, hn⟩ := hc.logged.ids _ hmem
    obtain ⟨e', he', n', hn'⟩ := hc.sequenced.receipts _ hmem
    exact ⟨fun heq => (hlog e he).1 i n (heq.symm.trans hn),
      fun heq => ((hlog e' he').2 i n').2 (heq.symm.trans hn')⟩

/-- The keys stay unique over a call. -/
theorem keyed_alone (hδ : Unrepeated δ) (call : Call) :
    KeyedRows ((store codec describe rt).alone δ t call).2 := by
  have hfresh := hc.fresh hδ hlog call.operation
  rcases alone_cases describe hc.represents hc.sound hfresh with
    ⟨-, hr⟩ | ⟨_, _, _, _, _, _, -, -, -, hsame⟩
  · unfold Abstract.exec at hr
    cases hattempt : Abstract.attempt rt (stamp rt δ call.operation) c call with
    | error e =>
      rw [hattempt] at hr
      exact .of_represents hr hc.sound
    | ok outcome =>
      rw [hattempt] at hr
      exact .of_represents hr (Abstract.attempt_sound hc.sound hfresh hattempt)
  · rw [hsame]
    exact hc.keyed

include hc' hlog'

theorem Content.stand : Stand (between t t') δ δ' := by
  obtain ⟨hflags, hreceipts⟩ := hc.new hlog
  obtain ⟨hflags', hreceipts'⟩ := hc'.new hlog'
  refine ⟨fun _ _ => trivial, fun i => .inr ⟨fun hmem => ?_, fun hmem => ?_⟩,
    fun i => .inr ⟨fun hmem => ?_, fun hmem => ?_⟩, fun i => .inr ⟨fun hmem => ?_, fun hmem => ?_⟩⟩
  all_goals obtain ⟨row, hrow, heq⟩ := List.mem_map.mp hmem
  · exact (hreceipts row hrow i).1 heq
  · exact (hreceipts' row hrow i).1 heq
  · exact hflags row hrow i heq
  · exact hflags' row hrow i heq
  · exact (hreceipts row hrow i).2 heq
  · exact (hreceipts' row hrow i).2 heq

/-- A write on two databases that agree for it. -/
theorem Content.write_beside (hδ : δ.Distinct) (hδ' : δ'.Distinct) (hρ : Stand ρ δ δ')
    (hrefl : ρ.Refl) (hcodec : codec.Blind rt δ δ') {call : Call}
    (h : t.Agree call.operation.organizationId t')
    (hcommand : t.command call.commandKey = t'.command call.commandKey) :
    Tally (Answer.Alike ρ) ((store codec describe rt).alone δ t call).1
        ((store codec describe rt).alone δ' t' call).1 ∧
      Seen rt ρ call.operation.organizationId t t' ((store codec describe rt).alone δ t call).2
        ((store codec describe rt).alone δ' t' call).2 := by
  obtain ⟨htally, herror⟩ := alone_beside hcodec hρ hrefl hδ hδ' hc.represents hc.sound
    hc'.represents hc'.sound (fun row hrow i => ((hc.new hlog).2 row hrow i).1)
    (fun row hrow i => ((hc'.new hlog').2 row hrow i).1) h hcommand
  generalize ((store codec describe rt).alone δ t call).1 = x at htally herror
  generalize ((store codec describe rt).alone δ' t' call).1 = x' at htally
  cases htally with
  | ok hboth => exact ⟨.ok hboth.1, hboth.2⟩
  | error e =>
    obtain ⟨hsame, hsame'⟩ := herror e rfl
    rw [hsame, hsame']
    exact ⟨.error e, .of_agree hrefl hc.keyed hc'.keyed h⟩

omit hc' hlog'

theorem Content.elsewhere (hδ : δ.Distinct) (call : Call) :
    t.Elsewhere call.operation.organizationId ((store codec describe rt).alone δ t call).2 := by
  have hany : Stand Renaming.any δ δ :=
    ⟨fun _ _ => trivial, fun _ => trivial, fun _ => trivial, fun _ => trivial⟩
  have hrefl : Renaming.any.Refl :=
    ⟨fun _ => trivial, fun _ => trivial, fun _ => trivial, fun _ => trivial⟩
  have hagree : t.Agree call.operation.organizationId t :=
    ⟨fun _ _ => .rfl, fun _ _ => .rfl, fun _ _ => .rfl, fun _ _ => .rfl⟩
  exact (hc.write_beside hc hlog hlog hδ hδ hany hrefl (fun _ _ => rfl) hagree rfl).2.kept

/-- A call that is answered with a stored response. -/
theorem Content.owned (hδ : Unrepeated δ) {call : Call} {response : Response}
    (hcodec : codec.KeepsIds) (hhash : Collisionless log call)
    (h : ((store codec describe rt).alone δ t call).1 = .ok (.replayed response)) :
    response.Of call.operation.organizationId fun id =>
      ∃ row ∈ t.receipts, row.receiptId = id ∧
        row.organizationId = call.operation.organizationId := by
  obtain ⟨c', hattempt, -⟩ := hc.alone_eq_ok hδ hlog (Prod.ext h rfl)
  rcases Abstract.attempt_eq_ok hattempt with ⟨_, heq, -, hreplay⟩ | ⟨_, heq, -⟩
  · cases heq
    obtain ⟨hnamed, hissued⟩ := hc.logged.run.replay_owned hcodec hhash.history hreplay
    refine ⟨hnamed, fun record hrecord => ?_⟩
    obtain ⟨receipt, hmem, hid, horg⟩ := hissued record hrecord
    rw [← hc.represents.rows.receipts] at hmem
    obtain ⟨row, hrow, rfl⟩ := List.mem_map.mp hmem
    exact ⟨row, hrow, hid, horg⟩
  · cases heq

end Content

theorem isolated (h : Reachable s) (hδ : Unused s δ) (call : StoreCall) : Isolated s call δ := by
  have hi := Inv.reachable h
  obtain ⟨c, hc⟩ := hi.content
  have hlog := hδ.unshared hi
  constructor
  · cases call with
    | write call => exact hc.elsewhere hlog hδ.1.1 call
    | _ => exact .refl _ _
  · intro s' δ' h' hδ' hcodec hagree
    have hi' := Inv.reachable h'
    obtain ⟨c', hc'⟩ := hi'.content
    have hlog' := hδ'.unshared hi'
    have hrefl : (between s.store s'.store).Refl := Renaming.remade_refl ..
    have hsame : s.store.Alike rt (between s.store s'.store) call.organizationId s'.store :=
      (Seen.of_agree hrefl hc.keyed hc'.keyed hagree.rows).alike hc.keyed hc'.keyed
    cases call with
    | write call =>
      obtain ⟨htally, hseen⟩ := hc.write_beside hc' hlog hlog' hδ.1.1 hδ'.1.1
        (hc.stand hc' hlog hlog') hrefl hcodec hagree.rows (hagree.command call rfl)
      exact ⟨htally.map fun _ _ halike => .answer halike,
        hseen.alike (keyed_alone hc hlog hδ.1 call) (keyed_alone hc' hlog' hδ'.1 call)⟩
    | getFlag org flagKey =>
      exact ⟨tally_reply hrefl (congrArg (Except.map Reply.flag)
        (getFlag_agree hc.keyed hagree.rows flagKey)), hsame⟩
    | listFlags org includeArchived after limit =>
      exact ⟨tally_reply hrefl (congrArg (Except.map Reply.flags)
        (listFlags_agree hi.unique hi'.unique hagree.rows includeArchived after limit)), hsame⟩
    | listReceipts org flagKey environmentKey after limit =>
      exact ⟨tally_reply hrefl (congrArg (Except.map Reply.receipts)
        (listReceipts_agree hi.unique hi'.unique hagree.rows flagKey environmentKey after limit)),
        hsame⟩
  · rintro write response rfl hcodec hhash hserve
    have halone : ((store codec describe rt).alone δ s.store write).1 = .ok (.replayed response) := by
      change (((store codec describe rt).alone δ s.store write).1.map Reply.answer) = _ at hserve
      generalize ((store codec describe rt).alone δ s.store write).1 = result at hserve ⊢
      cases result with
      | error e => cases hserve
      | ok answer =>
        cases hserve
        rfl
    exact hc.owned hlog hδ.1 hcodec hhash halone

/-- A step of the sessions changes rows of one organization, that of a session. -/
theorem Step.confined (hi : Inv s) (h : Step s s') : s'.store = s.store ∨
    ∃ i t, s'.sessions i = some t ∧
      s.store.Elsewhere t.call.operation.organizationId s'.store := by
  have hi' := hi.step h
  rcases h.took hi with ⟨hsame, -⟩ | ⟨e, -, -, hlog, -⟩
  · exact .inl hsame
  · right
    have hserial := hi'.locking.serial
    have hdrawn := hi'.drawn
    obtain ⟨t, ht, hcall, -⟩ := hi'.locking.logged e (hlog ▸ List.mem_cons_self)
    rw [hlog] at hserial hdrawn
    refine ⟨e.session, t, ht, ?_⟩
    cases hserial with
    | cons hruns halone =>
      -- The commit ran alone on the store before it.
      cases hruns.unique hi.locking.serial
      obtain ⟨c, hc⟩ := hi.content
      have helsewhere : s.store.Elsewhere e.call.operation.organizationId
          ((store codec describe rt).alone e.draws s.store e.call).2 :=
        hc.elsewhere (List.pairwise_cons.mp hdrawn.unshared).1
          (hdrawn.unrepeated e List.mem_cons_self).1 e.call
      rw [halone] at helsewhere
      rw [hcall]
      exact helsewhere

end Postgres

/-! ## D1 -/

namespace D1

variable {s s' : State codec} {δ δ' : Draws}

/-- The rows of two databases stand for each other. -/
def between (t t' : Tables codec) : Renaming :=
  .remade (t.receipts.map (·.receiptId)) (t'.receipts.map (·.receiptId)) (t.flags.map (·.rowSeq))
    (t'.flags.map (·.rowSeq)) (t.receipts.map (·.rowSeq)) (t'.receipts.map (·.rowSeq))

/-- The tables agree on what a call of the organization reads. -/
structure Tables.AgreeFor (call : StoreCall) (t t' : Tables codec) : Prop where
  rows : t.Agree call.organizationId t'
  command : ∀ write, call = .write write → t.command write.commandKey = t'.command write.commandKey

/-- What a call of an organization leaves, and what it depends on. -/
structure Isolated (rt : Runtime) (s : State codec) (call : StoreCall) (δ : Draws) : Prop where
  /-- The rows of every other organization are unchanged. -/
  elsewhere : s.tables.Elsewhere call.organizationId (serve rt δ s.tables call).2
  /-- In a state that agrees for the call, it returns alike and leaves the rows alike. -/
  alike : ∀ (s' : State codec) (δ' : Draws), Reachable rt s' → Unused s' δ' →
    codec.Blind rt δ δ' → s.tables.AgreeFor call s'.tables →
    Tally (Reply.Alike (between s.tables s'.tables)) (serve rt δ s.tables call).1
        (serve rt δ' s'.tables call).1 ∧
      (serve rt δ s.tables call).2.Alike (between s.tables s'.tables) call.organizationId
        (serve rt δ' s'.tables call).2
  /-- A replay returns records of the organization. -/
  owned : ∀ write response, call = .write write → codec.KeepsIds → Collisionless s.log write →
    (serve rt δ s.tables call).1 = .ok (.answer (.replayed response)) →
    response.Of call.organizationId fun id =>
      ∃ row ∈ s.tables.receipts, row.receiptId = id ∧ row.organizationId = call.organizationId

/-- The tables between batches, with the abstract store they hold. -/
structure Content (rt : Runtime) (log : List (Serial.Entry Call Draws Answer)) (t : Tables codec)
    (c : Abstract.Store codec) : Prop where
  represents : Represents t c
  logged : Abstract.Logged rt log c
  range : t.epoch ≤ Decimal.i64Max

theorem Inv.content (hi : Inv rt s) : ∃ c, Content rt s.log s.tables c := by
  obtain ⟨c, hr, hlogged⟩ := hi.represented
  exact ⟨c, hr, hlogged, hi.range⟩

section Content

variable {log log' : List (Serial.Entry Call Draws Answer)} {t t' : Tables codec}
  {c c' : Abstract.Store codec} (hc : Content rt log t c) (hc' : Content rt log' t' c')
  (hσ : (stamp rt δ t).Fresh c) (hσ' : (stamp rt δ' t').Fresh c')

include hc

theorem Content.sound : Abstract.Sound rt c := hc.logged.run.sound

theorem Content.keyed : KeyedRows t := .of_represents hc.represents hc.sound

theorem Content.flagSeqs : (t.flags.map FlagRow.rowSeq).Nodup := by
  rw [hc.represents.flags, List.map_map]
  exact hc.sound.flagSeqs

theorem Content.receiptSeqs : (t.receipts.map ReceiptRow.rowSeq).Nodup := by
  rw [hc.represents.receipts, List.map_map]
  exact hc.sound.receiptSeqs

include hσ

/-- No row has a value of new draws, or a number still to be given. -/
theorem Content.new : (∀ row ∈ t.flags, row.rowSeq ≠ t.epoch) ∧
    ∀ row ∈ t.receipts, (∀ i, row.receiptId ≠ (δ i).uuid) ∧
      ∀ i : ℕ, row.rowSeq ≠ t.receiptSeq + 1 + i := by
  have hr := hc.represents
  rw [hr.flags, hr.receipts]
  refine ⟨List.forall_mem_map.mpr fun flag hflag => (hr.rowSeqs flag hflag).2.ne,
    List.forall_mem_map.mpr fun receipt hreceipt => ⟨fun i => hσ.unused i receipt hreceipt,
      fun i => (hσ.receiptSeq i).2 receipt hreceipt⟩⟩

/-- The keys stay unique over a call. -/
theorem keyed_call (call : Call) : KeyedRows (D1.call rt δ t call).2 := by
  rcases call_cases hc.represents hc.sound hσ hc.range call with ⟨-, hr⟩ | ⟨hsame, -⟩
  · unfold Abstract.exec at hr
    cases hattempt : Abstract.attempt rt (stamp rt δ t) c call with
    | error e =>
      rw [hattempt] at hr
      exact .of_represents hr hc.sound
    | ok outcome =>
      rw [hattempt] at hr
      exact .of_represents hr (Abstract.attempt_sound hc.sound hσ hattempt)
  · rw [hsame]
    exact hc.keyed

include hc' hσ'

theorem Content.stand : Stand (between t t') δ δ' t t' := by
  obtain ⟨hflags, hreceipts⟩ := hc.new hσ
  obtain ⟨hflags', hreceipts'⟩ := hc'.new hσ'
  refine ⟨fun _ _ => trivial, fun i => .inr ⟨fun hmem => ?_, fun hmem => ?_⟩,
    .inr ⟨fun hmem => ?_, fun hmem => ?_⟩, fun i => .inr ⟨fun hmem => ?_, fun hmem => ?_⟩⟩
  all_goals obtain ⟨row, hrow, heq⟩ := List.mem_map.mp hmem
  · exact (hreceipts row hrow).1 i heq
  · exact (hreceipts' row hrow).1 i heq
  · exact hflags row hrow heq
  · exact hflags' row hrow heq
  · exact (hreceipts row hrow).2 i heq
  · exact (hreceipts' row hrow).2 i heq

/-- A write on two databases that agree for it. -/
theorem Content.write_beside (hρ : Stand ρ δ δ' t t') (hrefl : ρ.Refl)
    (hcodec : codec.Blind rt δ δ') {call : Call} (h : t.Agree call.operation.organizationId t')
    (hcommand : t.command call.commandKey = t'.command call.commandKey) :
    Tally (Answer.Alike ρ) (D1.call rt δ t call).1 (D1.call rt δ' t' call).1 ∧
      Seen ρ call.operation.organizationId t t' (D1.call rt δ t call).2
        (D1.call rt δ' t' call).2 := by
  obtain ⟨htally, herror⟩ := call_beside hcodec hρ hrefl hc.represents hc.sound hσ hc.range
    hc'.represents hc'.sound hσ' hc'.range h hcommand
  generalize (D1.call rt δ t call).1 = x at htally herror
  generalize (D1.call rt δ' t' call).1 = x' at htally
  cases htally with
  | ok hboth => exact ⟨.ok hboth.1, hboth.2⟩
  | error e =>
    obtain ⟨hsame, hsame'⟩ := herror e rfl
    rw [hsame, hsame']
    exact ⟨.error e, .of_agree hrefl hc.keyed hc'.keyed h hρ.receiptSeq⟩

omit hc' hσ'

theorem Content.elsewhere (call : Call) :
    t.Elsewhere call.operation.organizationId (D1.call rt δ t call).2 := by
  have hany : Stand Renaming.any δ δ t t :=
    ⟨fun _ _ => trivial, fun _ => trivial, trivial, fun _ => trivial⟩
  have hrefl : Renaming.any.Refl :=
    ⟨fun _ => trivial, fun _ => trivial, fun _ => trivial, fun _ => trivial⟩
  have hagree : t.Agree call.operation.organizationId t :=
    ⟨fun _ _ => .rfl, fun _ _ => .rfl, fun _ _ => .rfl, fun _ _ => .rfl⟩
  exact (hc.write_beside hc hσ hσ hany hrefl (fun _ _ => rfl) hagree rfl).2.kept

/-- A call that is answered with a stored response. -/
theorem Content.owned {call : Call} {response : Response} (hcodec : codec.KeepsIds)
    (hhash : Collisionless log call) (h : (D1.call rt δ t call).1 = .ok (.replayed response)) :
    response.Of call.operation.organizationId fun id =>
      ∃ row ∈ t.receipts, row.receiptId = id ∧
        row.organizationId = call.operation.organizationId := by
  have hreplay : Abstract.replay c call = .ok (some response) := by
    rcases call_cases hc.represents hc.sound hσ hc.range call with
      ⟨hagree, -⟩ | ⟨herror, -⟩
    · rw [h] at hagree
      unfold Abstract.exec at hagree
      cases hattempt : Abstract.attempt rt (stamp rt δ t) c call with
      | error e =>
        rw [hattempt] at hagree
        cases hagree
      | ok outcome =>
        obtain ⟨answer, c'⟩ := outcome
        rw [hattempt] at hagree
        cases hagree with
        | ok heq =>
          cases heq
          rcases Abstract.attempt_eq_ok hattempt with ⟨_, heq, -, hreplay⟩ | ⟨_, heq, -⟩
          · cases heq
            exact hreplay
          · cases heq
    · rw [herror] at h
      cases h
  obtain ⟨hnamed, hissued⟩ := hc.logged.run.replay_owned hcodec hhash.history hreplay
  refine ⟨hnamed, fun record hrecord => ?_⟩
  obtain ⟨receipt, hmem, hid, horg⟩ := hissued record hrecord
  refine ⟨ReceiptRow.of receipt, ?_, hid, horg⟩
  rw [hc.represents.receipts]
  exact List.mem_map_of_mem hmem

end Content

theorem isolated (h : Reachable rt s) (hδ : Unused s δ) (call : StoreCall) :
    Isolated rt s call δ := by
  have hi := Inv.reachable h
  obtain ⟨c, hc⟩ := hi.content
  have hσ := hi.unused_fresh hc.logged hc.represents hδ
  constructor
  · cases call with
    | write call => exact hc.elsewhere hσ call
    | _ => exact .refl _ _
  · intro s' δ' h' hδ' hcodec hagree
    have hi' := Inv.reachable h'
    obtain ⟨c', hc'⟩ := hi'.content
    have hσ' := hi'.unused_fresh hc'.logged hc'.represents hδ'
    have hρ : Stand (between s.tables s'.tables) δ δ' s.tables s'.tables :=
      hc.stand hc' hσ hσ'
    have hrefl : (between s.tables s'.tables).Refl := Renaming.remade_refl ..
    have hsame : s.tables.Alike (between s.tables s'.tables) call.organizationId s'.tables :=
      (Seen.of_agree hrefl hc.keyed hc'.keyed hagree.rows hρ.receiptSeq).alike hc.keyed hc'.keyed
    cases call with
    | write call =>
      obtain ⟨htally, hseen⟩ := hc.write_beside hc' hσ hσ' hρ hrefl hcodec hagree.rows
        (hagree.command call rfl)
      exact ⟨htally.map fun _ _ halike => .answer halike,
        hseen.alike (keyed_call hc hσ call) (keyed_call hc' hσ' call)⟩
    | getFlag org flagKey =>
      exact ⟨tally_reply hrefl (congrArg (Except.map Reply.flag)
        (getFlag_agree hc.keyed hagree.rows flagKey)), hsame⟩
    | listFlags org includeArchived after limit =>
      exact ⟨tally_reply hrefl (congrArg (fun records => Except.ok (Reply.flags records))
        (listFlags_agree hc.flagSeqs hc'.flagSeqs hagree.rows includeArchived after limit)), hsame⟩
    | listReceipts org flagKey environmentKey after limit =>
      exact ⟨tally_reply hrefl (congrArg (Except.map Reply.receipts)
        (listReceipts_agree hc.receiptSeqs hc'.receiptSeqs hagree.rows flagKey environmentKey after
          limit)), hsame⟩
  · rintro write response rfl hcodec hhash hserve
    have hcall : (D1.call rt δ s.tables write).1 = .ok (.replayed response) := by
      change ((D1.call rt δ s.tables write).1.map Reply.answer) = _ at hserve
      generalize (D1.call rt δ s.tables write).1 = result at hserve ⊢
      cases result with
      | error e => cases hserve
      | ok answer =>
        cases hserve
        rfl
    exact hc.owned hσ hcodec hhash hcall

/-- A step of the attempts changes rows of one organization, that of an attempt. -/
theorem Step.confined (hi : Inv rt s) (h : Step rt s s') : s'.tables = s.tables ∨
    ∃ i a, s'.attempts i = some a ∧
      s.tables.Elsewhere a.call.operation.organizationId s'.tables := by
  cases h with
  | @apply i a b t' ha hb hfate _ hbatch =>
    obtain ⟨c, -, hr, hlogged, hσ, -, -, -, hcall⟩ := hi.took ha hb hfate hbatch
    have helsewhere := (Content.mk hr hlogged hi.range).elsewhere hσ a.call
    rw [hcall] at helsewhere
    exact .inr ⟨i, _, Function.update_self .., helsewhere⟩
  | _ => exact .inl rfl

end D1

/-! ## Both backends -/

/-- Each backend isolates its tenants. A call leaves the rows of other organizations; from two
states with the same rows of its organization and the same command row it returns alike, and leaves
rows that are alike; a replay is of the organization. Whatever else is under way, a step changes
rows of one organization, that of a call. -/
theorem tenants_isolated (codec : Codec) (describe : Postgres.DbError → String) (rt : Runtime) :
    (∀ (s : Postgres.State codec describe rt) (call : StoreCall) (δ : Draws),
      Postgres.Reachable s → Postgres.Unused s δ → Postgres.Isolated s call δ) ∧
    (∀ (s : D1.State codec) (call : StoreCall) (δ : Draws),
      D1.Reachable rt s → D1.Unused s δ → D1.Isolated rt s call δ) ∧
    (∀ s s' : Postgres.State codec describe rt, Postgres.Reachable s → Postgres.Step s s' →
      s'.store = s.store ∨ ∃ i t, s'.sessions i = some t ∧
        s.store.Elsewhere t.call.operation.organizationId s'.store) ∧
    ∀ s s' : D1.State codec, D1.Reachable rt s → D1.Step rt s s' →
      s'.tables = s.tables ∨ ∃ i a, s'.attempts i = some a ∧
        s.tables.Elsewhere a.call.operation.organizationId s'.tables :=
  ⟨fun _ call _ h hδ => Postgres.isolated h hδ call, fun _ call _ h hδ => D1.isolated h hδ call,
    fun _ _ h hstep => hstep.confined (Postgres.Inv.reachable h),
    fun _ _ h hstep => hstep.confined (D1.Inv.reachable h)⟩

/-- Another organization creates a flag of the same key. -/
def neighbour : Call :=
  ⟨⟨"caller", "actor", "key-5", [5]⟩, .createFlag "other" "flag" "Flag" none "boolean"⟩

/-- After the neighbour's call, the flag is evaluated as before. -/
theorem tenants_isolated_neighbour :
    (∃ s s' : Postgres.State Codec.verbatim (fun _ => "") (.atEpoch []), Postgres.Reachable s ∧
      Postgres.Reachable s' ∧ s.store.flags.length = 1 ∧ s'.store.flags.length = 2 ∧
      Tally (Reply.Alike (Postgres.between s.store s'.store))
        (Postgres.serve (fun _ => "") (.atEpoch []) (Draws.numbered 5) s.store
          (.write ⟨⟨"caller", "actor", "key-6", [6]⟩,
            .evaluate "org" "prod" "flag" "user-1" [] "hash"⟩)).1
        (Postgres.serve (fun _ => "") (.atEpoch []) (Draws.numbered 5) s'.store
          (.write ⟨⟨"caller", "actor", "key-6", [6]⟩,
            .evaluate "org" "prod" "flag" "user-1" [] "hash"⟩)).1) ∧
    ∃ s s' : D1.State Codec.verbatim, D1.Reachable (.atEpoch []) s ∧ D1.Reachable (.atEpoch []) s' ∧
      s.tables.flags.length = 1 ∧ s'.tables.flags.length = 2 ∧
      Tally (Reply.Alike (D1.between s.tables s'.tables))
        (D1.serve (.atEpoch []) (Draws.numbered 5) s.tables
          (.write ⟨⟨"caller", "actor", "key-6", [6]⟩,
            .evaluate "org" "prod" "flag" "user-1" [] "hash"⟩)).1
        (D1.serve (.atEpoch []) (Draws.numbered 5) s'.tables
          (.write ⟨⟨"caller", "actor", "key-6", [6]⟩,
            .evaluate "org" "prod" "flag" "user-1" [] "hash"⟩)).1 := by
  obtain ⟨hpostgres, hd1, -⟩ := tenants_isolated Codec.verbatim (fun _ => "") (.atEpoch [])
  have hblind : Codec.verbatim.Blind (.atEpoch []) (Draws.numbered 5) (Draws.numbered 5) :=
    fun _ _ => rfl
  constructor
  · obtain ⟨s, h, hstore, hunused⟩ := @Postgres.exists_unused Codec.verbatim (fun _ => "")
      (.atEpoch []) firstCalls
    obtain ⟨s', h', hstore', hunused'⟩ := @Postgres.exists_unused Codec.verbatim (fun _ => "")
      (.atEpoch []) (firstCalls ++ [neighbour])
    have hafter : s'.store = (Postgres.serve (fun _ => "") (.atEpoch []) (Draws.numbered 4) s.store
        (.write neighbour)).2 := by
      rw [hstore', hstore, Postgres.tablesAfter_append, Postgres.serve]
      rfl
    have helsewhere := (hpostgres s (.write neighbour) _ h (hunused 4 le_rfl)).elsewhere
    rw [← hafter] at helsewhere
    refine ⟨s, s', h, h', by rw [hstore]; decide, by rw [hstore']; decide,
      ((hpostgres s _ _ h (hunused 5 (by decide))).alike s' _ h' (hunused' 5 le_rfl) hblind
        ⟨helsewhere.agree (by decide), fun write hwrite => ?_⟩).1⟩
    cases hwrite
    have hnone : s.store.command ⟨"caller", "actor", "evaluate", "key-6"⟩ = none := by
      rw [hstore]
      rfl
    have hnone' : s'.store.command ⟨"caller", "actor", "evaluate", "key-6"⟩ = none := by
      rw [hstore']
      rfl
    exact hnone.trans hnone'.symm
  · obtain ⟨s, h, htables, hunused⟩ := @D1.exists_unused Codec.verbatim (.atEpoch []) firstCalls
      (by decide)
    obtain ⟨s', h', htables', hunused'⟩ := @D1.exists_unused Codec.verbatim (.atEpoch [])
      (firstCalls ++ [neighbour]) (by decide)
    have hafter : s'.tables = (D1.serve (.atEpoch []) (Draws.numbered 4) s.tables
        (.write neighbour)).2 := by
      rw [htables', htables, D1.tablesAfter_append, D1.serve]
      rfl
    have helsewhere := (hd1 s (.write neighbour) _ h (hunused 4 le_rfl)).elsewhere
    rw [← hafter] at helsewhere
    refine ⟨s, s', h, h', by rw [htables]; decide, by rw [htables']; decide,
      ((hd1 s _ _ h (hunused 5 (by decide))).alike s' _ h' (hunused' 5 le_rfl) hblind
        ⟨helsewhere.agree (by decide), fun write hwrite => ?_⟩).1⟩
    cases hwrite
    have hnone : s.tables.command ⟨"caller", "actor", "evaluate", "key-6"⟩ = none := by
      rw [htables]
      rfl
    have hnone' : s'.tables.command ⟨"caller", "actor", "evaluate", "key-6"⟩ = none := by
      rw [htables']
      rfl
    exact hnone.trans hnone'.symm

end LensoFlags
