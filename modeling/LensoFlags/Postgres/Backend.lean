import LensoFlags.Backends
import LensoFlags.Evaluations
import LensoFlags.Moments
import LensoFlags.Postgres.Clock
import LensoFlags.Postgres.Serializable

/-!
# PostgreSQL as the store of a deployment

Results: `accountable`: the store answers for what it says. `exists_alone`: a call with no other
under way is answered as the abstract store answers it.
-/

namespace LensoFlags.Postgres

variable {codec : Codec} {describe : DbError → String} {rt : Runtime}
  {s s' : State codec describe rt} {i : ℕ}

/-- The reads of the store. -/
def Tells (describe : DbError → String) (rt : Runtime) (t : Tables codec) :
    (call : StoreCall) → Except StorageError call.Record → Prop
  | .getFlag org flagKey, reply => reply = getFlag rt t org flagKey ∨ Lost reply
  | .listFlags org includeArchived after limit, reply =>
      reply = listFlags describe rt t org includeArchived after limit ∨ Lost reply
  | .listReceipts org flagKey environmentKey after limit, reply =>
      reply = listReceipts describe rt t org flagKey environmentKey after limit ∨ Lost reply
  | .write _, _ => False

/-- The state with a session that has begun. -/
def State.begun (s : State codec describe rt) (i : ℕ) (call : Call) (δ : Draws) :
    State codec describe rt :=
  { s with
    sessions := Function.update s.sessions i
      (some (Locking.Database.Session.begin (store codec describe rt) call δ)) }

variable (codec describe rt) in
def backend : Backend where
  State := State codec describe rt
  initial := .initial
  Begins := fun i call s s' => s.sessions i = none ∧ ∃ δ : Draws, Unrepeated δ ∧
    (∀ j t, s.sessions j = some t → Unshared δ t.draws) ∧
    s' = s.begun i call δ
  Moves := fun s s' => Step s s' ∧ ∀ i, s.sessions i = none → s'.sessions i = none
  call := fun s i => (s.sessions i).map Locking.Database.Session.call
  result := fun s i => (s.sessions i).bind Locking.Database.Session.outcome
  Tells := fun s => Tells describe rt s.store
  log := Locking.Database.State.log

theorem backend_lawful : (backend codec describe rt).Lawful where
  initial := fun _ => rfl
  begins := by
    rintro i call s s' ⟨hnone, δ, -, -, rfl⟩
    refine ⟨?_, ?_, fun j hj => ?_, fun j => ?_⟩
    · change (s.sessions i).map _ = none
      rw [hnone]
      rfl
    · change (Function.update s.sessions i _ i).map _ = some call
      rw [Function.update_self]
      rfl
    · change (Function.update s.sessions i _ j).map _ = _
      rw [Function.update_of_ne hj]
      rfl
    · change (Function.update s.sessions i _ j).bind _ = (s.sessions j).bind _
      by_cases hj : j = i
      · subst hj
        rw [Function.update_self, hnone]
        rfl
      · rw [Function.update_of_ne hj]
  moves := by
    rintro s s' ⟨hstep, hnone⟩
    refine ⟨fun j => ?_, fun j result hresult => ?_⟩
    · change (s'.sessions j).map _ = (s.sessions j).map Locking.Database.Session.call
      cases ht : s.sessions j with
      | none => rw [hnone j ht]
      | some t =>
        obtain ⟨t', ht', hcall, -, -⟩ := hstep.step.session ht
        rw [ht', Option.map_some, Option.map_some, hcall]
    · obtain ⟨t, ht, hout⟩ := Option.bind_eq_some_iff.mp hresult
      obtain ⟨t', ht', -, -, hsame⟩ := hstep.step.session ht
      rw [hsame result hout] at ht'
      change (s'.sessions j).bind _ = some result
      rw [ht', Option.bind_some, hout]

/-- A session that goes on leaves the others out of being. -/
theorem set_none {t u : Locking.Database.Session (store codec describe rt)} {j : ℕ}
    (ht : s.sessions i = some t) (hj : s.sessions j = none) :
    Function.update s.sessions i (some u) j = none := by
  have hne : j ≠ i := by
    rintro rfl
    rw [ht] at hj
    cases hj
  exact (Function.update_of_ne hne ..).trans hj

theorem backend_steps (h : (backend codec describe rt).Steps s s') : Steps s s' := by
  induction h with
  | refl => exact .refl
  | tail _ hstep ih =>
    rcases hstep with ⟨hstep, -⟩ | ⟨i, call, hnone, δ, hδ, hother, rfl⟩
    · exact ih.tail hstep
    · exact ih.trans (Steps.begin call hnone hδ hother)

theorem steps_backend (h : Steps s s') : (backend codec describe rt).Steps s s' := by
  induction h with
  | refl => exact .refl
  | @tail s₁ s₂ _ hstep ih =>
    refine ih.tail ?_
    by_cases hnone : ∀ j, s₁.sessions j = none → s₂.sessions j = none
    · exact .inl ⟨hstep, hnone⟩
    · obtain ⟨hlocking, hfresh⟩ := hstep
      cases hlocking with
      | @begin j call δ hj =>
        obtain ⟨hδ, hother⟩ := hfresh j _ hj (Function.update_self ..)
        exact .inr ⟨j, call, hj, δ, hδ, fun k t ht => hother k t (by
          rintro rfl
          rw [hj] at ht
          cases ht) ((Function.update_of_ne (by
          rintro rfl
          rw [hj] at ht
          cases ht) ..).trans ht), rfl⟩
      | statement ht => exact absurd (fun j hj => set_none ht hj) hnone
      | commit ht => exact absurd (fun j hj => set_none ht hj) hnone
      | rollback ht => exact absurd (fun j hj => set_none ht hj) hnone

/-! ## Records -/

theorem stamp_timed {platform : Platform}
    (htime : ∀ instant, platform.isTimestamp (rt.formatTimestamp instant)) (δ : Draws)
    (operation : Operation) : (stamp rt δ operation).Timed platform :=
  ⟨htime _, htime _, htime _, htime _, htime _, fun _ => ⟨htime _, htime _⟩⟩

theorem shown {platform : Platform}
    (htime : ∀ instant, platform.isTimestamp (rt.formatTimestamp instant)) (h : Reachable s) :
    ∃ c, Represents rt s.store c ∧ Abstract.Shown platform rt s.log c := by
  have hi := Inv.reachable h
  obtain ⟨c, hc, hshown⟩ := runs_induct (P := fun log c => Abstract.Shown platform rt log c)
    .empty
    (fun _ _ hattempt hshown => hshown.cons (stamp_timed htime _ _) hattempt)
    hi.locking.serial hi.drawn
  exact ⟨c, hc.represents, hshown⟩

/-- The rows a page is read from. -/
theorem mem_of_listFlags {t : Tables codec} {org : String} {includeArchived : Bool}
    {after : Option Int} {limit : Int} {flags : List FlagRecord} {listed : FlagRecord}
    (hpage : listFlags describe rt t org includeArchived after limit = .ok flags)
    (hm : listed ∈ flags) :
    ∃ row ∈ t.flags, row.organizationId = org ∧ listed = flagFromRow rt row := by
  simp only [listFlags, bind_eq_ok, page] at hpage
  obtain ⟨fetched, hfetched, hpage⟩ := hpage
  cases hpage
  split at hfetched
  · cases hfetched
  · cases hfetched
    obtain ⟨row, hrow, rfl⟩ := List.mem_map.mp hm
    obtain ⟨hmem, hselected⟩ :=
      List.mem_filter.mp (Table.mem_orderBy.mp (List.mem_of_mem_take hrow))
    simp only [Bool.and_eq_true, decide_eq_true_eq] at hselected
    exact ⟨row, hmem, hselected.1.1, rfl⟩

theorem mem_of_listReceipts {t : Tables codec} {org : String}
    {flagKey environmentKey : Option String} {after : Option Int} {limit : Int}
    {receipts : List ReceiptRecord} {listed : ReceiptRecord}
    (hpage : listReceipts describe rt t org flagKey environmentKey after limit = .ok receipts)
    (hm : listed ∈ receipts) :
    ∃ row ∈ t.receipts, row.organizationId = org ∧ listed = receiptFromRow rt row := by
  simp only [listReceipts, bind_eq_ok, page] at hpage
  obtain ⟨fetched, hfetched, hpage⟩ := hpage
  cases hpage
  split at hfetched
  · cases hfetched
  · cases hfetched
    obtain ⟨row, hrow, rfl⟩ := List.mem_map.mp hm
    obtain ⟨hmem, hselected⟩ :=
      List.mem_filter.mp (Table.mem_orderBy.mp (List.mem_of_mem_take hrow))
    simp only [Bool.and_eq_true, decide_eq_true_eq] at hselected
    exact ⟨row, hmem, hselected.1.1.1, rfl⟩

theorem tells_reads {t : Tables codec} {c : Abstract.Store codec} (hr : Rows rt t c)
    (call : StoreCall) {record : call.Record} (h : Tells describe rt t call (.ok record)) :
    Abstract.Reads c call record := by
  cases call with
  | write call => exact h.elim
  | getFlag org flagKey =>
    rcases h with h | ⟨e, -, h⟩
    · rw [hr.getFlag] at h
      exact Abstract.reads_getFlag h.symm
    · cases h
  | listFlags org includeArchived after limit =>
    rcases h with h | ⟨e, -, h⟩
    · intro (found : FlagRecord) hfound
      obtain ⟨row, hrow, horg, rfl⟩ := mem_of_listFlags h.symm hfound
      have hmem : FlagRow.flag rt row ∈ c.flags := hr.flags ▸ List.mem_map_of_mem hrow
      exact ⟨_, hmem, horg, rfl⟩
    · cases h
  | listReceipts org flagKey environmentKey after limit =>
    rcases h with h | ⟨e, -, h⟩
    · intro (found : ReceiptRecord) hfound
      obtain ⟨row, hrow, horg, rfl⟩ := mem_of_listReceipts h.symm hfound
      have hmem : ReceiptRow.receipt rt row ∈ c.receipts := hr.receipts ▸ List.mem_map_of_mem hrow
      exact ⟨_, hmem, horg, rfl⟩
    · cases h

theorem accountable : (backend codec describe rt).Accountable codec rt where
  lawful := backend_lawful
  logged := fun s h =>
    (Inv.reachable (backend_steps h)).content.imp fun _ hcontent => hcontent.logged
  called := by
    intro s h e he
    obtain ⟨t, ht, hcall, -⟩ := (Inv.reachable (backend_steps h)).locking.logged e he
    change (s.sessions e.session).map _ = some e.call
    rw [ht, Option.map_some, hcall]
  answered := by
    intro s h i call answer hcall hresult
    have hi := Inv.reachable (backend_steps h)
    obtain ⟨t, ht, hout⟩ := Option.bind_eq_some_iff.mp hresult
    change (s.sessions i).map _ = some call at hcall
    rw [ht, Option.map_some, Option.some.injEq] at hcall
    subst hcall
    obtain ⟨c, hc⟩ := hi.content
    exact hc.logged.commits.settled (hi.locking.returned i t answer ht hout)
  refused := by
    intro s h i failure hresult
    obtain ⟨t, ht, hout⟩ := Option.bind_eq_some_iff.mp hresult
    exact (Inv.reachable (backend_steps h)).error_notLogged ht hout
  shown := by
    intro platform htime s h hlawful
    obtain ⟨c, hr, hshown⟩ := Postgres.shown htime (backend_steps h)
    obtain ⟨hc, hlog⟩ := hshown hlawful
    exact ⟨hlog, fun call record htells => hc.reads (tells_reads hr.rows call htells)⟩

theorem CommandRow.of_injective :
    Function.Injective (CommandRow.of : Abstract.CommandRow codec → CommandRow codec) := by
  intro row row' h
  cases row
  cases row'
  simp only [CommandRow.of, CommandRow.mk.injEq, Option.some.injEq] at h
  obtain ⟨rfl, rfl, rfl⟩ := h
  rfl

/-- The tables determine the store they represent. -/
theorem Represents.unique {t : Tables codec} {c c' : Abstract.Store codec}
    (hr : Represents rt t c) (hr' : Represents rt t c') : c = c' := by
  obtain ⟨flags, environments, rulesets, receipts, commands⟩ := c
  obtain ⟨flags', environments', rulesets', receipts', commands'⟩ := c'
  have hflags : flags = flags' := hr.rows.flags.symm.trans hr'.rows.flags
  have henvironments : environments = environments' :=
    hr.rows.environments.symm.trans hr'.rows.environments
  have hrulesets : rulesets = rulesets' := hr.rows.rulesets.symm.trans hr'.rows.rulesets
  have hreceipts : receipts = receipts' := hr.rows.receipts.symm.trans hr'.rows.receipts
  have hcommands : commands = commands' :=
    List.map_injective_iff.mpr CommandRow.of_injective (hr.commands.symm.trans hr'.commands)
  rw [hflags, henvironments, hrulesets, hreceipts, hcommands]

theorem mirrors : (backend codec describe rt).Mirrors codec rt fun s c =>
    Represents rt s.store c where
  initial := rfl
  held := fun s h => by
    obtain ⟨c, hc⟩ := (Inv.reachable (backend_steps h)).content
    exact ⟨c, hc.represents, hc.logged⟩
  unique := fun s c c' hr hr' => hr.unique hr'
  step := by
    rintro s s' h (⟨hmoves, -⟩ | ⟨i, call, -, δ, -, -, rfl⟩) c hr
    · have hi := Inv.reachable (backend_steps h)
      have hi' := Inv.reachable ((backend_steps h).tail hmoves)
      cases hmoves.step with
      | commit =>
        -- The transaction that commits has run alone on the tables it commits to.
        obtain ⟨c₁, hc⟩ := hi.content
        cases hc.represents.unique hr
        obtain ⟨hunshared, -⟩ := List.pairwise_cons.mp hi'.drawn.unshared
        cases hi'.locking.serial with
        | cons hruns halone =>
          cases hruns.unique hi.locking.serial
          obtain ⟨c', hattempt, hr'⟩ :=
            hc.alone_eq_ok (hi'.drawn.unrepeated _ List.mem_cons_self) hunshared halone
          exact .inr ⟨_, c', rfl, hr', _, hattempt⟩
      | _ => exact .inl ⟨rfl, hr⟩
    · exact .inl ⟨rfl, hr⟩
  reads := fun s _ c hr call _ htells => tells_reads hr.rows call htells

/-! ## Undisturbed calls -/

/-- No session holds a lock. -/
def Quiet (s : State codec describe rt) : Prop := ∀ j t, s.sessions j = some t → t.held = []

/-- An undisturbed call is answered as the abstract store answers it. -/
theorem exists_alone (h : Reachable s) {call : Call} (hlawful : call.operation.Lawful rt)
    {δ : Draws} (hnone : s.sessions i = none) (hδ : Unused s δ) (hquiet : Quiet s) :
    ∃ s' result, Backend.Alone (B := backend codec describe rt) s i call s' result ∧
      Settles codec rt s.log call result ∧ Quiet s' ∧
      ∀ δ', Unused s δ' → Unshared δ' δ → Unused s' δ' := by
  obtain ⟨s', t, hsteps, -, hsessions, rfl, rfl, hheld, hout⟩ :=
    Steps.alone call hnone hδ.1 hδ.2 hquiet
  refine ⟨s', ((store codec describe rt).alone t.draws s.store t.call).1,
    ⟨steps_backend hsteps, ?_, ?_, fun j hj => ?_⟩, ?_, fun j u hu => ?_,
    fun δ' hδ' hshared => ⟨hδ'.1, fun j u hu => ?_⟩⟩
  · change (s'.sessions i).map _ = some t.call
    rw [hsessions, Function.update_self, Option.map_some]
  · change (s'.sessions i).bind _ = some _
    rw [hsessions, Function.update_self, Option.bind_some, hout]
  · change (s'.sessions j).map _ = _
    rw [hsessions, Function.update_of_ne hj]
    rfl
  · have hi := Inv.reachable h
    obtain ⟨c, hc⟩ := hi.content
    have hfresh := hi.unused_fresh hc hδ t.call.operation
    refine ⟨c, _, hc.logged, hfresh, ?_⟩
    rcases alone_cases describe hc.represents hc.sound hfresh with
      ⟨hagree, -⟩ | ⟨_, _, _, _, valueType, _, hop, htype, -⟩
    · exact hagree
    · rw [hop] at hlawful
      exact absurd (valueTypes_of_lawful hlawful) htype
  · rcases Locking.Footprint.session_cases (hsessions ▸ hu) with ⟨-, rfl⟩ | ⟨-, hu⟩
    · exact hheld
    · exact hquiet j u hu
  · rcases Locking.Footprint.session_cases (hsessions ▸ hu) with ⟨-, rfl⟩ | ⟨-, hu⟩
    · exact hshared
    · exact hδ'.2 j u hu

end LensoFlags.Postgres
