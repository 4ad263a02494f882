import LensoFlags.Postgres.Guarded
import LensoFlags.Postgres.Refinement

/-!
# Concurrent transactions

Any number of calls run at once against one PostgreSQL database, statement by statement
(`Locking.Step`). A session that begins draws UUIDs and numbers that no other session draws.

Results:
1. `Inv.reachable`: the invariant of every reachable state.
2. `Inv.represented`: the committed tables represent the abstract store of the log.
-/

namespace LensoFlags.Postgres

variable {codec : Codec} {describe : DbError → String} {rt : Runtime}

/-! ## States -/

abbrev State (codec : Codec) (describe : DbError → String) (rt : Runtime) : Type :=
  Locking.Database.State (store codec describe rt)

def State.initial : State codec describe rt :=
  Locking.Database.State.initial (store codec describe rt) Tables.empty

/-- Draws without a repetition. -/
def Unrepeated (δ : Draws) : Prop := δ.Distinct ∧ δ.Sequenced

/-- Draws without a common value. -/
def Unshared (δ δ' : Draws) : Prop := δ.Disjoint δ' ∧ δ.Apart δ'

theorem Unshared.symm {δ δ' : Draws} (h : Unshared δ δ') : Unshared δ' δ :=
  ⟨h.1.symm, h.2.symm⟩

theorem Unrepeated.numbered (n : ℕ) : Unrepeated (Draws.numbered n) :=
  ⟨Draws.numbered_distinct n, Draws.numbered_sequenced n⟩

theorem Unshared.numbered {n m : ℕ} (h : n ≠ m) : Unshared (Draws.numbered n) (Draws.numbered m) :=
  ⟨Draws.numbered_disjoint h, Draws.numbered_apart h⟩

structure Step (s s' : State codec describe rt) : Prop where
  step : Locking.Database.Step (store codec describe rt) s s'
  /-- What a new session draws. -/
  fresh : ∀ i t, s.sessions i = none → s'.sessions i = some t →
    Unrepeated t.draws ∧ ∀ j u, j ≠ i → s'.sessions j = some u → Unshared t.draws u.draws

def Steps : State codec describe rt → State codec describe rt → Prop :=
  Relation.ReflTransGen Step

def Reachable (s : State codec describe rt) : Prop := Steps State.initial s

/-! ## Numbers of the sequences -/

/-- The row numbers come from the draws of the log. -/
structure Sequenced (log : List (Serial.Entry Call Draws Answer)) (c : Abstract.Store codec) :
    Prop where
  flags : ∀ flag ∈ c.flags, ∃ e ∈ log, ∃ n, flag.rowSeq = (e.draws n).flagSeq
  receipts : ∀ receipt ∈ c.receipts, ∃ e ∈ log, ∃ n, receipt.rowSeq = (e.draws n).receiptSeq

section Sequenced

variable {log : List (Serial.Entry Call Draws Answer)} {c c' : Abstract.Store codec} {δ : Draws}

theorem Sequenced.freshSeqs (h : Sequenced log c) (hδ : δ.Sequenced)
    (hlog : ∀ e ∈ log, δ.Apart e.draws) (operation : Operation) :
    (stamp rt δ operation).FreshSeqs c := by
  refine ⟨⟨(hδ.positive _).1, fun flag hflag heq => ?_⟩,
    fun i => ⟨(hδ.positive _).2, fun receipt hreceipt heq => ?_⟩, fun i j heq => ?_⟩
  · obtain ⟨e, he, n, hn⟩ := h.flags flag hflag
    exact (hlog e he _ n).1 (heq.symm.trans hn)
  · obtain ⟨e, he, n, hn⟩ := h.receipts receipt hreceipt
    exact (hlog e he _ n).2 (heq.symm.trans hn)
  · have hpos := hδ.receipt _ _ heq
    omega

/-- One more call. -/
theorem Sequenced.cons {e : Serial.Entry Call Draws Answer} (h : Sequenced log c)
    (hattempt : Abstract.attempt rt (stamp rt e.draws e.call.operation) c e.call =
      .ok (e.value, c')) : Sequenced (e :: log) c' := by
  have hflags : ∀ flag ∈ c.flags, ∃ e' ∈ e :: log, ∃ n, flag.rowSeq = (e'.draws n).flagSeq := by
    intro flag hflag
    obtain ⟨e', he', hn⟩ := h.flags flag hflag
    exact ⟨e', List.mem_cons_of_mem _ he', hn⟩
  have hreceipts : ∀ receipt ∈ c.receipts,
      ∃ e' ∈ e :: log, ∃ n, receipt.rowSeq = (e'.draws n).receiptSeq := by
    intro receipt hreceipt
    obtain ⟨e', he', hn⟩ := h.receipts receipt hreceipt
    exact ⟨e', List.mem_cons_of_mem _ he', hn⟩
  rcases Abstract.attempt_eq_ok hattempt with ⟨-, -, rfl, -⟩ | ⟨response, -, -, hfresh⟩
  · exact ⟨hflags, hreceipts⟩
  · obtain ⟨c₁, stored, heffect, -, rfl⟩ := Abstract.fresh_effect hfresh
    refine ⟨heffect.flagChange.forall
      (P := fun flag => ∃ e' ∈ e :: log, ∃ n, flag.rowSeq = (e'.draws n).flagSeq)
      (fun flag _ _ _ hseq => ⟨e, List.mem_cons_self, _, hseq⟩)
      (fun flag flag' hflag _ _ hseq _ => by rwa [hseq]) hflags, fun receipt hm => ?_⟩
    rcases heffect.stamped hm with hm | ⟨i, -, hi⟩
    · exact hreceipts receipt hm
    · exact ⟨e, List.mem_cons_self, _, hi⟩

end Sequenced

/-! ## Serial runs -/

/-- The calls of a log draw nothing twice. -/
structure Drawn (log : List (Serial.Entry Call Draws Answer)) : Prop where
  unrepeated : ∀ e ∈ log, Unrepeated e.draws
  unshared : log.Pairwise fun e e' => Unshared e.draws e'.draws

/-- The tables hold the abstract store of the log. -/
structure Content (rt : Runtime) (log : List (Serial.Entry Call Draws Answer)) (t : Tables codec)
    (c : Abstract.Store codec) : Prop where
  represents : Represents rt t c
  logged : Abstract.Logged rt log c
  sequenced : Sequenced log c

section Content

variable {log : List (Serial.Entry Call Draws Answer)} {t : Tables codec}
  {c : Abstract.Store codec} {δ : Draws}

theorem Content.sound (h : Content rt log t c) : Abstract.Sound rt c := h.logged.run.sound

theorem Content.fresh (h : Content rt log t c) (hδ : Unrepeated δ)
    (hlog : ∀ e ∈ log, Unshared δ e.draws) (operation : Operation) :
    (stamp rt δ operation).Fresh c :=
  ⟨h.logged.freshIds (stamp_drawnFrom rt δ operation) hδ.1 fun e he => (hlog e he).1,
    h.sequenced.freshSeqs hδ.2 (fun e he => (hlog e he).2) operation⟩

/-- A call run alone commits as the abstract store takes the call. -/
theorem Content.alone_eq_ok {call : Call} {answer : Answer} {t' : Tables codec}
    (h : Content rt log t c) (hδ : Unrepeated δ) (hlog : ∀ e ∈ log, Unshared δ e.draws)
    (halone : (store codec describe rt).alone δ t call = (.ok answer, t')) :
    ∃ c', Abstract.attempt rt (stamp rt δ call.operation) c call = .ok (answer, c') ∧
      Represents rt t' c' := by
  rcases alone_cases describe h.represents h.sound (h.fresh hδ hlog call.operation)
    with ⟨hagree, hr⟩ | ⟨-, -, -, -, -, e, -, -, -, herror⟩
  · rw [halone] at hagree hr
    unfold Abstract.exec at hagree hr
    cases hattempt : Abstract.attempt rt (stamp rt δ call.operation) c call with
    | error e =>
      rw [hattempt] at hagree
      cases hagree
    | ok outcome =>
      rw [hattempt] at hagree hr
      cases hagree with
      | ok hvalue =>
        obtain ⟨answer', c'⟩ := outcome
        cases hvalue
        exact ⟨c', rfl, hr⟩
  · rw [halone] at herror
    cases herror

/-- What holds of the empty store and is kept by every call that commits holds after a run. -/
theorem runs_induct {P : List (Serial.Entry Call Draws Answer) → Abstract.Store codec → Prop}
    (hempty : P [] Abstract.Store.empty)
    (hcons : ∀ {log t c e c'}, Content rt log t c → (stamp rt e.draws e.call.operation).Fresh c →
      Abstract.attempt rt (stamp rt e.draws e.call.operation) c e.call = .ok (e.value, c') →
      P log c → P (e :: log) c')
    (h : Serial.Runs (store codec describe rt).alone Tables.empty log t) (hdrawn : Drawn log) :
    ∃ c, Content rt log t c ∧ P log c := by
  induction h with
  | nil => exact ⟨_, ⟨.empty, .empty, nofun, nofun⟩, hempty⟩
  | @cons log t t' e _ halone ih =>
    obtain ⟨hunshared, hpairwise⟩ := List.pairwise_cons.mp hdrawn.unshared
    obtain ⟨c, hc, hP⟩ :=
      ih ⟨fun e he => hdrawn.unrepeated e (List.mem_cons_of_mem _ he), hpairwise⟩
    have hδ := hdrawn.unrepeated e List.mem_cons_self
    have hfresh := hc.fresh hδ hunshared e.call.operation
    obtain ⟨c', hattempt, hr⟩ := hc.alone_eq_ok hδ hunshared halone
    exact ⟨c', ⟨hr, hc.logged.cons (stamp_drawnFrom rt e.draws e.call.operation) hfresh hattempt,
      hc.sequenced.cons hattempt⟩, hcons hc hfresh hattempt hP⟩

theorem content_of_runs
    (h : Serial.Runs (store codec describe rt).alone Tables.empty log t) (hdrawn : Drawn log) :
    ∃ c, Content rt log t c := by
  obtain ⟨c, hc, -⟩ :=
    runs_induct (P := fun _ _ => True) trivial (fun _ _ _ _ => trivial) h hdrawn
  exact ⟨c, hc⟩

end Content

/-! ## The invariant -/

structure Inv (s : State codec describe rt) : Prop where
  locking : (footprint codec describe rt).Inv Tables.empty s
  unrepeated : ∀ i t, s.sessions i = some t → Unrepeated t.draws
  unshared : ∀ i j t u, i ≠ j → s.sessions i = some t → s.sessions j = some u →
    Unshared t.draws u.draws

variable {s s' : State codec describe rt}

theorem State.initial_sessions (i : ℕ) :
    (State.initial : State codec describe rt).sessions i = none := rfl

theorem Inv.initial : Inv (State.initial : State codec describe rt) where
  locking := .init _
  unrepeated := by
    intro i t ht
    rw [State.initial_sessions] at ht
    cases ht
  unshared := by
    intro i j t u _ ht
    rw [State.initial_sessions] at ht
    cases ht

theorem Inv.step (hi : Inv s) (h : Step s s') : Inv s' := by
  -- A session of the later state is new or draws what it drew.
  have hcases : ∀ {i t}, s'.sessions i = some t →
      s.sessions i = none ∨ ∃ u, s.sessions i = some u ∧ t.draws = u.draws := by
    intro i t ht
    cases hu : s.sessions i with
    | none => exact .inl rfl
    | some u =>
      obtain ⟨t', ht', -, hdraws, -⟩ := h.step.session hu
      rw [ht] at ht'
      cases ht'
      exact .inr ⟨u, rfl, hdraws⟩
  refine ⟨hi.locking.step transaction_guarded h.step, fun i t ht => ?_,
    fun i j t u hij ht hu => ?_⟩
  · rcases hcases ht with hnone | ⟨u, hu, hdraws⟩
    · exact (h.fresh i t hnone ht).1
    · rw [hdraws]
      exact hi.unrepeated i u hu
  · rcases hcases ht with hnone | ⟨t₀, ht₀, hdraws⟩
    · exact (h.fresh i t hnone ht).2 j u (Ne.symm hij) hu
    · rcases hcases hu with hnone | ⟨u₀, hu₀, hdraws'⟩
      · exact ((h.fresh j u hnone hu).2 i t hij ht).symm
      · rw [hdraws, hdraws']
        exact hi.unshared i j t₀ u₀ hij ht₀ hu₀

theorem Inv.reachable (h : Reachable s) : Inv s := by
  induction h with
  | refl => exact .initial
  | tail _ hstep ih => exact ih.step hstep

theorem Inv.drawn (hi : Inv s) : Drawn s.log := by
  refine ⟨fun e he => ?_, ?_⟩
  · obtain ⟨t, ht, -, hdraws, -⟩ := hi.locking.logged e he
    rw [← hdraws]
    exact hi.unrepeated _ t ht
  · refine (List.pairwise_map.mp hi.locking.once).imp_of_mem fun {e e'} he he' hne => ?_
    obtain ⟨t, ht, -, hdraws, -⟩ := hi.locking.logged e he
    obtain ⟨u, hu, -, hdraws', -⟩ := hi.locking.logged e' he'
    rw [← hdraws, ← hdraws']
    exact hi.unshared _ _ t u hne ht hu

theorem Inv.content (hi : Inv s) : ∃ c, Content rt s.log s.store c :=
  content_of_runs hi.locking.serial hi.drawn

/-- The committed tables change when a transaction commits, and then as its call changes the
store. -/
theorem Step.took (hi : Inv s) (h : Step s s') :
    (s'.store = s.store ∧ s'.log = s.log) ∨
      ∃ e c c', s'.log = e :: s.log ∧ Represents rt s.store c ∧ Abstract.Sound rt c ∧
        Represents rt s'.store c' ∧ Abstract.Took rt e.call e.value c c' := by
  have hi' := hi.step h
  have hdrawn := hi'.drawn
  have hserial := hi'.locking.serial
  cases h.step with
  | commit =>
    cases hserial with
    | cons hruns halone =>
      obtain ⟨c, hc⟩ := hi.content
      have hδ := hdrawn.unrepeated _ List.mem_cons_self
      have hunshared := (List.pairwise_cons.mp hdrawn.unshared).1
      cases hruns.unique hi.locking.serial
      obtain ⟨c', hattempt, hr'⟩ := hc.alone_eq_ok hδ hunshared halone
      exact .inr ⟨_, c, c', rfl, hc.represents, hc.sound, hr', _, hc.fresh hδ hunshared _, hattempt⟩
  | _ => exact .inl ⟨rfl, rfl⟩

theorem Drawn.of_suffix {log log' : List (Serial.Entry Call Draws Answer)} (h : Drawn log)
    (hsuffix : log' <:+ log) : Drawn log' :=
  ⟨fun e he => h.unrepeated e (hsuffix.mem he), h.unshared.sublist hsuffix.sublist⟩

/-- The state a committed call found, and what it did there. -/
theorem Inv.commit_point (hi : Inv s) {e : Serial.Entry Call Draws Answer} (he : e ∈ s.log) :
    ∃ older newer t c c', s.log = newer ++ e :: older ∧
      Serial.Runs (store codec describe rt).alone Tables.empty older t ∧ Content rt older t c ∧
      (stamp rt e.draws e.call.operation).Fresh c ∧
      Abstract.attempt rt (stamp rt e.draws e.call.operation) c e.call = .ok (e.value, c') := by
  obtain ⟨older, newer, t, t', hlog, hruns, halone, -⟩ := hi.locking.serial.of_mem he
  have hdrawn : Drawn (e :: older) := hi.drawn.of_suffix ⟨newer, hlog.symm⟩
  have hunshared := (List.pairwise_cons.mp hdrawn.unshared).1
  have hδ := hdrawn.unrepeated e List.mem_cons_self
  obtain ⟨c, hc⟩ := content_of_runs hruns (hdrawn.of_suffix (List.suffix_cons ..))
  obtain ⟨c', hattempt, -⟩ := hc.alone_eq_ok hδ hunshared halone
  exact ⟨older, newer, t, c, c', hlog, hruns, hc, hc.fresh hδ hunshared _, hattempt⟩

/-! ## Erasure -/

/-- What another session does, it also does when session `i` is not there. -/
theorem Step.erase (i : ℕ) (h : Step s s') :
    s'.erase i = s.erase i ∨ Step (s.erase i) (s'.erase i) ∨ ∃ e ∈ s'.log, e.session = i := by
  rcases h.step.erase i with heq | hstep | hlog
  · exact .inl heq
  · refine .inr (.inl ⟨hstep, fun j t hnone ht => ?_⟩)
    have hj : j ≠ i := by
      rintro rfl
      rw [s'.erase_self] at ht
      cases ht
    rw [s.erase_of_ne hj] at hnone
    rw [s'.erase_of_ne hj] at ht
    refine ⟨(h.fresh j t hnone ht).1, fun k u hk hu => (h.fresh j t hnone ht).2 k u hk ?_⟩
    have hki : k ≠ i := by
      rintro rfl
      rw [s'.erase_self] at hu
      cases hu
    rwa [s'.erase_of_ne hki] at hu
  · exact .inr (.inr hlog)

/-- A transaction that did not commit can be taken out of the run. -/
theorem Steps.erase (h : Steps s s') {i : ℕ} (hlog : ∀ e ∈ s'.log, e.session ≠ i) :
    Steps (s.erase i) (s'.erase i) := by
  induction h with
  | refl => exact .refl
  | tail _ hstep ih =>
    have hold := ih fun e he => hlog e (hstep.step.log_subset he)
    rcases hstep.erase i with heq | hstep' | ⟨e, he, hsession⟩
    · rw [heq]
      exact hold
    · exact hold.tail hstep'
    · exact absurd hsession (hlog e he)

theorem Reachable.erase (h : Reachable s) {i : ℕ} (hlog : ∀ e ∈ s.log, e.session ≠ i) :
    Reachable (s.erase i) := by
  have hempty : (State.initial : State codec describe rt).erase i = State.initial :=
    congrArg (fun sessions => { (State.initial : State codec describe rt) with
      sessions := sessions }) (Function.update_eq_self i fun _ => none)
  have herase := Steps.erase h hlog
  rwa [hempty] at herase

/-- A transaction that has ended has ended for good. -/
theorem Steps.returned (h : Steps s s') {i : ℕ} {t : (store codec describe rt).Session}
    (ht : s.sessions i = some t) {result : Result} (hout : t.outcome = some result) :
    s'.sessions i = some t := by
  induction h with
  | refl => exact ht
  | tail _ hstep ih =>
    obtain ⟨t', ht', -, -, hsame⟩ := hstep.step.session ih
    rwa [hsame result hout] at ht'

/-- A transaction that failed did not commit. -/
theorem Inv.error_notLogged (hi : Inv s) {i : ℕ} {t : (store codec describe rt).Session}
    (ht : s.sessions i = some t) {e : StorageError} (hout : t.outcome = some (.error e)) :
    ∀ entry ∈ s.log, entry.session ≠ i := by
  rintro entry hentry rfl
  obtain ⟨t', ht', -, -, hok⟩ := hi.locking.logged entry hentry
  cases ht.symm.trans ht'
  cases hout.symm.trans hok

/-! ## Undisturbed calls -/

theorem Steps.of_continues
    (h : Relation.ReflTransGen (Locking.Database.Continues (store codec describe rt)) s s') :
    Steps s s' := by
  induction h with
  | refl => exact .refl
  | tail _ hstep ih =>
    refine ih.tail ⟨hstep.1, fun i t hnone ht => ?_⟩
    rw [hstep.2 i hnone] at ht
    cases ht

/-- A session begins. -/
theorem Steps.begin {i : ℕ} (call : Call) {δ : Draws} (hnone : s.sessions i = none)
    (hδ : Unrepeated δ) (hother : ∀ j t, s.sessions j = some t → Unshared δ t.draws) :
    Steps s { s with
      sessions := Function.update s.sessions i
        (some (Locking.Database.Session.begin (store codec describe rt) call δ)) } := by
  refine .single ⟨.begin hnone, fun j t hj ht => ?_⟩
  by_cases hji : j = i
  · subst hji
    cases (Function.update_self ..).symm.trans ht
    exact ⟨hδ, fun k u hk hu => hother k u ((Function.update_of_ne hk ..).symm.trans hu)⟩
  · have ht' := (Function.update_of_ne hji ..).symm.trans ht
    rw [hj] at ht'
    cases ht'

end LensoFlags.Postgres
