import LensoFlags.Moments
import LensoFlags.Pagination

/-!
# What answers show

The flags an answer shows are flags of the store at a moment: a read shows what it was told, a write
what its call left. Versions of one flag come one after the other.

1. `serve_reads`: a read is answered with what the store told.
2. `read_displayed`, `write_displayed`: the flags an answer shows are of a moment.
3. `Displays.version`: two versions of a flag at two moments.
-/

namespace LensoFlags

open Locking.Program

/-! ## Answered reads -/

section Reads

variable {platform : Platform} {rt : Runtime} {config : PolicyConfig} {context : Ctx}
  {trace : List (Exchange Ask.Reply)}

variable (platform) in
/-- What a read is answered with: the records it got, on the wire. -/
def StoreCall.Shows : (call : StoreCall) → call.Record → ServiceResponse → Prop
  | .getFlag .., record, response =>
      ∃ item, castFlag platform record = some item ∧ response = .flag item
  | .listFlags .., (records : List FlagRecord), response =>
      ∃ page, response = .flags page ∧
        ∀ item ∈ page.flags, ∃ record ∈ records, castFlag platform record = some item
  | .listReceipts .., (records : List ReceiptRecord), response =>
      ∃ page, response = .receipts page ∧
        ∀ item ∈ page.receipts, ∃ record ∈ records, castReceipt platform record = some item
  | .write _, _, _ => False

/-- The items of a page are records of it. -/
theorem mem_of_cast {Record Item : Type} {limit : Int64} {rowSeq : Record → Int}
    {cast : Record → Option Item} {records : List Record} {items : List Item}
    (h : optionAll cast (FeatureFlags.page limit rowSeq records).1 = some items) :
    ∀ item ∈ items, ∃ record ∈ records, cast record = some item := by
  intro item hitem
  obtain ⟨record, hrecord, hcast⟩ :=
    Table.exists_of_mem_right (optionAll_eq_some.mp h) hitem
  exact ⟨record, mem_of_mem_page hrecord, hcast⟩

/-- A read is answered with what the store told. -/
theorem serve_reads (request : Request) {response : ServiceResponse}
    (hreads : request.json = none)
    (h : Runs (serve platform rt config context request) trace (.ok response)) :
    ∃ (call : StoreCall) (record : call.Record), ⟨.store call, .ok record⟩ ∈ trace ∧
      call.command = none ∧ call.Shows platform record response := by
  cases request with
  | getFlag request =>
    obtain ⟨auth, first, second, item, rfl, hrest, rfl⟩ := gated_ok h
    obtain ⟨_, -, hrest⟩ := silent_ensure.runs_bind_ok hrest
    obtain ⟨record, rfl, hcast⟩ := runs_stored hrest
    exact ⟨_, record, by simp, rfl, item, hcast, rfl⟩
  | listFlags request =>
    obtain ⟨inner, hinner, hresult⟩ := runs_endpoint h
    cases inner with
    | error e => cases hresult
    | ok page =>
      cases hresult
      obtain ⟨after, records, -, -, hmem, hitems, -⟩ := listFlags_runs hinner
      exact ⟨.listFlags request.organizationId request.includeArchived after
        (request.limit + 1).toInt, records, hmem, rfl, page, rfl, mem_of_cast hitems⟩
  | listEvaluationReceipts request =>
    obtain ⟨inner, hinner, hresult⟩ := runs_endpoint h
    cases inner with
    | error e => cases hresult
    | ok page =>
      cases hresult
      obtain ⟨after, records, -, -, hmem, hitems, -⟩ := listEvaluationReceipts_runs hinner
      exact ⟨.listReceipts request.organizationId request.flagKey request.environmentKey after
        (request.limit + 1).toInt, records, hmem, rfl, page, rfl, mem_of_cast hitems⟩
  | _ => cases hreads

end Reads

/-- The flags an answer shows. -/
def ServiceResponse.flagsShown : ServiceResponse → List FlagResponse
  | .flag item => [item]
  | .flags page => page.flags
  | _ => []

theorem castFlag_revision {platform : Platform} {record : FlagRecord} {item : FlagResponse}
    (h : castFlag platform record = some item) : item.revision = record.revision := by
  unfold castFlag at h
  split at h
  all_goals
    simp only [Option.bind_eq_bind, Option.bind_eq_some_iff] at h
    obtain ⟨_, -, _, -, _, -, _, -, h⟩ := h
    cases h
    rfl

namespace Deployment

variable {B : Backend} {codec : Codec} {platform : Platform} {rt : Runtime}
  {config : PolicyConfig} {Holds : B.State → Abstract.Store codec → Prop} {s s' : State B}
  {i : ℕ} {f : InFlight} {request : Request} {auth : Authorized} {response : ServiceResponse}

/-! ## Versions of flags -/

variable (platform Holds) in
/-- The item is a flag of the store at the moment. -/
def Displays (m : B.State) (item : FlagResponse) : Prop :=
  ∃ c, Holds m c ∧ ∃ flag ∈ c.flags, castFlag platform flag.record = some item

/-- Of two versions of a flag at two moments, the later one is the same or has a higher revision. -/
theorem Displays.version (hm : B.Mirrors codec rt Holds) {m m' : B.State}
    {item item' : FlagResponse} (h : Displays platform Holds m item) (h' : Displays platform Holds m' item')
    (hreachable : B.Reachable m) (hsteps : B.Steps m m')
    (horganization : item'.organizationId = item.organizationId)
    (hkey : item'.flagKey = item.flagKey) :
    ∃ revision revision' : Int, item.revision = toString revision ∧
      item'.revision = toString revision' ∧ (item' = item ∨ revision < revision') := by
  obtain ⟨c, hc, flag, hflag, hcast⟩ := h
  obtain ⟨c', hc', flag', hflag', hcast'⟩ := h'
  have hs := (hm.logged hreachable hc).run.sound
  have hs' := (hm.logged (hreachable.trans hsteps) hc').run.sound
  obtain ⟨horg, hflagKey⟩ := castFlag_key hcast
  obtain ⟨horg', hflagKey'⟩ := castFlag_key hcast'
  have hsame : flag'.key = flag.key :=
    Prod.ext (horg'.symm.trans (horganization.trans horg))
      (hflagKey'.symm.trans (hkey.trans hflagKey))
  refine ⟨flag.revision, flag'.revision, castFlag_revision hcast, castFlag_revision hcast', ?_⟩
  refine ((hm.later hreachable hsteps hc hc').version hs hs' hflag hflag' hsame).imp ?_ id
  rintro rfl
  exact Option.some.inj (hcast'.symm.trans hcast)

/-- A read shows flags of a moment since it arrived. -/
theorem read_displayed (hB : B.Accountable codec rt) (hm : B.Mirrors codec rt Holds)
    (h : Reachable B platform rt config s') {moments : List B.State}
    (hsince : Since rt Holds s s' moments) (hreachable : B.Reachable s.store)
    (hnone : s.requests i = none) (hf : s'.requests i = some f) (hrest : f.rest = .ret response)
    (hreads : f.request.json = none) :
    ∀ item ∈ response.flagsShown, ∃ m ∈ moments, Displays platform Holds m item := by
  have hfollows := (Inv.reachable hB.lawful h).follows i f hf
  rw [hrest] at hfollows
  obtain ⟨call, record, hmem, hread, hshows⟩ := serve_reads f.request hreads hfollows.result
  obtain ⟨m, hmoment, htells⟩ := hsince.told i f hnone hf call _ hread hmem
  have hm' := hreachable.trans (hsince.after m hmoment)
  obtain ⟨c, hc, -⟩ := hm.held m hm'
  have hread := hm.reads m hm' c hc call record htells
  intro item hitem
  refine ⟨m, hmoment, c, hc, ?_⟩
  cases call with
  | write call => exact hread.elim
  | getFlag org flagKey =>
    obtain ⟨flag, hflag, rfl⟩ := hread
    obtain ⟨found, hcast, rfl⟩ := hshows
    rw [List.mem_singleton.mp hitem]
    exact ⟨flag, Table.mem_of_lookup hflag, hcast⟩
  | listFlags org includeArchived after limit =>
    obtain ⟨page, rfl, hitems⟩ := hshows
    obtain ⟨record, hrecord, hcast⟩ := hitems item hitem
    obtain ⟨flag, hflag, -, rfl⟩ := hread record hrecord
    exact ⟨flag, hflag, hcast⟩
  | listReceipts org flagKey environmentKey after limit =>
    obtain ⟨page, rfl, -⟩ := hshows
    exact absurd hitem List.not_mem_nil

/-- A write shows the flag its call left, if the call took effect at one of the moments. -/
theorem Wrote.displayed (hB : B.Accountable codec rt) (h : Reachable B platform rt config s')
    {moments : List B.State} (hsince : Since rt Holds s s' moments)
    (hwrote : Wrote rt config s' i request auth response)
    (hnew : ∀ e ∈ B.log s.store, request.commandKey auth ≠ some e.call.commandKey) :
    ∀ item ∈ response.flagsShown, ∃ m ∈ moments, Displays platform Holds m item := by
  obtain ⟨call, e, original, hcomes, he, hkey, -, hvalue, -, told, hretold, hrespond⟩ :=
    hwrote.effect hB h
  rcases hsince.committed e he with hold | ⟨_, -, m, hmoment, c₀, c, -, hc, hstep⟩
  · exact absurd ((commandKey_of_call hcomes).trans (congrArg some hkey.symm)) (hnew e hold)
  · intro item hitem
    refine ⟨m, hmoment, c, hc, ?_⟩
    cases told with
    | flag record =>
      obtain ⟨found, hcast, rfl⟩ := Option.map_eq_some_iff.mp hrespond
      cases hretold.eq_of_plain rfl
      rw [List.mem_singleton.mp hitem]
      obtain ⟨flag, hflag, rfl⟩ := hstep.shows hvalue
      exact ⟨flag, hflag, hcast⟩
    | _ =>
      obtain ⟨found, -, rfl⟩ := Option.map_eq_some_iff.mp hrespond
      exact absurd hitem List.not_mem_nil

end Deployment

end LensoFlags
