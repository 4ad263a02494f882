import LensoFlags.D1.Backend
import LensoFlags.Pages
import LensoFlags.Postgres.Backend

/-!
# The two deployments

The service over the store of either plugin. Both stores are accountable, so that what follows from
that holds of both.

Results:
1. `retries_agree`: the answers under one idempotency key are of one request and tell one response.
2. `effects_granted`: an effect is of a request that was granted it, a refusal never has one.
3. `records_delivered`: a request that the store gave a record does not fail.
4. `granted_served`: a granted request is served, when the store is quiet.

What an answer tells is a response as it was made, or as its stored form is read back. These are the
same but for the numbers of evaluated values.
-/

namespace LensoFlags

open Deployment

/-- The plugins that provide the service. -/
inductive Plugin
  | d1
  | postgres (describe : Postgres.DbError → String)

namespace Plugin

variable (codec : Codec) (rt : Runtime)

def backend : Plugin → Backend
  | .d1 => D1.backend codec rt
  | .postgres describe => Postgres.backend codec describe rt

variable {codec rt}

theorem accountable (plugin : Plugin) : (plugin.backend codec rt).Accountable codec rt := by
  cases plugin with
  | d1 => exact D1.accountable
  | postgres describe => exact Postgres.accountable

/-- Nothing holds up a new call, and there is room for `n`. -/
def Quiet : (plugin : Plugin) → (plugin.backend codec rt).State → ℕ → Prop
  | .d1 => @D1.Quiet codec
  | .postgres describe => fun s _ => @Postgres.Quiet codec describe rt s

/-- A new call can read what it meets. A snapshot of D1 reads every ruleset. -/
def Readable : (plugin : Plugin) → (plugin.backend codec rt).State → Prop
  | .d1 => @D1.Readable codec
  | .postgres _ => fun _ => True

/-- Draws that no call has made. -/
def Unused : (plugin : Plugin) → (plugin.backend codec rt).State → Draws → Prop
  | .d1 => @D1.Unused codec
  | .postgres describe => @Postgres.Unused codec describe rt

/-- Draws without a common value. -/
def Apart : Plugin → Draws → Draws → Prop
  | .d1 => Draws.Disjoint
  | .postgres _ => Postgres.Unshared

theorem readable_of_exact (plugin : Plugin) (hexact : codec.ExactDefinitions rt)
    {s : (plugin.backend codec rt).State} (h : (plugin.backend codec rt).Reachable s) :
    plugin.Readable s := by
  cases plugin with
  | d1 => exact D1.readable_of_exact (D1.backend_steps h) hexact
  | postgres describe => trivial

theorem exists_alone (plugin : Plugin) {s : (plugin.backend codec rt).State}
    (h : (plugin.backend codec rt).Reachable s) (hreadable : plugin.Readable s) {call : Call}
    (hlawful : call.operation.Lawful rt) {i n : ℕ} {δ : Draws}
    (hnone : (plugin.backend codec rt).call s i = none) (hδ : plugin.Unused s δ)
    (hquiet : plugin.Quiet s (n + 1)) :
    ∃ s' result, Backend.Alone s i call s' result ∧
      Settles codec rt ((plugin.backend codec rt).log s) call result ∧ plugin.Quiet s' n ∧
      ∀ δ', plugin.Unused s δ' → plugin.Apart δ' δ → plugin.Unused s' δ' := by
  cases plugin with
  | d1 =>
    exact D1.exists_alone (D1.backend_steps h) hreadable call (Option.map_eq_none_iff.mp hnone) hδ
      hquiet
  | postgres describe =>
    exact Postgres.exists_alone (Postgres.backend_steps h) hlawful
      (Option.map_eq_none_iff.mp hnone) hδ hquiet

/-! ## Served requests -/

variable {platform : Platform} {config : PolicyConfig} {context : Ctx} {request : Request}
  {auth : Authorized} {call : Call}

/-- A granted request that arrives at a quiet store is served. -/
theorem serve_next (plugin : Plugin) (hsteady : codec.Steady)
    (htime : ∀ instant, platform.isTimestamp (rt.formatTimestamp instant))
    {s : State (plugin.backend codec rt)}
    (h : Reachable (plugin.backend codec rt) platform rt config s) {i n : ℕ} {δ : Draws}
    (hnone : s.requests i = none) (hδ : plugin.Unused s.store δ)
    (hquiet : plugin.Quiet s.store (n + 1)) (hreadable : plugin.Readable s.store)
    (hgrantable : request.Grantable config context auth)
    (hcall : request.call rt config auth = some (.write call)) :
    ∃ s' f result, Steps (plugin.backend codec rt) platform rt config s s' ∧
      s'.requests i = some f ∧ f.request = request ∧ f.context = context ∧
      request.Granted config context auth f.trace ∧
      (∀ j, j ≠ i → s'.requests j = s.requests j) ∧
      (plugin.backend codec rt).call s'.store i = some call ∧
      Settles codec rt ((plugin.backend codec rt).log s.store) call result ∧
      Outcome platform request call f.rest result ∧ plugin.Quiet s'.store n ∧
      ∀ δ', plugin.Unused s.store δ' → plugin.Apart δ' δ → plugin.Unused s'.store δ' := by
  have hB : (plugin.backend codec rt).Accountable codec rt := plugin.accountable
  have hi := Inv.reachable hB.lawful h
  have hfree : (plugin.backend codec rt).call s.store i = none := by
    cases hold : (plugin.backend codec rt).call s.store i with
    | none => rfl
    | some old =>
      obtain ⟨f, hf, -⟩ := hi.called i old hold
      rw [hnone] at hf
      cases hf
  obtain ⟨store', result, halone, hsettles, hquiet', hunused⟩ :=
    plugin.exists_alone hi.store hreadable (Request.call_lawful hcall) hfree hδ hquiet
  obtain ⟨s', f, hsteps, rfl, hf, hrequest, hcontext, hgranted, hothers, houtcome⟩ :=
    served hB hsteady h htime hnone hgrantable hcall halone
  exact ⟨s', f, result, hsteps, hf, hrequest, hcontext, hgranted, hothers, halone.called, hsettles,
    houtcome, hquiet', hunused⟩

end Plugin

/-! ## Guarantees -/

section Guarantees

variable {codec : Codec} {platform : Platform} {rt : Runtime} {config : PolicyConfig}
  (plugin : Plugin)

/-- Two writes that were answered under one idempotency key, whenever and in whatever order they ran,
are the same request, and the answers tell one response. -/
theorem retries_agree (hprinted : Printed rt) {s : State (plugin.backend codec rt)}
    (h : Reachable (plugin.backend codec rt) platform rt config s) {i j : ℕ}
    {request request' : Request} {auth auth' : Authorized} {response response' : ServiceResponse}
    (hwrote : Wrote rt config s i request auth response)
    (hwrote' : Wrote rt config s j request' auth' response')
    (hkey : request.commandKey auth = request'.commandKey auth')
    (hcanonical : request.Canonical) (hcanonical' : request'.Canonical)
    (hdistinguished : request.Distinguished rt request') :
    request = request' ∧ Agreed codec platform s request auth response response' :=
  hwrote.agree plugin.accountable hprinted h hwrote' hkey hcanonical hcanonical' hdistinguished

/-- A request that the store gave a record does not fail: what is committed or read gets through. -/
theorem records_delivered (hsteady : codec.Steady)
    (htime : ∀ instant, platform.isTimestamp (rt.formatTimestamp instant))
    {s : State (plugin.backend codec rt)}
    (h : Reachable (plugin.backend codec rt) platform rt config s) {i : ℕ} {f : InFlight}
    (hf : s.requests i = some f) {call : StoreCall} {record : call.Record}
    (hmem : ⟨.store call, .ok record⟩ ∈ f.trace) : ∀ e, f.rest ≠ .fail e := by
  have hB : (plugin.backend codec rt).Accountable codec rt := plugin.accountable
  exact (Inv.reachable hB.lawful h).delivered hB hsteady htime hf call record hmem

end Guarantees

/-! ## A retried request -/

/-- A runtime whose doubles are printed by their bits. -/
def Runtime.byBits : Runtime :=
  { Runtime.atEpoch [] with formatDouble := fun x => toString x.bits.toNat ++ ".0" }

theorem printed_byBits : Printed Runtime.byBits where
  number := by
    intro x _ c hc
    rw [Runtime.byBits, String.toList_append] at hc
    rcases List.mem_append.mp hc with hc | hc
    · exact .inl (digits_chars x.bits.toNat c hc)
    · have hc : c ∈ ['.', '0'] := hc
      simp only [List.mem_cons, List.not_mem_nil, or_false] at hc
      rcases hc with rfl | rfl <;> decide
  marked := by
    intro x _
    exact .inl (by simp [Runtime.byBits])
  distinct := by
    intro x y _ _ h
    have hnat : x.bits.toNat = y.bits.toNat := Nat.repr_injective (String.append_left_inj _ |>.mp h)
    exact congrArg F64.mk (UInt64.toNat_inj.mp hnat)

def bannerRequest : Request :=
  .createFlag
    { description := none
      flagKey := "banner"
      idempotencyKey := "key-1"
      name := "Banner"
      organizationId := "org"
      valueType := .boolean }

def bannerCall : Call :=
  ⟨command ⟨"console", "admin-1"⟩ "key-1" [], .createFlag "org" "banner" "Banner" none "boolean"⟩

theorem banner_call :
    bannerRequest.call .byBits consoleConfig ⟨"console", "admin-1"⟩ = some (.write bannerCall) :=
  passed_eq_some.mpr ⟨by decide, rfl⟩

theorem banner_grantable :
    bannerRequest.Grantable consoleConfig ⟨some "console"⟩ ⟨"console", "admin-1"⟩ :=
  ⟨rfl, List.mem_singleton_self _, by decide, by decide⟩

namespace Plugin

variable (plugin : Plugin)

/-- The property holds of either plugin. -/
def Both (P : Plugin → Prop) : Prop := P .d1 ∧ P (.postgres fun _ => "")

theorem both {P : Plugin → Prop} (h : ∀ plugin, P plugin) : Both P := ⟨h _, h _⟩

theorem initial_quiet (n : ℕ) (h : 1 + (n : Int) ≤ Decimal.i64Max) :
    plugin.Quiet (plugin.backend Codec.verbatim Runtime.byBits).initial n := by
  cases plugin with
  | d1 => exact h
  | postgres describe => exact fun j t ht => nomatch ht

theorem initial_unused (n : ℕ) :
    plugin.Unused (plugin.backend Codec.verbatim Runtime.byBits).initial (Draws.numbered n) := by
  cases plugin with
  | d1 => exact ⟨Draws.numbered_distinct n, fun j a ha => nomatch ha⟩
  | postgres describe =>
    exact ⟨Postgres.Unrepeated.numbered n, fun j t ht => nomatch ht⟩

theorem numbered_apart {n m : ℕ} (h : n ≠ m) :
    plugin.Apart (Draws.numbered n) (Draws.numbered m) := by
  cases plugin with
  | d1 => exact Draws.numbered_disjoint h
  | postgres describe => exact Postgres.Unshared.numbered h

theorem initial_log : (plugin.backend Codec.verbatim Runtime.byBits).log
    (plugin.backend Codec.verbatim Runtime.byBits).initial = [] := by
  cases plugin <;> rfl

/-- The request has been answered, and there is room for another. -/
theorem exists_answered : ∃ s : State (plugin.backend Codec.verbatim Runtime.byBits),
    Reachable _ consolePlatform .byBits consoleConfig s ∧
      (∃ response, Wrote .byBits consoleConfig s 0 bannerRequest ⟨"console", "admin-1"⟩ response) ∧
      s.requests 1 = none ∧ plugin.Quiet s.store 1 ∧
      plugin.Unused s.store (Draws.numbered 1) := by
  have hinitial : Reachable (plugin.backend Codec.verbatim .byBits) consolePlatform .byBits
      consoleConfig (State.initial _) := .refl
  obtain ⟨s, f, result, hsteps, hf, hrequest, hcontext, hgranted, hothers, hcalled, hsettles,
    houtcome, hquiet, hunused⟩ :=
    plugin.serve_next (i := 0) (n := 1) Codec.verbatim_steady (fun _ => rfl) hinitial rfl
      (plugin.initial_unused 0) (plugin.initial_quiet 2 (by decide))
      (plugin.readable_of_exact (Codec.verbatim_exact _).definitions .refl) banner_grantable
      banner_call
  -- Nothing was there before, so the flag was created.
  have hfirst : ∃ response, f.rest = .ret response := by
    obtain ⟨c, σ, hlogged, -, hagree⟩ := hsettles
    have hempty : c = Abstract.Store.empty := by
      have hcommits := hlogged.commits
      rw [State.initial, plugin.initial_log] at hcommits
      cases hcommits
      rfl
    subst hempty
    change Agree _ result (.ok _) at hagree
    cases hagree with
    | ok hanswer =>
      obtain ⟨record, response, -, -, hrest⟩ := houtcome
      exact ⟨response, hrest⟩
  obtain ⟨response, hrest⟩ := hfirst
  exact ⟨s, hsteps, ⟨response, rfl, ⟨f, hf, hrequest, hrest, hcontext ▸ hgranted⟩, _, hcalled,
    banner_call⟩, hothers 1 Nat.one_ne_zero, hquiet,
    hunused _ (plugin.initial_unused 1) (plugin.numbered_apart Nat.one_ne_zero)⟩

/-- The request is created, and then retried by another call. -/
theorem exists_retried : ∃ s : State (plugin.backend Codec.verbatim Runtime.byBits),
    Reachable _ consolePlatform .byBits consoleConfig s ∧ ∃ response response',
      Wrote .byBits consoleConfig s 0 bannerRequest ⟨"console", "admin-1"⟩ response ∧
      Wrote .byBits consoleConfig s 1 bannerRequest ⟨"console", "admin-1"⟩ response' := by
  have hB : (plugin.backend Codec.verbatim Runtime.byBits).Accountable _ _ := plugin.accountable
  obtain ⟨s, h, ⟨response, hwrote⟩, hnone, hquiet, hunused⟩ := plugin.exists_answered
  obtain ⟨s', f, result, hsteps, hf, hrequest, hcontext, hgranted, hothers, hcalled, hsettles,
    houtcome, -⟩ :=
    plugin.serve_next (i := 1) (n := 0) Codec.verbatim_steady (fun _ => rfl) h hnone hunused
      hquiet (plugin.readable_of_exact (Codec.verbatim_exact _).definitions
        (Inv.reachable hB.lawful h).store)
      banner_grantable banner_call
  obtain ⟨hwrites, ⟨g, hg, hanswered⟩, call, hstored, hcomes⟩ := hwrote
  refine ⟨s', h.trans hsteps, response, response,
    ⟨hwrites, ⟨g, (hothers 0 Nat.zero_ne_one).trans hg, hanswered⟩, call,
      call_steps hB.lawful hsteps.store_steps hstored, hcomes⟩,
    ⟨rfl, ⟨f, hf, hrequest, ?_, hcontext ▸ hgranted⟩, _, hcalled, banner_call⟩⟩
  exact (Wrote.retried hB h ⟨hwrites, ⟨g, hg, hanswered⟩, call, hstored, hcomes⟩ banner_call hsettles
    houtcome).plain rfl

end Plugin

theorem banner_distinguished : bannerRequest.Distinguished .byBits bannerRequest := by
  intro value value' hvalue hvalue' _
  rw [hvalue] at hvalue'
  rw [Option.some.inj hvalue']

/-- Over both plugins the retry gets the answer of the first call. -/
theorem retries_agree_banner : Plugin.Both fun plugin =>
    ∃ s : State (plugin.backend Codec.verbatim .byBits),
      Reachable _ consolePlatform .byBits consoleConfig s ∧ ∃ response,
        Wrote .byBits consoleConfig s 0 bannerRequest ⟨"console", "admin-1"⟩ response ∧
        Wrote .byBits consoleConfig s 1 bannerRequest ⟨"console", "admin-1"⟩ response := by
  refine Plugin.both fun plugin => ?_
  obtain ⟨s, h, response, response', hwrote, hwrote'⟩ := plugin.exists_retried
  obtain ⟨-, hagreed⟩ := retries_agree plugin printed_byBits h hwrote hwrote' rfl trivial trivial
    banner_distinguished
  cases hagreed.plain rfl
  exact ⟨s, h, response, hwrote, hwrote'⟩

/-- The record of the created flag is in the trace of its request, which has not failed. -/
theorem records_delivered_banner : Plugin.Both fun plugin =>
    ∃ s : State (plugin.backend Codec.verbatim .byBits),
      Reachable _ consolePlatform .byBits consoleConfig s ∧ ∃ f, s.requests 0 = some f ∧
        (∃ call : StoreCall, ∃ record : call.Record, ⟨.store call, .ok record⟩ ∈ f.trace) ∧
        ∀ e, f.rest ≠ .fail e := by
  refine Plugin.both fun plugin => ?_
  have hB : (plugin.backend Codec.verbatim .byBits).Accountable _ _ := plugin.accountable
  obtain ⟨s, h, response, response', hwrote, -⟩ := plugin.exists_retried
  obtain ⟨f, hf, hrequest, hrest, -⟩ := hwrote.answered
  have hfollows := (Inv.reachable hB.lawful h).follows 0 f hf
  rw [hrest] at hfollows
  obtain ⟨call, record, hmem, -⟩ :=
    serve_writes f.request (by rw [hrequest]; rfl) hfollows.result
  exact ⟨s, h, f, hf, ⟨.write call, record, hmem⟩,
    records_delivered plugin Codec.verbatim_steady (fun _ => rfl) h hf hmem⟩

end LensoFlags
