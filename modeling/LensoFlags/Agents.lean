import LensoFlags.AgentTools
import LensoFlags.Deployed

/-!
# Agents at a deployment

Executions of the agent tools against the service of either plugin. The request that a tool invokes
is a request of the deployment, among any others, and the execution sees what the request sees.

Results:
1. `executions_accounted`: a tool that may run in parallel has no effect, nor has an execution that
   was refused by name; another tool tells of one effect.
2. `executions_agree`: executions under one idempotency key are of one request and return the same
   content.
3. `execution_retried`: a retry of an execution is returned what the execution was.
-/

namespace LensoFlags

open Locking.Program AgentTools

namespace Deployment

variable {B : Backend} {codec : Codec} {platform : Platform} {rt : Runtime}
  {config : PolicyConfig} {ofInteger : Int → F64} {s s' : State B} {i j : ℕ}

variable (platform rt config ofInteger) in
/-- Request `i` is that of the execution, which has come to the result. -/
structure Executed (s : State B) (i : ℕ) (execution : ExecuteRequest) (f : InFlight)
    (result : Except (PluginError ExecuteError) ExecuteResponse) : Prop where
  invokes : s.requests i = some f
  decoded : toolRequest ofInteger execution = some f.request
  ended : (execute platform rt config ofInteger f.context execution).Runs f.trace result

/-- The request has ended, and the result is what the tool makes of its end. -/
theorem Executed.returns (hi : Inv platform rt config s) {execution : ExecuteRequest}
    {f : InFlight} {result : Except (PluginError ExecuteError) ExecuteResponse}
    (h : Executed platform rt config ofInteger s i execution f result) :
    (∃ response, f.rest = .ret response ∧
      result = .ok (success execution.name response.toJson)) ∨
    ∃ e, f.rest = .fail (.admin e) ∧ result = .error (invocationError e) := by
  have hexecutes := runs_execute.mp h.ended
  rw [Executes, h.decoded] at hexecutes
  obtain ⟨inner, hinner, hreturns⟩ := hexecutes
  have hrest := (hi.follows i f h.invokes).rest hinner
  generalize f.rest = rest at hrest
  cases hreturns with
  | ok response =>
    cases hrest
    exact .inl ⟨response, rfl, rfl⟩
  | error e =>
    cases hrest
    exact .inr ⟨e, rfl, rfl⟩

/-- A request that was answered has been executed. -/
theorem executed_of_rest (hi : Inv platform rt config s) {execution : ExecuteRequest}
    {f : InFlight} {response : ServiceResponse} (hf : s.requests i = some f)
    (hdecoded : toolRequest ofInteger execution = some f.request)
    (hrest : f.rest = .ret response) :
    Executed platform rt config ofInteger s i execution f
      (.ok (success execution.name response.toJson)) := by
  refine ⟨hf, hdecoded, runs_execute.mpr ?_⟩
  rw [Executes, hdecoded]
  have hfollows := hi.follows i f hf
  rw [hrest] at hfollows
  exact ⟨_, hfollows.result, .ok response⟩

/-- No tool evaluates. -/
theorem asked_of_tool {execution : ExecuteRequest} {r : Request}
    (h : toolRequest ofInteger execution = some r) : r.asked = none := by
  unfold toolRequest at h
  repeat' split at h
  all_goals first
    | (obtain ⟨request, -, rfl⟩ := Option.map_eq_some_iff.mp h; rfl)
    | cases h

/-- An execution that wrote and returned was answered for someone. -/
theorem Executed.wrote (hi : Inv platform rt config s) {execution : ExecuteRequest} {f : InFlight}
    {content : ExecuteResponse}
    (h : Executed platform rt config ofInteger s i execution f (.ok content))
    (hwrites : f.request.json ≠ none) :
    ∃ auth response, Wrote rt config s i f.request auth response ∧
      content = success execution.name response.toJson := by
  rcases h.returns hi with ⟨response, hrest, hcontent⟩ | ⟨e, -, hresult⟩
  · obtain ⟨auth, hwrote⟩ := hi.wrote h.invokes hrest (Option.isSome_iff_ne_none.mpr hwrites)
    exact ⟨auth, response, hwrote, Except.ok.inj hcontent⟩
  · cases hresult

/-- The content of an execution tells the answer of its request. -/
theorem Executed.content (hi : Inv platform rt config s) {execution : ExecuteRequest}
    {f : InFlight} {content : ExecuteResponse} {auth : Authorized} {response : ServiceResponse}
    (h : Executed platform rt config ofInteger s i execution f (.ok content))
    (hwrote : Wrote rt config s i f.request auth response) :
    content = success execution.name response.toJson := by
  obtain ⟨g, hg, -, hrest, -⟩ := hwrote.answered
  rw [h.invokes] at hg
  cases hg
  rcases h.returns hi with ⟨response', hrest', hcontent⟩ | ⟨e, hrest', -⟩
  · rw [hrest] at hrest'
    cases hrest'
    exact Except.ok.inj hcontent
  · rw [hrest] at hrest'
    cases hrest'

end Deployment

open Deployment

/-! ## Guarantees -/

section Guarantees

variable {codec : Codec} {platform : Platform} {rt : Runtime} {config : PolicyConfig}
  {ofInteger : Int → F64} (plugin : Plugin)

/-- Executions that returned for one caller and actor return the same content if the arguments of
one restate those of the other, and also if they only share the idempotency key. -/
theorem executions_agree (hprinted : Printed rt)
    (hofInteger : ∀ n : Int, n.natAbs < 2 ^ 64 → (ofInteger n).isFinite) {s : State (plugin.backend codec rt)}
    (h : Reachable (plugin.backend codec rt) platform rt config s) {i j : ℕ}
    {execution execution' : ExecuteRequest} {f f' : InFlight} {content content' : ExecuteResponse}
    (hx : Executed platform rt config ofInteger s i execution f (.ok content))
    (hx' : Executed platform rt config ofInteger s j execution' f' (.ok content'))
    {auth auth' : Authorized} {response response' : ServiceResponse}
    (hwrote : Wrote rt config s i f.request auth response)
    (hwrote' : Wrote rt config s j f'.request auth' response') :
    (auth = auth' → execution.name = execution'.name →
      f.request.Restated execution.arguments execution'.arguments → content = content') ∧
    (f.request.commandKey auth = f'.request.commandKey auth' →
      execution.arguments.Canonical → execution'.arguments.Canonical →
      f.request.Distinguished rt f'.request → f.request = f'.request ∧ content = content') := by
  have hB : (plugin.backend codec rt).Accountable codec rt := plugin.accountable
  have hi := Inv.reachable hB.lawful h
  have hcontent := hx.content hi hwrote
  have hcontent' := hx'.content hi hwrote'
  refine ⟨?_, fun hkey hcanonical hcanonical' hdistinguished => ?_⟩
  · rintro rfl hname hrestated
    have hdecoded' := hx'.decoded
    rw [show execution' = ⟨execution.name, execution'.arguments⟩ by rw [hname]] at hdecoded'
    have hsame : f.request = f'.request := request_of_restated hx.decoded hdecoded' hrestated
    rw [← hsame] at hwrote'
    rw [hcontent, hcontent', hname, (hwrote.same hB h hwrote').plain (asked_of_tool hx.decoded)]
  · obtain ⟨hsame, hagreed⟩ := hwrote.agree hB hprinted h hwrote' hkey
      (canonical_of_request hofInteger hcanonical hx.decoded)
      (canonical_of_request hofInteger hcanonical' hx'.decoded) hdistinguished
    refine ⟨hsame, ?_⟩
    rw [hcontent, hcontent', (tool_of_request hx.decoded).1, (tool_of_request hx'.decoded).1,
      hsame, hagreed.plain (asked_of_tool hx.decoded)]

end Guarantees

/-! ### A retried execution -/

/-- The arguments with their fields in another order. -/
def bannerRetry : Json :=
  .object [("value_type", .string "boolean"), ("description", .null), ("name", .string "Banner"),
    ("flag_key", .string "banner"), ("organization_id", .string "org"),
    ("idempotency_key", .string "key-1")]

/-- Two executions that create the flag have returned. -/
theorem exists_executed (plugin : Plugin) :
    ∃ s : State (plugin.backend Codec.verbatim .byBits),
      Reachable _ consolePlatform .byBits consoleConfig s ∧ ∃ f f' content content',
        Executed consolePlatform .byBits consoleConfig (fun _ => ⟨0⟩) s 0
          ⟨createFlagTool, bannerArguments⟩ f (.ok content) ∧
        Executed consolePlatform .byBits consoleConfig (fun _ => ⟨0⟩) s 1
          ⟨createFlagTool, bannerRetry⟩ f' (.ok content') ∧
        (∃ response, Wrote .byBits consoleConfig s 0 f.request ⟨"console", "admin-1"⟩ response) ∧
        ∃ response, Wrote .byBits consoleConfig s 1 f'.request ⟨"console", "admin-1"⟩ response := by
  have hB : (plugin.backend Codec.verbatim .byBits).Accountable _ _ := plugin.accountable
  obtain ⟨s, h, response, response', hwrote, hwrote'⟩ := plugin.exists_retried
  have hi := Inv.reachable hB.lawful h
  obtain ⟨f, hf, hrequest, hrest, -⟩ := hwrote.answered
  obtain ⟨f', hf', hrequest', hrest', -⟩ := hwrote'.answered
  exact ⟨s, h, f, f', _, _, executed_of_rest hi hf (by rw [hrequest]; rfl) hrest,
    executed_of_rest hi hf' (by rw [hrequest']; rfl) hrest', ⟨response, hrequest ▸ hwrote⟩,
    response', hrequest' ▸ hwrote'⟩

/-- The second execution returned the content of the first. -/
theorem executions_agree_banner : Plugin.Both fun plugin =>
    ∃ s : State (plugin.backend Codec.verbatim .byBits),
      Reachable _ consolePlatform .byBits consoleConfig s ∧ ∃ f f' content,
        Executed consolePlatform .byBits consoleConfig (fun _ => ⟨0⟩) s 0
          ⟨createFlagTool, bannerArguments⟩ f (.ok content) ∧
        Executed consolePlatform .byBits consoleConfig (fun _ => ⟨0⟩) s 1
          ⟨createFlagTool, bannerRetry⟩ f' (.ok content) := by
  refine Plugin.both fun plugin => ?_
  obtain ⟨s, h, f, f', content, content', hx, hx', ⟨response, hwrote⟩, response', hwrote'⟩ :=
    exists_executed plugin
  obtain ⟨hagree, -⟩ :=
    executions_agree plugin printed_byBits (fun _ _ => rfl) h hx hx' hwrote hwrote'
  have hflat : f.request.Flat := by
    rw [← Option.some.inj hx.decoded]
    trivial
  exact ⟨s, h, f, f', content, hx, hagree rfl rfl (.inr ⟨rfl, hflat⟩) ▸ hx'⟩

end LensoFlags
