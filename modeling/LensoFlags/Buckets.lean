import LensoFlags.Answers
import LensoFlags.Calls

/-!
# Inputs of the buckets

`deterministic_bucket` hashes four texts with a zero byte after each. The checks that keep the zero
byte out of them stand in `authorize`, `evaluate`, `evaluate_batch` and `valid_context`.

Results:
1. `serve_identified`: what those checks come to, for every call that reaches the store.
2. `bucketInput_determines`: two hashed inputs are equal only if the four texts are.
-/

namespace LensoFlags

open Locking (Program)
open Locking.Program

/-! ## The input -/

/-- What a bucket is computed of. -/
structure BucketKey where
  organizationId : String
  environmentKey : String
  flagKey : String
  targetingKey : String

namespace BucketKey

def parts (key : BucketKey) : List String :=
  [key.organizationId, key.environmentKey, key.flagKey, key.targetingKey]

/-- The bytes that are hashed. -/
def input (key : BucketKey) : List UInt8 := key.parts.flatMap fun part => part.toUTF8.toList ++ [0]

/-- The parts hold no zero byte. -/
def Identified (key : BucketKey) : Prop := ∀ part ∈ key.parts, '\x00' ∉ part.toList

theorem input_eq (key : BucketKey) :
    key.input = Bytes.terminated 0 (key.parts.map fun part => part.toUTF8.data.toList) := by
  unfold input Bytes.terminated
  rw [List.flatMap_map]
  simp only [Bytes.toList_eq]

theorem Identified.zero_notMem {key : BucketKey} (h : key.Identified) :
    ∀ bytes ∈ key.parts.map fun part => part.toUTF8.data.toList, (0 : UInt8) ∉ bytes := by
  intro bytes hbytes
  obtain ⟨part, hpart, rfl⟩ := List.mem_map.mp hbytes
  exact fun hzero => h part hpart ((Bytes.mem_bytes (c := '\x00') (by decide)).mp hzero)

theorem input_inj {key key' : BucketKey} (h : key.Identified) (h' : key'.Identified)
    (heq : key.input = key'.input) : key = key' := by
  rw [input_eq, input_eq] at heq
  have hparts := Bytes.terminated_inj h.zero_notMem h'.zero_notMem heq
  obtain ⟨org, environmentKey, flagKey, targetingKey⟩ := key
  obtain ⟨org', environmentKey', flagKey', targetingKey'⟩ := key'
  simp only [parts, List.map_cons, List.cons.injEq, List.map_nil, and_true] at hparts
  obtain ⟨horg, henvironment, hflag, htargeting⟩ := hparts
  rw [Bytes.data_inj horg, Bytes.data_inj henvironment, Bytes.data_inj hflag,
    Bytes.data_inj htargeting]

end BucketKey

/-- The bucket of a digest. -/
def digestBucket (digest : List UInt8) : UInt64 :=
  (digest.take 8).foldl (fun acc byte => acc * 256 + byte.toUInt64) 0 % 10000

/-- The arguments that the evaluations of an operation give to `deterministic_bucket`. -/
def Operation.bucketKeys : Operation → List BucketKey
  | .evaluate org environmentKey flagKey targetingKey _ _ =>
      [⟨org, environmentKey, flagKey, targetingKey⟩]
  | .evaluateBatch org environmentKey flagKeys targetingKey _ _ =>
      flagKeys.map fun flagKey => ⟨org, environmentKey, flagKey, targetingKey⟩
  | _ => []

/-! ## The checks -/

section Checks

variable {platform : Platform} {rt : Runtime} {config : PolicyConfig} {context : Ctx}
  {callers : List String} {capability operation organizationId permission : String} {E α : Type}

theorem identified_of_checks {key : BucketKey} {max max' : ℕ}
    (horg : validOpaqueId key.organizationId = true)
    (henvironment : validKey key.environmentKey max = true)
    (hflag : validKey key.flagKey max' = true) (htargeting : validOpaqueId key.targetingKey = true) :
    key.Identified := by
  simp only [BucketKey.Identified, BucketKey.parts, List.forall_mem_cons]
  exact ⟨zero_notMem_of_validOpaqueId horg, zero_notMem_of_validKey henvironment,
    zero_notMem_of_validKey hflag, zero_notMem_of_validOpaqueId htargeting, List.forall_mem_nil _⟩

theorem targetingKey_of_validContext {context : EvaluationContext}
    (h : validContext rt config context = true) : validOpaqueId context.targetingKey = true := by
  unfold validContext at h
  simp only [Bool.and_eq_true] at h
  exact h.1.1.1

/-- The texts of every evaluation that reaches the store are free of the zero byte. -/
theorem serve_identified {request : Request} {trace : List (Exchange Ask.Reply)}
    {result : Except ServiceError ServiceResponse}
    (h : Runs (serve platform rt config context request) trace result) {call : Call}
    {reply : (Ask.store (.write call)).Reply} (hmem : ⟨.store (.write call), reply⟩ ∈ trace) :
    ∀ key ∈ call.operation.bucketKeys, key.Identified := by
  -- The gate checks the organization, the request's own checks the rest.
  obtain ⟨_, _, -, hgranted, -⟩ := asked_store request h _ _ hmem
  obtain ⟨horg, -⟩ := hgranted.identified
  obtain ⟨auth, hcall⟩ := serve_calls request h _ _ hmem
  intro key hkey
  cases request with
  | evaluate request =>
    obtain ⟨hchecked, heq⟩ := passed_eq_some.mp hcall
    cases heq
    simp only [Bool.and_eq_true] at hchecked
    obtain ⟨⟨⟨-, henvironment⟩, hflag⟩, hcontext⟩ := hchecked
    obtain rfl := List.mem_singleton.mp hkey
    exact identified_of_checks horg henvironment hflag (targetingKey_of_validContext hcontext)
  | evaluateBatch request =>
    obtain ⟨hchecked, heq⟩ := passed_eq_some.mp hcall
    cases heq
    simp only [Bool.and_eq_true, List.all_eq_true] at hchecked
    obtain ⟨⟨⟨⟨⟨⟨-, henvironment⟩, -⟩, -⟩, -⟩, hflags⟩, hcontext⟩ := hchecked
    obtain ⟨flagKey, hflag, rfl⟩ := List.mem_map.mp hkey
    exact identified_of_checks horg henvironment (hflags flagKey hflag)
      (targetingKey_of_validContext hcontext)
  | createFlag =>
    cases (passed_eq_some.mp hcall).2
    cases hkey
  | getFlag => cases (passed_eq_some.mp hcall).2
  | listFlags =>
    obtain ⟨_, -, hrest⟩ := Option.bind_eq_some_iff.mp hcall
    cases (passed_eq_some.mp hrest).2
  | updateFlag =>
    obtain ⟨_, -, hrest⟩ := Option.bind_eq_some_iff.mp hcall
    cases (passed_eq_some.mp hrest).2
    cases hkey
  | archiveFlag =>
    obtain ⟨_, -, heq⟩ := Option.map_eq_some_iff.mp hcall
    cases heq
    cases hkey
  | putEnvironment request =>
    obtain ⟨environmentKey, expectedRevision, idempotencyKey, name, organizationId⟩ := request
    cases expectedRevision with
    | none =>
      cases (passed_eq_some.mp hcall).2
      cases hkey
    | some value =>
      obtain ⟨_, -, hrest⟩ := Option.bind_eq_some_iff.mp hcall
      cases (passed_eq_some.mp hrest).2
      cases hkey
  | publishRuleset =>
    obtain ⟨_, -, hrest⟩ := Option.bind_eq_some_iff.mp hcall
    obtain ⟨_, -, hrest⟩ := Option.bind_eq_some_iff.mp hrest
    obtain ⟨_, -, heq⟩ := Option.map_eq_some_iff.mp hrest
    cases heq
    cases hkey
  | listEvaluationReceipts =>
    obtain ⟨_, -, hrest⟩ := Option.bind_eq_some_iff.mp hcall
    cases (passed_eq_some.mp hrest).2

end Checks

/-- The bytes that are hashed for two evaluations, alone or in a batch, are equal exactly if the
organization, the environment, the flag and the targeting key are. -/
theorem bucketInput_determines
    {platform platform' : Platform} {rt rt' : Runtime} {config config' : PolicyConfig}
    {context context' : Ctx} {request request' : Request} {trace trace' : List (Exchange Ask.Reply)}
    {result result' : Except ServiceError ServiceResponse}
    (h : Runs (serve platform rt config context request) trace result)
    (h' : Runs (serve platform' rt' config' context' request') trace' result')
    {call call' : Call} {reply : (Ask.store (.write call)).Reply}
    {reply' : (Ask.store (.write call')).Reply}
    (hmem : ⟨.store (.write call), reply⟩ ∈ trace)
    (hmem' : ⟨.store (.write call'), reply'⟩ ∈ trace') :
    ∀ key ∈ call.operation.bucketKeys, ∀ key' ∈ call'.operation.bucketKeys,
      (key.input = key'.input ↔ key = key') ∧
        deterministicBucket rt key.organizationId key.environmentKey key.flagKey key.targetingKey =
          digestBucket (rt.sha256 key.input) := by
  intro key hkey key' hkey'
  refine ⟨⟨fun heq => ?_, fun heq => heq ▸ rfl⟩, rfl⟩
  exact BucketKey.input_inj (serve_identified h hmem key hkey) (serve_identified h' hmem' key' hkey')
    heq

/-- A request to evaluate two flags for one subject. -/
def batchRequest : EvaluateBatchRequest :=
  { batchId := "batch-1"
    context := ⟨[], "user-1"⟩
    environmentKey := "prod"
    flagKeys := ["flag-1", "flag-2"]
    organizationId := "org" }

def batchCall : Call :=
  ⟨command ⟨"api", "actor-1"⟩ "batch-1"
      (requestHash (Runtime.atEpoch []) batchRequest.toJson),
    .evaluateBatch "org" "prod" ["flag-1", "flag-2"] "user-1" []
      (contextHash (Runtime.atEpoch []) ⟨[], "user-1"⟩)⟩

def batchExchanges : List (Exchange Ask.Reply) :=
  [⟨.verifier, true⟩,
    ⟨.projectContext "lenso.feature-evaluation@1" "evaluate_batch", some "actor-1"⟩,
    ⟨.checkMembership "org" "actor-1", .ok true⟩,
    ⟨.checkPermission "actor-1" "organization" "org" "feature-flags.evaluate", .ok true⟩]

/-- The request is served, and a flag is missing. -/
theorem batchRequest_run :
    Runs (serve ⟨"", "", "", "", fun _ => true⟩ (Runtime.atEpoch []) ⟨["api"], [], 256, 1, 2⟩
        ⟨some "api"⟩ (.evaluateBatch batchRequest))
      (batchExchanges ++ [⟨.store (.write batchCall), .error (.domain .flagNotFound)⟩])
      (.error (.evaluation (.domain .flagNotFound))) := by
  unfold batchExchanges
  refine .step ?_
  refine .step ?_
  refine .step ?_
  refine .step ?_
  refine .step ?_
  exact .fail

/-- The two flags have their own inputs. -/
theorem bucketInput_determines_batch :
    BucketKey.input ⟨"org", "prod", "flag-1", "user-1"⟩ ≠
      BucketKey.input ⟨"org", "prod", "flag-2", "user-1"⟩ := by
  have hmem : (⟨.store (.write batchCall), .error (.domain .flagNotFound)⟩ : Exchange Ask.Reply) ∈
      batchExchanges ++ [⟨.store (.write batchCall), .error (.domain .flagNotFound)⟩] :=
    List.mem_append_right _ List.mem_cons_self
  intro heq
  have hkeys := (bucketInput_determines batchRequest_run batchRequest_run hmem hmem
    ⟨"org", "prod", "flag-1", "user-1"⟩ List.mem_cons_self
    ⟨"org", "prod", "flag-2", "user-1"⟩ (List.mem_cons_of_mem _ List.mem_cons_self)).1.mp heq
  exact absurd (congrArg BucketKey.flagKey hkeys) (by decide)

end LensoFlags
