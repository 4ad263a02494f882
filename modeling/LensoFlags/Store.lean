import LensoFlags.Ruleset
import LensoFlags.Lib.Serial
import Mathlib.Data.Nat.Pairing

/-!
# The store contract

The write operations of the trait `Store` (`store.rs`), their responses, and what a backend takes
from outside the sources: the JSON codec of its columns and the draws of its environment (clock
readings, fresh UUIDs, sequence numbers).

A record of strings, booleans and integers is kept in a JSON column as itself. A ruleset definition
and an evaluation record carry doubles and nested JSON; their columns hold documents of a `Codec`.
-/

namespace LensoFlags

/-! ## Calls and responses -/

/-- A write operation with its arguments, in the order of the trait's methods. -/
inductive Operation
  | createFlag (organizationId flagKey name : String) (description : Option String)
      (valueType : String)
  | updateFlag (organizationId flagKey : String) (expectedRevision : Int) (name : String)
      (description : Option String)
  | archiveFlag (organizationId flagKey : String) (expectedRevision : Int)
  | putEnvironment (organizationId environmentKey name : String) (expectedRevision : Option Int)
  | publishRuleset (organizationId flagKey environmentKey : String)
      (expectedFlagRevision expectedEnvironmentRevision : Int) (definition : RulesetDefinition)
  | evaluate (organizationId environmentKey flagKey targetingKey : String)
      (attributes : List (String × Json)) (contextHash : String)
  | evaluateBatch (organizationId environmentKey : String) (flagKeys : List String)
      (targetingKey : String) (attributes : List (String × Json)) (contextHash : String)

namespace Operation

/-- The operation name stored in the command row. -/
def name : Operation → String
  | createFlag .. => "create_flag"
  | updateFlag .. => "update_flag"
  | archiveFlag .. => "archive_flag"
  | putEnvironment .. => "put_environment"
  | publishRuleset .. => "publish_ruleset"
  | evaluate .. => "evaluate"
  | evaluateBatch .. => "evaluate_batch"

def organizationId : Operation → String
  | createFlag org .. => org
  | updateFlag org .. => org
  | archiveFlag org .. => org
  | putEnvironment org .. => org
  | publishRuleset org .. => org
  | evaluate org .. => org
  | evaluateBatch org .. => org

end Operation

structure Call where
  command : Command
  operation : Operation

/-- The primary key of a command row. -/
@[ext]
structure CommandKey where
  caller : String
  actor : String
  operation : String
  key : String
  deriving DecidableEq

/-- The columns of the unique constraint on receipts. -/
structure EvaluationKey where
  caller : String
  actor : String
  operation : String
  evaluationId : String
  flagKey : String
  deriving DecidableEq

def Command.rowKey (command : Command) (operation : String) : CommandKey :=
  ⟨command.caller, command.actor, operation, command.key⟩

def Call.commandKey (call : Call) : CommandKey := call.command.rowKey call.operation.name

inductive Response
  | flag (record : FlagRecord)
  | environment (record : EnvironmentRecord)
  | publish (record : PublishRecord)
  | evaluation (record : EvaluationRecord)
  | evaluations (records : List EvaluationRecord)

/-- The evaluation records of a response, by position. -/
def Response.records : Response → List EvaluationRecord
  | .evaluation record => [record]
  | .evaluations records => records
  | _ => []

/-- The response types: the type parameter of the source's `replay` and `admit_command`. -/
inductive Kind
  | flag
  | environment
  | publish
  | evaluation
  | evaluations
  deriving DecidableEq

def Operation.kind : Operation → Kind
  | .createFlag .. => .flag
  | .updateFlag .. => .flag
  | .archiveFlag .. => .flag
  | .putEnvironment .. => .environment
  | .publishRuleset .. => .publish
  | .evaluate .. => .evaluation
  | .evaluateBatch .. => .evaluations

def Response.kind : Response → Kind
  | .flag _ => .flag
  | .environment _ => .environment
  | .publish _ => .publish
  | .evaluation _ => .evaluation
  | .evaluations _ => .evaluations

/-- The name of an operation determines the type of its responses. -/
theorem Operation.kind_eq_of_name {operation operation' : Operation}
    (h : operation.name = operation'.name) : operation.kind = operation'.kind := by
  cases operation <;> cases operation' <;> first | rfl | exact absurd h (by simp [name])

/-- An `Ok` of a write operation: the stored response of an earlier call, or the response of the
call's own effect. -/
inductive Answer
  | replayed (response : Response)
  | fresh (response : Response)

def Answer.response : Answer → Response
  | .replayed response => response
  | .fresh response => response

abbrev Result := Except StorageError Answer

/-- `Option::ok_or`. -/
def okOr {α : Type} (failure : DomainFailure) : Option α → Except StorageError α
  | some a => .ok a
  | none => .error (.domain failure)

/-! ## Documents -/

/-- The JSON columns that hold doubles or nested values: how they are written and read back.
`none` is a document the column rejects, or a text that does not decode. -/
structure Codec where
  Definition : Type
  Evaluation : Type
  encodeDefinition : RulesetDefinition → Option Definition
  decodeDefinition : Definition → Option RulesetDefinition
  encodeEvaluation : EvaluationRecord → Option Evaluation
  decodeEvaluation : Evaluation → Option EvaluationRecord

/-- What every record of an evaluation has: the value is valid for some type, the reason is one of
three, the revision is a number. -/
structure EvaluationRecord.Formed (rt : Runtime) (record : EvaluationRecord) : Prop where
  value : ∃ valueType, validValue rt valueType record.value = true
  reason : record.reason ∈ ["target_match", "percentage_rollout", "fallthrough"]
  rulesetRevision : ∃ revision : Int, record.rulesetRevision = toString revision

/-- The stored JSON of an accepted ruleset decodes to exactly what was encoded. -/
def Codec.ExactDefinitions (codec : Codec) (rt : Runtime) : Prop :=
  ∀ ⦃valueType d doc⦄, validateRuleset rt valueType d = .ok () →
    codec.encodeDefinition d = some doc → codec.decodeDefinition doc = some d

/-- So does that of an evaluation. -/
def Codec.ExactEvaluations (codec : Codec) (rt : Runtime) : Prop :=
  ∀ ⦃r : EvaluationRecord⦄ ⦃doc⦄, r.Formed rt →
    codec.encodeEvaluation r = some doc → codec.decodeEvaluation doc = some r

structure Codec.Exact (codec : Codec) (rt : Runtime) : Prop where
  definitions : codec.ExactDefinitions rt
  evaluations : codec.ExactEvaluations rt

/-- The columns accept every document. -/
structure Codec.Total (codec : Codec) : Prop where
  definition : ∀ d, ∃ doc, codec.encodeDefinition d = some doc
  evaluation : ∀ r, ∃ doc, codec.encodeEvaluation r = some doc

/-- A stored ruleset decodes, and the response column accepts an evaluation of it. -/
structure Codec.Evaluable (codec : Codec) (rt : Runtime) : Prop where
  decodes : ∀ {valueType d doc}, validateRuleset rt valueType d = .ok () →
    codec.encodeDefinition d = some doc → ∃ decoded, codec.decodeDefinition doc = some decoded
  accepts : ∀ {valueType d doc decoded v} {r : EvaluationRecord},
    validateRuleset rt valueType d = .ok () → codec.encodeDefinition d = some doc →
    codec.decodeDefinition doc = some decoded → v ∈ decoded.variants →
    r.variantKey = v.variantKey → r.value = v.value → r.Formed rt →
    ∃ doc', codec.encodeEvaluation r = some doc'

/-- Documents that are the values themselves. -/
def Codec.verbatim : Codec :=
  { Definition := RulesetDefinition
    Evaluation := EvaluationRecord
    encodeDefinition := some
    decodeDefinition := some
    encodeEvaluation := some
    decodeEvaluation := some }

theorem Codec.verbatim_exact (rt : Runtime) : Codec.verbatim.Exact rt :=
  ⟨fun _ _ _ _ h => h.symm, fun _ _ _ h => h.symm⟩

theorem Codec.verbatim_total : Codec.verbatim.Total :=
  ⟨fun _ => ⟨_, rfl⟩, fun _ => ⟨_, rfl⟩⟩

theorem Codec.verbatim_evaluable (rt : Runtime) : Codec.verbatim.Evaluable rt :=
  ⟨fun _ h => ⟨_, h.symm⟩, fun _ _ _ _ _ _ _ => ⟨_, rfl⟩⟩

/-- The response column of a command row. -/
inductive Stored (codec : Codec)
  | flag (record : FlagRecord)
  | environment (record : EnvironmentRecord)
  | publish (record : PublishRecord)
  | evaluation (document : codec.Evaluation)
  | evaluations (documents : List codec.Evaluation)

/-- Every element of a list in turn; `none` at the first that has no value. -/
def optionAll {α β : Type} (f : α → Option β) : List α → Option (List β)
  | [] => some []
  | a :: as => (f a).bind fun b => (optionAll f as).map (b :: ·)

theorem exists_optionAll {α β : Type} {f : α → Option β} {as : List α}
    (h : ∀ a ∈ as, ∃ b, f a = some b) : ∃ bs, optionAll f as = some bs := by
  induction as with
  | nil => exact ⟨[], rfl⟩
  | cons a as ih =>
    obtain ⟨b, hb⟩ := h a List.mem_cons_self
    obtain ⟨bs, hbs⟩ := ih fun a ha => h a (List.mem_cons_of_mem _ ha)
    exact ⟨b :: bs, by rw [optionAll, hb, hbs]; rfl⟩

theorem optionAll_eq_some {α β : Type} {f : α → Option β} {as : List α} {bs : List β} :
    optionAll f as = some bs ↔ List.Forall₂ (fun a b => f a = some b) as bs := by
  induction as generalizing bs with
  | nil =>
    rw [optionAll, List.forall₂_nil_left_iff, Option.some.injEq, eq_comm]
  | cons a as ih =>
    simp only [optionAll, Option.bind_eq_some_iff, Option.map_eq_some_iff,
      List.forall₂_cons_left_iff]
    constructor
    · rintro ⟨b, hb, bs, hbs, rfl⟩
      exact ⟨b, bs, hb, ih.mp hbs, rfl⟩
    · rintro ⟨b, bs, hb, hbs, rfl⟩
      exact ⟨b, hb, bs, ih.mpr hbs, rfl⟩

def encodeResponse (codec : Codec) : Response → Option (Stored codec)
  | .flag r => some (.flag r)
  | .environment r => some (.environment r)
  | .publish r => some (.publish r)
  | .evaluation r => (codec.encodeEvaluation r).map .evaluation
  | .evaluations rs => (optionAll codec.encodeEvaluation rs).map .evaluations

/-- Deserialisation at the expected type. -/
def decodeResponse (codec : Codec) : Kind → Stored codec → Option Response
  | .flag, .flag r => some (.flag r)
  | .environment, .environment r => some (.environment r)
  | .publish, .publish r => some (.publish r)
  | .evaluation, .evaluation doc => (codec.decodeEvaluation doc).map .evaluation
  | .evaluations, .evaluations docs => (optionAll codec.decodeEvaluation docs).map .evaluations
  | _, _ => none

/-- A value or the JSON error of `serde_json`. -/
def orJson {α : Type} : Option α → Except StorageError α
  | some a => .ok a
  | none => .error .json

/-! ## Steps of a computation -/

theorem bind_eq_ok {α β : Type} {x : Except StorageError α} {f : α → Except StorageError β} {b : β} :
    (x >>= f) = .ok b ↔ ∃ a, x = .ok a ∧ f a = .ok b := by
  cases x with
  | error e => exact ⟨nofun, fun ⟨_, h, _⟩ => nomatch h⟩
  | ok a => exact ⟨fun h => ⟨a, rfl, h⟩, fun ⟨_, h, hf⟩ => by cases h; exact hf⟩

theorem okOr_eq_ok {α : Type} {failure : DomainFailure} {o : Option α} {a : α} :
    okOr failure o = .ok a ↔ o = some a := by
  cases o <;> simp [okOr]

theorem orJson_eq_ok {α : Type} {o : Option α} {a : α} : orJson o = .ok a ↔ o = some a := by
  cases o <;> simp [orJson]

/-! ## Draws -/

/-- What the environment hands out during a call: two clock readings in nanoseconds, a fresh UUID
in its text form and a number of each of two sequences. -/
structure Draw where
  now : Int
  later : Int
  uuid : String
  flagSeq : Int
  receiptSeq : Int
  deriving DecidableEq

/-- Every draw of a call, by the position it is drawn at. -/
abbrev Draws := ℕ → Draw

/-- No UUID is drawn twice. -/
def Draws.Distinct (δ : Draws) : Prop := ∀ i j, (δ i).uuid = (δ j).uuid → i = j

/-- Two calls draw different UUIDs. -/
def Draws.Disjoint (δ δ' : Draws) : Prop := ∀ i j, (δ i).uuid ≠ (δ' j).uuid

/-- The numbers of a sequence are positive, and none is given twice. -/
structure Draws.Sequenced (δ : Draws) : Prop where
  positive : ∀ i, 0 < (δ i).flagSeq ∧ 0 < (δ i).receiptSeq
  flag : ∀ i j, (δ i).flagSeq = (δ j).flagSeq → i = j
  receipt : ∀ i j, (δ i).receiptSeq = (δ j).receiptSeq → i = j

/-- Two calls draw different numbers. -/
def Draws.Apart (δ δ' : Draws) : Prop :=
  ∀ i j, (δ i).flagSeq ≠ (δ' j).flagSeq ∧ (δ i).receiptSeq ≠ (δ' j).receiptSeq

theorem Draws.Disjoint.symm {δ δ' : Draws} (h : δ.Disjoint δ') : δ'.Disjoint δ :=
  fun i j heq => h j i heq.symm

theorem Draws.Apart.symm {δ δ' : Draws} (h : δ.Apart δ') : δ'.Apart δ :=
  fun i j => ⟨fun heq => (h j i).1 heq.symm, fun heq => (h j i).2 heq.symm⟩

/-- The draws of call `n` at the epoch, numbered. -/
def Draws.numbered (n : ℕ) : Draws :=
  fun i =>
    { now := 0
      later := 0
      uuid := Decimal.tag (toString n) i
      flagSeq := Nat.pair n i + 1
      receiptSeq := Nat.pair n i + 1 }

theorem Draws.numbered_distinct (n : ℕ) : (Draws.numbered n).Distinct :=
  fun _ _ h => (Decimal.tag_inj h).2

theorem Draws.numbered_disjoint {n m : ℕ} (h : n ≠ m) :
    (Draws.numbered n).Disjoint (Draws.numbered m) :=
  fun _ _ heq => h (Nat.repr_injective (Decimal.tag_inj heq).1)

theorem Draws.numbered_sequenced (n : ℕ) : (Draws.numbered n).Sequenced := by
  have hinj : ∀ i j : ℕ, ((Nat.pair n i : ℕ) : Int) + 1 = (Nat.pair n j : ℕ) + 1 → i = j := by
    intro i j h
    exact (Nat.pair_eq_pair.mp (show Nat.pair n i = Nat.pair n j by omega)).2
  have hpos : ∀ i : ℕ, (0 : Int) < (Nat.pair n i : ℕ) + 1 := by omega
  exact ⟨fun i => ⟨hpos i, hpos i⟩, hinj, hinj⟩

theorem Draws.numbered_apart {n m : ℕ} (h : n ≠ m) :
    (Draws.numbered n).Apart (Draws.numbered m) := by
  have hne : ∀ i j : ℕ, ((Nat.pair n i : ℕ) : Int) + 1 ≠ (Nat.pair m j : ℕ) + 1 := by
    intro i j heq
    exact h (Nat.pair_eq_pair.mp (show Nat.pair n i = Nat.pair m j by omega)).1
  exact fun i j => ⟨hne i j, hne i j⟩

/-- A flag, an environment, a ruleset and an evaluation, in this order. -/
def firstCalls : List Call :=
  [⟨⟨"caller", "actor", "key-1", [1]⟩, .createFlag "org" "flag" "Flag" none "boolean"⟩,
    ⟨⟨"caller", "actor", "key-2", [2]⟩, .putEnvironment "org" "prod" "Production" none⟩,
    ⟨⟨"caller", "actor", "key-3", [3]⟩, .publishRuleset "org" "flag" "prod" 1 1
      ⟨[⟨"on", ⟨"boolean", some true, none, none, none, none⟩⟩], [], [], "on"⟩⟩,
    ⟨⟨"caller", "actor", "key-4", [4]⟩, .evaluate "org" "prod" "flag" "user-1" [] "hash"⟩]

/-- The committed calls of a log and their responses; a replay commits nothing. -/
def history (log : List (Serial.Entry Call Draws Answer)) : List (Call × Response) :=
  log.filterMap fun e =>
    match e.value with
    | .fresh response => some (e.call, response)
    | .replayed _ => none

/-- A response whose records read back as themselves does so too. -/
theorem decodeResponse_encodeResponse {codec : Codec} {response : Response} {stored : Stored codec}
    (hread : ∀ record ∈ response.records, ∀ doc, codec.encodeEvaluation record = some doc →
      codec.decodeEvaluation doc = some record)
    (h : encodeResponse codec response = some stored) :
    decodeResponse codec response.kind stored = some response := by
  cases response with
  | flag r => cases h; rfl
  | environment r => cases h; rfl
  | publish r => cases h; rfl
  | evaluation r =>
    obtain ⟨doc, hdoc, rfl⟩ := Option.map_eq_some_iff.mp h
    simp [decodeResponse, Response.kind, hread r List.mem_cons_self doc hdoc]
  | evaluations rs =>
    obtain ⟨docs, hdocs, rfl⟩ := Option.map_eq_some_iff.mp h
    have hall : optionAll codec.decodeEvaluation docs = some rs := by
      change ∀ record ∈ rs, _ at hread
      clear h
      induction rs generalizing docs with
      | nil =>
        cases hdocs
        rfl
      | cons r rs ih =>
        simp only [optionAll, Option.bind_eq_some_iff, Option.map_eq_some_iff] at hdocs
        obtain ⟨doc, hdoc, rest, hrest, rfl⟩ := hdocs
        obtain ⟨hr, hrs⟩ := List.forall_mem_cons.mp hread
        rw [optionAll, hr doc hdoc, ih rest hrest hrs]
        rfl
    simp [decodeResponse, Response.kind, hall]

theorem Codec.ExactEvaluations.decodeResponse {codec : Codec} {rt : Runtime}
    (hexact : codec.ExactEvaluations rt) {response : Response} {stored : Stored codec}
    (hformed : ∀ record ∈ response.records, record.Formed rt)
    (h : encodeResponse codec response = some stored) :
    LensoFlags.decodeResponse codec response.kind stored = some response :=
  decodeResponse_encodeResponse (fun record hrecord _ => hexact (hformed record hrecord)) h

/-- What a response is stored as decodes, if at all, to the response. -/
def Response.Kept (codec : Codec) (response : Response) : Prop :=
  ∀ stored told, encodeResponse codec response = some stored →
    decodeResponse codec response.kind stored = some told → told = response

theorem Codec.ExactEvaluations.kept {codec : Codec} {rt : Runtime}
    (hexact : codec.ExactEvaluations rt) {response : Response}
    (hformed : ∀ record ∈ response.records, record.Formed rt) : response.Kept codec := by
  intro stored told hstored htold
  rw [hexact.decodeResponse hformed hstored] at htold
  exact (Option.some.inj htold).symm

theorem Codec.verbatim_kept (response : Response) : response.Kept Codec.verbatim := by
  intro stored told hstored htold
  rw [decodeResponse_encodeResponse (fun _ _ _ h => h.symm) hstored] at htold
  exact (Option.some.inj htold).symm

end LensoFlags
