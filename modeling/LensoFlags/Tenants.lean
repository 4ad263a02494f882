import LensoFlags.Renaming
import LensoFlags.Lib.SideBySide
import LensoFlags.Lib.Table

/-!
# The same call in two states

What an organization's call returns in two states that agree on the organization's rows: the same,
but for the times, ids and numbers that each of the two calls makes up. And whose the records of a
response are.
-/

namespace LensoFlags

/-- A value of before stands for itself, and a new one for a new one. -/
def Remade {α : Type} (old old' : List α) (a a' : α) : Prop := a = a' ∨ a ∉ old ∧ a' ∉ old'

theorem Remade.refl {α : Type} {old old' : List α} (a : α) : Remade old old' a a := .inl rfl

/-- Everything stands for itself. -/
structure Renaming.Refl (ρ : Renaming) : Prop where
  time : ∀ a, ρ.time a a
  receiptId : ∀ a, ρ.receiptId a a
  flagSeq : ∀ a, ρ.flagSeq a a
  receiptSeq : ∀ a, ρ.receiptSeq a a

/-- What is there before stands for itself; no time is told apart. -/
def Renaming.remade (ids ids' : List String) (flagSeqs flagSeqs' receiptSeqs receiptSeqs' : List Int) :
    Renaming where
  time _ _ := True
  receiptId := Remade ids ids'
  flagSeq := Remade flagSeqs flagSeqs'
  receiptSeq := Remade receiptSeqs receiptSeqs'

theorem Renaming.remade_refl (ids ids' : List String)
    (flagSeqs flagSeqs' receiptSeqs receiptSeqs' : List Int) :
    (Renaming.remade ids ids' flagSeqs flagSeqs' receiptSeqs receiptSeqs').Refl :=
  ⟨fun _ => trivial, .refl, .refl, .refl⟩

section Refl

variable {ρ : Renaming} (hρ : ρ.Refl)

include hρ

theorem Renaming.Refl.times (o : Option String) : Option.Rel ρ.time o o := by
  cases o with
  | none => exact .none
  | some a => exact .some (hρ.time a)

theorem Renaming.Refl.flag (r : FlagRecord) : r.Alike ρ r :=
  ⟨hρ.time _, hρ.time _, hρ.times _, hρ.flagSeq _, rfl⟩

theorem Renaming.Refl.evaluation (r : EvaluationRecord) : r.Alike ρ r :=
  ⟨hρ.receiptId _, hρ.time _, rfl⟩

theorem Renaming.Refl.receipt (r : ReceiptRecord) : r.Alike ρ r :=
  ⟨hρ.receiptId _, hρ.time _, hρ.receiptSeq _, rfl⟩

theorem Renaming.Refl.response (r : Response) : r.Alike ρ r := by
  cases r with
  | flag r => exact .flag (hρ.flag r)
  | environment r => exact .environment ⟨hρ.time _, hρ.time _, rfl⟩
  | publish r => exact .publish ⟨hρ.time _, rfl⟩
  | evaluation r => exact .evaluation (hρ.evaluation r)
  | evaluations rs => exact .evaluations (List.forall₂_same.mpr fun r _ => hρ.evaluation r)

end Refl

/-! ## Documents -/

/-- The evaluation record with the id and the time of a draw. -/
def EvaluationRecord.stamped (rt : Runtime) (record : EvaluationRecord) (draw : Draw) :
    EvaluationRecord :=
  { record with receiptId := draw.uuid, evaluatedAt := rt.formatTimestamp draw.now }

/-- The response column does not look at the ids and times of the evaluations it takes. -/
def Codec.Blind (codec : Codec) (rt : Runtime) (δ δ' : Draws) : Prop :=
  ∀ (record : EvaluationRecord) i, (codec.encodeEvaluation (record.stamped rt (δ i))).isSome =
    (codec.encodeEvaluation (record.stamped rt (δ' i))).isSome

/-- Both are there, or neither. -/
abbrev Both {α β : Type} (o : Option α) (o' : Option β) : Prop := Option.Rel (fun _ _ => True) o o'

theorem both_of_isSome {α β : Type} {o : Option α} {o' : Option β} (h : o.isSome = o'.isSome) :
    Both o o' := by
  cases o with
  | none =>
    cases o' with
    | none => exact .none
    | some b => cases h
  | some a =>
    cases o' with
    | none => cases h
    | some b => exact .some trivial

theorem Both.map {α β γ δ : Type} {o : Option α} {o' : Option β} (h : Both o o') (f : α → γ)
    (g : β → δ) : Both (o.map f) (o'.map g) := by
  cases h with
  | some => exact .some trivial
  | none => exact .none

theorem both_optionAll {α α' β β' : Type} {f : α → Option β} {g : α' → Option β'} {as : List α}
    {as' : List α'} (h : List.Forall₂ (fun a a' => Both (f a) (g a')) as as') :
    Both (optionAll f as) (optionAll g as') := by
  induction h with
  | nil => exact .some trivial
  | @cons a a' as as' ha _ ih =>
    simp only [optionAll]
    generalize f a = b at ha
    generalize g a' = b' at ha
    cases ha with
    | some => exact ih.map _ _
    | none => exact .none

variable {codec : Codec} {ρ : Renaming}

/-- Alike, and the response column takes both or neither. -/
structure EvaluationRecord.Likewise (codec : Codec) (ρ : Renaming) (r r' : EvaluationRecord) :
    Prop where
  alike : r.Alike ρ r'
  accepted : Both (codec.encodeEvaluation r) (codec.encodeEvaluation r')

structure Response.Likewise (codec : Codec) (ρ : Renaming) (r r' : Response) : Prop where
  alike : r.Alike ρ r'
  accepted : Both (encodeResponse codec r) (encodeResponse codec r')

theorem likewise_flag {r r' : FlagRecord} (h : r.Alike ρ r') :
    Response.Likewise codec ρ (.flag r) (.flag r') :=
  ⟨.flag h, .some trivial⟩

theorem likewise_environment {r r' : EnvironmentRecord} (h : r.Alike ρ r') :
    Response.Likewise codec ρ (.environment r) (.environment r') :=
  ⟨.environment h, .some trivial⟩

theorem likewise_publish {r r' : PublishRecord} (h : r.Alike ρ r') :
    Response.Likewise codec ρ (.publish r) (.publish r') :=
  ⟨.publish h, .some trivial⟩

theorem likewise_evaluation {r r' : EvaluationRecord} (h : r.Likewise codec ρ r') :
    Response.Likewise codec ρ (.evaluation r) (.evaluation r') :=
  ⟨.evaluation h.alike, h.accepted.map _ _⟩

theorem likewise_evaluations {rs rs' : List EvaluationRecord}
    (h : List.Forall₂ (EvaluationRecord.Likewise codec ρ) rs rs') :
    Response.Likewise codec ρ (.evaluations rs) (.evaluations rs') :=
  ⟨.evaluations (h.imp fun _ _ h => h.alike),
    (both_optionAll (h.imp fun _ _ h => h.accepted)).map _ _⟩

/-! ## Owners -/

/-- The organizations that the records of a response name; those of evaluations name none. -/
def Response.organizations : Response → List String
  | .flag record => [record.organizationId]
  | .environment record => [record.organizationId]
  | .publish record => [record.organizationId]
  | .evaluation _ => []
  | .evaluations _ => []

/-- The records are the organization's; an evaluation is by the receipt that has its id. -/
structure Response.Of (org : String) (issued : String → Prop) (response : Response) : Prop where
  named : ∀ name ∈ response.organizations, name = org
  issued : ∀ record ∈ response.records, issued record.receiptId

/-- A response of one record that names its organization. -/
theorem Response.of_named {org : String} {issued : String → Prop} {response : Response} {name : String}
    (horganizations : response.organizations = [name]) (hrecords : response.records = [])
    (h : name = org) : response.Of org issued := by
  constructor
  · rw [horganizations]
    exact List.forall_mem_singleton.mpr h
  · rw [hrecords]
    exact List.forall_mem_nil _

/-- The response column gives back the ids of evaluations. -/
def Codec.KeepsIds (codec : Codec) : Prop :=
  ∀ record document decoded, codec.encodeEvaluation record = some document →
    codec.decodeEvaluation document = some decoded → decoded.receiptId = record.receiptId

/-- A response reads back with the owner it was stored with. -/
theorem Response.Of.decoded {org : String} {issued : String → Prop} {response decoded : Response}
    {kind : Kind} {stored : Stored codec} (h : response.Of org issued) (hcodec : codec.KeepsIds)
    (hencode : encodeResponse codec response = some stored)
    (hdecode : decodeResponse codec kind stored = some decoded) : decoded.Of org issued := by
  cases response with
  | flag =>
    cases hencode
    cases kind <;> cases hdecode
    exact h
  | environment =>
    cases hencode
    cases kind <;> cases hdecode
    exact h
  | publish =>
    cases hencode
    cases kind <;> cases hdecode
    exact h
  | evaluation record =>
    obtain ⟨document, hdocument, rfl⟩ := Option.map_eq_some_iff.mp hencode
    cases kind with
    | evaluation =>
      obtain ⟨record', hrecord', rfl⟩ := Option.map_eq_some_iff.mp hdecode
      refine ⟨List.forall_mem_nil _, List.forall_mem_singleton.mpr ?_⟩
      rw [hcodec _ _ _ hdocument hrecord']
      exact h.issued record (List.mem_singleton_self _)
    | _ => cases hdecode
  | evaluations records =>
    obtain ⟨documents, hdocuments, rfl⟩ := Option.map_eq_some_iff.mp hencode
    cases kind with
    | evaluations =>
      obtain ⟨records', hrecords', rfl⟩ := Option.map_eq_some_iff.mp hdecode
      refine ⟨List.forall_mem_nil _, fun record' hmem => ?_⟩
      obtain ⟨document, hmem, hdecode⟩ :=
        Table.exists_of_mem_right (optionAll_eq_some.mp hrecords') hmem
      obtain ⟨record, hmem, hencode⟩ :=
        Table.exists_of_mem_right (optionAll_eq_some.mp hdocuments) hmem
      rw [hcodec _ _ _ hencode hdecode]
      exact h.issued record hmem
    | _ => cases hdecode

end LensoFlags
