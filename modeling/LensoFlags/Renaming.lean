import LensoFlags.Store

/-!
# Records up to what a store makes up

Timestamps, receipt ids and row numbers are a store's own. A `Renaming` says which of one store's
stand for which of another's; records are alike when they are equal but for these.
-/

namespace LensoFlags

/-- Which timestamps, receipt ids and row numbers of two stores stand for each other. -/
structure Renaming where
  time : String → String → Prop
  receiptId : String → String → Prop
  flagSeq : Int → Int → Prop
  receiptSeq : Int → Int → Prop

/-- What stands for each other in `ρ` does so in `ρ'`. -/
structure Renaming.Le (ρ ρ' : Renaming) : Prop where
  time : ∀ a b, ρ.time a b → ρ'.time a b
  receiptId : ∀ a b, ρ.receiptId a b → ρ'.receiptId a b
  flagSeq : ∀ a b, ρ.flagSeq a b → ρ'.flagSeq a b
  receiptSeq : ∀ a b, ρ.receiptSeq a b → ρ'.receiptSeq a b

/-- The row numbers of one store are ordered as those of the other that stand for them, and a receipt
id stands for one. -/
structure Renaming.OrderPreserving (ρ : Renaming) : Prop where
  receiptId : ∀ a a' b b', ρ.receiptId a a' → ρ.receiptId b b' → (a = b ↔ a' = b')
  flagSeq : ∀ a a' b b', ρ.flagSeq a a' → ρ.flagSeq b b' → (a < b ↔ a' < b')
  receiptSeq : ∀ a a' b b', ρ.receiptSeq a a' → ρ.receiptSeq b b' → (a < b ↔ a' < b')

/-- The cursors cut the numbers at the same place. -/
def Cuts (seq : Int → Int → Prop) (after after' : Option Int) : Prop :=
  ∀ a a', seq a a' → (after.getD 0 < a ↔ after'.getD 0 < a')

/-- Nothing is told apart. -/
def Renaming.any : Renaming := ⟨fun _ _ => True, fun _ _ => True, fun _ _ => True, fun _ _ => True⟩

theorem Renaming.le_any (ρ : Renaming) : ρ.Le Renaming.any :=
  ⟨fun _ _ _ => trivial, fun _ _ _ => trivial, fun _ _ _ => trivial, fun _ _ _ => trivial⟩

variable {ρ ρ' : Renaming}

/-! ## Records -/

structure FlagRecord.Alike (ρ : Renaming) (r r' : FlagRecord) : Prop where
  createdAt : ρ.time r.createdAt r'.createdAt
  updatedAt : ρ.time r.updatedAt r'.updatedAt
  archivedAt : Option.Rel ρ.time r.archivedAt r'.archivedAt
  rowSeq : ρ.flagSeq r.rowSeq r'.rowSeq
  rest : { r with
    createdAt := r'.createdAt, updatedAt := r'.updatedAt, archivedAt := r'.archivedAt,
    rowSeq := r'.rowSeq } = r'

structure EnvironmentRecord.Alike (ρ : Renaming) (r r' : EnvironmentRecord) : Prop where
  createdAt : ρ.time r.createdAt r'.createdAt
  updatedAt : ρ.time r.updatedAt r'.updatedAt
  rest : { r with createdAt := r'.createdAt, updatedAt := r'.updatedAt } = r'

structure PublishRecord.Alike (ρ : Renaming) (r r' : PublishRecord) : Prop where
  publishedAt : ρ.time r.publishedAt r'.publishedAt
  rest : { r with publishedAt := r'.publishedAt } = r'

structure EvaluationRecord.Alike (ρ : Renaming) (r r' : EvaluationRecord) : Prop where
  receiptId : ρ.receiptId r.receiptId r'.receiptId
  evaluatedAt : ρ.time r.evaluatedAt r'.evaluatedAt
  rest : { r with receiptId := r'.receiptId, evaluatedAt := r'.evaluatedAt } = r'

structure ReceiptRecord.Alike (ρ : Renaming) (r r' : ReceiptRecord) : Prop where
  receiptId : ρ.receiptId r.receiptId r'.receiptId
  evaluatedAt : ρ.time r.evaluatedAt r'.evaluatedAt
  rowSeq : ρ.receiptSeq r.rowSeq r'.rowSeq
  rest : { r with
    receiptId := r'.receiptId, evaluatedAt := r'.evaluatedAt, rowSeq := r'.rowSeq } = r'

inductive Response.Alike (ρ : Renaming) : Response → Response → Prop
  | flag {r r' : FlagRecord} : r.Alike ρ r' → Alike ρ (.flag r) (.flag r')
  | environment {r r' : EnvironmentRecord} :
      r.Alike ρ r' → Alike ρ (.environment r) (.environment r')
  | publish {r r' : PublishRecord} : r.Alike ρ r' → Alike ρ (.publish r) (.publish r')
  | evaluation {r r' : EvaluationRecord} :
      r.Alike ρ r' → Alike ρ (.evaluation r) (.evaluation r')
  | evaluations {rs rs' : List EvaluationRecord} :
      List.Forall₂ (EvaluationRecord.Alike ρ) rs rs' → Alike ρ (.evaluations rs) (.evaluations rs')

inductive Answer.Alike (ρ : Renaming) : Answer → Answer → Prop
  | replayed {r r' : Response} : r.Alike ρ r' → Alike ρ (.replayed r) (.replayed r')
  | fresh {r r' : Response} : r.Alike ρ r' → Alike ρ (.fresh r) (.fresh r')

theorem Response.Alike.kind {r r' : Response} (h : r.Alike ρ r') : r.kind = r'.kind := by
  cases h <;> rfl

/-! ## Larger renamings -/

theorem rel_mono {α β : Type} {R S : α → β → Prop} {o : Option α} {o' : Option β}
    (h : Option.Rel R o o') (hRS : ∀ a b, R a b → S a b) : Option.Rel S o o' := by
  cases h with
  | some hab => exact .some (hRS _ _ hab)
  | none => exact .none

section Mono

variable (hρ : ρ.Le ρ')

include hρ

theorem FlagRecord.Alike.mono {r r' : FlagRecord} (h : r.Alike ρ r') : r.Alike ρ' r' :=
  ⟨hρ.time _ _ h.createdAt, hρ.time _ _ h.updatedAt, rel_mono h.archivedAt hρ.time,
    hρ.flagSeq _ _ h.rowSeq, h.rest⟩

theorem EnvironmentRecord.Alike.mono {r r' : EnvironmentRecord} (h : r.Alike ρ r') :
    r.Alike ρ' r' :=
  ⟨hρ.time _ _ h.createdAt, hρ.time _ _ h.updatedAt, h.rest⟩

theorem PublishRecord.Alike.mono {r r' : PublishRecord} (h : r.Alike ρ r') : r.Alike ρ' r' :=
  ⟨hρ.time _ _ h.publishedAt, h.rest⟩

theorem EvaluationRecord.Alike.mono {r r' : EvaluationRecord} (h : r.Alike ρ r') :
    r.Alike ρ' r' :=
  ⟨hρ.receiptId _ _ h.receiptId, hρ.time _ _ h.evaluatedAt, h.rest⟩

theorem ReceiptRecord.Alike.mono {r r' : ReceiptRecord} (h : r.Alike ρ r') : r.Alike ρ' r' :=
  ⟨hρ.receiptId _ _ h.receiptId, hρ.time _ _ h.evaluatedAt, hρ.receiptSeq _ _ h.rowSeq, h.rest⟩

theorem Response.Alike.mono {r r' : Response} (h : r.Alike ρ r') : r.Alike ρ' r' := by
  cases h with
  | flag h => exact .flag (h.mono hρ)
  | environment h => exact .environment (h.mono hρ)
  | publish h => exact .publish (h.mono hρ)
  | evaluation h => exact .evaluation (h.mono hρ)
  | evaluations h => exact .evaluations (h.imp fun _ _ h => h.mono hρ)

theorem Answer.Alike.mono {a a' : Answer} (h : a.Alike ρ a') : a.Alike ρ' a' := by
  cases h with
  | replayed h => exact .replayed (h.mono hρ)
  | fresh h => exact .fresh (h.mono hρ)

end Mono

end LensoFlags
