import LensoFlags.Abstract.Sound
import LensoFlags.Tenants

/-!
# Whose records a replay returns

Command rows carry no organization. A stored response is that of a call in the history, whose own
organization its records are of; a call with the same request is of the same organization.

Results:
1. `Effect.owned`: an effect answers with records of the call's organization.
2. `Run.replay_owned`: so does a replay, when the request hashes of the history do not collide.
-/

namespace LensoFlags.Abstract

variable {codec : Codec} {rt : Runtime} {σ : Stamp} {c c' : Store codec} {call : Call}
  {response : Response} {history : List (Call × Response)}

/-- The id is that of a receipt of the organization. -/
def Issued (c : Store codec) (org id : String) : Prop :=
  ∃ receipt ∈ c.receipts, receipt.receiptId = id ∧ receipt.organizationId = org

theorem Effect.owned (h : Effect rt σ c call response c') :
    response.Of call.operation.organizationId (Issued c' call.operation.organizationId) := by
  cases h with
  | created hop =>
    rw [hop]
    exact Response.of_named rfl rfl rfl
  | updated hop hflag =>
    have horg := flag_organizationId hflag
    rw [hop]
    exact Response.of_named rfl rfl horg
  | archived hop hflag =>
    have horg := flag_organizationId hflag
    rw [hop]
    exact Response.of_named rfl rfl horg
  | environmentCreated hop =>
    rw [hop]
    exact Response.of_named rfl rfl rfl
  | environmentRenamed hop henvironment =>
    have horg := environment_organizationId henvironment
    rw [hop]
    exact Response.of_named rfl rfl horg
  | published hop =>
    rw [hop]
    exact Response.of_named rfl rfl rfl
  | @evaluated subject flagKeys results _ hop hresults hkind hrecords =>
    have hnone : response.organizations = [] := by
      cases hoperation : call.operation <;> rw [hoperation] at hop hkind <;> cases hop <;>
        cases response <;> cases hkind <;> rfl
    refine ⟨?_, fun record hrecord => ?_⟩
    · rw [hnone]
      exact List.forall_mem_nil _
    · rw [hrecords] at hrecord
      obtain ⟨result, hresult, rfl⟩ := List.mem_map.mp hrecord
      obtain ⟨at_, -, heval⟩ :=
        Table.exists_of_mem_right (evaluateFrom_eq_ok.mp hresults) hresult
      obtain ⟨variant, reason, revision, -, heq⟩ := heval.choice
      have hmem : result.2 ∈ (c.addReceipts (results.map (·.2))).receipts :=
        List.mem_append_left _ (List.mem_reverse.mpr (List.mem_map_of_mem hresult))
      rw [evaluates_organizationId hop]
      refine ⟨result.2, hmem, ?_, ?_⟩
      · rw [heq]
        rfl
      · rw [heq]
        rfl

/-- Receipts stay. -/
theorem Effect.issued (h : Effect rt σ c call response c') {org id : String}
    (hissued : Issued c org id) : Issued c' org id := by
  obtain ⟨receipt, hmem, hrest⟩ := hissued
  have hreceipts := h.receiptChange
  refine ⟨receipt, ?_, hrest⟩
  generalize c'.receipts = receipts at hreceipts
  cases hreceipts with
  | same => exact hmem
  | added => exact List.mem_append_right _ hmem

/-- The call behind a command row, with its response. -/
theorem Run.owned (h : Run rt history c) : ∀ row ∈ c.commands, ∃ entry ∈ history,
    entry.1.command.hash = row.requestHash ∧ encodeResponse codec entry.2 = some row.response ∧
      entry.2.Of entry.1.operation.organizationId
        (Issued c entry.1.operation.organizationId) := by
  induction h with
  | nil => nofun
  | @cons history c c' σ call response _ _ _ hfresh ih =>
    obtain ⟨c₁, stored, heffect, hstored, rfl⟩ := fresh_effect hfresh
    rw [heffect.commands]
    refine List.forall_mem_cons.mpr
      ⟨⟨_, List.mem_cons_self, rfl, hstored, heffect.owned⟩, fun row hrow => ?_⟩
    obtain ⟨entry, hentry, hhash, hencode, howned⟩ := ih row hrow
    exact ⟨entry, List.mem_cons_of_mem _ hentry, hhash, hencode, howned.named,
      fun record hrecord => heffect.issued (howned.issued record hrecord)⟩

/-- A replay returns records of the call's organization. -/
theorem Run.replay_owned (h : Run rt history c) (hcodec : codec.KeepsIds)
    (hhash : ∀ entry ∈ history, entry.1.command.hash = call.command.hash →
      entry.1.operation = call.operation)
    (hreplay : replay c call = .ok (some response)) :
    response.Of call.operation.organizationId (Issued c call.operation.organizationId) := by
  unfold replay at hreplay
  cases hrow : c.command call.commandKey with
  | none =>
    rw [hrow] at hreplay
    cases hreplay
  | some row =>
    simp only [hrow] at hreplay
    split at hreplay
    · cases hreplay
    · next hsame =>
      cases hdecode : decodeResponse codec call.operation.kind row.response with
      | none =>
        rw [hdecode] at hreplay
        cases hreplay
      | some decoded =>
        rw [hdecode] at hreplay
        cases hreplay
        obtain ⟨entry, hentry, hentryHash, hencode, howned⟩ := h.owned row (Table.mem_of_lookup hrow)
        rw [← hhash entry hentry (hentryHash.trans (not_not.mp hsame))]
        exact howned.decoded hcodec hencode hdecode

end LensoFlags.Abstract
