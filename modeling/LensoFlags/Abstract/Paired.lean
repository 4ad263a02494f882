import LensoFlags.Abstract.Alike

/-!
# Stores that pair their rows

The rows of two stores that are alike pair by their keys, which fixes what stands for what. As long
as both number their rows upwards the pairing keeps the order of the numbers.

Results:
1. `Pairs.orderPreserving`: the pairing keeps the order of row numbers.
2. `attempt_pairs`: a call keeps the rows paired, and answers alike under the pairing it leaves.
-/

namespace LensoFlags.Abstract

variable {codec codec' : Codec} {rt : Runtime} {σ σ' : Stamp} {c c₁ : Store codec}
  {c' c₁' : Store codec'} {call : Call} {response response' : Response}

/-! ## Upward numbers -/

/-- Newest first, the row numbers descend. -/
structure Descends (c : Store codec) : Prop where
  flags : c.flags.Pairwise fun a b => b.rowSeq < a.rowSeq
  receipts : c.receipts.Pairwise fun a b => b.rowSeq < a.rowSeq

/-- The numbers of the stamp lie above those of the store, and ascend. -/
structure Stamp.Above (σ : Stamp) (c : Store codec) : Prop where
  flagSeq : ∀ flag ∈ c.flags, flag.rowSeq < σ.rowSeq
  receiptSeq : ∀ receipt ∈ c.receipts, ∀ i, receipt.rowSeq < (σ.evaluation i).rowSeq
  ascending : ∀ i j, i < j → (σ.evaluation i).rowSeq < (σ.evaluation j).rowSeq

theorem Descends.empty : Descends (Store.empty : Store codec) := ⟨.nil, .nil⟩

theorem FlagChange.descends {org : String} {flags flags' : List Flag}
    (h : FlagChange σ org flags flags') (hn : (flags.map Flag.key).Nodup)
    (hσ : ∀ flag ∈ flags, flag.rowSeq < σ.rowSeq)
    (hd : flags.Pairwise fun a b => b.rowSeq < a.rowSeq) :
    flags'.Pairwise fun a b => b.rowSeq < a.rowSeq := by
  cases h with
  | same => exact hd
  | added _ _ _ _ _ hseq =>
    refine .cons (fun flag hflag => ?_) hd
    rw [hseq]
    exact hσ flag hflag
  | bumped _ hold _ hkey _ _ _ hseq _ =>
    have hseqs := Table.map_replace hn (hkey ▸ hold) hseq
    rw [← List.pairwise_map (f := Flag.rowSeq) (R := fun a b => b < a)] at hd ⊢
    rwa [hseqs]

theorem ReceiptChange.descends {receipts' : List Receipt} (h : ReceiptChange rt σ call c receipts')
    (hσ : σ.Above c) (hd : c.receipts.Pairwise fun a b => b.rowSeq < a.rowSeq) :
    receipts'.Pairwise fun a b => b.rowSeq < a.rowSeq := by
  cases h with
  | same => exact hd
  | @added subject flagKeys results hop hresults =>
    refine List.pairwise_append.mpr ⟨?_, hd, ?_⟩
    · rw [List.pairwise_reverse, List.pairwise_map]
      -- The numbers of a batch follow its positions, and its rows are put newest first.
      refine Table.pairwise_of_forall₂ hresults (positions_ascend flagKeys 0)
        fun a a' b b' hlt hb hb' => ?_
      rw [hb.receipt.2.1, hb'.receipt.2.1]
      exact hσ.ascending _ _ hlt
    · intro receipt hreceipt old hold
      obtain ⟨_, i, -, -, -, hseq, -⟩ := mem_receipts hresults (List.mem_reverse.mp hreceipt)
      rw [hseq]
      exact hσ.receiptSeq old hold i

theorem attempt_sound {answer : Answer} (hs : Sound rt c) (hσ : σ.Fresh c)
    (h : attempt rt σ c call = .ok (answer, c₁)) : Sound rt c₁ := by
  rcases attempt_eq_ok h with ⟨_, -, rfl, -⟩ | ⟨response, -, hnew, hfresh⟩
  · exact hs
  · obtain ⟨c₂, stored, heffect, hstored, rfl⟩ := fresh_effect hfresh
    exact hs.effect hσ hnew heffect hstored

theorem attempt_descends {answer : Answer} (hs : Sound rt c) (hσ : σ.Above c) (hd : Descends c)
    (h : attempt rt σ c call = .ok (answer, c₁)) : Descends c₁ := by
  rcases attempt_eq_ok h with ⟨_, -, rfl, -⟩ | ⟨response, -, -, hfresh⟩
  · exact hd
  · obtain ⟨c₂, stored, heffect, -, rfl⟩ := fresh_effect hfresh
    exact ⟨heffect.flagChange.descends hs.flagKeys hσ.flagSeq hd.flags,
      heffect.receiptChange.descends hσ hd.receipts⟩

/-! ## The pairing -/

/-- What two rows with one key carry stands for each other. -/
def pairing (c : Store codec) (c' : Store codec') : Renaming where
  time _ _ := True
  receiptId a a' := ∃ receipt ∈ c.receipts, ∃ receipt' ∈ c'.receipts,
    receipt.evaluationKey = receipt'.evaluationKey ∧ receipt.receiptId = a ∧ receipt'.receiptId = a'
  flagSeq a a' := ∃ flag ∈ c.flags, ∃ flag' ∈ c'.flags,
    flag.key = flag'.key ∧ flag.rowSeq = a ∧ flag'.rowSeq = a'
  receiptSeq a a' := ∃ receipt ∈ c.receipts, ∃ receipt' ∈ c'.receipts,
    receipt.evaluationKey = receipt'.evaluationKey ∧ receipt.rowSeq = a ∧ receipt'.rowSeq = a'

theorem Receipt.Alike.evaluationKey {ρ : Renaming} {receipt receipt' : Receipt}
    (h : receipt.Alike ρ receipt') : receipt.evaluationKey = receipt'.evaluationKey := by
  have hkey := congrArg Receipt.evaluationKey h.rest
  exact hkey

/-- Two sound stores that are alike by their pairing, with upward numbers. -/
structure Pairs (rt : Runtime) (c : Store codec) (c' : Store codec') : Prop where
  alike : c.Alike (pairing c c') c'
  sound : Sound rt c
  sound' : Sound rt c'
  descends : Descends c
  descends' : Descends c'

theorem Pairs.empty : Pairs rt (Store.empty : Store codec) (Store.empty : Store codec') :=
  ⟨⟨.nil, .nil, .nil, .nil, .nil⟩, .empty, .empty, .empty, .empty⟩

theorem Pairs.orderPreserving (h : Pairs rt c c') : (pairing c c').OrderPreserving where
  receiptId := by
    rintro _ _ _ _ ⟨a, ha, a', ha', hkey, rfl, rfl⟩ ⟨b, hb, b', hb', hkeyb, rfl, rfl⟩
    constructor
    · intro hid
      have hab := List.inj_on_of_nodup_map h.sound.receiptIds ha hb hid
      rw [hab] at hkey
      rw [List.inj_on_of_nodup_map h.sound'.evaluationKeys ha' hb' (hkey.symm.trans hkeyb)]
    · intro hid
      have hab := List.inj_on_of_nodup_map h.sound'.receiptIds ha' hb' hid
      rw [hab] at hkey
      rw [List.inj_on_of_nodup_map h.sound.evaluationKeys ha hb (hkey.trans hkeyb.symm)]
  flagSeq := by
    rintro _ _ _ _ ⟨a, ha, a', ha', hkey, rfl, rfl⟩ ⟨b, hb, b', hb', hkeyb, rfl, rfl⟩
    exact Table.ordered_forall₂ h.alike.flags (fun _ _ h => h.key) h.sound.flagKeys
      h.descends.flags h.descends'.flags ha ha' hkey hb hb' hkeyb
  receiptSeq := by
    rintro _ _ _ _ ⟨a, ha, a', ha', hkey, rfl, rfl⟩ ⟨b, hb, b', hb', hkeyb, rfl, rfl⟩
    exact Table.ordered_forall₂ h.alike.receipts (fun _ _ h => h.evaluationKey)
      h.sound.evaluationKeys h.descends.receipts h.descends'.receipts ha ha' hkey hb hb' hkeyb

/-! ## One more call -/

/-- Rows stay, with their numbers. -/
structure Grows (c c₁ : Store codec) : Prop where
  flags : ∀ flag ∈ c.flags, ∃ flag' ∈ c₁.flags, flag'.key = flag.key ∧ flag'.rowSeq = flag.rowSeq
  receipts : ∀ receipt ∈ c.receipts, receipt ∈ c₁.receipts

theorem Grows.refl (c : Store codec) : Grows c c :=
  ⟨fun flag hflag => ⟨flag, hflag, rfl, rfl⟩, fun _ hreceipt => hreceipt⟩

theorem Effect.grows (hs : Sound rt c) (h : Effect rt σ c call response c₁) : Grows c c₁ where
  flags := by
    intro flag hflag
    obtain ⟨flag', hflag', -, hseq, -⟩ :=
      h.flagChange.persists (Table.lookup_of_mem hs.flagKeys hflag)
    exact ⟨flag', Table.mem_of_lookup hflag', Table.key_of_lookup hflag', hseq⟩
  receipts := by
    intro receipt hreceipt
    rcases h.answers with ⟨-, -, hsame⟩ | ⟨_, _, _, -, -, hmore, -⟩
    · rwa [hsame]
    · rw [hmore]
      exact List.mem_append_right _ hreceipt

theorem attempt_grows {answer : Answer} (hs : Sound rt c)
    (h : attempt rt σ c call = .ok (answer, c₁)) : Grows c c₁ := by
  rcases attempt_eq_ok h with ⟨_, -, rfl, -⟩ | ⟨response, -, -, hfresh⟩
  · exact .refl c₁
  · obtain ⟨c₂, stored, heffect, -, rfl⟩ := fresh_effect hfresh
    exact ⟨(heffect.grows hs).flags, (heffect.grows hs).receipts⟩

/-- What stood for each other goes on to. -/
theorem Grows.pairing_le (h : Grows c c₁) (h' : Grows c' c₁') :
    (pairing c c').Le (pairing c₁ c₁') where
  time _ _ _ := trivial
  receiptId := by
    rintro _ _ ⟨a, ha, a', ha', hkey, rfl, rfl⟩
    exact ⟨a, h.receipts a ha, a', h'.receipts a' ha', hkey, rfl, rfl⟩
  flagSeq := by
    rintro _ _ ⟨a, ha, a', ha', hkey, rfl, rfl⟩
    obtain ⟨b, hb, hkeyb, hseqb⟩ := h.flags a ha
    obtain ⟨b', hb', hkeyb', hseqb'⟩ := h'.flags a' ha'
    exact ⟨b, hb, b', hb', by rw [hkeyb, hkeyb', hkey], hseqb, hseqb'⟩
  receiptSeq := by
    rintro _ _ ⟨a, ha, a', ha', hkey, rfl, rfl⟩
    exact ⟨a, h.receipts a ha, a', h'.receipts a' ha', hkey, rfl, rfl⟩

/-- The receipt of the evaluation at position `i`. -/
theorem Effect.evaluated_receipt (h : Effect rt σ c call response c₁) {subject : Subject}
    {flagKeys : List String} (hop : evaluates call.operation = some (subject, flagKeys)) {i : ℕ}
    (hi : i < flagKeys.length) :
    ∃ receipt ∈ c₁.receipts, receipt.receiptId = (σ.evaluation i).receiptId ∧
      receipt.rowSeq = (σ.evaluation i).rowSeq ∧
      receipt.evaluationKey = ⟨call.command.caller, call.command.actor, call.operation.name,
        evaluationId call.operation.name call.command.key i, flagKeys[i]⟩ := by
  rcases h.answers with ⟨hnone, -, -⟩ | ⟨subject', flagKeys', results, hop', -, hmore, hresults⟩
  · rw [hop] at hnone
    cases hnone
  · rw [hop] at hop'
    cases hop'
    have hat : (flagKeys[i], i) ∈ flagKeys.zipIdx 0 :=
      List.mem_iff_getElem.mpr ⟨i, by simpa using hi, by simp⟩
    obtain ⟨result, hresult, heval⟩ := Table.exists_of_mem_right hresults.flip hat
    refine ⟨result.2, ?_, Evaluated.receipt heval⟩
    rw [hmore]
    exact List.mem_append_left _ (List.mem_reverse.mpr (List.mem_map_of_mem hresult))

/-- The stamps of a call stand for each other under the pairing that the call leaves. -/
theorem Effect.stamps_alike (h : Effect rt σ c call response c₁)
    (h' : Effect rt σ' c' call response' c₁') :
    σ.Alike (pairing c₁ c₁') call.operation σ' where
  createdAt := trivial
  updatedAt := trivial
  archivedAt := trivial
  publishedAt := trivial
  environmentUpdatedAt := trivial
  answeredAt _ := trivial
  recordedAt _ := trivial
  rowSeq := by
    intro org flagKey name description valueType hop
    have hcreated : ∀ {codec : Codec} {σ : Stamp} {c c₁ : Store codec} {response : Response},
        Effect rt σ c call response c₁ →
          newFlag σ org flagKey name description valueType ∈ c₁.flags := by
      intro codec σ c c₁ response h
      cases h with
      | created hop' =>
        rw [hop] at hop'
        cases hop'
        exact List.mem_cons_self
      | evaluated hop' =>
        rw [hop] at hop'
        cases hop'
      | _ hop' =>
        rw [hop] at hop'
        cases hop'
    exact ⟨_, hcreated h, _, hcreated h', rfl, rfl, rfl⟩
  evaluation := by
    intro subject flagKeys hop i hi
    obtain ⟨receipt, hreceipt, hid, hseq, hkey⟩ := h.evaluated_receipt hop hi
    obtain ⟨receipt', hreceipt', hid', hseq', hkey'⟩ := h'.evaluated_receipt hop hi
    have hkeys := hkey.trans hkey'.symm
    exact ⟨⟨receipt, hreceipt, receipt', hreceipt', hkeys, hid, hid'⟩,
      receipt, hreceipt, receipt', hreceipt', hkeys, hseq, hseq'⟩

theorem Stamp.alike_any (operation : Operation) (σ σ' : Stamp) :
    σ.Alike Renaming.any operation σ' :=
  ⟨trivial, trivial, trivial, trivial, trivial, fun _ => trivial, fun _ => trivial,
    fun _ _ _ _ _ _ => trivial, fun _ _ _ _ _ => ⟨trivial, trivial⟩⟩

section Calls

variable (hcodec : Faithful codec rt) (hcodec' : Faithful codec' rt) (h : Pairs rt c c')

include hcodec hcodec' h

/-- An operation answers alike under the pairing it leaves. -/
theorem perform_pairs :
    Agree (fun x x' => Outcome (pairing x.2 x'.2) x x') (perform rt σ c call)
      (perform rt σ' c' call) := by
  have hany : Agree (Outcome Renaming.any) (perform rt σ c call) (perform rt σ' c' call) :=
    perform_alike hcodec hcodec' (h.alike.mono (Renaming.le_any _))
      (Stamp.alike_any call.operation σ σ')
  refine hany.values.mono ?_
  rintro ⟨response, c₁⟩ ⟨response', c₁'⟩ ⟨-, hperform, hperform'⟩
  have heffect := perform_effect hperform
  have heffect' := perform_effect hperform'
  have hpaired : Agree (Outcome (pairing c₁ c₁')) (perform rt σ c call) (perform rt σ' c' call) :=
    perform_alike hcodec hcodec'
      (h.alike.mono ((heffect.grows h.sound).pairing_le (heffect'.grows h.sound')))
      (heffect.stamps_alike heffect')
  rw [hperform, hperform'] at hpaired
  cases hpaired with
  | ok houtcome => exact houtcome

/-- A call answers alike under the pairing it leaves. -/
theorem attempt_pairs :
    Agree (fun x x' => x.1.Alike (pairing x.2 x'.2) x'.1 ∧ x.2.Alike (pairing x.2 x'.2) x'.2)
      (attempt rt σ c call) (attempt rt σ' c' call) := by
  unfold attempt
  refine (replay_alike h.alike).bind fun found found' hfound => ?_
  cases hfound with
  | some halike => exact .ok ⟨.replayed halike, h.alike⟩
  | none =>
    unfold fresh
    refine Agree.bind (R := fun x x' => Outcome (pairing x.2 x'.2) x x') ?_
      fun _ _ hdone => .ok ⟨.fresh hdone.response, hdone.store⟩
    refine (perform_pairs hcodec hcodec' h).values.bind ?_
    rintro ⟨response, c₁⟩ ⟨response', c₁'⟩ ⟨⟨hresponse, hstore⟩, hperform, hperform'⟩
    obtain ⟨stored, hstored⟩ := hcodec.encodes response
    obtain ⟨stored', hstored'⟩ := hcodec'.encodes response'
    unfold record
    dsimp only
    rw [hstored, hstored']
    refine .ok ⟨hresponse, { hstore with commands := .cons ?_ hstore.commands }⟩
    have heffect := perform_effect hperform
    have heffect' := perform_effect hperform'
    exact ⟨rfl, rfl, call.operation, response, response', rfl, heffect.kind, hresponse, hstored,
      hstored', hcodec.exact.evaluations.decodeResponse heffect.formed hstored,
      hcodec'.exact.evaluations.decodeResponse heffect'.formed hstored'⟩

end Calls

end LensoFlags.Abstract
