import LensoFlags.Postgres.Storage

/-!
# What the PostgreSQL transactions lock

Every statement's reply depends on the resources it `reads`, every write changes those it `touches`
(`footprint`), and every operation writes only under exclusive locks and reads only what is locked,
cannot change, or is checked again (`transaction_guarded`).
-/

namespace LensoFlags.Postgres

open Locking (Footprint)

variable {codec : Codec}

/-! ## Resources -/

/-- Two versions of the tables have the same rows of the resource. -/
def Resource.Agree (t t' : Tables codec) : Resource → Prop
  | .flag org flagKey =>
      t.flag org flagKey = t'.flag org flagKey ∧
        t.rulesetsOfFlag org flagKey = t'.rulesetsOfFlag org flagKey
  | .environment org environmentKey => t.environment org environmentKey =
      t'.environment org environmentKey
  | .command key => t.command key = t'.command key
  | .receiptId id => Table.lookup ReceiptRow.receiptId id t.receipts =
      Table.lookup ReceiptRow.receiptId id t'.receipts
  | .evaluation key => Table.lookup ReceiptRow.evaluationKey key t.receipts =
      Table.lookup ReceiptRow.evaluationKey key t'.receipts

def Statement.reads : Statement codec → List Resource
  | .selectCommand key => [.command key]
  | .insertCommand key _ => [.command key]
  | .updateCommand key _ => [.command key]
  | .insertFlag org flagKey .. => [.flag org flagKey]
  | .selectFlag org flagKey => [.flag org flagKey]
  | .lockFlag org flagKey => [.flag org flagKey]
  | .shareFlag org flagKey => [.flag org flagKey]
  | .updateFlag org flagKey .. => [.flag org flagKey]
  | .archiveFlag org flagKey => [.flag org flagKey]
  | .bumpFlag org flagKey => [.flag org flagKey]
  | .lockEnvironment org environmentKey => [.environment org environmentKey]
  | .insertEnvironment org environmentKey _ => [.environment org environmentKey]
  | .updateEnvironment org environmentKey _ => [.environment org environmentKey]
  | .bumpEnvironment org environmentKey => [.environment org environmentKey]
  | .selectEnvironment org environmentKey => [.environment org environmentKey]
  | .existsEnvironment org environmentKey => [.environment org environmentKey]
  | .nextRuleset org flagKey _ => [.flag org flagKey]
  | .insertRuleset org flagKey environmentKey .. =>
      [.flag org flagKey, .environment org environmentKey]
  | .latestRuleset org flagKey _ => [.flag org flagKey]
  | .generate => []
  | .insertReceipt receiptId command operation evaluationId _ flagKey .. =>
      [.receiptId receiptId,
        .evaluation ⟨command.caller, command.actor, operation, evaluationId, flagKey⟩]

def Write.touches : Write codec → List Resource
  | .insertFlag row => [.flag row.organizationId row.flagKey]
  | .updateFlag row => [.flag row.organizationId row.flagKey]
  | .insertEnvironment row => [.environment row.organizationId row.environmentKey]
  | .updateEnvironment row => [.environment row.organizationId row.environmentKey]
  | .insertRuleset row => [.flag row.organizationId row.flagKey]
  | .insertReceipt row => [.receiptId row.receiptId, .evaluation row.evaluationKey]
  | .insertCommand row => [.command row.key]
  | .updateCommand row => [.command row.key]

/-- What the writes of an `Ok` touch. -/
def ifOk {α : Type} (resources : List Resource) : Except DbError α → List Resource
  | .ok _ => resources
  | .error _ => []

def Statement.touched : (s : Statement codec) → s.Reply → List Resource
  | .insertCommand key _, reply => ifOk [.command key] reply
  | .updateCommand key _, reply => ifOk [.command key] reply
  | .insertFlag org flagKey .., reply => ifOk [.flag org flagKey] reply
  | .updateFlag org flagKey .., reply => ifOk [.flag org flagKey] reply
  | .archiveFlag org flagKey, reply => ifOk [.flag org flagKey] reply
  | .bumpFlag org flagKey, reply => ifOk [.flag org flagKey] reply
  | .insertEnvironment org environmentKey _, reply => ifOk [.environment org environmentKey] reply
  | .updateEnvironment org environmentKey _, reply => ifOk [.environment org environmentKey] reply
  | .bumpEnvironment org environmentKey, reply => ifOk [.environment org environmentKey] reply
  | .insertRuleset org flagKey .., reply => ifOk [.flag org flagKey] reply
  | .insertReceipt receiptId command operation evaluationId _ flagKey .., reply =>
      ifOk [.receiptId receiptId,
        .evaluation ⟨command.caller, command.actor, operation, evaluationId, flagKey⟩] reply
  | _, _ => []

/-- Environments are never removed. -/
def Tables.le (t t' : Tables codec) : Prop :=
  ∀ org key, (t.environment org key).isSome → (t'.environment org key).isSome

/-- Only the existence of an environment is read for good without a lock. -/
def Statement.stable : (s : Statement codec) → s.Reply → Prop
  | .existsEnvironment .., found => found = true
  | _, _ => False

/-- What a ruleset is checked against is locked. -/
def lax (e : StorageError) : Prop := e ≠ .domain .typeMismatch ∧ e ≠ .domain .invalidRuleset

/-! ## Writes -/

section Writes

variable {t t' : Tables codec} {r : Resource}

theorem Resource.Agree.apply (w : Write codec) (h : r.Agree t t') :
    r.Agree (w.apply t) (w.apply t') := by
  cases r with
  | flag org flagKey =>
    obtain ⟨hflag, hrulesets⟩ := h
    cases w with
    | insertFlag row =>
      refine ⟨?_, hrulesets⟩
      simp only [Tables.flag, Write.apply, Table.lookup_cons] at hflag ⊢
      rw [hflag]
    | updateFlag row =>
      refine ⟨?_, hrulesets⟩
      simp only [Tables.flag, Write.apply, Table.lookup_replace] at hflag ⊢
      rw [hflag]
    | insertRuleset row =>
      refine ⟨hflag, ?_⟩
      simp only [Tables.rulesetsOfFlag, Write.apply, List.filter_cons] at hrulesets ⊢
      rw [hrulesets]
    | _ => exact ⟨hflag, hrulesets⟩
  | environment org environmentKey =>
    cases w with
    | insertEnvironment row =>
      simp only [Resource.Agree, Tables.environment, Write.apply, Table.lookup_cons] at h ⊢
      rw [h]
    | updateEnvironment row =>
      simp only [Resource.Agree, Tables.environment, Write.apply, Table.lookup_replace] at h ⊢
      rw [h]
    | _ => exact h
  | command key =>
    cases w with
    | insertCommand row =>
      simp only [Resource.Agree, Tables.command, Write.apply, Table.lookup_cons] at h ⊢
      rw [h]
    | updateCommand row =>
      simp only [Resource.Agree, Tables.command, Write.apply, Table.lookup_replace] at h ⊢
      rw [h]
    | _ => exact h
  | receiptId id =>
    cases w with
    | insertReceipt row =>
      simp only [Resource.Agree, Write.apply, Table.lookup_cons] at h ⊢
      rw [h]
    | _ => exact h
  | evaluation key =>
    cases w with
    | insertReceipt row =>
      simp only [Resource.Agree, Write.apply, Table.lookup_cons] at h ⊢
      rw [h]
    | _ => exact h

theorem Resource.Agree.refl (r : Resource) (t : Tables codec) : r.Agree t t := by
  cases r with
  | flag => exact ⟨rfl, rfl⟩
  | _ => rfl

theorem Resource.Agree.trans {t'' : Tables codec} (h : r.Agree t t') (h' : r.Agree t' t'') :
    r.Agree t t'' := by
  cases r with
  | flag => exact ⟨h.1.trans h'.1, h.2.trans h'.2⟩
  | _ => exact Eq.trans h h'

/-- A write leaves the rows of what it does not touch. -/
theorem Resource.agree_of_untouched {w : Write codec} (h : r ∉ w.touches) :
    r.Agree t (w.apply t) := by
  cases r with
  | flag org flagKey =>
    cases w with
    | insertFlag row =>
      refine ⟨(Table.lookup_cons_of_ne _ fun hk => h ?_).symm, rfl⟩
      obtain ⟨rfl, rfl⟩ := Prod.mk.inj hk
      exact List.mem_cons_self
    | updateFlag row =>
      refine ⟨(Table.lookup_replace_of_ne _ fun hk => h ?_).symm, rfl⟩
      obtain ⟨rfl, rfl⟩ := Prod.mk.inj hk
      exact List.mem_cons_self
    | insertRuleset row =>
      refine ⟨rfl, (List.filter_cons_of_neg ?_).symm⟩
      simp only [decide_eq_true_eq]
      rintro ⟨rfl, rfl⟩
      exact h List.mem_cons_self
    | _ => exact ⟨rfl, rfl⟩
  | environment org environmentKey =>
    cases w with
    | insertEnvironment row =>
      refine (Table.lookup_cons_of_ne _ fun hk => h ?_).symm
      obtain ⟨rfl, rfl⟩ := Prod.mk.inj hk
      exact List.mem_cons_self
    | updateEnvironment row =>
      refine (Table.lookup_replace_of_ne _ fun hk => h ?_).symm
      obtain ⟨rfl, rfl⟩ := Prod.mk.inj hk
      exact List.mem_cons_self
    | _ => rfl
  | command key =>
    cases w with
    | insertCommand row =>
      exact (Table.lookup_cons_of_ne _ fun hk => h (by rw [← hk]; exact List.mem_cons_self)).symm
    | updateCommand row =>
      exact (Table.lookup_replace_of_ne _ fun hk => h (by rw [← hk]; exact List.mem_cons_self)).symm
    | _ => rfl
  | receiptId id =>
    cases w with
    | insertReceipt row =>
      exact (Table.lookup_cons_of_ne _ fun hk => h (by rw [← hk]; exact List.mem_cons_self)).symm
    | _ => rfl
  | evaluation key =>
    cases w with
    | insertReceipt row =>
      refine (Table.lookup_cons_of_ne _ fun hk => h ?_).symm
      rw [← hk]
      exact List.mem_cons_of_mem _ List.mem_cons_self
    | _ => rfl

theorem Tables.le_grow (w : Write codec) (t : Tables codec) : t.le (w.apply t) := by
  intro org key h
  cases w with
  | insertEnvironment row =>
    simp only [Tables.environment, Write.apply, Table.lookup_cons]
    split
    · rfl
    · exact h
  | updateEnvironment row =>
    simp only [Tables.environment, Write.apply, Table.lookup_replace]
    split
    · rw [Option.isSome_map]
      exact h
    · exact h
  | _ => exact h

theorem Tables.le.apply (w : Write codec) (h : t.le t') : (w.apply t).le (w.apply t') := by
  intro org key hsome
  cases w with
  | insertEnvironment row =>
    simp only [Tables.environment, Write.apply, Table.lookup_cons] at hsome ⊢
    split
    · rfl
    · next hk =>
      rw [if_neg hk] at hsome
      exact h org key hsome
  | updateEnvironment row =>
    simp only [Tables.environment, Write.apply, Table.lookup_replace] at hsome ⊢
    split
    · next hk =>
      rw [if_pos hk, Option.isSome_map] at hsome
      rw [Option.isSome_map]
      exact h org key hsome
    · next hk =>
      rw [if_neg hk] at hsome
      exact h org key hsome
  | _ => exact h org key hsome

end Writes

/-! ## Statements -/

section Statements

variable {t t' : Tables codec} {draw : Draw}

theorem Resource.Agree.rulesetsOf {org flagKey : String}
    (h : (Resource.flag org flagKey).Agree t t') (environmentKey : String) :
    t'.rulesetsOf org flagKey environmentKey = t.rulesetsOf org flagKey environmentKey := by
  rw [Tables.rulesetsOf, Tables.rulesetsOf, h.2]

theorem changeFlag_congr {org flagKey : String} (h : t.flag org flagKey = t'.flag org flagKey)
    (change : FlagRow → Int → FlagRow) :
    changeFlag t' org flagKey change = changeFlag t org flagKey change := by
  rw [changeFlag, changeFlag, h]

theorem changeEnvironment_congr {org environmentKey : String}
    (h : t.environment org environmentKey = t'.environment org environmentKey)
    (change : EnvironmentRow → Int → EnvironmentRow) :
    changeEnvironment t' org environmentKey change =
      changeEnvironment t org environmentKey change := by
  rw [changeEnvironment, changeEnvironment, h]

/-- A statement sees only what it reads. -/
theorem Statement.execute_congr {s : Statement codec} (h : ∀ r ∈ s.reads, r.Agree t t') :
    s.execute draw t' = s.execute draw t := by
  -- The resources that a statement reads decide each lookup it makes.
  cases s with
  | selectCommand key =>
    have hc : t.command key = t'.command key := h _ List.mem_cons_self
    simp only [execute, hc]
  | insertCommand key hash =>
    have hc : t.command key = t'.command key := h _ List.mem_cons_self
    simp only [execute, hc]
  | updateCommand key response =>
    have hc : t.command key = t'.command key := h _ List.mem_cons_self
    simp only [execute, hc]
  | lockEnvironment org key =>
    have he : t.environment org key = t'.environment org key := h _ List.mem_cons_self
    simp only [execute, he]
  | insertEnvironment org key name =>
    have he : t.environment org key = t'.environment org key := h _ List.mem_cons_self
    simp only [execute, he]
  | updateEnvironment org key name =>
    have he : t.environment org key = t'.environment org key := h _ List.mem_cons_self
    exact congrArg (updated _ _) (changeEnvironment_congr he _)
  | bumpEnvironment org key =>
    have he : t.environment org key = t'.environment org key := h _ List.mem_cons_self
    exact congrArg (updated _ _) (changeEnvironment_congr he _)
  | selectEnvironment org key =>
    have he : t.environment org key = t'.environment org key := h _ List.mem_cons_self
    simp only [execute, he]
  | existsEnvironment org key =>
    have he : t.environment org key = t'.environment org key := h _ List.mem_cons_self
    simp only [execute, he]
  | insertFlag org key name description valueType =>
    have hf : (Resource.flag org key).Agree t t' := h _ List.mem_cons_self
    simp only [execute, hf.1]
  | selectFlag org key =>
    have hf : (Resource.flag org key).Agree t t' := h _ List.mem_cons_self
    simp only [execute, hf.1]
  | lockFlag org key =>
    have hf : (Resource.flag org key).Agree t t' := h _ List.mem_cons_self
    simp only [execute, hf.1]
  | shareFlag org key =>
    have hf : (Resource.flag org key).Agree t t' := h _ List.mem_cons_self
    simp only [execute, hf.1]
  | updateFlag org key name description =>
    have hf : (Resource.flag org key).Agree t t' := h _ List.mem_cons_self
    exact congrArg (updated _ _) (changeFlag_congr hf.1 _)
  | archiveFlag org key =>
    have hf : (Resource.flag org key).Agree t t' := h _ List.mem_cons_self
    exact congrArg (updated _ _) (changeFlag_congr hf.1 _)
  | bumpFlag org key =>
    have hf : (Resource.flag org key).Agree t t' := h _ List.mem_cons_self
    exact congrArg (updated _ _) (changeFlag_congr hf.1 _)
  | nextRuleset org key environmentKey =>
    have hf : (Resource.flag org key).Agree t t' := h _ List.mem_cons_self
    simp only [execute, maxRuleset, hf.rulesetsOf]
  | insertRuleset org key environmentKey revision definition publishedBy =>
    have hf : (Resource.flag org key).Agree t t' := h _ List.mem_cons_self
    have he : t.environment org environmentKey = t'.environment org environmentKey :=
      h _ (List.mem_cons_of_mem _ List.mem_cons_self)
    simp only [execute, hf.rulesetsOf, hf.1, he]
  | latestRuleset org key environmentKey =>
    have hf : (Resource.flag org key).Agree t t' := h _ List.mem_cons_self
    simp only [execute, newestRuleset, hf.rulesetsOf]
  | generate => rfl
  | insertReceipt receiptId command operation evaluationId org key environmentKey variantKey reason
      revision contextHash evaluatedAt =>
    have hid : Table.lookup ReceiptRow.receiptId receiptId t.receipts =
        Table.lookup ReceiptRow.receiptId receiptId t'.receipts := h _ List.mem_cons_self
    have hkey : Table.lookup ReceiptRow.evaluationKey
          ⟨command.caller, command.actor, operation, evaluationId, key⟩ t.receipts =
        Table.lookup ReceiptRow.evaluationKey
          ⟨command.caller, command.actor, operation, evaluationId, key⟩ t'.receipts :=
      h _ (List.mem_cons_of_mem _ List.mem_cons_self)
    rw [execute, execute, hid]
    simp only [ReceiptRow.evaluationKey, hkey]
    rfl

/-- An `UPDATE` of one row touches what the row is. -/
theorem updated_touches {Row α : Type} {write : Row → Write codec}
    {reply : Option Row → Except DbError α} {found : Except DbError (Option Row)}
    {resources : List Resource} {w : Write codec} {r : Resource}
    (hrow : ∀ row, found = .ok (some row) → (write row).touches = resources)
    (hreply : ∀ row, ∃ a, reply (some row) = .ok a) (hw : w ∈ (updated write reply found).2)
    (hr : r ∈ w.touches) : r ∈ ifOk resources (updated write reply found).1 := by
  cases found with
  | error e => cases hw
  | ok found =>
    cases found with
    | none => cases hw
    | some row =>
      obtain ⟨a, ha⟩ := hreply row
      rw [List.mem_singleton.mp hw, hrow row rfl] at hr
      rw [updated, ha]
      exact hr

theorem changeFlag_touches {org flagKey : String} {change : FlagRow → Int → FlagRow}
    {row : FlagRow} (h : changeFlag t org flagKey change = .ok (some row))
    (hkey : ∀ row revision, (change row revision).key = row.key) :
    (@Write.updateFlag codec row).touches = [.flag org flagKey] := by
  rw [changeFlag_eq] at h
  obtain ⟨old, next, hold, rfl⟩ := changed_eq_some h
  have hk := (hkey old next).trans (Table.key_of_lookup hold)
  rw [Write.touches, show (change old next).organizationId = org from congrArg Prod.fst hk,
    show (change old next).flagKey = flagKey from congrArg Prod.snd hk]

theorem changeEnvironment_touches {org environmentKey : String}
    {change : EnvironmentRow → Int → EnvironmentRow}
    {row : EnvironmentRow} (h : changeEnvironment t org environmentKey change = .ok (some row))
    (hkey : ∀ row revision, (change row revision).key = row.key) :
    (@Write.updateEnvironment codec row).touches = [.environment org environmentKey] := by
  rw [changeEnvironment_eq] at h
  obtain ⟨old, next, hold, rfl⟩ := changed_eq_some h
  have hk := (hkey old next).trans (Table.key_of_lookup hold)
  rw [Write.touches, show (change old next).organizationId = org from congrArg Prod.fst hk,
    show (change old next).environmentKey = environmentKey from congrArg Prod.snd hk]

/-- The writes of a statement touch what its reply says. -/
theorem Statement.touches_execute {s : Statement codec} {w : Write codec} {r : Resource}
    (hw : w ∈ (s.execute draw t).2) (hr : r ∈ w.touches) :
    r ∈ s.touched (s.execute draw t).1 := by
  -- A statement that fails writes nothing, so only replies that succeed are left.
  cases s with
  | insertCommand key hash =>
    simp only [execute] at hw ⊢
    split at hw
    · cases hw
    · next hnone =>
      rw [if_neg hnone]
      rw [List.mem_singleton.mp hw] at hr
      exact hr
  | updateCommand key response =>
    simp only [execute] at hw ⊢
    cases hstored : encodeResponse codec response with
    | none =>
      rw [hstored] at hw
      cases hw
    | some stored =>
      rw [hstored] at hw
      obtain ⟨row, hrow, rfl⟩ := Option.map_eq_some_iff.mp (Option.mem_toList.mp hw)
      rw [Write.touches, show row.key = key from Table.key_of_lookup hrow] at hr
      exact hr
  | insertFlag org key name description valueType =>
    simp only [execute] at hw ⊢
    split at hw
    · cases hw
    · next htype =>
      split at hw
      · cases hw
      · next hnone =>
        rw [if_neg htype, if_neg hnone]
        rw [List.mem_singleton.mp hw] at hr
        exact hr
  | updateFlag org key name description =>
    exact updated_touches (fun _ hrow => changeFlag_touches hrow fun _ _ => rfl) (fun _ => ⟨_, rfl⟩)
      hw hr
  | archiveFlag org key =>
    exact updated_touches (fun _ hrow => changeFlag_touches hrow fun _ _ => rfl) (fun _ => ⟨_, rfl⟩)
      hw hr
  | bumpFlag org key =>
    exact updated_touches (fun _ hrow => changeFlag_touches hrow fun _ _ => rfl) (fun _ => ⟨_, rfl⟩)
      hw hr
  | insertEnvironment org key name =>
    simp only [execute] at hw ⊢
    split at hw
    · cases hw
    · next hnone =>
      rw [if_neg hnone]
      rw [List.mem_singleton.mp hw] at hr
      exact hr
  | updateEnvironment org key name =>
    exact updated_touches (fun _ hrow => changeEnvironment_touches hrow fun _ _ => rfl)
      (fun _ => ⟨_, rfl⟩) hw hr
  | bumpEnvironment org key =>
    exact updated_touches (fun _ hrow => changeEnvironment_touches hrow fun _ _ => rfl)
      (fun _ => ⟨_, rfl⟩) hw hr
  | insertRuleset org key environmentKey revision definition publishedBy =>
    simp only [execute] at hw ⊢
    cases hdocument : codec.encodeDefinition definition with
    | none =>
      rw [hdocument] at hw
      cases hw
    | some document =>
      simp only [hdocument] at hw ⊢
      split at hw
      · cases hw
      · next hpos =>
        split at hw
        · cases hw
        · next hunique =>
          split at hw
          · cases hw
          · next hforeign =>
            rw [if_neg hpos, if_neg hunique, if_neg hforeign]
            rw [List.mem_singleton.mp hw] at hr
            exact hr
  | insertReceipt receiptId command operation evaluationId org key environmentKey variantKey reason
      revision contextHash evaluatedAt =>
    simp only [execute] at hw ⊢
    split at hw
    · cases hw
    · next hcheck =>
      split at hw
      · cases hw
      · next hunique =>
        rw [if_neg hcheck, if_neg hunique]
        rw [List.mem_singleton.mp hw] at hr
        exact hr
  | _ => cases hw

theorem Statement.stable_execute {s : Statement codec} (h : s.stable (s.execute draw t).1)
    (hle : t.le t') : s.execute draw t' = s.execute draw t := by
  cases s with
  | existsEnvironment org key =>
    simp only [stable, execute] at h ⊢
    rw [h, hle org key h]
  | _ => cases h

end Statements

/-- The footprint of the transactions. -/
def footprint (codec : Codec) (describe : DbError → String) (rt : Runtime) :
    Footprint (store codec describe rt) :=
  { agree := fun r t t' => r.Agree t t'
    reads := Statement.reads
    touches := Write.touches
    touched := Statement.touched
    le := Tables.le
    stable := Statement.stable
    lax := lax
    agree_refl := Resource.Agree.refl
    agree_trans := Resource.Agree.trans
    agree_apply := fun w h => h.apply w
    agree_of_untouched := Resource.agree_of_untouched
    exec_congr := Statement.execute_congr
    touches_exec := Statement.touches_execute
    le_refl := fun _ _ _ h => h
    le_trans := fun h h' org key hsome => h' org key (h org key hsome)
    le_grow := Tables.le_grow
    le_apply := fun w h => h.apply w
    stable_exec := Statement.stable_execute }

end LensoFlags.Postgres
