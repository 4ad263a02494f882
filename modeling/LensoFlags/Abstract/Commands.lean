import LensoFlags.Abstract.Sound
import LensoFlags.Retold

/-!
# The commands of a log

A command row is of the one call that took effect under its key. An answer to any call with that key
is the response of that call.

Results:
1. `Commits.behind`: the call behind a command row.
2. `Commits.once`: one call takes effect under a key.
3. `Commits.replays`: a retry of a call that took effect.
4. `Commits.settled`: the call an answer comes from.
-/

namespace LensoFlags.Abstract

variable {codec : Codec} {rt : Runtime} {c : Store codec}
  {log : List (Serial.Entry Call Draws Answer)}

/-- The call took effect, and the row is of it. -/
structure Behind (e : Serial.Entry Call Draws Answer) (row : CommandRow codec) : Prop where
  key : e.call.commandKey = row.key
  hash : e.call.command.hash = row.requestHash
  response : ∃ response, e.value = .fresh response ∧ response.kind = e.call.operation.kind ∧
    encodeResponse codec response = some row.response

theorem Commits.behind (h : Commits rt log c) :
    ∀ row ∈ c.commands, ∃ e ∈ log, Behind e row := by
  induction h with
  | nil => exact fun _ hrow => absurd hrow List.not_mem_nil
  | @cons log e c c' σ hold hσ hattempt ih =>
    have hlater : ∀ row ∈ c.commands, ∃ e' ∈ e :: log, Behind e' row := by
      intro row hrow
      obtain ⟨e', he', hbehind⟩ := ih row hrow
      exact ⟨e', List.mem_cons_of_mem _ he', hbehind⟩
    rcases attempt_eq_ok hattempt with ⟨_, -, rfl, -⟩ | ⟨response, hvalue, -, hfresh⟩
    · exact hlater
    · obtain ⟨c₁, stored, heffect, hstored, rfl⟩ := fresh_effect hfresh
      intro row hrow
      rcases List.mem_cons.mp hrow with rfl | hrow
      · exact ⟨e, List.mem_cons_self, rfl, rfl, response, hvalue, heffect.kind, hstored⟩
      · rw [heffect.commands] at hrow
        exact hlater row hrow

theorem mem_history {e : Serial.Entry Call Draws Answer} (he : e ∈ log) {response : Response}
    (hvalue : e.value = .fresh response) : (e.call, response) ∈ LensoFlags.history log := by
  rw [LensoFlags.history, List.mem_filterMap]
  exact ⟨e, he, by rw [hvalue]⟩

/-- A call that took effect has a row. -/
theorem Commits.row (h : Commits rt log c) {e : Serial.Entry Call Draws Answer} (he : e ∈ log)
    {response : Response} (hvalue : e.value = .fresh response) :
    ∃ row ∈ c.commands, row.key = e.call.commandKey := by
  have hkey : e.call.commandKey ∈ c.commands.map CommandRow.key := by
    rw [h.run.commandKeys]
    exact List.mem_map_of_mem (f := fun entry : Call × Response => entry.1.commandKey)
      (mem_history he hvalue)
  exact List.mem_map.mp hkey

theorem Commits.once (h : Commits rt log c) {e e' : Serial.Entry Call Draws Answer} (he : e ∈ log)
    (he' : e' ∈ log) {response response' : Response} (hvalue : e.value = .fresh response)
    (hvalue' : e'.value = .fresh response') (hkey : e.call.commandKey = e'.call.commandKey) :
    e = e' := by
  induction h with
  | nil => cases he
  | @cons log new c c' σ hold hσ hattempt ih =>
    -- A call with the key of an older effect is answered from its row.
    have hreplays : ∀ old ∈ log, ∀ older newer, old.value = .fresh older →
        new.value = .fresh newer → old.call.commandKey ≠ new.call.commandKey := by
      intro old hmem older newer hold' hnew hsame
      rcases attempt_eq_ok hattempt with ⟨_, hreplayed, -, -⟩ | ⟨_, -, hnone, -⟩
      · rw [hnew] at hreplayed
        cases hreplayed
      · obtain ⟨row, hrow, hrowkey⟩ := hold.row hmem hold'
        exact Table.lookup_eq_none.mp hnone row hrow (hrowkey.trans hsame)
    rcases List.mem_cons.mp he with heq | he <;> rcases List.mem_cons.mp he' with heq' | he'
    · rw [heq, heq']
    · rw [heq] at hvalue hkey
      exact absurd hkey.symm (hreplays e' he' _ _ hvalue' hvalue)
    · rw [heq'] at hvalue' hkey
      exact absurd hkey (hreplays e he _ _ hvalue hvalue')
    · exact ih he he'

/-- A response is of the kind of its call. -/
theorem Commits.kind (h : Commits rt log c) {e : Serial.Entry Call Draws Answer} (he : e ∈ log)
    {response : Response} (hvalue : e.value = .fresh response) :
    response.kind = e.call.operation.kind := by
  obtain ⟨older, newer, c₀, c₁, σ, hlog, hold, -, hattempt⟩ := h.of_mem he
  rcases attempt_eq_ok hattempt with ⟨_, hreplayed, -, -⟩ | ⟨response', hfresh, -, hnew⟩
  · rw [hvalue] at hreplayed
    cases hreplayed
  · rw [hvalue] at hfresh
    cases hfresh
    obtain ⟨_, _, heffect, -⟩ := fresh_effect hnew
    exact heffect.kind

/-- A retry of a call that took effect is answered from its row. -/
theorem Commits.replays (h : Commits rt log c) {e : Serial.Entry Call Draws Answer} (he : e ∈ log)
    {response : Response} (hvalue : e.value = .fresh response) {call : Call}
    (hkey : e.call.commandKey = call.commandKey) (hhash : e.call.command.hash = call.command.hash)
    (σ : Stamp) :
    ∃ stored, encodeResponse codec response = some stored ∧
      exec rt σ c call =
        ((orJson (decodeResponse codec response.kind stored)).map .replayed, c) := by
  obtain ⟨row, hrow, hrowkey⟩ := h.row he hvalue
  obtain ⟨e', he', hkey', hhash', response', hvalue', hkind, hstored⟩ := h.behind row hrow
  -- The row of the key is of the one call that took effect under it.
  have hsame : e' = e := h.once he' he hvalue' hvalue (hkey'.trans hrowkey)
  subst hsame
  rw [hvalue] at hvalue'
  cases hvalue'
  have hfound : c.command call.commandKey = some row := by
    rw [← hkey, ← hrowkey]
    exact Table.lookup_of_mem h.run.sound.commandKeys hrow
  refine ⟨row.response, hstored, ?_⟩
  rw [hkind, Operation.kind_eq_of_name (CommandKey.mk.inj hkey).2.2.1]
  unfold exec attempt replay
  simp only [hfound]
  rw [if_neg (not_not.mpr (hhash'.symm.trans hhash))]
  cases decodeResponse codec call.operation.kind row.response <;> rfl

/-- An answer is the response of the call that took effect under its key, or what that response is
stored as, and that call has the same hash. -/
theorem Commits.settled (h : Commits rt log c) {e : Serial.Entry Call Draws Answer} (he : e ∈ log) :
    ∃ e' ∈ log, ∃ original, e'.value = .fresh original ∧
      Retold codec original e.value.response ∧ e'.call.commandKey = e.call.commandKey ∧
      e'.call.command.hash = e.call.command.hash := by
  obtain ⟨older, newer, c₀, c₁, σ, hlog, hold, -, hattempt⟩ := h.of_mem he
  rcases attempt_eq_ok hattempt with ⟨response, hvalue, -, hreplay⟩ | ⟨response, hvalue, -, -⟩
  · unfold replay at hreplay
    cases hrow : c₀.command e.call.commandKey with
    | none =>
      rw [hrow] at hreplay
      cases hreplay
    | some row =>
      rw [hrow] at hreplay
      obtain ⟨e', he', hkey, hhash, original, hvalue', hkind, hstored⟩ :=
        hold.behind row (Table.mem_of_lookup hrow)
      have hkeys : e'.call.commandKey = e.call.commandKey := hkey.trans (Table.key_of_lookup hrow)
      have hname : e'.call.operation.name = e.call.operation.name :=
        (CommandKey.mk.inj hkeys).2.2.1
      dsimp only at hreplay
      split at hreplay
      · cases hreplay
      · next hsame =>
        cases hdecode : decodeResponse codec e.call.operation.kind row.response with
        | none =>
          rw [hdecode] at hreplay
          cases hreplay
        | some told =>
          rw [hdecode] at hreplay
          cases hreplay
          rw [← Operation.kind_eq_of_name hname, ← hkind] at hdecode
          refine ⟨e', ?_, original, hvalue', ?_, hkeys, hhash.trans (not_not.mp hsame)⟩
          · rw [hlog]
            exact List.mem_append_right _ (List.mem_cons_of_mem _ he')
          · rw [hvalue]
            exact .read hstored hdecode
  · refine ⟨e, he, response, hvalue, ?_, rfl, rfl⟩
    rw [hvalue]
    exact .made

end LensoFlags.Abstract
