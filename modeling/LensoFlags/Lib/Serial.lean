import Mathlib.Data.List.Basic

/-!
# Serial runs

The calls of a log run one at a time from a first state.
-/

namespace Serial

/-- A call that took effect: who made it, what it drew, what it returned. -/
structure Entry (Call Draws Value : Type) where
  session : ℕ
  call : Call
  draws : Draws
  value : Value

variable {Call Draws Value Err Store : Type}

/-- `log` (newest first) run one call at a time from `c₀` gives `c` and the logged values. -/
inductive Runs (run : Draws → Store → Call → Except Err Value × Store) (c₀ : Store) :
    List (Entry Call Draws Value) → Store → Prop
  | nil : Runs run c₀ [] c₀
  | cons {log : List (Entry Call Draws Value)} {c c' : Store} {e : Entry Call Draws Value} :
      Runs run c₀ log c → run e.draws c e.call = (.ok e.value, c') → Runs run c₀ (e :: log) c'

variable {run : Draws → Store → Call → Except Err Value × Store} {c₀ c c' : Store}
  {e : Entry Call Draws Value} {log log' : List (Entry Call Draws Value)}

/-- The store after a log is determined by the log. -/
theorem Runs.unique (h : Runs run c₀ log c) (h' : Runs run c₀ log c') : c = c' := by
  induction h generalizing c' with
  | nil => cases h'; rfl
  | cons _ he ih =>
    cases h' with
    | cons hlog he' =>
      cases ih hlog
      rw [he] at he'
      exact (Prod.mk.inj he').2

/-- Every entry returned its value on the store its predecessors had left. -/
theorem Runs.of_mem (h : Runs run c₀ log c') (he : e ∈ log) :
    ∃ older newer c c₁, log = newer ++ e :: older ∧ Runs run c₀ older c ∧
      run e.draws c e.call = (.ok e.value, c₁) ∧ Runs run c₀ (e :: older) c₁ := by
  induction h with
  | nil => cases he
  | @cons older c c₁ newest hold hrun ih =>
    rcases List.mem_cons.mp he with rfl | he
    · exact ⟨older, [], c, c₁, rfl, hold, hrun, .cons hold hrun⟩
    · obtain ⟨older', newer, c, c₁, rfl, hrest⟩ := ih he
      exact ⟨older', newest :: newer, c, c₁, rfl, hrest⟩

end Serial
