import LensoFlags.Lib.Locking

/-!
# Two runs side by side

Two programs, each on a store and with draws of its own, that take as many statements and end with
related values or with the same error.

Results:
1. `Tally.bind`: what follows is compared on related values.
2. `Beside.alone`: what two transactions that run side by side come to.
-/

/-! ## Computations -/

/-- Related values, or the same error. -/
inductive Tally {ε α β : Type} (R : α → β → Prop) : Except ε α → Except ε β → Prop
  | ok {a : α} {b : β} : R a b → Tally R (.ok a) (.ok b)
  | error (e : ε) : Tally R (.error e) (.error e)

section Tally

variable {ε α β γ δ : Type} {R : α → β → Prop} {S : γ → δ → Prop} {x : Except ε α} {y : Except ε β}

theorem Tally.refl (x : Except ε α) : Tally (· = ·) x x := by
  cases x with
  | ok a => exact .ok rfl
  | error e => exact .error e

theorem Tally.bind {f : α → Except ε γ} {g : β → Except ε δ} (h : Tally R x y)
    (hfg : ∀ a b, x = .ok a → R a b → Tally S (f a) (g b)) : Tally S (x >>= f) (y >>= g) := by
  cases h with
  | ok hab => exact hfg _ _ rfl hab
  | error e => exact .error e

/-- What follows one computation that both make. -/
theorem Tally.bind_same {f : α → Except ε γ} {g : α → Except ε δ}
    (hfg : ∀ a, x = .ok a → Tally S (f a) (g a)) : Tally S (x >>= f) (x >>= g) := by
  refine (Tally.refl x).bind fun a b ha hab => ?_
  subst hab
  exact hfg a ha

theorem Tally.map {f : α → γ} {g : β → δ} (h : Tally R x y) (hfg : ∀ a b, R a b → S (f a) (g b)) :
    Tally S (x.map f) (y.map g) := by
  cases h with
  | ok hab => exact .ok (hfg _ _ hab)
  | error e => exact .error e

end Tally

/-! ## Programs -/

namespace Locking.Database

variable (db : Database) {α β : Type}

/-- The programs, run from their statement `n` on, take as many statements and end in `Q` or with the
same error. -/
inductive Beside (δ δ' : ℕ → db.Draw) (Q : α → β → db.Store → db.Store → Prop) :
    ℕ → Program db.Stmt db.Reply db.Err α → Program db.Stmt db.Reply db.Err β → db.Store →
      db.Store → Prop
  | ret {n : ℕ} {a : α} {b : β} {c c' : db.Store} : Q a b c c' → Beside δ δ' Q n (.ret a) (.ret b) c c'
  | fail {n : ℕ} (e : db.Err) {c c' : db.Store} : Beside δ δ' Q n (.fail e) (.fail e) c c'
  | step {n : ℕ} {s s' : db.Stmt} {k : db.Reply s → Program db.Stmt db.Reply db.Err α}
      {k' : db.Reply s' → Program db.Stmt db.Reply db.Err β} {c c' : db.Store} :
      Beside δ δ' Q (n + 1) (k (db.exec (δ n) s c).1) (k' (db.exec (δ' n) s' c').1)
        (db.applyAll (db.exec (δ n) s c).2 c) (db.applyAll (db.exec (δ' n) s' c').2 c') →
      Beside δ δ' Q n (.step s k) (.step s' k') c c'

variable {db} {δ δ' : ℕ → db.Draw} {n : ℕ} {c c' : db.Store}

theorem Beside.runOn {Q : α → β → db.Store → db.Store → Prop}
    {p : Program db.Stmt db.Reply db.Err α} {p' : Program db.Stmt db.Reply db.Err β}
    (h : db.Beside δ δ' Q n p p' c c') :
    Tally (fun a b => Q a b (db.runOn δ n p c).2 (db.runOn δ' n p' c').2) (db.runOn δ n p c).1
      (db.runOn δ' n p' c').1 := by
  induction h with
  | ret hQ => exact .ok hQ
  | fail e => exact .error e
  | step _ ih => exact ih

/-- Two transactions that run side by side: their tables end in `Q`, or are left as they were. -/
theorem Beside.alone {Q : db.Value → db.Value → db.Store → db.Store → Prop} {call call' : db.Call}
    (h : db.Beside δ δ' Q 0 (db.body call) (db.body call') c c') :
    Tally (fun a b => Q a b (db.alone δ c call).2 (db.alone δ' c' call').2) (db.alone δ c call).1
        (db.alone δ' c' call').1 ∧
      (∀ e, (db.alone δ c call).1 = .error e →
        (db.alone δ c call).2 = c ∧ (db.alone δ' c' call').2 = c') := by
  have hrun := h.runOn
  unfold Database.alone
  generalize db.runOn δ 0 (db.body call) c = x at hrun
  generalize db.runOn δ' 0 (db.body call') c' = x' at hrun
  obtain ⟨value, d⟩ := x
  obtain ⟨value', d'⟩ := x'
  cases hrun with
  | ok hQ => exact ⟨.ok hQ, nofun⟩
  | error e => exact ⟨.error e, fun _ _ => ⟨rfl, rfl⟩⟩

end Locking.Database
