import LensoFlags.Lib.Locking

/-!
# Dialogues of a program

A program asks its surroundings, one statement at a time, and they may reply anything. `Runs` relates
a program to the statements and replies of one of its runs and to what the run ends with.

1. `runs_bind`, `runs_map`, `runs_mapError`: the runs of a composition.
2. `Never`: a program that asks nothing of a kind; `Asks`: a program that asks at most one thing.
3. `Follows`: a program in the middle of a run; `Follows.runs`: it is on the way to a whole one.
-/

namespace Locking.Program

variable {Stmt : Type} {Reply : Stmt → Type} {Err Err' α β : Type}

/-- The same program with its failures renamed. -/
def mapError (f : Err → Err') : Program Stmt Reply Err α → Program Stmt Reply Err' α
  | .ret a => .ret a
  | .fail e => .fail (f e)
  | .step s k => .step s fun reply => (k reply).mapError f

/-- A statement and the reply to it. -/
abbrev Exchange (Reply : Stmt → Type) := (s : Stmt) × Reply s

/-- The exchanges of a run, in order, and its result. -/
inductive Runs : Program Stmt Reply Err α → List (Exchange Reply) → Except Err α → Prop
  | ret {a : α} : Runs (.ret a) [] (.ok a)
  | fail {e : Err} : Runs (.fail e) [] (.error e)
  | step {s : Stmt} {k : Reply s → Program Stmt Reply Err α} {reply : Reply s}
      {rest : List (Exchange Reply)} {result : Except Err α} :
      Runs (k reply) rest result → Runs (.step s k) (⟨s, reply⟩ :: rest) result

/-! ## Compositions -/

@[simp] theorem runs_ret {a : α} {trace : List (Exchange Reply)} {result : Except Err α} :
    Runs (.ret a : Program Stmt Reply Err α) trace result ↔ trace = [] ∧ result = .ok a := by
  constructor
  · intro h
    cases h
    exact ⟨rfl, rfl⟩
  · rintro ⟨rfl, rfl⟩
    exact .ret

@[simp] theorem runs_fail {e : Err} {trace : List (Exchange Reply)} {result : Except Err α} :
    Runs (.fail e : Program Stmt Reply Err α) trace result ↔ trace = [] ∧ result = .error e := by
  constructor
  · intro h
    cases h
    exact ⟨rfl, rfl⟩
  · rintro ⟨rfl, rfl⟩
    exact .fail

theorem runs_step {s : Stmt} {k : Reply s → Program Stmt Reply Err α}
    {trace : List (Exchange Reply)} {result : Except Err α} :
    Runs (.step s k) trace result ↔
      ∃ reply rest, trace = ⟨s, reply⟩ :: rest ∧ Runs (k reply) rest result := by
  constructor
  · intro h
    cases h with
    | step hrest => exact ⟨_, _, rfl, hrest⟩
  · rintro ⟨reply, rest, rfl, hrest⟩
    exact .step hrest

/-- A run of a composition is a run of its first part that failed, or one that returned and a run
of the second part on what it returned. -/
theorem runs_bind {p : Program Stmt Reply Err α} {f : α → Program Stmt Reply Err β}
    {trace : List (Exchange Reply)} {result : Except Err β} :
    Runs (p >>= f) trace result ↔
      (∃ e, result = .error e ∧ Runs p trace (.error e)) ∨
        ∃ first second a, trace = first ++ second ∧ Runs p first (.ok a) ∧
          Runs (f a) second result := by
  -- On the first part: the exchanges it has left move from the composition to it.
  induction p generalizing trace with
  | ret a =>
    rw [ret_bind]
    constructor
    · exact fun h => .inr ⟨[], trace, a, rfl, .ret, h⟩
    · rintro (⟨e, -, h⟩ | ⟨first, second, a', rfl, hfirst, hsecond⟩)
      · cases h
      · cases hfirst
        exact hsecond
  | fail e =>
    rw [fail_bind]
    constructor
    · intro h
      cases h
      exact .inl ⟨e, rfl, .fail⟩
    · rintro (⟨e', rfl, h⟩ | ⟨first, second, a, rfl, hfirst, -⟩)
      · cases h
        exact .fail
      · cases hfirst
  | step s k ih =>
    rw [step_bind]
    constructor
    · intro h
      cases h with
      | step hrest =>
        rcases (ih _).mp hrest with ⟨e, rfl, h⟩ | ⟨first, second, a, rfl, hfirst, hsecond⟩
        · exact .inl ⟨e, rfl, .step h⟩
        · exact .inr ⟨_ :: first, second, a, rfl, .step hfirst, hsecond⟩
    · rintro (⟨e, rfl, h⟩ | ⟨first, second, a, rfl, hfirst, hsecond⟩)
      · cases h with
        | step hrest => exact .step ((ih _).mpr (.inl ⟨e, rfl, hrest⟩))
      · cases hfirst with
        | step hrest => exact .step ((ih _).mpr (.inr ⟨_, second, a, rfl, hrest, hsecond⟩))

/-- A run of a program whose result is mapped. -/
theorem runs_map {f : α → β} {p : Program Stmt Reply Err α} {trace : List (Exchange Reply)}
    {result : Except Err β} :
    Runs (f <$> p) trace result ↔ ∃ inner, Runs p trace inner ∧ result = inner.map f := by
  change Runs (p >>= fun a => .ret (f a)) trace result ↔ _
  rw [runs_bind]
  constructor
  · rintro (⟨e, rfl, hfailed⟩ | ⟨first, second, a, rfl, hfirst, hsecond⟩)
    · exact ⟨.error e, hfailed, rfl⟩
    · obtain ⟨rfl, rfl⟩ := runs_ret.mp hsecond
      rw [List.append_nil]
      exact ⟨.ok a, hfirst, rfl⟩
  · rintro ⟨inner, hinner, rfl⟩
    cases inner with
    | ok a => exact .inr ⟨trace, [], a, (List.append_nil trace).symm, hinner, .ret⟩
    | error e => exact .inl ⟨e, rfl, hinner⟩

theorem runs_mapError {f : Err → Err'} {p : Program Stmt Reply Err α}
    {trace : List (Exchange Reply)} {result : Except Err' α} :
    Runs (p.mapError f) trace result ↔ ∃ inner, Runs p trace inner ∧ result = inner.mapError f := by
  induction p generalizing trace with
  | ret a => simp [mapError, Except.mapError]
  | fail e => simp [mapError, Except.mapError]
  | step s k ih =>
    rw [mapError, runs_step]
    constructor
    · rintro ⟨reply, rest, rfl, hrest⟩
      obtain ⟨inner, hinner, rfl⟩ := (ih reply).mp hrest
      exact ⟨inner, .step hinner, rfl⟩
    · rintro ⟨inner, hinner, rfl⟩
      obtain ⟨reply, rest, rfl, hrest⟩ := runs_step.mp hinner
      exact ⟨reply, rest, rfl, (ih reply).mpr ⟨inner, hrest, rfl⟩⟩

/-! ## Questions of a kind -/

/-- The program asks nothing that satisfies `P`. -/
def Never (P : Stmt → Prop) : Program Stmt Reply Err α → Prop
  | .step s k => ¬P s ∧ ∀ reply, Never P (k reply)
  | _ => True

theorem Never.bind {P : Stmt → Prop} {p : Program Stmt Reply Err α}
    {f : α → Program Stmt Reply Err β} (h : Never P p) (hf : ∀ a, Never P (f a)) :
    Never P (p >>= f) := by
  induction p with
  | ret a => exact hf a
  | fail e => trivial
  | step s k ih => exact ⟨h.1, fun reply => ih reply (h.2 reply)⟩

theorem Never.runs {P : Stmt → Prop} {p : Program Stmt Reply Err α} (h : Never P p)
    {trace : List (Exchange Reply)} {result : Except Err α} (hruns : Runs p trace result) :
    ∀ exchange ∈ trace, ¬P exchange.1 := by
  induction hruns with
  | ret => exact fun _ hmem => absurd hmem List.not_mem_nil
  | fail => exact fun _ hmem => absurd hmem List.not_mem_nil
  | step _ ih =>
    intro exchange hmem
    rcases List.mem_cons.mp hmem with rfl | hmem
    · exact h.1
    · exact ih (h.2 _) exchange hmem

/-! ## Single questions -/

/-- The program returns or fails without asking. -/
def Silent : Program Stmt Reply Err α → Prop
  | .step _ _ => False
  | _ => True

/-- The program asks nothing, or one thing that satisfies `P`. -/
def Asks (P : Stmt → Prop) : Program Stmt Reply Err α → Prop
  | .step s k => P s ∧ ∀ reply, Silent (k reply)
  | _ => True

theorem Silent.asks {P : Stmt → Prop} {p : Program Stmt Reply Err α} (h : Silent p) : Asks P p := by
  cases p with
  | ret a => trivial
  | fail e => trivial
  | step s k => exact h.elim

theorem Silent.never {P : Stmt → Prop} {p : Program Stmt Reply Err α} (h : Silent p) :
    Never P p := by
  cases p with
  | ret a => trivial
  | fail e => trivial
  | step s k => exact h.elim

theorem Silent.bind {p : Program Stmt Reply Err α} {f : α → Program Stmt Reply Err β}
    (h : Silent p) (hf : ∀ a, Silent (f a)) : Silent (p >>= f) := by
  cases p with
  | ret a => exact hf a
  | fail e => trivial
  | step s k => exact h.elim

/-- What does not ask may come before what asks. -/
theorem Asks.bind_silent {P : Stmt → Prop} {p : Program Stmt Reply Err α}
    {f : α → Program Stmt Reply Err β} (h : Silent p) (hf : ∀ a, Asks P (f a)) :
    Asks P (p >>= f) := by
  cases p with
  | ret a => exact hf a
  | fail e => trivial
  | step s k => exact h.elim

/-- What comes after sees what the silent part returned. -/
theorem Asks.bind_ret {P : Stmt → Prop} {p : Program Stmt Reply Err α}
    {f : α → Program Stmt Reply Err β} (h : Silent p) (hf : ∀ a, p = .ret a → Asks P (f a)) :
    Asks P (p >>= f) := by
  cases p with
  | ret a => exact hf a rfl
  | fail e => trivial
  | step s k => exact h.elim

theorem Silent.mapError {f : Err → Err'} {p : Program Stmt Reply Err α} (h : Silent p) :
    Silent (p.mapError f) := by
  cases p with
  | ret a => trivial
  | fail e => trivial
  | step s k => exact h.elim

/-- A pure step in front of a run that returned has returned. -/
theorem Silent.runs_bind_ok {p : Program Stmt Reply Err α} {f : α → Program Stmt Reply Err β}
    (h : Silent p) {trace : List (Exchange Reply)} {b : β}
    (hruns : Runs (p >>= f) trace (.ok b)) : ∃ a, p = .ret a ∧ Runs (f a) trace (.ok b) := by
  cases p with
  | ret a => exact ⟨a, rfl, hruns⟩
  | fail e => cases hruns
  | step s k => exact h.elim

theorem Silent.runs {p : Program Stmt Reply Err α} (h : Silent p)
    {trace : List (Exchange Reply)} {result : Except Err α} (hruns : Runs p trace result) :
    trace = [] := by
  cases hruns with
  | ret => rfl
  | fail => rfl
  | step _ => exact h.elim

theorem Asks.runs {P : Stmt → Prop} {p : Program Stmt Reply Err α} (h : Asks P p)
    {trace : List (Exchange Reply)} {result : Except Err α} (hruns : Runs p trace result) :
    trace = [] ∨ ∃ s reply, trace = [⟨s, reply⟩] ∧ P s := by
  cases hruns with
  | ret => exact .inl rfl
  | fail => exact .inl rfl
  | step hrest =>
    rw [(h.2 _).runs hrest]
    exact .inr ⟨_, _, rfl, h.1⟩

/-! ## Runs under way -/

/-- After the exchanges the program has come to what is left. -/
inductive Follows : Program Stmt Reply Err α → List (Exchange Reply) → Program Stmt Reply Err α →
    Prop
  | refl {p : Program Stmt Reply Err α} : Follows p [] p
  | step {s : Stmt} {k : Reply s → Program Stmt Reply Err α} {reply : Reply s}
      {trace : List (Exchange Reply)} {rest : Program Stmt Reply Err α} :
      Follows (k reply) trace rest → Follows (.step s k) (⟨s, reply⟩ :: trace) rest

section Follows

variable {p q : Program Stmt Reply Err α} {trace trace' : List (Exchange Reply)}

/-- One more exchange. -/
theorem Follows.snoc {s : Stmt} {k : Reply s → Program Stmt Reply Err α}
    (h : Follows p trace (.step s k)) (reply : Reply s) :
    Follows p (trace ++ [⟨s, reply⟩]) (k reply) := by
  generalize hq : Program.step s k = q at h
  induction h with
  | refl =>
    subst hq
    exact .step .refl
  | step _ ih => exact .step (ih hq)

theorem Follows.runs {result : Except Err α} (h : Follows p trace q) (hruns : Runs q trace' result) :
    Runs p (trace ++ trace') result := by
  induction h with
  | refl => exact hruns
  | step _ ih => exact .step (ih hruns)

theorem Follows.result {a : α} (h : Follows p trace (.ret a)) : Runs p trace (.ok a) := by
  have hruns := h.runs (.ret (a := a))
  rwa [List.append_nil] at hruns

/-- What is left of a run, when the whole of it is known. -/
theorem Follows.rest {result : Except Err α} (h : Follows p trace q) (hruns : Runs p trace result) :
    Runs q [] result := by
  induction h with
  | refl => exact hruns
  | step _ ih =>
    cases hruns with
    | step hrest => exact ih hrest

theorem Follows.bind {β : Type} (h : Follows p trace q) (f : α → Program Stmt Reply Err β) :
    Follows (p >>= f) trace (q >>= f) := by
  induction h with
  | refl => exact .refl
  | step _ ih => exact .step ih

theorem Follows.mapError (h : Follows p trace q) (f : Err → Err') :
    Follows (p.mapError f) trace (q.mapError f) := by
  induction h with
  | refl => exact .refl
  | step _ ih => exact .step ih

/-- A program can be answered to its end. -/
theorem exists_runs (hreply : ∀ s, Nonempty (Reply s)) (p : Program Stmt Reply Err α) :
    ∃ trace result, Runs p trace result := by
  induction p with
  | ret a => exact ⟨[], _, .ret⟩
  | fail e => exact ⟨[], _, .fail⟩
  | step s k ih =>
    obtain ⟨reply⟩ := hreply s
    obtain ⟨trace, result, hruns⟩ := ih reply
    exact ⟨_, result, .step hruns⟩

end Follows

end Locking.Program
