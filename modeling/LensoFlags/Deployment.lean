import LensoFlags.Answers
import LensoFlags.Abstract.History
import Mathlib.Logic.Function.Basic
import Mathlib.Logic.Relation

/-!
# A deployment

The service over a store that serves many calls at once. Requests arrive at any time, in any number;
each runs its operation against whatever the verifier and the providers answer. A write of a request
is a call of the store, begun under the number of the request; a read is answered from the tables as
they are at that moment, or fails.

1. `Backend`: what the service sees of a store.
2. `Deployment.Inv.reachable`: requests run their operations, and the calls of the store are theirs.
3. `Deployment.Inv.origin`: every call of the store is of a request that was granted it.
-/

namespace LensoFlags

open Locking.Program

/-! ## Stores -/

/-- A store that serves many calls at once, each under a number. -/
structure Backend where
  State : Type
  initial : State
  Begins : ℕ → Call → State → State → Prop
  /-- What happens without a call beginning. -/
  Moves : State → State → Prop
  call : State → ℕ → Option Call
  result : State → ℕ → Option Result
  /-- What a read may be answered. -/
  Tells : State → (call : StoreCall) → Except StorageError call.Record → Prop
  /-- The committed calls, newest first. -/
  log : State → List (Serial.Entry Call Draws Answer)

namespace Backend

variable (B : Backend)

def Step (s s' : B.State) : Prop := B.Moves s s' ∨ ∃ i call, B.Begins i call s s'

def Steps : B.State → B.State → Prop := Relation.ReflTransGen B.Step

def Reachable (s : B.State) : Prop := B.Steps B.initial s

/-- Calls stay what they are, and so do their results. -/
structure Lawful : Prop where
  initial : ∀ i, B.call B.initial i = none
  begins : ∀ {i call s s'}, B.Begins i call s s' →
    B.call s i = none ∧ B.call s' i = some call ∧ (∀ j, j ≠ i → B.call s' j = B.call s j) ∧
      ∀ j, B.result s' j = B.result s j
  moves : ∀ {s s'}, B.Moves s s' → (∀ j, B.call s' j = B.call s j) ∧
    ∀ j result, B.result s j = some result → B.result s' j = some result

variable {B} in
/-- A call the store serves while it does nothing else. -/
structure Alone (s : B.State) (i : ℕ) (call : Call) (s' : B.State) (result : Result) : Prop where
  steps : B.Steps s s'
  called : B.call s' i = some call
  result : B.result s' i = some result
  others : ∀ j, j ≠ i → B.call s' j = B.call s j

end Backend

/-! ## Requests under way -/

/-- A request with what it has asked so far and what is left of its operation. -/
structure InFlight where
  request : Request
  context : Ctx
  trace : List (Exchange Ask.Reply)
  rest : Service ServiceError ServiceResponse

/-- The request after an answer. -/
def InFlight.answered (f : InFlight) (asked : Ask) (reply : asked.Reply)
    (k : asked.Reply → Service ServiceError ServiceResponse) : InFlight :=
  { f with trace := f.trace ++ [⟨asked, reply⟩], rest := k reply }

/-- The result of a call as the service gets it. -/
def Replies (call : Call) : Result → Except StorageError call.operation.kind.Record → Prop
  | .ok answer, reply =>
      ∃ record, answer.response.record call.operation.kind = some record ∧ reply = .ok record
  | .error e, reply => reply = .error e

namespace Deployment

structure State (B : Backend) where
  store : B.State
  requests : ℕ → Option InFlight

/-- The state with another request `i`. -/
def State.set {B : Backend} (s : State B) (i : ℕ) (f : InFlight) : State B :=
  { s with requests := Function.update s.requests i (some f) }

section Steps

variable (B : Backend) (platform : Platform) (rt : Runtime) (config : PolicyConfig)

inductive Step : State B → State B → Prop
  | arrive {s : State B} {i : ℕ} {request : Request} {context : Ctx} :
      s.requests i = none →
      Step s (s.set i ⟨request, context, [], serve platform rt config context request⟩)
  /-- The verifier and the providers answer as they like. -/
  | answer {s : State B} {i : ℕ} {f : InFlight} {asked : Ask}
      {k : asked.Reply → Service ServiceError ServiceResponse} (reply : asked.Reply) :
      s.requests i = some f → f.rest = .step asked k → ¬asked.IsStore →
      Step s (s.set i (f.answered asked reply k))
  | begin {s : State B} {i : ℕ} {f : InFlight} {call : Call}
      {k : (Ask.store (.write call)).Reply → Service ServiceError ServiceResponse}
      {store' : B.State} :
      s.requests i = some f → f.rest = .step (.store (.write call)) k →
      B.Begins i call s.store store' → Step s { s with store := store' }
  | store {s : State B} {store' : B.State} :
      B.Moves s.store store' → Step s { s with store := store' }
  | result {s : State B} {i : ℕ} {f : InFlight} {call : Call}
      {k : (Ask.store (.write call)).Reply → Service ServiceError ServiceResponse}
      {result : Result} {reply : (Ask.store (.write call)).Reply} :
      s.requests i = some f → f.rest = .step (.store (.write call)) k →
      B.call s.store i = some call → B.result s.store i = some result →
      Replies call result reply →
      Step s (s.set i (f.answered _ reply k))
  | read {s : State B} {i : ℕ} {f : InFlight} {call : StoreCall}
      {k : (Ask.store call).Reply → Service ServiceError ServiceResponse}
      {reply : (Ask.store call).Reply} :
      s.requests i = some f → f.rest = .step (.store call) k → call.command = none →
      B.Tells s.store call reply →
      Step s (s.set i (f.answered _ reply k))

def Steps : State B → State B → Prop := Relation.ReflTransGen (Step B platform rt config)

def State.initial : State B := { store := B.initial, requests := fun _ => none }

def Reachable (s : State B) : Prop := Steps B platform rt config (State.initial B) s

end Steps

/-! ## The invariant -/

section Invariant

variable {B : Backend} {platform : Platform} {rt : Runtime} {config : PolicyConfig}
  {s s' : State B} {i : ℕ}

/-- The store knows the call with the reply. -/
def Replied (s : State B) (i : ℕ) (call : Call) (reply : (Ask.store (.write call)).Reply) : Prop :=
  B.call s.store i = some call ∧
    ∃ result, B.result s.store i = some result ∧ Replies call result reply

/-- The store told the reply at some moment. -/
def Told (s : State B) (call : StoreCall) (reply : (Ask.store call).Reply) : Prop :=
  ∃ store, B.Reachable store ∧ B.Steps store s.store ∧ B.Tells store call reply

variable (platform rt config) in
structure Inv (s : State B) : Prop where
  store : B.Reachable s.store
  follows : ∀ i f, s.requests i = some f →
    Follows (serve platform rt config f.context f.request) f.trace f.rest
  /-- A call of the store is what its request waits for, or has got the reply to. -/
  called : ∀ i call, B.call s.store i = some call → ∃ f, s.requests i = some f ∧
    ((∃ k, f.rest = .step (.store (.write call)) k) ∨
      ∃ reply, ⟨.store (.write call), reply⟩ ∈ f.trace)
  replied : ∀ i f, s.requests i = some f → ∀ call reply,
    ⟨.store (.write call), reply⟩ ∈ f.trace → Replied s i call reply
  told : ∀ i f, s.requests i = some f → ∀ (call : StoreCall) reply, call.command = none →
    ⟨.store call, reply⟩ ∈ f.trace → Told s call reply

theorem set_self (s : State B) (i : ℕ) (f : InFlight) : (s.set i f).requests i = some f :=
  Function.update_self ..

theorem set_of_ne (s : State B) (f : InFlight) {j : ℕ} (h : j ≠ i) :
    (s.set i f).requests j = s.requests j :=
  Function.update_of_ne h ..

theorem set_set (s : State B) (i : ℕ) (f g : InFlight) : (s.set i f).set i g = s.set i g :=
  congrArg (State.mk s.store) (Function.update_idem ..)

theorem set_eq_self {f : InFlight} (h : s.requests i = some f) : s.set i f = s :=
  congrArg (State.mk s.store) (by rw [← h, Function.update_eq_self])

theorem set_cases {f g : InFlight} {j : ℕ} (h : (s.set i f).requests j = some g) :
    (j = i ∧ g = f) ∨ (j ≠ i ∧ s.requests j = some g) := by
  by_cases hj : j = i
  · subst hj
    rw [set_self, Option.some.injEq] at h
    exact .inl ⟨rfl, h.symm⟩
  · rw [set_of_ne s f hj] at h
    exact .inr ⟨hj, h⟩

theorem Inv.initial (hB : B.Lawful) : Inv platform rt config (State.initial B) where
  store := .refl
  follows := fun _ _ h => nomatch h
  called := by
    intro i call h
    rw [State.initial, hB.initial i] at h
    cases h
  replied := fun _ _ h => nomatch h
  told := fun _ _ h => nomatch h

/-- A request goes on with a reply that the store, if it was asked, has given. -/
theorem Inv.answered (hi : Inv platform rt config s) {f : InFlight} {asked : Ask}
    {k : asked.Reply → Service ServiceError ServiceResponse} {reply : asked.Reply}
    (hf : s.requests i = some f) (hrest : f.rest = .step asked k)
    (hreplied : ∀ call reply', (⟨asked, reply⟩ : Exchange Ask.Reply) =
      ⟨.store (.write call), reply'⟩ → Replied s i call reply')
    (htold : ∀ (call : StoreCall) reply', call.command = none →
      (⟨asked, reply⟩ : Exchange Ask.Reply) = ⟨.store call, reply'⟩ → Told s call reply') :
    Inv platform rt config (s.set i (f.answered asked reply k)) where
  store := hi.store
  follows := by
    intro j g hg
    rcases set_cases hg with ⟨rfl, rfl⟩ | ⟨-, hg⟩
    · have hfollows := hi.follows _ f hf
      rw [hrest] at hfollows
      exact hfollows.snoc reply
    · exact hi.follows j g hg
  called := by
    intro j call hcall
    obtain ⟨g, hg, hwaits⟩ := hi.called j call hcall
    by_cases hj : j = i
    · subst hj
      rw [hf] at hg
      cases hg
      refine ⟨_, set_self .., .inr ?_⟩
      rcases hwaits with ⟨k', hk'⟩ | ⟨reply', hmem⟩
      · rw [hrest] at hk'
        cases hk'
        exact ⟨reply, List.mem_append_right _ (List.mem_singleton_self _)⟩
      · exact ⟨reply', List.mem_append_left _ hmem⟩
    · exact ⟨g, (set_of_ne s _ hj).trans hg, hwaits⟩
  replied := by
    intro j g hg call reply' hmem
    rcases set_cases hg with ⟨rfl, rfl⟩ | ⟨-, hg⟩
    · rcases List.mem_append.mp hmem with hmem | hmem
      · exact hi.replied _ f hf call reply' hmem
      · exact hreplied call reply' (List.mem_singleton.mp hmem).symm
    · exact hi.replied j g hg call reply' hmem
  told := by
    intro j g hg call reply' hread hmem
    rcases set_cases hg with ⟨rfl, rfl⟩ | ⟨-, hg⟩
    · rcases List.mem_append.mp hmem with hmem | hmem
      · exact hi.told _ f hf call reply' hread hmem
      · exact htold call reply' hread (List.mem_singleton.mp hmem).symm
    · exact hi.told j g hg call reply' hread hmem

/-- The store goes on; calls and results stay. -/
theorem Inv.moved (hi : Inv platform rt config s) {store' : B.State}
    (hstep : B.Step s.store store')
    (hcalled : ∀ j call, B.call store' j = some call → B.call s.store j = some call ∨
      ∃ f k, s.requests j = some f ∧ f.rest = .step (.store (.write call)) k)
    (hcalls : ∀ j call, B.call s.store j = some call → B.call store' j = some call)
    (hresults : ∀ j result, B.result s.store j = some result → B.result store' j = some result) :
    Inv platform rt config { s with store := store' } where
  store := hi.store.tail hstep
  follows := hi.follows
  called := by
    intro j call hcall
    rcases hcalled j call hcall with hold | ⟨f, k, hf, hrest⟩
    · exact hi.called j call hold
    · exact ⟨f, hf, .inl ⟨k, hrest⟩⟩
  replied := by
    intro j f hf call reply hmem
    obtain ⟨hcall, result, hresult, hreplies⟩ := hi.replied j f hf call reply hmem
    exact ⟨hcalls j call hcall, result, hresults j result hresult, hreplies⟩
  told := by
    intro j f hf call reply hread hmem
    obtain ⟨store, hreachable, hsteps, htells⟩ := hi.told j f hf call reply hread hmem
    exact ⟨store, hreachable, hsteps.tail hstep, htells⟩

theorem Inv.step (hB : B.Lawful) (hi : Inv platform rt config s)
    (h : Step B platform rt config s s') : Inv platform rt config s' := by
  cases h with
  | @arrive i request context hnone =>
    refine ⟨hi.store, fun j g hg => ?_, fun j call hcall => ?_,
      fun j g hg call reply hmem => ?_, fun j g hg call reply hread hmem => ?_⟩
    · rcases set_cases hg with ⟨rfl, rfl⟩ | ⟨-, hg⟩
      · exact .refl
      · exact hi.follows j g hg
    · obtain ⟨g, hg, hwaits⟩ := hi.called j call hcall
      have hj : j ≠ i := by
        rintro rfl
        rw [hnone] at hg
        cases hg
      exact ⟨g, (set_of_ne s _ hj).trans hg, hwaits⟩
    · rcases set_cases hg with ⟨rfl, rfl⟩ | ⟨-, hg⟩
      · exact absurd hmem List.not_mem_nil
      · exact hi.replied j g hg call reply hmem
    · rcases set_cases hg with ⟨rfl, rfl⟩ | ⟨-, hg⟩
      · exact absurd hmem List.not_mem_nil
      · exact hi.told j g hg call reply hread hmem
  | answer reply hf hrest hnot =>
    refine hi.answered hf hrest (fun call reply' heq => absurd ?_ hnot)
      fun call reply' _ heq => absurd ?_ hnot
    · cases heq
      trivial
    · cases heq
      trivial
  | @begin i f call k store' hf hrest hbegins =>
    obtain ⟨hnone, hself, hother, hresults⟩ := hB.begins hbegins
    refine hi.moved (.inr ⟨i, call, hbegins⟩) (fun j call' hcall => ?_) (fun j call' hcall => ?_)
      fun j result hresult => (hresults j).trans hresult
    · by_cases hj : j = i
      · subst hj
        rw [hself] at hcall
        cases hcall
        exact .inr ⟨f, k, hf, hrest⟩
      · exact .inl ((hother j hj).symm.trans hcall)
    · have hj : j ≠ i := by
        rintro rfl
        rw [hnone] at hcall
        cases hcall
      exact (hother j hj).trans hcall
  | store hmoves =>
    obtain ⟨hcalls, hresults⟩ := hB.moves hmoves
    exact hi.moved (.inl hmoves) (fun j call hcall => .inl ((hcalls j).symm.trans hcall))
      (fun j call hcall => (hcalls j).trans hcall) hresults
  | result hf hrest hcall hresult hreplies =>
    refine hi.answered hf hrest (fun call' reply' heq => ?_) fun call' reply' hread heq => ?_
    · cases heq
      exact ⟨hcall, _, hresult, hreplies⟩
    · cases heq
      cases hread
  | read hf hrest hread htells =>
    refine hi.answered hf hrest (fun call' reply' heq => ?_) fun call' reply' _ heq => ?_
    · cases heq
      cases hread
    · cases heq
      exact ⟨_, hi.store, .refl, htells⟩

theorem Inv.reachable (hB : B.Lawful) (h : Reachable B platform rt config s) :
    Inv platform rt config s := by
  induction h with
  | refl => exact .initial hB
  | tail _ hstep ih => exact ih.step hB hstep

/-! ## Where a call comes from -/

variable (rt config) in
/-- The call is what the request comes to for a caller and an actor it was granted to. -/
structure Origin (f : InFlight) (auth : Authorized) (call : Call) : Prop where
  granted : f.request.Granted config f.context auth f.trace
  comes : f.request.call rt config auth = some (.write call)

theorem Granted.mono {context : Ctx} {callers : List String}
    {capability operation organizationId permission : String} {auth : Authorized}
    {exchanges exchanges' : List (Exchange Ask.Reply)}
    (h : Granted context callers capability operation organizationId permission auth exchanges)
    (hsub : ∀ exchange ∈ exchanges, exchange ∈ exchanges') :
    Granted context callers capability operation organizationId permission auth exchanges' :=
  ⟨h.caller, h.identified, hsub _ h.projected, hsub _ h.member, hsub _ h.allowed⟩

theorem reply_nonempty (asked : Ask) : Nonempty asked.Reply := by
  cases asked with
  | verifier => exact ⟨true⟩
  | projectContext => exact ⟨none⟩
  | store => exact ⟨.error .json⟩
  | _ => exact ⟨.error .domain⟩

/-- A run that asks for a write has been granted it before. -/
theorem granted_of_runs {context : Ctx} {request : Request} {call : Call}
    {before after : List (Exchange Ask.Reply)} {reply : (Ask.store (.write call)).Reply}
    {result : Except ServiceError ServiceResponse}
    (h : Runs (serve platform rt config context request)
      (before ++ ⟨.store (.write call), reply⟩ :: after) result) :
    ∃ auth, request.Granted config context auth before ∧
      request.call rt config auth = some (.write call) := by
  obtain ⟨auth, first, htrace, hgranted, ⟨-, hcommand⟩, hfirst⟩ :=
    asked_store request h (.write call) reply (by simp)
  obtain ⟨rfl, -, -⟩ := eq_of_append_singleton (p := fun exchange => exchange.1.IsStore) hfirst
    trivial htrace.symm
  obtain ⟨auth', hcomes⟩ := serve_calls request h (.write call) reply (by simp)
  obtain ⟨hcaller, hactor⟩ := hcommand call.command rfl
  have hcarried := Request.call_carried hcomes
  have hauth : auth' = auth := by
    cases auth
    cases auth'
    rw [Authorized.mk.injEq]
    exact ⟨hcarried.caller.symm.trans hcaller, hcarried.actor.symm.trans hactor⟩
  exact ⟨auth, hgranted, hauth ▸ hcomes⟩

/-- A call of the store is of the request with its number. -/
theorem Inv.origin (hi : Inv platform rt config s) {call : Call}
    (hcall : B.call s.store i = some call) :
    ∃ f auth, s.requests i = some f ∧ Origin rt config f auth call := by
  obtain ⟨f, hf, ⟨k, hrest⟩ | ⟨reply, hmem⟩⟩ := hi.called i call hcall
  · -- Whatever the store replied, the run would end somehow.
    have hfollows := hi.follows i f hf
    rw [hrest] at hfollows
    obtain ⟨more, result, hmore⟩ := exists_runs reply_nonempty (k (.error .json))
    have hruns := (hfollows.snoc (.error .json)).runs hmore
    rw [List.append_assoc] at hruns
    obtain ⟨auth, hgranted, hcomes⟩ := granted_of_runs hruns
    exact ⟨f, auth, hf, hgranted, hcomes⟩
  · obtain ⟨before, after, htrace⟩ := List.append_of_mem hmem
    obtain ⟨more, result, hmore⟩ := exists_runs reply_nonempty f.rest
    have hruns := (hi.follows i f hf).runs hmore
    rw [htrace, List.append_assoc, List.cons_append] at hruns
    obtain ⟨auth, hgranted, hcomes⟩ := granted_of_runs hruns
    refine ⟨f, auth, hf, Granted.mono hgranted fun exchange hexchange => ?_, hcomes⟩
    rw [htrace]
    exact List.mem_append_left _ hexchange

/-- A write that was answered has had a call of the store, and the answer is its result. -/
theorem Inv.ok (hi : Inv platform rt config s) {f : InFlight} {response : ServiceResponse}
    (hf : s.requests i = some f) (hrest : f.rest = .ret response) (hwrites : f.request.json.isSome) :
    ∃ call answer record, B.call s.store i = some call ∧
      B.result s.store i = some (.ok answer) ∧
      answer.response.record call.operation.kind = some record ∧
      call.operation.kind.respond platform record = some response := by
  have hfollows := hi.follows i f hf
  rw [hrest] at hfollows
  obtain ⟨call, record, hmem, hrespond⟩ := serve_writes f.request hwrites hfollows.result
  obtain ⟨hcall, result, hresult, hreplies⟩ := hi.replied i f hf call _ hmem
  cases result with
  | error e => cases hreplies
  | ok answer =>
    obtain ⟨record', hrecord, heq⟩ := hreplies
    cases heq
    exact ⟨call, answer, record, hcall, hresult, hrecord, hrespond⟩

/-- The call of a request that was refused by name, if there is one, got a domain failure. -/
theorem Inv.refused (hi : Inv platform rt config s) {f : InFlight} {e : ServiceError}
    (hf : s.requests i = some f) (hrest : f.rest = .fail e) (hdomain : e.IsDomain) {call : Call}
    (hcall : B.call s.store i = some call) :
    ∃ failure, B.result s.store i = some (.error (.domain failure)) := by
  have hfollows := hi.follows i f hf
  obtain ⟨g, hg, hwaits⟩ := hi.called i call hcall
  rw [hf] at hg
  cases hg
  rcases hwaits with ⟨k, hk⟩ | ⟨reply, hmem⟩
  · rw [hrest] at hk
    cases hk
  · rw [hrest] at hfollows
    have hruns := hfollows.runs .fail
    rw [List.append_nil] at hruns
    obtain ⟨failure, rfl⟩ := serve_refused f.request _ e hruns hdomain call reply hmem
    obtain ⟨-, result, hresult, hreplies⟩ := hi.replied i f hf call _ hmem
    cases result with
    | ok answer =>
      obtain ⟨record, -, heq⟩ := hreplies
      cases heq
    | error e =>
      cases hreplies
      exact ⟨failure, hresult⟩

/-! ## Later states -/

theorem Step.store_step (h : Step B platform rt config s s') :
    s'.store = s.store ∨ B.Step s.store s'.store := by
  cases h with
  | begin _ _ hbegins => exact .inr (.inr ⟨_, _, hbegins⟩)
  | store hmoves => exact .inr (.inl hmoves)
  | _ => exact .inl rfl

theorem Steps.store_steps (h : Steps B platform rt config s s') : B.Steps s.store s'.store := by
  induction h with
  | refl => exact .refl
  | tail _ hstep ih =>
    rcases hstep.store_step with heq | hstep
    · rw [heq]
      exact ih
    · exact ih.tail hstep

/-- A request keeps what it is and what it has asked; one that has ended stays as it is. -/
structure Goes (f f' : InFlight) : Prop where
  request : f'.request = f.request
  context : f'.context = f.context
  trace : f.trace <+: f'.trace
  ended : (∀ asked k, f.rest ≠ .step asked k) → f' = f

theorem Goes.refl (f : InFlight) : Goes f f := ⟨rfl, rfl, List.prefix_rfl, fun _ => rfl⟩

theorem Goes.answered {f : InFlight} {asked : Ask}
    {k : asked.Reply → Service ServiceError ServiceResponse} (hrest : f.rest = .step asked k)
    (reply : asked.Reply) : Goes f (f.answered asked reply k) :=
  ⟨rfl, rfl, List.prefix_append .., fun hended => absurd hrest (hended asked k)⟩

theorem Step.goes (h : Step B platform rt config s s') {f : InFlight}
    (hf : s.requests i = some f) : ∃ f', s'.requests i = some f' ∧ Goes f f' := by
  have hset : ∀ {j : ℕ} {g g' : InFlight}, s.requests j = some g → Goes g g' →
      ∃ f', (s.set j g').requests i = some f' ∧ Goes f f' := by
    intro j g g' hg hgoes
    by_cases hj : i = j
    · subst hj
      rw [hf] at hg
      cases hg
      exact ⟨g', set_self .., hgoes⟩
    · exact ⟨f, (set_of_ne s g' hj).trans hf, .refl f⟩
  cases h with
  | @arrive j request context hnone =>
    have hj : i ≠ j := by
      rintro rfl
      rw [hf] at hnone
      cases hnone
    exact ⟨f, (set_of_ne s _ hj).trans hf, .refl f⟩
  | answer reply hg hrest => exact hset hg (.answered hrest reply)
  | result hg hrest => exact hset hg (.answered hrest _)
  | read hg hrest => exact hset hg (.answered hrest _)
  | _ => exact ⟨f, hf, .refl f⟩

theorem Steps.goes (h : Steps B platform rt config s s') {f : InFlight}
    (hf : s.requests i = some f) : ∃ f', s'.requests i = some f' ∧ Goes f f' := by
  induction h with
  | refl => exact ⟨f, hf, .refl f⟩
  | tail _ hstep ih =>
    obtain ⟨g, hg, hgoes⟩ := ih
    obtain ⟨f', hf', hgoes'⟩ := hstep.goes hg
    refine ⟨f', hf', hgoes'.request.trans hgoes.request, hgoes'.context.trans hgoes.context,
      hgoes.trace.trans hgoes'.trace, fun hended => ?_⟩
    have hsame := hgoes.ended hended
    exact (hgoes'.ended (by rwa [hsame])).trans hsame

/-! ## Undisturbed requests -/

/-- The verifier and the providers answer a request. -/
theorem Steps.answers {f : InFlight} (hf : s.requests i = some f)
    {exchanges : List (Exchange Ask.Reply)} {rest : Service ServiceError ServiceResponse}
    (h : Follows f.rest exchanges rest) (hnot : ∀ exchange ∈ exchanges, ¬exchange.1.IsStore) :
    Steps B platform rt config s
      (s.set i ⟨f.request, f.context, f.trace ++ exchanges, rest⟩) := by
  generalize hp : f.rest = p at h
  induction h generalizing s f with
  | @refl p =>
    rw [List.append_nil, ← hp, set_eq_self hf]
    exact .refl
  | @step asked k reply trace rest _ ih =>
    have hstep : Step B platform rt config s (s.set i (f.answered asked reply k)) :=
      .answer reply hf hp (hnot _ List.mem_cons_self)
    have hrest := ih (f := f.answered asked reply k) (set_self s i _)
      (fun exchange hmem => hnot exchange (List.mem_cons_of_mem _ hmem)) rfl
    rw [set_set, InFlight.answered, List.append_assoc] at hrest
    exact .head hstep hrest

/-- Calls stay. -/
theorem call_steps (hB : B.Lawful) {store store' : B.State} (h : B.Steps store store') {j : ℕ}
    {call : Call} (hcall : B.call store j = some call) : B.call store' j = some call := by
  induction h with
  | refl => exact hcall
  | tail _ hstep ih =>
    rcases hstep with hmoves | ⟨k, call', hbegins⟩
    · exact ((hB.moves hmoves).1 j).trans ih
    · obtain ⟨hnone, -, hother, -⟩ := hB.begins hbegins
      have hj : j ≠ k := by
        rintro rfl
        rw [ih] at hnone
        cases hnone
      exact (hother j hj).trans ih

/-- What the store does by itself and for a request that waits for it, the deployment does. -/
theorem Steps.lift (hB : B.Lawful) {f : InFlight} {call : Call}
    {k : (Ask.store (.write call)).Reply → Service ServiceError ServiceResponse}
    (hf : s.requests i = some f) (hrest : f.rest = .step (.store (.write call)) k)
    {store' : B.State} {result : Result} (h : Backend.Alone s.store i call store' result) :
    Steps B platform rt config s { s with store := store' } := by
  -- On the way, the calls that have begun are among those of the end.
  suffices hway : ∀ middle, B.Steps s.store middle → B.Steps middle store' →
      Steps B platform rt config s { s with store := middle } from hway store' h.steps .refl
  intro middle hfirst
  induction hfirst with
  | refl => exact fun _ => .refl
  | @tail middle next hsteps hstep ih =>
    intro hlater
    refine (ih (.head hstep hlater)).tail ?_
    rcases hstep with hmoves | ⟨j, call', hbegins⟩
    · exact .store hmoves
    · obtain ⟨hnone, hself, -⟩ := hB.begins hbegins
      have hlast := call_steps hB hlater hself
      by_cases hj : j = i
      · subst hj
        rw [h.called] at hlast
        cases hlast
        exact .begin hf hrest hbegins
      · rw [call_steps hB hsteps ((h.others j hj).symm.trans hlast)] at hnone
        cases hnone

/-- A request that nothing disturbs: it arrives, is granted its write, and gets the result. -/
theorem Steps.served (hB : B.Lawful) (hnone : s.requests i = none) {request : Request}
    {context : Ctx} {exchanges : List (Exchange Ask.Reply)} {call : Call}
    {k : (Ask.store (.write call)).Reply → Service ServiceError ServiceResponse}
    (hfollows : Follows (serve platform rt config context request) exchanges
      (.step (.store (.write call)) k)) (hnot : ∀ exchange ∈ exchanges, ¬exchange.1.IsStore)
    {store' : B.State} {result : Result} (halone : Backend.Alone s.store i call store' result)
    {reply : (Ask.store (.write call)).Reply} (hreplies : Replies call result reply) :
    Steps B platform rt config s (State.set { s with store := store' } i
      ⟨request, context, exchanges ++ [⟨.store (.write call), reply⟩], k reply⟩) := by
  have harrive : Steps B platform rt config s
      (s.set i ⟨request, context, [], serve platform rt config context request⟩) :=
    .single (.arrive hnone)
  have hgranted := harrive.trans (Steps.answers (set_self s i _) hfollows hnot)
  rw [set_set] at hgranted
  have hlift := hgranted.trans (Steps.lift (s := s.set i ⟨request, context, exchanges, _⟩) hB
    (set_self s i _) rfl halone)
  have hdone := hlift.tail (.result (set_self { s with store := store' } i _) rfl halone.called
    halone.result hreplies)
  exact (congrArg (Steps B platform rt config s) (set_set { s with store := store' } i _ _)).mp hdone

end Invariant

end Deployment

end LensoFlags
