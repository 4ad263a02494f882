import LensoFlags.Abstract.Advance
import LensoFlags.Accountable

/-!
# The moments of a store

Between two states of a deployment its store goes through moments. A read is told at one of them, a
call takes effect at one of them, and the abstract store of a later moment is a later one.

1. `Backend.Mirrors`: the store holds an abstract store that its log leads to.
2. `exists_since`: the moments since a state.
-/

namespace LensoFlags

open Locking.Program

/-! ## What a store holds -/

/-- The store holds an abstract store. A step leaves it or lets one call take effect on it, and the
reads are answered from it. -/
structure Backend.Mirrors (B : Backend) (codec : Codec) (rt : Runtime)
    (Holds : B.State → Abstract.Store codec → Prop) : Prop where
  initial : B.log B.initial = []
  held : ∀ s, B.Reachable s → ∃ c, Holds s c ∧ Abstract.Logged rt (B.log s) c
  unique : ∀ s c c', Holds s c → Holds s c' → c = c'
  step : ∀ s s', B.Reachable s → B.Step s s' → ∀ c, Holds s c →
    (B.log s' = B.log s ∧ Holds s' c) ∨
      ∃ e c', B.log s' = e :: B.log s ∧ Holds s' c' ∧ Abstract.Step rt e c c'
  reads : ∀ s, B.Reachable s → ∀ c, Holds s c → ∀ (call : StoreCall) record,
    B.Tells s call (.ok record) → Abstract.Reads c call record

namespace Backend.Mirrors

variable {B : Backend} {codec : Codec} {rt : Runtime}
  {Holds : B.State → Abstract.Store codec → Prop} {s s' : B.State} {c c' : Abstract.Store codec}

theorem logged (hm : B.Mirrors codec rt Holds) (h : B.Reachable s) (hc : Holds s c) :
    Abstract.Logged rt (B.log s) c := by
  obtain ⟨found, hfound, hlogged⟩ := hm.held s h
  rwa [hm.unique s c found hc hfound]

theorem later (hm : B.Mirrors codec rt Holds) (h : B.Reachable s) (hsteps : B.Steps s s')
    (hc : Holds s c) (hc' : Holds s' c') : Abstract.Later rt c c' := by
  suffices hreach : ∃ found, Holds s' found ∧ Abstract.Later rt c found by
    obtain ⟨found, hfound, hlater⟩ := hreach
    rwa [hm.unique s' c' found hc' hfound]
  clear hc'
  induction hsteps with
  | refl => exact ⟨c, hc, .refl⟩
  | tail hsteps hstep ih =>
    obtain ⟨c₁, hc₁, hlater⟩ := ih
    rcases hm.step _ _ (h.trans hsteps) hstep c₁ hc₁ with ⟨-, hkept⟩ | ⟨e, c₂, -, hc₂, hstep⟩
    · exact ⟨c₁, hkept, hlater⟩
    · exact ⟨c₂, hc₂, hlater.tail ⟨e, hstep⟩⟩

theorem log_suffix (hm : B.Mirrors codec rt Holds) (h : B.Reachable s) (hsteps : B.Steps s s') :
    B.log s <:+ B.log s' := by
  induction hsteps with
  | refl => exact List.suffix_refl _
  | @tail s₁ s₂ hsteps hstep ih =>
    obtain ⟨c, hc, -⟩ := hm.held s₁ (h.trans hsteps)
    rcases hm.step _ _ (h.trans hsteps) hstep c hc with ⟨hsame, -⟩ | ⟨e, -, hmore, -⟩
    · rw [hsame]
      exact ih
    · rw [hmore]
      exact ih.trans (List.suffix_cons ..)

end Backend.Mirrors

namespace Deployment

variable {B : Backend} {codec : Codec} {platform : Platform} {rt : Runtime}
  {config : PolicyConfig} {Holds : B.State → Abstract.Store codec → Prop} {s s' s'' : State B}

/-! ## Moments -/

variable (rt Holds) in
/-- The call takes effect between the moments. -/
def Lands (e : Serial.Entry Call Draws Answer) (m m' : B.State) : Prop :=
  ∃ c c', Holds m c ∧ Holds m' c' ∧ Abstract.Step rt e c c'

variable (rt Holds) in
/-- The moments of the store since a state, newest first. -/
structure Since (s s' : State B) (moments : List B.State) : Prop where
  now : s'.store ∈ moments
  ordered : moments.Pairwise fun newer older => B.Steps older newer
  after : ∀ m ∈ moments, B.Steps s.store m
  before : ∀ m ∈ moments, B.Steps m s'.store
  told : ∀ i f, s.requests i = none → s'.requests i = some f → ∀ (call : StoreCall) reply,
    call.command = none → ⟨.store call, reply⟩ ∈ f.trace → ∃ m ∈ moments, B.Tells m call reply
  committed : ∀ e ∈ B.log s'.store, e ∈ B.log s.store ∨
    ∃ m ∈ moments, ∃ m' ∈ moments, Lands rt Holds e m m'

theorem Since.refl (s : State B) : Since rt Holds s s [s.store] where
  now := List.mem_singleton_self _
  ordered := List.pairwise_singleton ..
  after := by
    intro m hm
    rw [List.mem_singleton.mp hm]
    exact .refl
  before := by
    intro m hm
    rw [List.mem_singleton.mp hm]
    exact .refl
  told := by
    intro i f hnone hf
    rw [hnone] at hf
    cases hf
  committed := fun e he => .inl he

/-- Of two moments one is the later one. -/
theorem Since.comparable {moments : List B.State} (h : Since rt Holds s s' moments) {m m' : B.State}
    (hm : m ∈ moments) (hm' : m' ∈ moments) : B.Steps m m' ∨ B.Steps m' m :=
  List.Pairwise.forall_of_forall_of_flip (R := fun a b => B.Steps a b ∨ B.Steps b a)
    (fun _ _ => .inl .refl) (h.ordered.imp .inr) (h.ordered.imp .inl) hm hm'

/-- A request goes on at a moment. -/
theorem Since.answered {moments : List B.State} (h : Since rt Holds s s' moments) {i : ℕ}
    {f : InFlight} (hf : s'.requests i = some f) {asked : Ask}
    {k : asked.Reply → Service ServiceError ServiceResponse} {reply : asked.Reply}
    (htold : ∀ (call : StoreCall) reply', call.command = none →
      (⟨asked, reply⟩ : Exchange Ask.Reply) = ⟨.store call, reply'⟩ →
        B.Tells s'.store call reply') :
    Since rt Holds s (s'.set i (f.answered asked reply k)) moments where
  now := h.now
  ordered := h.ordered
  after := h.after
  before := h.before
  told := by
    intro j g hnone hg call reply' hread hmem
    rcases set_cases hg with ⟨rfl, rfl⟩ | ⟨-, hg⟩
    · rcases List.mem_append.mp hmem with hmem | hmem
      · exact h.told _ f hnone hf call reply' hread hmem
      · exact ⟨_, h.now, htold call reply' hread (List.mem_singleton.mp hmem).symm⟩
    · exact h.told j g hnone hg call reply' hread hmem
  committed := h.committed

/-- The store goes on to another moment. -/
theorem Since.moved (hm : B.Mirrors codec rt Holds) {moments : List B.State}
    (h : Since rt Holds s s' moments) (hs' : B.Reachable s'.store) {store' : B.State}
    (hstep : B.Step s'.store store') :
    Since rt Holds s { s' with store := store' } (store' :: moments) where
  now := List.mem_cons_self
  ordered := List.pairwise_cons.mpr ⟨fun m hmem => (h.before m hmem).tail hstep, h.ordered⟩
  after := by
    intro m hmem
    rcases List.mem_cons.mp hmem with rfl | hmem
    · exact (h.after _ h.now).tail hstep
    · exact h.after m hmem
  before := by
    intro m hmem
    rcases List.mem_cons.mp hmem with rfl | hmem
    · exact .refl
    · exact (h.before m hmem).tail hstep
  told := by
    intro j g hnone hg call reply hread hmem
    obtain ⟨m, hmem, htells⟩ := h.told j g hnone hg call reply hread hmem
    exact ⟨m, List.mem_cons_of_mem _ hmem, htells⟩
  committed := by
    intro e he
    have hold : e ∈ B.log s'.store → e ∈ B.log s.store ∨
        ∃ m ∈ store' :: moments, ∃ m' ∈ store' :: moments, Lands rt Holds e m m' := by
      intro he
      exact (h.committed e he).imp id fun ⟨m, hmem, m', hmem', hlands⟩ =>
        ⟨m, List.mem_cons_of_mem _ hmem, m', List.mem_cons_of_mem _ hmem', hlands⟩
    obtain ⟨c, hc, -⟩ := hm.held s'.store hs'
    rcases hm.step _ _ hs' hstep c hc with ⟨hsame, -⟩ | ⟨new, c', hmore, hc', hlands⟩
    · exact hold (hsame ▸ he)
    · rcases List.mem_cons.mp (hmore ▸ he : e ∈ new :: B.log s'.store) with rfl | he
      · exact .inr ⟨_, List.mem_cons_of_mem _ h.now, _, List.mem_cons_self, c, c', hc, hc', hlands⟩
      · exact hold he

theorem exists_since (hB : B.Lawful) (hm : B.Mirrors codec rt Holds)
    (h : Reachable B platform rt config s) (hsteps : Steps B platform rt config s s') :
    ∃ moments, Since rt Holds s s' moments := by
  induction hsteps with
  | refl => exact ⟨_, .refl s⟩
  | @tail s₁ s₂ hsteps hstep ih =>
    obtain ⟨moments, hsince⟩ := ih
    have hstore := (Inv.reachable hB (h.trans hsteps)).store
    cases hstep with
    | @arrive i request context hnone =>
      refine ⟨moments, hsince.now, hsince.ordered, hsince.after, hsince.before, ?_,
        hsince.committed⟩
      intro j g hj hg call reply hread hmem
      rcases set_cases hg with ⟨rfl, rfl⟩ | ⟨-, hg⟩
      · exact absurd hmem List.not_mem_nil
      · exact hsince.told j g hj hg call reply hread hmem
    | answer reply hf hrest hnot =>
      refine ⟨moments, hsince.answered hf fun call reply' _ heq => absurd ?_ hnot⟩
      cases heq
      trivial
    | begin hf hrest hbegins => exact ⟨_, hsince.moved hm hstore (.inr ⟨_, _, hbegins⟩)⟩
    | store hmoves => exact ⟨_, hsince.moved hm hstore (.inl hmoves)⟩
    | result hf =>
      refine ⟨moments, hsince.answered hf fun call reply' hread heq => ?_⟩
      cases heq
      cases hread
    | read hf hrest hread htells =>
      refine ⟨moments, hsince.answered hf fun call reply' _ heq => ?_⟩
      cases heq
      exact htells

end Deployment

end LensoFlags
