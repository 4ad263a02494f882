import Mathlib.Data.List.Basic

/-!
# Codes that can be read back

A code writes a value as a list of tokens. `Reads` says of one value that it and what follows it can
be told from the tokens, among the values of `P` and before what `stop` lets follow. It is about one
value at a time, so that the codes of trees are read by induction.

Results:
1. `reads_of_decode`: a code with a decoder.
2. `reads_run`: tokens of one kind, up to a token of another kind.
3. `Reads.seq`: one code after another.
4. `reads_terminated`, `reads_listed`: sequences up to a closing token.
-/

namespace Readable

variable {τ α β : Type}

/-- The tokens tell `a` among the values of `P`, and what follows them. -/
def Reads (P : α → Prop) (stop : List τ → Prop) (code : α → List τ) (a : α) : Prop :=
  ∀ b rest rest', P b → stop rest → stop rest' → code a ++ rest = code b ++ rest' →
    a = b ∧ rest = rest'

/-- Anything may follow. -/
def Anything (_ : List τ) : Prop := True

/-- What follows does not begin with a token of the kind. -/
def Ends (kind : τ → Prop) (rest : List τ) : Prop := ∀ x, rest.head? = some x → ¬kind x

theorem ends_nil {kind : τ → Prop} : Ends kind ([] : List τ) := fun _ h => nomatch h

theorem ends_cons {kind : τ → Prop} {x : τ} {rest : List τ} (h : ¬kind x) :
    Ends kind (x :: rest) := by
  intro y hy
  cases hy
  exact h

section Single

variable {P P' : α → Prop} {Q : β → Prop} {stop stop' : List τ → Prop} {code : α → List τ} {a b : α}

theorem Reads.inj (h : Reads P stop code a) (hstop : stop []) (hb : P b)
    (heq : code a = code b) : a = b :=
  (h b [] [] hb hstop hstop (by rw [heq])).1

theorem Reads.mono (h : Reads P stop code a) (hP : ∀ b, P' b → P b)
    (hstop : ∀ rest, stop' rest → stop rest) : Reads P' stop' code a :=
  fun b rest rest' hb hrest hrest' =>
    h b rest rest' (hP b hb) (hstop rest hrest) (hstop rest' hrest')

/-- A code is read by its decoder. -/
theorem reads_of_decode {decode : List τ → Option (α × List τ)}
    (h : ∀ a, P a → ∀ rest, decode (code a ++ rest) = some (a, rest)) (ha : P a) :
    Reads P Anything code a := by
  intro b rest rest' hb _ _ heq
  have hdecode := h a ha rest
  rw [heq, h b hb rest'] at hdecode
  cases hdecode
  exact ⟨rfl, rfl⟩

/-- Two runs of tokens of a kind that end where they can. -/
theorem run_inj {kind : τ → Prop} {xs ys rest rest' : List τ} (hxs : ∀ x ∈ xs, kind x)
    (hys : ∀ y ∈ ys, kind y) (hrest : Ends kind rest) (hrest' : Ends kind rest')
    (h : xs ++ rest = ys ++ rest') : xs = ys ∧ rest = rest' := by
  induction xs generalizing ys with
  | nil =>
    cases ys with
    | nil => exact ⟨rfl, h⟩
    | cons y ys =>
      rw [List.nil_append] at h
      exact absurd (hys y List.mem_cons_self) (hrest y (by rw [h]; rfl))
  | cons x xs ih =>
    cases ys with
    | nil =>
      rw [List.nil_append] at h
      exact absurd (hxs x List.mem_cons_self) (hrest' x (by rw [← h]; rfl))
    | cons y ys =>
      obtain ⟨rfl, htail⟩ := List.cons.inj h
      obtain ⟨rfl, hrests⟩ := ih (fun x hx => hxs x (List.mem_cons_of_mem _ hx))
        (fun y hy => hys y (List.mem_cons_of_mem _ hy)) htail
      exact ⟨rfl, hrests⟩

theorem reads_run {kind : τ → Prop} (hinj : ∀ b, P b → code a = code b → a = b)
    (hkind : ∀ b, P b → ∀ x ∈ code b, kind x) (ha : P a) : Reads P (Ends kind) code a := by
  intro b rest rest' hb hrest hrest' heq
  obtain ⟨hcode, hrests⟩ := run_inj (hkind a ha) (hkind b hb) hrest hrest' heq
  exact ⟨hinj b hb hcode, hrests⟩

theorem Reads.seq {first : α → List τ} {second : β → List τ} {b : β}
    (ha : Reads P stop first a) (hb : Reads Q stop' second b)
    (hstop : ∀ b', b' = b ∨ Q b' → ∀ rest, stop' rest → stop (second b' ++ rest)) :
    Reads (fun p => P p.1 ∧ Q p.2) stop' (fun p : α × β => first p.1 ++ second p.2) (a, b) := by
  rintro ⟨a', b'⟩ rest rest' ⟨ha', hb'⟩ hrest hrest' heq
  rw [List.append_assoc, List.append_assoc] at heq
  obtain ⟨rfl, htail⟩ := ha a' _ _ ha' (hstop b (.inl rfl) rest hrest)
    (hstop b' (.inr hb') rest' hrest') heq
  obtain ⟨rfl, hrests⟩ := hb b' rest rest' hb' hrest hrest' htail
  exact ⟨rfl, hrests⟩

/-- A fixed token in front. -/
theorem Reads.behind (h : Reads P stop code a) (x : τ) :
    Reads P stop (fun a => x :: code a) a :=
  fun b rest rest' hb hrest hrest' heq => h b rest rest' hb hrest hrest' (List.cons.inj heq).2

end Single

/-! ## Sequences -/

section Sequences

variable {P : α → Prop} {stop : List τ → Prop} {code : α → List τ} {sep close : τ}

/-- The codes of a sequence and a closing token. -/
def terminated (close : τ) (code : α → List τ) (xs : List α) : List τ :=
  xs.flatMap code ++ [close]

/-- The code begins with a token other than the closing one. -/
def Opens (close : τ) (code : α → List τ) (x : α) : Prop := ∃ y rest, code x = y :: rest ∧ y ≠ close

theorem reads_terminated {xs : List α} (hxs : ∀ x ∈ xs, P x)
    (hread : ∀ x ∈ xs, Reads P stop code x) (hopens : ∀ x, P x → Opens close code x)
    (hclose : ∀ rest, stop (close :: rest)) (hnext : ∀ x, P x → ∀ rest, stop (code x ++ rest)) :
    Reads (fun ys => ∀ y ∈ ys, P y) Anything (terminated close code) xs := by
  intro ys rest rest' hys _ _ h
  -- Behind an element stands the next one or the closing token.
  have hstop : ∀ {zs : List α} rest, (∀ z ∈ zs, P z) → stop (terminated close code zs ++ rest) := by
    intro zs rest hzs
    cases zs with
    | nil => exact hclose rest
    | cons z zs =>
      rw [terminated, List.flatMap_cons, List.append_assoc, List.append_assoc]
      exact hnext z (hzs z List.mem_cons_self) _
  have hdiffers : ∀ {z : α} {zs : List α} {rest rest' : List τ}, P z →
      terminated close code [] ++ rest ≠ terminated close code (z :: zs) ++ rest' := by
    intro z zs rest rest' hz heq
    obtain ⟨y, more, hcode, hne⟩ := hopens z hz
    rw [terminated, terminated, List.flatMap_cons, hcode] at heq
    exact hne (List.cons.inj heq).1.symm
  induction xs generalizing ys with
  | nil =>
    cases ys with
    | nil => exact ⟨rfl, (List.cons.inj h).2⟩
    | cons y ys => exact absurd h (hdiffers (hys y List.mem_cons_self))
  | cons x xs ih =>
    cases ys with
    | nil => exact absurd h.symm (hdiffers (hxs x List.mem_cons_self))
    | cons y ys =>
      have htail : ∀ {z : α} {zs : List α} {rest : List τ},
          terminated close code (z :: zs) ++ rest =
            code z ++ (terminated close code zs ++ rest) := by
        intro z zs rest
        simp only [terminated, List.flatMap_cons, List.append_assoc]
      have hxs' : ∀ x ∈ xs, P x := fun x hx => hxs x (List.mem_cons_of_mem _ hx)
      have hys' : ∀ y ∈ ys, P y := fun y hy => hys y (List.mem_cons_of_mem _ hy)
      rw [htail, htail] at h
      obtain ⟨rfl, hmore⟩ := hread x List.mem_cons_self y _ _ (hys y List.mem_cons_self)
        (hstop rest hxs') (hstop rest' hys') h
      obtain ⟨rfl, hrests⟩ :=
        ih hxs' (fun x hx => hread x (List.mem_cons_of_mem _ hx)) ys hys' hmore
      exact ⟨rfl, hrests⟩

/-- The same with a separator between two codes. -/
def listed (sep close : τ) (code : α → List τ) : List α → List τ
  | [] => [close]
  | x :: xs => code x ++ terminated close (fun y => sep :: code y) xs

variable (sep) in
theorem reads_listed {xs : List α} (hxs : ∀ x ∈ xs, P x) (hread : ∀ x ∈ xs, Reads P stop code x)
    (hopens : ∀ x, P x → Opens close code x) (hne : sep ≠ close)
    (hclose : ∀ rest, stop (close :: rest)) (hsep : ∀ rest, stop (sep :: rest)) :
    Reads (fun ys => ∀ y ∈ ys, P y) Anything (listed sep close code) xs := by
  intro ys rest rest' hys _ _ h
  have hdiffers : ∀ {z : α} {zs : List α} {rest rest' : List τ}, P z →
      listed sep close code [] ++ rest ≠ listed sep close code (z :: zs) ++ rest' := by
    intro z zs rest rest' hz heq
    obtain ⟨y, more, hcode, hne⟩ := hopens z hz
    rw [listed, listed, hcode] at heq
    exact hne (List.cons.inj heq).1.symm
  have hstop : ∀ zs rest, stop (terminated close (fun y => sep :: code y) zs ++ rest) := by
    intro zs rest
    cases zs with
    | nil => exact hclose rest
    | cons z zs => exact hsep _
  cases xs with
  | nil =>
    cases ys with
    | nil => exact ⟨rfl, (List.cons.inj h).2⟩
    | cons y ys => exact absurd h (hdiffers (hys y List.mem_cons_self))
  | cons x xs =>
    cases ys with
    | nil => exact absurd h.symm (hdiffers (hxs x List.mem_cons_self))
    | cons y ys =>
      rw [listed, listed, List.append_assoc, List.append_assoc] at h
      obtain ⟨rfl, htail⟩ := hread x List.mem_cons_self y _ _ (hys y List.mem_cons_self)
        (hstop xs rest) (hstop ys rest') h
      have hmore : Reads (fun zs => ∀ z ∈ zs, P z) Anything
          (terminated close fun z => sep :: code z) xs :=
        reads_terminated (fun x hx => hxs x (List.mem_cons_of_mem _ hx))
          (fun x hx => (hread x (List.mem_cons_of_mem _ hx)).behind sep)
          (fun x _ => ⟨sep, code x, rfl, hne⟩) hclose fun _ _ _ => hsep _
      obtain ⟨rfl, hrests⟩ := hmore ys rest rest' (fun y hy => hys y (List.mem_cons_of_mem _ hy))
        trivial trivial htail
      exact ⟨rfl, hrests⟩

end Sequences

end Readable
