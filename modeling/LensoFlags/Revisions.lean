import LensoFlags.Calls
import LensoFlags.Lib.Numeral

/-!
# Spellings of revisions

The schema of the requests writes a revision in one way, as a decimal text without a sign and
without leading zeros. The service reads it with the general integer parser.

Results:
1. `parseRevision_eq_some`: the texts that are read as a revision.
2. `revision_spellings`: which of them have no other spelling, and what follows for requests.
-/

namespace LensoFlags

open Decimal (i64Max spelled)

/-! ## Texts -/

/-- `^[1-9][0-9]*$`. -/
def RevisionPattern (s : String) : Prop :=
  ∃ c cs, s.toList = c :: cs ∧ (c.isDigit = true ∧ c ≠ '0') ∧ cs.all Char.isDigit = true

/-- The revision `n` as the schema has it. -/
structure CanonicalRevision (s : String) (n : Int) : Prop where
  pattern : RevisionPattern s
  denotes : n = Nat.ofDigitChars 10 s.toList 0
  fits : n ≤ i64Max

/-- A plus sign or zeros stand before the decimal text of a positive `i64`. -/
def Padded (s : String) : Prop :=
  ∃ (plus : Bool) (zeros n : ℕ), (0 < n ∧ (n : Int) ≤ i64Max) ∧ (plus = true ∨ 0 < zeros) ∧
    s.toList = spelled plus zeros n

theorem parseRevision_eq_some {s : String} {n : Int} :
    parseRevision s = some n ↔
      (0 < n ∧ n ≤ i64Max) ∧ ∃ plus zeros, s.toList = spelled plus zeros n.toNat := by
  unfold parseRevision
  rw [Option.filter_eq_some_iff, decide_eq_true_eq]
  constructor
  · rintro ⟨hparse, hpos⟩
    obtain ⟨m, rfl⟩ := Int.eq_ofNat_of_zero_le (Int.le_of_lt hpos)
    obtain ⟨hle, hs⟩ := (Decimal.parseI64_pos_iff (by omega)).mp hparse
    exact ⟨⟨hpos, hle⟩, hs⟩
  · rintro ⟨⟨hpos, hle⟩, hs⟩
    obtain ⟨m, rfl⟩ := Int.eq_ofNat_of_zero_le (Int.le_of_lt hpos)
    exact ⟨(Decimal.parseI64_pos_iff (by omega)).mpr ⟨hle, hs⟩, hpos⟩

theorem parseRevision_toString_eq {n m : Int} (hpos : 0 < n)
    (h : parseRevision (toString n) = some m) : m = n :=
  Decimal.eq_of_parseI64_toString hpos.le (Option.filter_eq_some_iff.mp h).1

theorem revisionPattern_iff {s : String} :
    RevisionPattern s ↔ ∃ n, 0 < n ∧ s.toList = Nat.toDigits 10 n := by
  constructor
  · rintro ⟨c, cs, hs, ⟨hc, hzero⟩, hcs⟩
    exact ⟨_, Decimal.ofDigitChars_pos hc hzero,
      hs.trans (Decimal.toDigits_ofDigitChars hc hzero hcs).symm⟩
  · rintro ⟨n, hn, hs⟩
    obtain ⟨c, cs, hdigits⟩ := List.exists_cons_of_ne_nil (Nat.toDigits_ne_nil (n := n) (b := 10))
    have hall : ∀ d ∈ c :: cs, d.isDigit = true := by
      intro d hd
      rw [← hdigits] at hd
      exact Nat.isDigit_of_mem_toDigits (by decide) (by decide) hd
    refine ⟨c, cs, hs.trans hdigits, ⟨hall c List.mem_cons_self, ?_⟩,
      List.all_eq_true.mpr fun d hd => hall d (List.mem_cons_of_mem _ hd)⟩
    rintro rfl
    exact Decimal.toDigits_head_ne_zero hn hdigits

theorem canonicalRevision_iff {s : String} {n : Int} :
    CanonicalRevision s n ↔ (0 < n ∧ n ≤ i64Max) ∧ s.toList = Nat.toDigits 10 n.toNat := by
  constructor
  · rintro ⟨hpattern, hdenotes, hfits⟩
    obtain ⟨m, hm, hs⟩ := revisionPattern_iff.mp hpattern
    rw [hs, Nat.ofDigitChars_ten_toDigits] at hdenotes
    subst hdenotes
    exact ⟨⟨by omega, hfits⟩, hs⟩
  · rintro ⟨⟨hpos, hle⟩, hs⟩
    refine ⟨revisionPattern_iff.mpr ⟨n.toNat, by omega, hs⟩, ?_, hle⟩
    rw [hs, Nat.ofDigitChars_ten_toDigits, Int.toNat_of_nonneg (by omega)]

theorem not_padded_toDigits {s : String} {n : ℕ} (hn : 0 < n) (hs : s.toList = Nat.toDigits 10 n) :
    ¬Padded s := by
  rintro ⟨plus, zeros, m, -, hpadded, hm⟩
  exact Decimal.spelled_ne_toDigits hn hpadded (hm.symm.trans hs)

/-- Only a padded text is read as a number of which it is not the decimal text. -/
theorem toDigits_of_parseRevision {s : String} {n : Int} (hs : ¬Padded s)
    (h : parseRevision s = some n) : s.toList = Nat.toDigits 10 n.toNat := by
  obtain ⟨⟨hpos, hle⟩, plus, zeros, hspelled⟩ := parseRevision_eq_some.mp h
  by_cases hpadded : plus = true ∨ 0 < zeros
  · exact absurd ⟨plus, zeros, n.toNat, ⟨by omega, by omega⟩, hpadded, hspelled⟩ hs
  · exact hspelled.trans (Decimal.spelled_plain hpadded)

theorem parseRevision_of_padded {s : String} (h : Padded s) :
    ∃ n, parseRevision s = some n ∧ s.toList ≠ Nat.toDigits 10 n.toNat := by
  obtain ⟨plus, zeros, n, ⟨hpos, hle⟩, hpadded, hs⟩ := h
  refine ⟨n, parseRevision_eq_some.mpr ⟨⟨by omega, hle⟩, plus, zeros, hs⟩, fun hdigits => ?_⟩
  exact not_padded_toDigits hpos hdigits ⟨plus, zeros, n, ⟨hpos, hle⟩, hpadded, hs⟩

theorem toString_eq_iff {s : String} {n : Int} (hn : 0 ≤ n) :
    toString n = s ↔ s.toList = Nat.toDigits 10 n.toNat := by
  obtain ⟨m, rfl⟩ := Int.eq_ofNat_of_zero_le hn
  rw [← Decimal.toString_ofNat_toList, String.toList_inj, eq_comm]
  rfl

/-- The reader and the schema agree on the texts that are not padded. -/
theorem canonical_iff_not_padded {s : String} :
    (∀ n, parseRevision s = some n ↔ CanonicalRevision s n) ↔ ¬Padded s := by
  constructor
  · intro hagree hpadded
    obtain ⟨n, hparse, hne⟩ := parseRevision_of_padded hpadded
    exact hne (canonicalRevision_iff.mp ((hagree n).mp hparse)).2
  · intro hs n
    rw [canonicalRevision_iff]
    constructor
    · exact fun h => ⟨(parseRevision_eq_some.mp h).1, toDigits_of_parseRevision hs h⟩
    · exact fun ⟨hrange, hdigits⟩ => parseRevision_eq_some.mpr ⟨hrange, false, 0, hdigits⟩

theorem toString_iff_not_padded {s : String} :
    (∀ n, parseRevision s = some n → toString n = s) ↔ ¬Padded s := by
  constructor
  · intro hback hpadded
    obtain ⟨n, hparse, hne⟩ := parseRevision_of_padded hpadded
    have hpos := (parseRevision_eq_some.mp hparse).1.1
    exact hne ((toString_eq_iff (Int.le_of_lt hpos)).mp (hback n hparse))
  · intro hs n h
    have hpos := (parseRevision_eq_some.mp h).1.1
    exact (toString_eq_iff (Int.le_of_lt hpos)).mpr (toDigits_of_parseRevision hs h)

/-! ## Requests -/

/-- Two texts of one positive number. -/
def SameNumber (s s' : String) : Prop :=
  ∃ (plus plus' : Bool) (zeros zeros' n : ℕ), 0 < n ∧ s.toList = spelled plus zeros n ∧
    s'.toList = spelled plus' zeros' n

/-- The expected revisions of a request. -/
def Request.revisions : Request → List String
  | .updateFlag request => [request.expectedRevision]
  | .archiveFlag request => [request.expectedRevision]
  | .putEnvironment request => request.expectedRevision.toList
  | .publishRuleset request => [request.expectedFlagRevision, request.expectedEnvironmentRevision]
  | _ => []

def Request.Unpadded (request : Request) : Prop := ∀ s ∈ request.revisions, ¬Padded s

/-- Two requests that differ in how their expected revisions are written. -/
inductive Respelled : Request → Request → Prop
  | updateFlag {request : UpdateFlagRequest} {revision : String}
      (h : SameNumber request.expectedRevision revision) :
      Respelled (.updateFlag request) (.updateFlag { request with expectedRevision := revision })
  | archiveFlag {request : ArchiveFlagRequest} {revision : String}
      (h : SameNumber request.expectedRevision revision) :
      Respelled (.archiveFlag request) (.archiveFlag { request with expectedRevision := revision })
  | putEnvironment {request : PutEnvironmentRequest} {text revision : String}
      (htext : request.expectedRevision = some text) (h : SameNumber text revision) :
      Respelled (.putEnvironment request)
        (.putEnvironment { request with expectedRevision := some revision })
  | publishRuleset {request : PublishRulesetRequest} {flagRevision environmentRevision : String}
      (hflag : SameNumber request.expectedFlagRevision flagRevision)
      (henvironment : SameNumber request.expectedEnvironmentRevision environmentRevision) :
      Respelled (.publishRuleset request)
        (.publishRuleset { request with
          expectedFlagRevision := flagRevision
          expectedEnvironmentRevision := environmentRevision })

theorem SameNumber.parseRevision_eq {s s' : String} (h : SameNumber s s') :
    parseRevision s = parseRevision s' := by
  obtain ⟨plus, plus', zeros, zeros', n, hn, hs, hs'⟩ := h
  refine Option.ext fun m => ?_
  rw [parseRevision_eq_some, parseRevision_eq_some]
  refine and_congr_right fun hm => ?_
  have hpos : 0 < m.toNat := by omega
  constructor
  · rintro ⟨plus₀, zeros₀, hs₀⟩
    rw [Decimal.spelled_inj hpos hn (hs₀.symm.trans hs)]
    exact ⟨plus', zeros', hs'⟩
  · rintro ⟨plus₀, zeros₀, hs₀⟩
    rw [Decimal.spelled_inj hpos hn (hs₀.symm.trans hs')]
    exact ⟨plus, zeros, hs⟩

/-- Two texts of one revision that are not padded are the same. -/
theorem SameNumber.eq {s s' : String} {n : Int} (h : SameNumber s s')
    (hn : parseRevision s = some n) (hs : ¬Padded s) (hs' : ¬Padded s') : s' = s := by
  have hn' : parseRevision s' = some n := h.parseRevision_eq ▸ hn
  refine String.toList_inj.mp ?_
  rw [toDigits_of_parseRevision hs hn, toDigits_of_parseRevision hs' hn']

theorem exists_unpadded {s : String} {n : Int} (h : parseRevision s = some n) :
    ∃ s', SameNumber s s' ∧ ¬Padded s' := by
  obtain ⟨⟨hpos, -⟩, plus, zeros, hs⟩ := parseRevision_eq_some.mp h
  have hdigits : (toString n).toList = Nat.toDigits 10 n.toNat :=
    (toString_eq_iff (Int.le_of_lt hpos)).mp rfl
  exact ⟨toString n, ⟨plus, false, zeros, 0, n.toNat, by omega, hs, hdigits⟩,
    not_padded_toDigits (by omega) hdigits⟩

section Calls

variable {rt : Runtime} {config : PolicyConfig} {auth : Authorized} {request request' : Request}

theorem isSome_passed {condition : Bool} {call : StoreCall} :
    (passed condition call).isSome = condition := by
  cases condition <;> rfl

/-- The checks look at the numbers. -/
theorem Respelled.isSome_call (h : Respelled request request') :
    (request'.call rt config auth).isSome = (request.call rt config auth).isSome := by
  cases h with
  | updateFlag h =>
    simp only [Request.call, validMutation, h.parseRevision_eq, Option.isSome_bind, isSome_passed]
  | archiveFlag h =>
    simp only [Request.call, validMutation, h.parseRevision_eq, Option.isSome_map]
  | putEnvironment htext h =>
    simp only [Request.call, htext, h.parseRevision_eq, Option.isSome_bind, isSome_passed,
      Option.isSome_some]
  | publishRuleset hflag henvironment =>
    simp only [Request.call, validMutation, hflag.parseRevision_eq,
      henvironment.parseRevision_eq, Option.isSome_bind, Option.isSome_map]
    rfl

theorem parseRevision_of_validMutation {key resource revision : String} {n : Int}
    (h : validMutation key resource revision = some n) : parseRevision revision = some n := by
  unfold validMutation at h
  split at h
  · exact h
  · cases h

/-- The revisions of an admitted request are numbers. -/
theorem Request.parses_of_call {call : StoreCall} (h : request.call rt config auth = some call) :
    ∀ s ∈ request.revisions, ∃ n, parseRevision s = some n := by
  intro s hs
  cases request with
  | evaluate => cases hs
  | evaluateBatch => cases hs
  | createFlag => cases hs
  | getFlag => cases hs
  | listFlags => cases hs
  | updateFlag request =>
    obtain ⟨n, hn, -⟩ := Option.bind_eq_some_iff.mp h
    rw [List.mem_singleton.mp hs]
    exact ⟨n, parseRevision_of_validMutation hn⟩
  | archiveFlag request =>
    obtain ⟨n, hn, -⟩ := Option.map_eq_some_iff.mp h
    rw [List.mem_singleton.mp hs]
    exact ⟨n, parseRevision_of_validMutation hn⟩
  | putEnvironment request =>
    have htext : request.expectedRevision = some s := Option.mem_toList.mp hs
    simp only [Request.call, htext] at h
    obtain ⟨n, hn, -⟩ := Option.bind_eq_some_iff.mp h
    exact ⟨n, hn⟩
  | publishRuleset request =>
    obtain ⟨n, hn, hrest⟩ := Option.bind_eq_some_iff.mp h
    obtain ⟨m, hm, -⟩ := Option.bind_eq_some_iff.mp hrest
    rcases List.mem_pair.mp hs with rfl | rfl
    · exact ⟨n, parseRevision_of_validMutation hn⟩
    · exact ⟨m, (Option.filter_eq_some_iff.mp hm).1⟩
  | listEvaluationReceipts => cases hs

/-- An admitted request has one spelling that is not padded. -/
theorem Respelled.eq (h : Respelled request request') {call : StoreCall}
    (hcall : request.call rt config auth = some call) (hr : request.Unpadded)
    (hr' : request'.Unpadded) : request' = request := by
  have hparses := Request.parses_of_call hcall
  cases h with
  | updateFlag h =>
    obtain ⟨n, hn⟩ := hparses _ List.mem_cons_self
    rw [h.eq hn (hr _ List.mem_cons_self) (hr' _ List.mem_cons_self)]
  | archiveFlag h =>
    obtain ⟨n, hn⟩ := hparses _ List.mem_cons_self
    rw [h.eq hn (hr _ List.mem_cons_self) (hr' _ List.mem_cons_self)]
  | putEnvironment htext h =>
    have hmem := Option.mem_toList.mpr htext
    obtain ⟨n, hn⟩ := hparses _ hmem
    rw [h.eq hn (hr _ hmem) (hr' _ List.mem_cons_self), ← htext]
  | publishRuleset hflag henvironment =>
    have hsecond := fun {a b : String} => List.mem_cons_of_mem a (@List.mem_singleton_self _ b)
    obtain ⟨n, hn⟩ := hparses _ List.mem_cons_self
    obtain ⟨m, hm⟩ := hparses _ hsecond
    rw [hflag.eq hn (hr _ List.mem_cons_self) (hr' _ List.mem_cons_self),
      henvironment.eq hm (hr _ hsecond) (hr' _ hsecond)]

theorem Request.exists_unpadded {call : StoreCall}
    (h : request.call rt config auth = some call) :
    request.Unpadded ∨ ∃ request', Respelled request request' ∧ request'.Unpadded := by
  have hparses := Request.parses_of_call h
  cases request with
  | evaluate => exact .inl (List.forall_mem_nil _)
  | evaluateBatch => exact .inl (List.forall_mem_nil _)
  | createFlag => exact .inl (List.forall_mem_nil _)
  | getFlag => exact .inl (List.forall_mem_nil _)
  | listFlags => exact .inl (List.forall_mem_nil _)
  | updateFlag request =>
    obtain ⟨n, hn⟩ := hparses _ List.mem_cons_self
    obtain ⟨s, hsame, hs⟩ := LensoFlags.exists_unpadded hn
    exact .inr ⟨_, .updateFlag hsame, List.forall_mem_singleton.mpr hs⟩
  | archiveFlag request =>
    obtain ⟨n, hn⟩ := hparses _ List.mem_cons_self
    obtain ⟨s, hsame, hs⟩ := LensoFlags.exists_unpadded hn
    exact .inr ⟨_, .archiveFlag hsame, List.forall_mem_singleton.mpr hs⟩
  | putEnvironment request =>
    cases htext : request.expectedRevision with
    | none =>
      refine .inl fun s hs => ?_
      have hsome : request.expectedRevision = some s := Option.mem_toList.mp hs
      rw [htext] at hsome
      cases hsome
    | some text =>
      obtain ⟨n, hn⟩ := hparses text (Option.mem_toList.mpr htext)
      obtain ⟨s, hsame, hs⟩ := LensoFlags.exists_unpadded hn
      exact .inr ⟨_, .putEnvironment htext hsame, List.forall_mem_singleton.mpr hs⟩
  | publishRuleset request =>
    obtain ⟨n, hn⟩ := hparses _ List.mem_cons_self
    obtain ⟨m, hm⟩ := hparses _ (List.mem_cons_of_mem _ (List.mem_singleton_self _))
    obtain ⟨s, hsame, hs⟩ := LensoFlags.exists_unpadded hn
    obtain ⟨t, hsame', ht⟩ := LensoFlags.exists_unpadded hm
    exact .inr ⟨_, .publishRuleset hsame hsame',
      List.forall_mem_cons.mpr ⟨hs, List.forall_mem_singleton.mpr ht⟩⟩
  | listEvaluationReceipts => exact .inl (List.forall_mem_nil _)

end Calls

/-- A text is read as a revision exactly if it is the one the schema has for it, unless it is
padded. Every spelling of an admitted request is admitted; the request is the only one of them that
is not padded exactly if it is not padded itself. -/
theorem revision_spellings (rt : Runtime) (config : PolicyConfig) (auth : Authorized) :
    (∀ s, (∀ n, parseRevision s = some n ↔ CanonicalRevision s n) ↔ ¬Padded s) ∧
    (∀ s, (∀ n, parseRevision s = some n → toString n = s) ↔ ¬Padded s) ∧
    (∀ n : Int, 0 < n → n ≤ i64Max → parseRevision (toString n) = some n) ∧
    ∀ request call, request.call rt config auth = some call →
      (∀ request', Respelled request request' →
        ∃ call', request'.call rt config auth = some call') ∧
      ((∀ request', Respelled request request' → request'.Unpadded → request' = request) ↔
        request.Unpadded) := by
  refine ⟨fun s => canonical_iff_not_padded, fun s => toString_iff_not_padded,
    fun n hpos hle => ?_, fun request call hcall => ⟨fun request' h => ?_, ?_, ?_⟩⟩
  · exact parseRevision_eq_some.mpr
      ⟨⟨hpos, hle⟩, false, 0, (toString_eq_iff (Int.le_of_lt hpos)).mp rfl⟩
  · exact Option.isSome_iff_exists.mp (h.isSome_call.trans (by rw [hcall]; rfl))
  · intro honly
    rcases Request.exists_unpadded hcall with hr | ⟨request', h, hr'⟩
    · exact hr
    · exact honly request' h hr' ▸ hr'
  · exact fun hr request' h hr' => h.eq hcall hr hr'

/-- The runtime at the Unix epoch, with hashes that do not collide. -/
def Runtime.verbatim : Runtime := { Runtime.atEpoch [] with sha256 := id }

/-- An archive request that expects a revision. -/
def archiveAt (revision : String) : Request :=
  .archiveFlag
    { expectedRevision := revision
      flagKey := "flag"
      idempotencyKey := "key"
      organizationId := "org" }

def samplePolicy : PolicyConfig :=
  { evaluationCallers := ["api"]
    adminCallers := ["admin"]
    maxContextBytes := 16384
    maxAttributes := 32
    maxBatchSize := 50 }

/-- The request at revision 1 is admitted, and so is its other spelling. -/
theorem revision_spellings_archive :
    ∃ call', (archiveAt "+1").call Runtime.verbatim samplePolicy ⟨"admin", "actor"⟩ = some call' :=
  ((revision_spellings Runtime.verbatim samplePolicy ⟨"admin", "actor"⟩).2.2.2
    (archiveAt "1") _ rfl).1 _ (.archiveFlag ⟨false, true, 0, 0, 1, by decide, rfl, rfl⟩)

/-- A sign makes another text of one revision, and another hash of one request. -/
theorem plus_admitted :
    parseRevision "+1" = some 1 ∧ ¬CanonicalRevision "+1" 1 ∧
      ∃ call call', (archiveAt "1").call Runtime.verbatim samplePolicy ⟨"admin", "actor"⟩ =
          some (.write call) ∧
        (archiveAt "+1").call Runtime.verbatim samplePolicy ⟨"admin", "actor"⟩ =
          some (.write call') ∧
        call.operation = call'.operation ∧ call.command.hash ≠ call'.command.hash := by
  refine ⟨by decide, fun h => ?_, _, _, rfl, rfl, rfl, by decide⟩
  exact absurd (canonicalRevision_iff.mp h).2 (by decide)

end LensoFlags
