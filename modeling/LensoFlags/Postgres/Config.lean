import LensoFlags.Service
import LensoFlags.Lib.Bytes

/-!
# Configuration

`FeatureFlagConfig::validate` of the PostgreSQL plugin and the policy checks of the core that it
ends with. The plan of the schema and the key of the verifier are checked by the crates they come
from.

Results:
1. `FeatureFlagConfig.validate_eq_ok`: the configurations that are accepted.
2. `secretReference_clean_iff`: which accepted references have no traversal.
-/

namespace LensoFlags

/-! ## Checks -/

def maxCallers : ℕ := 64

def validId (value : String) : Bool := validKey value 256

def validCallers (values : List String) : Bool :=
  !values.isEmpty && values.length ≤ maxCallers && values.all validId
    && (keySet values).length == values.length

/-- `is_ascii_alphanumeric` or one of `.`, `_`, `-`, `/`. -/
def isPathByte (byte : UInt8) : Bool :=
  (48 ≤ byte && byte ≤ 57) || (65 ≤ byte && byte ≤ 90) || (97 ≤ byte && byte ≤ 122)
    || byte == 46 || byte == 95 || byte == 45 || byte == 47

/-- `split('/')`. -/
def segments (value : String) : List (List Char) := value.toList.splitOn '/'

/-- A plain id, or a path. -/
def validSecretReference (value : String) : Bool :=
  validId value
    || (!value.isEmpty
      && value.utf8ByteSize ≤ 256
      && value.toList.head? != some '/'
      && value.toList.getLast? != some '/'
      && !decide (['/', '/'] <:+: value.toList)
      && (segments value).all (fun part => part != ['.'] && part != ['.', '.'])
      && value.toUTF8.data.toList.all isPathByte)

/-! ## The policy -/

inductive FeatureFlagConfigError
  | invalidAuthIssuer
  | invalidAuthPublicKey
  | invalidEvaluationCallers
  | invalidAdminCallers
  | invalidBounds
  deriving DecidableEq

/-- What the validation takes from the crates it links: `SchemaPlan::new` accepts the name, and
`ActorAssertionVerifier::from_public_key_base64` the key of the issuer. -/
structure Kit where
  isSchema : String → Bool
  isVerifier : (issuer publicKey : String) → Bool

/-- The issuer and its key come before the fields of the policy. -/
def PolicyConfig.validate (kit : Kit) (authIssuer authAssertionPublicKey : String)
    (config : PolicyConfig) : Except FeatureFlagConfigError Unit :=
  if !validId authIssuer then .error .invalidAuthIssuer
  else if !kit.isVerifier authIssuer authAssertionPublicKey then .error .invalidAuthPublicKey
  else if !validCallers config.evaluationCallers then .error .invalidEvaluationCallers
  else if !validCallers config.adminCallers then .error .invalidAdminCallers
  else if !(256 ≤ config.maxContextBytes && config.maxContextBytes ≤ 65536)
      || !(1 ≤ config.maxAttributes && config.maxAttributes ≤ 64)
      || !(1 ≤ config.maxBatchSize && config.maxBatchSize ≤ 100) then .error .invalidBounds
  else .ok ()

namespace Postgres

structure FeatureFlagConfig where
  schema : String
  databaseUrlSecret : String
  authIssuer : String
  authAssertionPublicKey : String
  evaluationCallers : List String
  adminCallers : List String
  maxContextBytes : ℕ
  maxAttributes : ℕ
  maxBatchSize : ℕ

/-- The plugin's own failures, and those of the policy. -/
inductive ConfigError
  | invalidSchema
  | invalidSecretReference
  | policy (error : FeatureFlagConfigError)
  deriving DecidableEq

namespace FeatureFlagConfig

def policy (config : FeatureFlagConfig) : PolicyConfig :=
  { evaluationCallers := config.evaluationCallers
    adminCallers := config.adminCallers
    maxContextBytes := config.maxContextBytes
    maxAttributes := config.maxAttributes
    maxBatchSize := config.maxBatchSize }

def validate (kit : Kit) (config : FeatureFlagConfig) : Except ConfigError Unit :=
  if !kit.isSchema config.schema then .error .invalidSchema
  else if !validSecretReference config.databaseUrlSecret then .error .invalidSecretReference
  else (config.policy.validate kit config.authIssuer config.authAssertionPublicKey).mapError .policy

theorem validate_eq_ok {kit : Kit} {config : FeatureFlagConfig} :
    config.validate kit = .ok () ↔
      kit.isSchema config.schema = true ∧
        validSecretReference config.databaseUrlSecret = true ∧
        config.policy.validate kit config.authIssuer config.authAssertionPublicKey = .ok () := by
  unfold validate
  cases kit.isSchema config.schema
  · simp
  cases validSecretReference config.databaseUrlSecret
  · simp
  cases config.policy.validate kit config.authIssuer config.authAssertionPublicKey
  · simp [Except.mapError]
  · simp [Except.mapError]

end FeatureFlagConfig

end Postgres

/-! ## Segments -/

theorem segments_of_notMem {value : String} (h : '/' ∉ value.toList) :
    segments value = [value.toList] := by
  refine List.splitOnP_eq_singleton fun c hc => ?_
  rw [beq_eq_false_iff_ne]
  rintro rfl
  exact h hc

section Split

variable {α : Type} [DecidableEq α] {a c : α} {l : List α}

theorem splitOn_cons_self : (a :: l).splitOn a = [] :: l.splitOn a := by
  unfold List.splitOn
  rw [List.splitOnP_cons_eq_if_modifyHead, if_pos (beq_self_eq_true a)]

theorem splitOn_cons_of_ne (h : c ≠ a) : (c :: l).splitOn a = (l.splitOn a).modifyHead (c :: ·) := by
  unfold List.splitOn
  rw [List.splitOnP_cons_eq_if_modifyHead, if_neg (by simpa using h)]

omit [DecidableEq α] in
/-- A separator that stands last or before another one, in a suffix, does so in the whole. -/
theorem doubled_cons (c : α) (h : l.getLast? = some a ∨ [a, a] <:+: l) :
    (c :: l).getLast? = some a ∨ [a, a] <:+: c :: l := by
  rcases h with hlast | hdouble
  · left
    rw [List.getLast?_cons, hlast]
    rfl
  · exact .inr (List.infix_cons hdouble)

theorem empty_head_splitOn (h : (l.splitOn a).head? = some []) : l = [] ∨ l.head? = some a := by
  cases l with
  | nil => exact .inl rfl
  | cons c l =>
    by_cases hc : c = a
    · exact .inr (congrArg some hc)
    · rw [splitOn_cons_of_ne hc, List.head?_modifyHead] at h
      obtain ⟨part, -, hpart⟩ := Option.map_eq_some_iff.mp h
      cases hpart

/-- Behind the first segment, an empty one ends the text or stands between two separators. -/
theorem empty_mem_tail_splitOn (h : [] ∈ (l.splitOn a).tail) :
    l.getLast? = some a ∨ [a, a] <:+: l := by
  induction l with
  | nil => cases h
  | cons c l ih =>
    by_cases hc : c = a
    · subst hc
      rw [splitOn_cons_self, List.tail_cons] at h
      obtain ⟨first, rest, hparts⟩ :=
        List.exists_cons_of_ne_nil (List.splitOnP_ne_nil (· == c) l)
      have hsplit : l.splitOn c = first :: rest := hparts
      rw [hsplit] at h ih
      rcases List.mem_cons.mp h with rfl | hrest
      · rcases empty_head_splitOn (by rw [hsplit]; rfl) with rfl | hhead
        · exact .inl rfl
        · obtain ⟨tail, rfl⟩ := List.head?_eq_some_iff.mp hhead
          exact .inr ⟨[], tail, rfl⟩
      · exact doubled_cons c (ih hrest)
    · rw [splitOn_cons_of_ne hc, List.tail_modifyHead] at h
      exact doubled_cons c (ih h)

/-- An empty segment stands at an end of the text or between two separators. -/
theorem empty_mem_splitOn (h : [] ∈ l.splitOn a) :
    l = [] ∨ l.head? = some a ∨ l.getLast? = some a ∨ [a, a] <:+: l := by
  obtain ⟨first, rest, hparts⟩ := List.exists_cons_of_ne_nil (List.splitOnP_ne_nil (· == a) l)
  have hsplit : l.splitOn a = first :: rest := hparts
  rw [hsplit] at h
  rcases List.mem_cons.mp h with rfl | hrest
  · exact (empty_head_splitOn (by rw [hsplit]; rfl)).imp_right .inl
  · exact .inr (.inr (empty_mem_tail_splitOn (by rw [hsplit]; exact hrest)))

end Split

theorem slash_notMem_of_key {value : String} (h : value.toUTF8.data.toList.all isKeyByte = true) :
    '/' ∉ value.toList := by
  intro hmem
  have hbyte := (Bytes.mem_bytes (by decide)).mpr hmem
  exact absurd (List.all_eq_true.mp h _ hbyte) (by decide)

/-! ## Secret references -/

/-- A reference of segments that name something. -/
structure CleanReference (value : String) : Prop where
  segments : ∀ part ∈ segments value, part ≠ [] ∧ part ≠ ['.'] ∧ part ≠ ['.', '.']
  size : value.utf8ByteSize ≤ 256
  bytes : value.toUTF8.data.toList.all isKeyByte ∨ value.toUTF8.data.toList.all isPathByte

theorem CleanReference.of_path {value : String} (hempty : value.isEmpty = false)
    (hsize : value.utf8ByteSize ≤ 256) (hfirst : value.toList.head? ≠ some '/')
    (hlast : value.toList.getLast? ≠ some '/') (hdouble : ¬['/', '/'] <:+: value.toList)
    (hparts : ∀ part ∈ LensoFlags.segments value, part ≠ ['.'] ∧ part ≠ ['.', '.'])
    (hbytes : value.toUTF8.data.toList.all isPathByte) : CleanReference value := by
  refine ⟨fun part hpart => ⟨?_, hparts part hpart⟩, hsize, .inr hbytes⟩
  rintro rfl
  rcases empty_mem_splitOn hpart with hnil | hhead | hend | hboth
  · rw [String.toList_eq_nil_iff.mp hnil] at hempty
    cases hempty
  · exact hfirst hhead
  · exact hlast hend
  · exact hdouble hboth

/-- A plain id is one segment. -/
theorem cleanReference_of_id {value : String} (h : validId value = true) :
    CleanReference value ↔ value ≠ "." ∧ value ≠ ".." := by
  unfold validId validKey at h
  simp only [Bool.and_eq_true, Bool.not_eq_true', decide_eq_true_eq] at h
  obtain ⟨⟨hempty, hsize⟩, hbytes⟩ := h
  have hsegments := segments_of_notMem (slash_notMem_of_key hbytes)
  constructor
  · intro hclean
    have hmem : value.toList ∈ segments value := hsegments ▸ List.mem_singleton_self _
    obtain ⟨-, hdot, hdots⟩ := hclean.segments value.toList hmem
    refine ⟨?_, ?_⟩
    · rintro rfl
      exact hdot rfl
    · rintro rfl
      exact hdots rfl
  · rintro ⟨hdot, hdots⟩
    refine ⟨fun part hpart => ?_, hsize, .inl hbytes⟩
    rw [hsegments, List.mem_singleton] at hpart
    subst hpart
    refine ⟨?_, ?_, ?_⟩
    · intro hnil
      rw [String.toList_eq_nil_iff.mp hnil] at hempty
      cases hempty
    · exact fun h => hdot (String.toList_inj.mp h)
    · exact fun h => hdots (String.toList_inj.mp h)

/-- Both alternatives bound the size and the bytes. Of the accepted references only the plain ids
of one and of two dots have a segment that is empty or steps aside. -/
theorem secretReference_clean_iff (value : String) (h : validSecretReference value = true) :
    CleanReference value ↔ value ≠ "." ∧ value ≠ ".." := by
  unfold validSecretReference at h
  rcases Bool.or_eq_true_iff.mp h with hid | hpath
  · exact cleanReference_of_id hid
  · simp only [Bool.and_eq_true, Bool.not_eq_true', decide_eq_true_eq, decide_eq_false_iff_not,
      bne_iff_ne, List.all_eq_true] at hpath
    obtain ⟨⟨⟨⟨⟨⟨hempty, hsize⟩, hfirst⟩, hlast⟩, hdouble⟩, hparts⟩, hbytes⟩ := hpath
    have hclean := CleanReference.of_path hempty hsize hfirst hlast hdouble hparts
      (List.all_eq_true.mpr hbytes)
    refine iff_of_true hclean ⟨?_, ?_⟩
    · rintro rfl
      exact (hparts ['.'] List.mem_cons_self).1 rfl
    · rintro rfl
      exact (hparts ['.', '.'] List.mem_cons_self).2 rfl

theorem secretReference_clean_database :
    CleanReference "feature-flags/database-url" :=
  (secretReference_clean_iff "feature-flags/database-url" (by decide)).mpr (by decide)

/-- The parent directory is a plain id. -/
theorem parent_accepted : validSecretReference ".." = true ∧ ¬CleanReference ".." :=
  ⟨by decide, fun h => (h.segments ['.', '.'] List.mem_cons_self).2.2 rfl⟩

end LensoFlags
