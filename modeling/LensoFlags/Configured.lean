import LensoFlags.Validation
import LensoFlags.Postgres.Config

/-!
# Configurations and their schemas

`validate_config` of the D1 plugin, and what `configuration.schema.json` of each plugin says of a
configuration that has been read. The schemas count characters and say that the callers differ, the
code counts bytes and asks for the alphabet of the keys.

Results:
1. `validBinding_iff`: the check of the binding, byte for byte, is the pattern of the schema.
2. `policy_validated_iff`: what the validation of a policy adds to its schema, and leaves to it.
3. `configurations_validated`: the same of the configurations of both plugins.
-/

namespace LensoFlags

/-! ## The D1 plugin -/

/-- The texts of `Display`. -/
def FeatureFlagConfigError.toString : FeatureFlagConfigError → String
  | .invalidAuthIssuer => "invalid Auth issuer"
  | .invalidAuthPublicKey => "invalid Auth assertion public key"
  | .invalidEvaluationCallers => "evaluation_callers must contain unique exact Instance keys"
  | .invalidAdminCallers => "admin_callers must contain unique exact Instance keys"
  | .invalidBounds => "invalid context, attribute, or batch bound"

namespace D1

structure D1Config where
  binding : String
  authIssuer : String
  authAssertionPublicKey : String
  evaluationCallers : List String
  adminCallers : List String
  maxContextBytes : ℕ
  maxAttributes : ℕ
  maxBatchSize : ℕ

/-- `RuntimeFailure::InvalidResolvedPlan`. -/
structure InvalidResolvedPlan where
  detail : String
  deriving DecidableEq

/-- `is_ascii_alphabetic` -/
def isAlphabeticByte (byte : UInt8) : Bool :=
  (65 ≤ byte && byte ≤ 90) || (97 ≤ byte && byte ≤ 122)

/-- `is_ascii_alphanumeric`, or an underscore. -/
def isBindingByte (byte : UInt8) : Bool :=
  (48 ≤ byte && byte ≤ 57) || isAlphabeticByte byte || byte == 95

/-- A binding without a first byte is refused before that byte is looked at. -/
def validBinding (binding : String) : Bool :=
  !(binding.isEmpty || binding.utf8ByteSize > 128
    || !binding.toUTF8.data.toList.head?.any isAlphabeticByte
    || !binding.toUTF8.data.toList.all isBindingByte)

def D1Config.policy (config : D1Config) : PolicyConfig :=
  { evaluationCallers := config.evaluationCallers
    adminCallers := config.adminCallers
    maxContextBytes := config.maxContextBytes
    maxAttributes := config.maxAttributes
    maxBatchSize := config.maxBatchSize }

def validateConfig (kit : Kit) (config : D1Config) : Except InvalidResolvedPlan Unit :=
  if !validBinding config.binding then .error ⟨"invalid Feature Flag D1 binding name"⟩
  else (config.policy.validate kit config.authIssuer config.authAssertionPublicKey).mapError
    fun error => ⟨error.toString⟩

theorem validateConfig_eq_ok {kit : Kit} {config : D1Config} :
    validateConfig kit config = .ok () ↔
      validBinding config.binding = true ∧
        config.policy.validate kit config.authIssuer config.authAssertionPublicKey = .ok () := by
  unfold validateConfig
  cases validBinding config.binding
  · simp
  cases config.policy.validate kit config.authIssuer config.authAssertionPublicKey
  · simp [Except.mapError]
  · simp [Except.mapError]

/-! ## The pattern of the binding -/

/-- `[A-Za-z0-9_]` -/
def isBindingChar (c : Char) : Bool := c.isAlphanum || c == '_'

/-- `^[A-Za-z][A-Za-z0-9_]{0,127}$` -/
def bindingPattern : List Char → Bool
  | c :: cs => c.isAlpha && cs.length ≤ 127 && cs.all isBindingChar
  | [] => false

theorem isAlphabeticByte_iff {byte : UInt8} : isAlphabeticByte byte = true ↔
    65 ≤ byte.toNat ∧ byte.toNat ≤ 90 ∨ 97 ≤ byte.toNat ∧ byte.toNat ≤ 122 := by
  unfold isAlphabeticByte
  simp only [Bool.or_eq_true, Bool.and_eq_true, decide_eq_true_eq, UInt8.le_iff_toNat_le,
    UInt8.reduceToNat]

theorem isBindingByte_iff {byte : UInt8} : isBindingByte byte = true ↔
    48 ≤ byte.toNat ∧ byte.toNat ≤ 57 ∨ isAlphabeticByte byte = true ∨ byte.toNat = 95 := by
  unfold isBindingByte
  rw [Bool.or_eq_true, Bool.or_eq_true, Bool.and_eq_true, decide_eq_true_eq, decide_eq_true_eq,
    UInt8.le_iff_toNat_le, UInt8.le_iff_toNat_le, beq_iff_eq, ← UInt8.toNat_inj, or_assoc]
  rfl

theorem isAlpha_iff {c : Char} : c.isAlpha = true ↔
    65 ≤ c.toNat ∧ c.toNat ≤ 90 ∨ 97 ≤ c.toNat ∧ c.toNat ≤ 122 := by
  unfold Char.isAlpha Char.isUpper Char.isLower
  simp only [Bool.or_eq_true, Bool.and_eq_true, decide_eq_true_eq, UInt32.le_iff_toNat_le,
    ge_iff_le]
  rfl

theorem isBindingChar_iff {c : Char} : isBindingChar c = true ↔
    48 ≤ c.toNat ∧ c.toNat ≤ 57 ∨ c.isAlpha = true ∨ c.toNat = 95 := by
  unfold isBindingChar Char.isAlphanum
  rw [Bool.or_eq_true, Bool.or_eq_true, Char.isDigit_iff_toNat, beq_iff_eq, ← Char.toNat_inj,
    or_assoc, or_left_comm]
  rfl

theorem toNat_lt_of_isBindingByte {byte : UInt8} (h : isBindingByte byte = true) :
    byte.toNat < 128 := by
  rw [isBindingByte_iff, isAlphabeticByte_iff] at h
  omega

theorem toNat_lt_of_isBindingChar {c : Char} (h : isBindingChar c = true) : c.toNat < 128 := by
  rw [isBindingChar_iff, isAlpha_iff] at h
  omega

section Ascii

variable {c : Char} (h : c.toNat < 128)

include h

theorem isAlphabeticByte_ofNat : isAlphabeticByte (UInt8.ofNat c.toNat) = c.isAlpha := by
  rw [Bool.eq_iff_iff, isAlphabeticByte_iff, isAlpha_iff, Bytes.toNat_ofNat_ascii h]

theorem isBindingByte_ofNat : isBindingByte (UInt8.ofNat c.toNat) = isBindingChar c := by
  rw [Bool.eq_iff_iff, isBindingByte_iff, isBindingChar_iff, isAlphabeticByte_ofNat h,
    Bytes.toNat_ofNat_ascii h]

end Ascii

theorem ascii_of_validBinding {binding : String} (h : validBinding binding = true) :
    ∀ c ∈ binding.toList, c.toNat < 128 := by
  unfold validBinding at h
  simp only [Bool.not_or, Bool.not_not, Bool.and_eq_true] at h
  obtain ⟨-, hbytes⟩ := h
  refine Bytes.ascii_of_bytes fun byte hbyte => ?_
  exact toNat_lt_of_isBindingByte (List.all_eq_true.mp hbytes byte hbyte)

theorem ascii_of_bindingPattern {cs : List Char} (h : bindingPattern cs = true) :
    ∀ c ∈ cs, c.toNat < 128 := by
  cases cs with
  | nil => cases h
  | cons c cs =>
    simp only [bindingPattern, Bool.and_eq_true] at h
    obtain ⟨⟨hfirst, -⟩, hrest⟩ := h
    refine List.forall_mem_cons.mpr ⟨?_, fun d hd => ?_⟩
    · exact toNat_lt_of_isBindingChar (isBindingChar_iff.mpr (.inr (.inl hfirst)))
    · exact toNat_lt_of_isBindingChar (List.all_eq_true.mp hrest d hd)

/-- The bytes of a text in ASCII are its characters. -/
theorem validBinding_of_ascii {binding : String} (h : ∀ c ∈ binding.toList, c.toNat < 128) :
    validBinding binding = bindingPattern binding.toList := by
  have hempty : binding.isEmpty = binding.toList.isEmpty := by
    rw [Bool.eq_iff_iff, String.isEmpty_iff, List.isEmpty_iff, String.toList_eq_nil_iff]
  unfold validBinding
  rw [Bytes.bytes_of_ascii h, Bytes.utf8ByteSize_of_ascii h, ← String.length_toList, hempty]
  cases hcs : binding.toList with
  | nil => rfl
  | cons c cs =>
    rw [hcs] at h
    obtain ⟨hc, hrest⟩ := List.forall_mem_cons.mp h
    have hall : (cs.map fun d => UInt8.ofNat d.toNat).all isBindingByte = cs.all isBindingChar := by
      rw [List.all_map]
      rw [Bool.eq_iff_iff, List.all_eq_true, List.all_eq_true]
      exact forall₂_congr fun d hd => by
        rw [← isBindingByte_ofNat (hrest d hd)]
        rfl
    have hlength : decide (cs.length + 1 > 128) = !decide (cs.length ≤ 127) := by
      rw [← decide_not]
      exact decide_eq_decide.mpr (by omega)
    simp only [List.map_cons, List.head?_cons, Option.any_some, List.all_cons, List.isEmpty_cons,
      List.length_cons, hall, hlength, isAlphabeticByte_ofNat hc, isBindingByte_ofNat hc,
      bindingPattern]
    cases halpha : c.isAlpha with
    | false => simp
    | true =>
      rw [isBindingChar_iff.mpr (.inr (.inl halpha))]
      simp

/-- A text that is not in ASCII has a byte and a character outside of the alphabet. -/
theorem validBinding_iff (binding : String) :
    validBinding binding = bindingPattern binding.toList := by
  by_cases h : ∀ c ∈ binding.toList, c.toNat < 128
  · exact validBinding_of_ascii h
  · rw [Bool.eq_false_iff.mpr (mt ascii_of_validBinding h),
      Bool.eq_false_iff.mpr (mt ascii_of_bindingPattern h)]

end D1

/-! ## The keywords of the schemas -/

/-- `minLength` 1 and `maxLength`, in characters. -/
def Bounded (maxLength : ℕ) (value : String) : Prop := 1 ≤ value.length ∧ value.length ≤ maxLength

/-- An array of callers. -/
structure CallersConform (values : List String) : Prop where
  minItems : 1 ≤ values.length
  maxItems : values.length ≤ 64
  uniqueItems : values.Nodup
  items : ∀ value ∈ values, Bounded 256 value

/-- The properties that both schemas have. -/
structure PolicyConforms (issuer publicKey : String) (config : PolicyConfig) : Prop where
  authIssuer : Bounded 256 issuer
  authAssertionPublicKey : Bounded 256 publicKey
  evaluationCallers : CallersConform config.evaluationCallers
  adminCallers : CallersConform config.adminCallers
  maxContextBytes : 256 ≤ config.maxContextBytes ∧ config.maxContextBytes ≤ 65536
  maxAttributes : 1 ≤ config.maxAttributes ∧ config.maxAttributes ≤ 64
  maxBatchSize : 1 ≤ config.maxBatchSize ∧ config.maxBatchSize ≤ 100

structure D1.D1Config.Conforms (config : D1Config) : Prop where
  binding : bindingPattern config.binding.toList = true
  policy : PolicyConforms config.authIssuer config.authAssertionPublicKey config.policy

structure Postgres.FeatureFlagConfig.Conforms (config : FeatureFlagConfig) : Prop where
  schema : Bounded 63 config.schema
  databaseUrlSecret : Bounded 256 config.databaseUrlSecret
  policy : PolicyConforms config.authIssuer config.authAssertionPublicKey config.policy

/-! ## What the validation adds -/

/-- The names of instances are keys, and the verifier takes the key of the issuer. -/
structure PolicyRecognised (kit : Kit) (issuer publicKey : String) (config : PolicyConfig) :
    Prop where
  authIssuer : validId issuer = true
  verifier : kit.isVerifier issuer publicKey = true
  evaluationCallers : ∀ caller ∈ config.evaluationCallers, validId caller = true
  adminCallers : ∀ caller ∈ config.adminCallers, validId caller = true

theorem bounded_of_size {value : String} {max : ℕ} (hempty : value.isEmpty = false)
    (hsize : value.utf8ByteSize ≤ max) : Bounded max value := by
  refine ⟨?_, (Bytes.length_le_utf8ByteSize value).trans hsize⟩
  rw [← String.length_toList, Nat.one_le_iff_ne_zero, Ne, List.length_eq_zero_iff,
    String.toList_eq_nil_iff]
  rintro rfl
  cases hempty

theorem bounded_of_validId {value : String} (h : validId value = true) : Bounded 256 value := by
  unfold validId validKey at h
  simp only [Bool.and_eq_true, Bool.not_eq_true', decide_eq_true_eq] at h
  obtain ⟨⟨hempty, hsize⟩, -⟩ := h
  exact bounded_of_size hempty hsize

theorem bounded_of_validSecretReference {value : String} (h : validSecretReference value = true) :
    Bounded 256 value := by
  unfold validSecretReference at h
  rcases Bool.or_eq_true_iff.mp h with hid | hpath
  · exact bounded_of_validId hid
  · simp only [Bool.and_eq_true, Bool.not_eq_true', decide_eq_true_eq] at hpath
    obtain ⟨⟨⟨⟨⟨⟨hempty, hsize⟩, -⟩, -⟩, -⟩, -⟩, -⟩ := hpath
    exact bounded_of_size hempty hsize

theorem validCallers_iff {values : List String} : validCallers values = true ↔
    CallersConform values ∧ ∀ value ∈ values, validId value = true := by
  unfold validCallers
  simp only [Bool.and_eq_true, Bool.not_eq_true', List.isEmpty_eq_false_iff, decide_eq_true_eq,
    List.all_eq_true, beq_iff_eq, keySet_length_eq]
  constructor
  · rintro ⟨⟨⟨hempty, hmax⟩, hids⟩, hunique⟩
    exact ⟨⟨List.length_pos_iff.mpr hempty, hmax, hunique,
      fun value hvalue => bounded_of_validId (hids value hvalue)⟩, hids⟩
  · rintro ⟨⟨hmin, hmax, hunique, -⟩, hids⟩
    exact ⟨⟨⟨List.length_pos_iff.mp hmin, hmax⟩, hids⟩, hunique⟩

theorem PolicyConfig.validate_eq_ok {kit : Kit} {issuer publicKey : String}
    {config : PolicyConfig} :
    config.validate kit issuer publicKey = .ok () ↔
      validId issuer = true ∧ kit.isVerifier issuer publicKey = true ∧
        validCallers config.evaluationCallers = true ∧ validCallers config.adminCallers = true ∧
        (256 ≤ config.maxContextBytes ∧ config.maxContextBytes ≤ 65536) ∧
        (1 ≤ config.maxAttributes ∧ config.maxAttributes ≤ 64) ∧
        1 ≤ config.maxBatchSize ∧ config.maxBatchSize ≤ 100 := by
  unfold PolicyConfig.validate
  cases validId issuer
  · simp
  cases kit.isVerifier issuer publicKey
  · simp
  cases validCallers config.evaluationCallers
  · simp
  cases validCallers config.adminCallers
  · simp
  simp only [Bool.not_true, Bool.false_eq_true, if_false, true_and]
  split_ifs with hbounds
  · simp only [Bool.or_eq_true, Bool.not_eq_true', Bool.and_eq_false_iff, decide_eq_false_iff_not]
      at hbounds
    exact iff_of_false (by rintro ⟨⟩) (by omega)
  · simp only [Bool.or_eq_true, Bool.not_eq_true', Bool.and_eq_false_iff, decide_eq_false_iff_not]
      at hbounds
    exact iff_of_true rfl (by omega)

/-- The validation leaves the length of the public key to its schema. -/
theorem policy_validated_iff {kit : Kit} {issuer publicKey : String} {config : PolicyConfig} :
    config.validate kit issuer publicKey = .ok () ∧ Bounded 256 publicKey ↔
      PolicyConforms issuer publicKey config ∧ PolicyRecognised kit issuer publicKey config := by
  rw [PolicyConfig.validate_eq_ok, validCallers_iff, validCallers_iff]
  constructor
  · rintro ⟨⟨hissuer, hverifier, ⟨hevaluation, hids⟩, ⟨hadmin, hids'⟩, hbytes, hattributes, hbatch⟩,
      hkey⟩
    exact ⟨⟨bounded_of_validId hissuer, hkey, hevaluation, hadmin, hbytes, hattributes, hbatch⟩,
      hissuer, hverifier, hids, hids'⟩
  · rintro ⟨hconforms, hissuer, hverifier, hids, hids'⟩
    exact ⟨⟨hissuer, hverifier, ⟨hconforms.evaluationCallers, hids⟩,
      ⟨hconforms.adminCallers, hids'⟩, hconforms.maxContextBytes, hconforms.maxAttributes,
      hconforms.maxBatchSize⟩, hconforms.authAssertionPublicKey⟩

/-- A schema does not ask for the alphabet. -/
example : Bounded 256 "auth server" ∧ validId "auth server" = false :=
  ⟨⟨by decide, by decide⟩, by decide⟩

/-! ## The plugins -/

/-- Where the published schemas and the checks of the code part: the code asks for the alphabet of
the keys and for what the linked crates take, a schema for the lengths of what they are given. The
pattern of a binding is the same in both. -/
theorem configurations_validated (kit : Kit) :
    (∀ config : D1.D1Config,
      D1.validateConfig kit config = .ok () ∧ Bounded 256 config.authAssertionPublicKey ↔
        config.Conforms ∧
          PolicyRecognised kit config.authIssuer config.authAssertionPublicKey config.policy) ∧
    ∀ config : Postgres.FeatureFlagConfig,
      config.validate kit = .ok () ∧ Bounded 63 config.schema ∧
          Bounded 256 config.authAssertionPublicKey ↔
        config.Conforms ∧ kit.isSchema config.schema = true ∧
          validSecretReference config.databaseUrlSecret = true ∧
          PolicyRecognised kit config.authIssuer config.authAssertionPublicKey config.policy := by
  constructor
  · intro config
    rw [D1.validateConfig_eq_ok, D1.validBinding_iff, and_assoc, policy_validated_iff]
    constructor
    · rintro ⟨hbinding, hconforms, hrecognised⟩
      exact ⟨⟨hbinding, hconforms⟩, hrecognised⟩
    · rintro ⟨⟨hbinding, hconforms⟩, hrecognised⟩
      exact ⟨hbinding, hconforms, hrecognised⟩
  · intro config
    rw [Postgres.FeatureFlagConfig.validate_eq_ok]
    constructor
    · rintro ⟨⟨hkit, hsecret, hpolicy⟩, hschema, hkey⟩
      obtain ⟨hconforms, hrecognised⟩ := policy_validated_iff.mp ⟨hpolicy, hkey⟩
      exact ⟨⟨hschema, bounded_of_validSecretReference hsecret, hconforms⟩, hkit, hsecret,
        hrecognised⟩
    · rintro ⟨hconforms, hkit, hsecret, hrecognised⟩
      obtain ⟨hpolicy, hkey⟩ := policy_validated_iff.mpr ⟨hconforms.policy, hrecognised⟩
      exact ⟨⟨hkit, hsecret, hpolicy⟩, hconforms.schema, hkey⟩

end LensoFlags
