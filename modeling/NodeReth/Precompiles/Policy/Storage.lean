import NodeReth.Lib.Effects
import NodeReth.Primitives

/-!
# Storage of the policy registry

Policy identifiers, packed policy words and the slots of the `PolicyRegistry` precompile
(`policy/storage.rs` and the constants that `policy/logic/v1.rs` and `v2.rs` share). An identifier
holds the policy type in its top byte and a counter below it.
-/

namespace NodeReth

open Bytes Nat UInt64

inductive PolicyType
  | blocklist
  | allowlist
  | union
  | intersect
  deriving DecidableEq, Repr

namespace PolicyType

def asDiscriminant : PolicyType → UInt8
  | blocklist => 0
  | allowlist => 1
  | union => 2
  | intersect => 3

/-- `ALLOWLIST` and `BLOCKLIST`. -/
def isSimple : PolicyType → Bool
  | blocklist | allowlist => true
  | union | intersect => false

end PolicyType

/-! ## Identifiers -/

namespace PolicyRegistry

def counterMask : UInt64 := ((1 : UInt64) <<< 56) - 1

variable (policyId : UInt64)

def policyIdType : UInt8 := (policyId >>> 56).toUInt8

def makeId (policyType : UInt8) (counter : UInt64) : UInt64 :=
  (policyType.toUInt64 <<< 56) ||| (counter &&& counterMask)

def alwaysAllowId : UInt64 := 0

def alwaysBlockId : UInt64 := ((1 : UInt64) <<< 56) ||| 1

def isBuiltin : Bool := policyId = alwaysAllowId || policyId = alwaysBlockId

/-- The top byte is `UNION` or `INTERSECT`. -/
def isComposite : Bool :=
  let policyType := policyIdType policyId
  policyType = PolicyType.union.asDiscriminant || policyType = PolicyType.intersect.asDiscriminant

/-- The top byte is a supported policy type. -/
def isWellFormed : Bool :=
  policyIdType policyId ≤ PolicyType.intersect.asDiscriminant

theorem toNat_makeId (t : UInt8) (c : UInt64) :
    (makeId t c).toNat = 2 ^ 56 * t.toNat + c.toNat % 2 ^ 56 := by
  have ht : t.toNat < 2 ^ 8 := t.toNat_lt
  have hmask : counterMask.toNat = 2 ^ 56 - 1 := by decide
  have hlow : c.toNat % 2 ^ 56 < 2 ^ 56 := mod_lt _ (by decide)
  unfold makeId
  rw [UInt64.toNat_or, UInt64.toNat_and, hmask, and_two_pow_sub_one_eq_mod,
    UInt64.toNat_shiftLeft, UInt8.toNat_toUInt64]
  have hshift : t.toNat <<< (UInt64.toNat 56 % 64) % 2 ^ 64 = 2 ^ 56 * t.toNat := by
    show t.toNat <<< 56 % 2 ^ 64 = _
    rw [shiftLeft_eq, mod_eq_of_lt (by omega), mul_comm]
  rw [hshift, two_pow_add_eq_or_of_lt hlow]

theorem policyIdType_makeId (t : UInt8) (c : UInt64) : policyIdType (makeId t c) = t := by
  have ht : t.toNat < 2 ^ 8 := t.toNat_lt
  apply UInt8.toNat_inj.mp
  unfold policyIdType
  rw [UInt64.toNat_toUInt8, UInt64.toNat_shiftRight, toNat_makeId]
  show (2 ^ 56 * t.toNat + c.toNat % 2 ^ 56) >>> 56 % 2 ^ 8 = t.toNat
  omega

theorem makeId_ne {t t' : UInt8} {c c' : UInt64} (hc : c < counterMask) (hc' : c' < counterMask)
    (h : c ≠ c') : makeId t c ≠ makeId t' c' := by
  intro heq
  have hmask : counterMask.toNat = 2 ^ 56 - 1 := by decide
  have hlt := lt_iff_toNat_lt.mp hc
  have hlt' := lt_iff_toNat_lt.mp hc'
  have := congrArg UInt64.toNat heq
  rw [toNat_makeId, toNat_makeId] at this
  apply h
  apply UInt64.toNat_inj.mp
  omega

/-- The counters of the built-in policies are below two. -/
theorem makeId_ne_builtin {t : UInt8} {c : UInt64} (hc : 2 ≤ c) (hmax : c < counterMask) :
    isBuiltin (makeId t c) = false := by
  have hmask : counterMask.toNat = 2 ^ 56 - 1 := by decide
  have hle : 2 ≤ c.toNat := le_iff_toNat_le.mp hc
  have hlt := lt_iff_toNat_lt.mp hmax
  have hblock : alwaysBlockId.toNat = 2 ^ 56 + 1 := by decide
  have hallow : alwaysAllowId.toNat = 0 := by decide
  have hid := toNat_makeId t c
  unfold isBuiltin
  rw [Bool.or_eq_false_iff, decide_eq_false_iff_not, decide_eq_false_iff_not]
  constructor
  · intro heq
    rw [heq] at hid
    omega
  · intro heq
    rw [heq] at hid
    omega

end PolicyRegistry

/-! ## Policy words -/

/-- The top bit says that the word was written; the low 160 bits are the admin. -/
structure PackedPolicy where
  word : ℕ
  deriving DecidableEq

namespace PackedPolicy

def existsBit : ℕ := 2 ^ 255

def adminMask : ℕ := 2 ^ 160 - 1

def new (admin : Address) : PackedPolicy :=
  ⟨ofBe (List.replicate 12 0 ++ admin.val) ||| existsBit⟩

def withAdmin (_ : PackedPolicy) (newAdmin : Address) : PackedPolicy := new newAdmin

variable (p : PackedPolicy)

def admin : Address :=
  ⟨(toBe 32 (p.word &&& adminMask)).drop 12, by rw [List.length_drop, toBe_length]⟩

/-- `exists` in the source. -/
def isWritten : Bool := p.word &&& existsBit ≠ 0

def intoU256 : ℕ := p.word

def fromRaw (v : ℕ) : PackedPolicy := ⟨v⟩

@[simp] theorem fromRaw_intoU256 : fromRaw p.intoU256 = p := rfl

@[simp] theorem isWritten_zero : (fromRaw 0).isWritten = false := by decide

@[simp] theorem isWritten_new (admin : Address) : (new admin).isWritten = true := by
  unfold isWritten new existsBit
  rw [decide_eq_true_iff]
  intro hzero
  -- the top bit of both sides of the conjunction is set
  have hbit := congrArg (Nat.testBit · 255) hzero
  simp only [testBit_and, testBit_or, testBit_two_pow_self, Bool.or_true] at hbit
  cases hbit

end PackedPolicy

/-! ## Slots -/

inductive PolicyEvent
  | policyCreated (policyId : UInt64) (creator : Address) (policyType : PolicyType)
  | policyAdminStaged (policyId : UInt64) (currentAdmin pendingAdmin : Address)
  | policyAdminUpdated (policyId : UInt64) (previousAdmin newAdmin : Address)
  | allowlistUpdated (policyId : UInt64) (updater : Address) (allowed : Bool)
      (accounts : List Address)
  | blocklistUpdated (policyId : UInt64) (updater : Address) (blocked : Bool)
      (accounts : List Address)
  | compositePolicyUpdated (policyId : UInt64) (updater : Address) (childPolicyIds : List UInt64)
  deriving DecidableEq

inductive PolicyError
  | unauthorized
  | policyNotFound
  | incompatiblePolicyType
  | zeroAddress
  | batchSizeTooLarge (maxBatchSize : ℕ)
  | noPendingAdmin
  | childPoliciesOutsideOfRange
  | invalidChildPolicy (childPolicyId : UInt64)
  | underOverflow
  | enumConversionError
  | unknownFunctionSelector
  deriving DecidableEq, Repr

/-- Every slot that was never written holds zero. -/
structure PolicyRegistryStorage where
  policies : UInt64 → ℕ
  members : UInt64 → Address → Bool
  pendingAdmins : UInt64 → Address
  nextCounter : UInt64
  children : UInt64 → List UInt64
  /-- The account has its marker byte code. -/
  initialized : Bool
  events : List PolicyEvent

def Address.zero : Address := FixedBytes.zero 20

def PolicyRegistryStorage.empty : PolicyRegistryStorage where
  policies _ := 0
  members _ _ := false
  pendingAdmins _ := Address.zero
  nextCounter := 0
  children _ := []
  initialized := false
  events := []

abbrev RegistryM := EStateM PolicyError PolicyRegistryStorage

end NodeReth
