import NodeReth.Lib.Bitlist
import NodeReth.Lib.Fallible
import NodeReth.Primitives

/-!
# Bit lists of a span batch

`SpanBatchBits` of `protocol/src/batch/bits.rs`: a list of bits kept as a big-endian number, zeros in
front. A list of `n` bits is written in as few bytes as hold `n` bits.

`decode` does not insist on these bytes. Of a shorter buffer it takes what there is and puts the zeros
behind it, where the format has them in front.
-/

namespace NodeReth

open Bytes List Nat

inductive SpanDecodingError
  | relativeTimestamp | l1OriginNumber | parentCheck | l1OriginCheck | blockCount | blockTxCounts
  | txNonces | typeSignatureLenMismatch | invalidTransactionType | invalidTransactionData
  | invalidAuthData | invalidTransactionSignature
  deriving DecidableEq, Repr

inductive SpanBatchError
  | tooBigSpanBatchSize
  | bitfieldTooLong
  | emptySpanBatch
  | l1OriginBeforeSafeHead
  | missingL1Origin
  | decoding (e : SpanDecodingError)
  deriving DecidableEq, Repr

/-- How a computation on a span batch ends early: it reports an error, or it hits a fault. -/
inductive Stop
  | err (e : SpanBatchError)
  | fault (f : Fault)
  deriving DecidableEq, Repr

structure SpanBatchBits where
  bytes : Bytes
  deriving DecidableEq

namespace SpanBatchBits

variable {k : ℕ} {bits : SpanBatchBits} {b : Bytes} {n : ℕ} {calls : List (ℕ × Bool)}

def default : SpanBatchBits := ⟨[]⟩

/-- Zeros in front of the highest set bit of a byte. -/
def leadingZeros (x : UInt8) : ℕ := if x = 0 then 8 else 7 - Nat.log2 x.toNat

/-- The position of the first set bit of the string, counted from the end. -/
def bitLenOf : Bytes → ℕ
  | [] => 0
  | x :: rest => if x ≠ 0 then 7 - leadingZeros x + 1 + rest.length * 8 else bitLenOf rest

def bitLen (bits : SpanBatchBits) : ℕ := bitLenOf bits.bytes

/-- The bytes that `bitLength` bits take. -/
def bufferLen (bitLength : ℕ) : ℕ := bitLength / 8 + if bitLength % 8 ≠ 0 then 1 else 0

/-- Reads a list off the front of a buffer; the result is the list and the rest of the buffer. -/
def decode (b : Bytes) (bitLength : ℕ) : Except Stop (SpanBatchBits × Bytes) :=
  let bufferLen := bufferLen bitLength
  let bits : SpanBatchBits :=
    if b.length < bufferLen then ⟨b ++ replicate (bufferLen - b.length) 0⟩
    else ⟨b.take bufferLen⟩
  if bits.bitLen > bitLength then .error (.err .bitfieldTooLong) else .ok (bits, b.drop bufferLen)

/-- The bytes of a list; a list that is held in more bytes does not fit the slice of the buffer. -/
def encode (bitLength : ℕ) (bits : SpanBatchBits) : Except Stop Bytes :=
  let bufLen := bufferLen bitLength
  if bits.bitLen > bitLength then .error (.err .bitfieldTooLong)
  else if bufLen < bits.bytes.length then .error (.fault .underflow)
  else .ok (replicate (bufLen - bits.bytes.length) 0 ++ bits.bytes)

def getBit (bits : SpanBatchBits) (index : ℕ) : Option UInt8 :=
  let byteIndex := index / 8
  let bitIndex := index % 8
  if h : byteIndex < bits.bytes.length then
    let byte := bits.bytes[bits.bytes.length - byteIndex - 1]
    some (if byte &&& (1 <<< UInt8.ofNat bitIndex) ≠ 0 then 1 else 0)
  else none

/-- Zero extension at the front. -/
def resizeFromRight (b : Bytes) (newSize : ℕ) : Bytes :=
  if newSize < b.length then b.drop (b.length - newSize)
  else replicate (newSize - b.length) 0 ++ b

def setBit (bits : SpanBatchBits) (index : ℕ) (value : Bool) : SpanBatchBits :=
  let byteIndex := index / 8
  let bitIndex := UInt8.ofNat (index % 8)
  let bytes :=
    if byteIndex ≥ bits.bytes.length then resizeFromRight bits.bytes (byteIndex + 1) else bits.bytes
  ⟨bytes.modify (bytes.length - byteIndex - 1) fun byte =>
    if value then byte ||| (1 <<< bitIndex) else byte &&& ~~~(1 <<< bitIndex)⟩

/-- A sequence of `setBit` calls on an empty list. -/
def setBits (calls : List (ℕ × Bool)) : SpanBatchBits :=
  calls.foldl (fun bits call => bits.setBit call.1 call.2) default

/-! ## Bytes -/

theorem toNat_shift (hk : k < 8) : ((1 : UInt8) <<< UInt8.ofNat k).toNat = 2 ^ k := by
  interval_cases k <;> rfl

theorem testBit_and_not_shift (x : UInt8) (hk : k < 8) {j : ℕ} (hj : j < 8) :
    (x &&& ~~~(1 <<< UInt8.ofNat k)).toNat.testBit j = (x.toNat.testBit j && !decide (k = j)) := by
  rw [UInt8.toNat_and, testBit_and]
  interval_cases k <;> interval_cases j <;> rfl

theorem and_shift_ne_zero_iff (x : UInt8) (hk : k < 8) :
    x &&& (1 <<< UInt8.ofNat k) ≠ 0 ↔ x.toNat.testBit k = true := by
  have hzero : x &&& (1 <<< UInt8.ofNat k) = 0 ↔ (x &&& (1 <<< UInt8.ofNat k)).toNat = 0 := by
    rw [← UInt8.toNat_inj]
    rfl
  rw [Ne, hzero, UInt8.toNat_and, toNat_shift hk, and_two_pow]
  cases x.toNat.testBit k <;> simp

theorem succ_msb {x : UInt8} (hx : x ≠ 0) : 7 - leadingZeros x + 1 = Nat.log2 x.toNat + 1 := by
  unfold leadingZeros
  rw [if_neg hx]
  have hne : x.toNat ≠ 0 := fun h => hx (UInt8.toNat_inj.mp h)
  have hlog : Nat.log2 x.toNat < 8 := (log2_lt hne).mpr x.toNat_lt
  omega

theorem pow_256 (k : ℕ) : 256 ^ k = 2 ^ (8 * k) := by
  rw [pow_mul]
  norm_num

/-! ## Lengths -/

/-- The bit length says below which power of two the number is. -/
theorem bitLenOf_le_iff (b : Bytes) (n : ℕ) : bitLenOf b ≤ n ↔ ofBe b < 2 ^ n := by
  induction b with
  | nil => simp [bitLenOf]
  | cons x rest ih =>
    unfold bitLenOf
    by_cases hx : x = 0
    · subst hx
      have hzero : ofBe (0 :: rest) = ofBe rest := ofBe_replicate_zero_append 1 rest
      rw [if_neg (by simp), hzero, ih]
    · have hne : x.toNat ≠ 0 := fun h => hx (UInt8.toNat_inj.mp h)
      have hrest : ofBe rest < 2 ^ (8 * rest.length) := pow_256 rest.length ▸ ofBe_lt rest
      rw [if_pos hx, succ_msb hx, ofBe_cons, pow_256]
      constructor
      · intro h
        calc x.toNat * 2 ^ (8 * rest.length) + ofBe rest
            < (x.toNat + 1) * 2 ^ (8 * rest.length) := by
              rw [add_mul]
              omega
          _ ≤ 2 ^ (Nat.log2 x.toNat + 1) * 2 ^ (8 * rest.length) :=
              mul_le_mul_right _ lt_log2_self
          _ = 2 ^ (Nat.log2 x.toNat + 1 + rest.length * 8) := by
              rw [← pow_add, mul_comm rest.length]
          _ ≤ 2 ^ n := Nat.pow_le_pow_right (by norm_num) h
      · by_contra hlt
        have hn : n ≤ Nat.log2 x.toNat + 8 * rest.length := by omega
        have hle : 2 ^ n ≤ x.toNat * 2 ^ (8 * rest.length) :=
          calc 2 ^ n ≤ 2 ^ (Nat.log2 x.toNat + 8 * rest.length) :=
                Nat.pow_le_pow_right (by norm_num) hn
            _ = 2 ^ Nat.log2 x.toNat * 2 ^ (8 * rest.length) := pow_add ..
            _ ≤ x.toNat * 2 ^ (8 * rest.length) := mul_le_mul_right _ (log2_self_le hne)
        omega

theorem bitLen_le_iff (bits : SpanBatchBits) (n : ℕ) :
    bits.bitLen ≤ n ↔ ofBe bits.bytes < 2 ^ n := bitLenOf_le_iff bits.bytes n

theorem le_bufferLen (n : ℕ) : n ≤ 8 * bufferLen n := by
  unfold bufferLen
  split_ifs with h <;> omega

theorem bufferLen_lt (n : ℕ) : 8 * bufferLen n < n + 8 := by
  unfold bufferLen
  split_ifs with h <;> omega

/-! ## Single bits -/

theorem getBit_eq (i : ℕ) :
    bits.getBit i =
      if i / 8 < bits.bytes.length then some (if bits.bytes.bit i then 1 else 0) else none := by
  unfold getBit
  by_cases h : i / 8 < bits.bytes.length
  · dsimp only
    rw [dif_pos h, if_pos h, bit_eq_byte h]
    have hiff := and_shift_ne_zero_iff (bits.bytes[bits.bytes.length - i / 8 - 1])
      (mod_lt i (by norm_num : 0 < 8))
    by_cases hbit : (bits.bytes[bits.bytes.length - i / 8 - 1]).toNat.testBit (i % 8) = true
    · rw [if_pos (hiff.mpr hbit), if_pos hbit]
    · rw [if_neg (mt hiff.mp hbit), if_neg hbit]
  · rw [dif_neg h, if_neg h]

theorem getBit_getD (i : ℕ) : (bits.getBit i).getD 0 = if bits.bytes.bit i then 1 else 0 := by
  rw [getBit_eq]
  by_cases h : i / 8 < bits.bytes.length
  · rw [if_pos h, Option.getD_some]
  · rw [if_neg h, bit_of_le (by omega)]
    rfl

theorem getBit_ne_one {i : ℕ} (h : bits.bytes.bit i = false) : bits.getBit i ≠ some 1 := by
  rw [getBit_eq, h]
  by_cases hlen : i / 8 < bits.bytes.length
  · rw [if_pos hlen]
    decide
  · simp

/-- The bytes of a list once it reaches a given byte. -/
def reach (b : Bytes) (byteIndex : ℕ) : Bytes :=
  if byteIndex ≥ b.length then resizeFromRight b (byteIndex + 1) else b

theorem reach_eq : reach b k = replicate (k + 1 - b.length) 0 ++ b := by
  unfold reach resizeFromRight
  by_cases h : k ≥ b.length
  · rw [if_pos h, if_neg (by omega)]
  · have hzero : k + 1 - b.length = 0 := by omega
    rw [if_neg h, hzero]
    rfl

theorem length_reach (b : Bytes) (k : ℕ) : (reach b k).length = max b.length (k + 1) := by
  rw [reach_eq, length_append, length_replicate]
  omega

theorem length_setBit (i : ℕ) (v : Bool) :
    (bits.setBit i v).bytes.length = max bits.bytes.length (i / 8 + 1) := by
  unfold setBit
  rw [length_modify]
  exact length_reach bits.bytes (i / 8)

theorem bit_setBit (i : ℕ) (v : Bool) (j : ℕ) :
    (bits.setBit i v).bytes.bit j = if j = i then v else bits.bytes.bit j := by
  have hlen : i / 8 < (reach bits.bytes (i / 8)).length := by
    rw [length_reach]
    omega
  have hsame : ∀ j, (reach bits.bytes (i / 8)).bit j = bits.bytes.bit j := by
    intro j
    rw [reach_eq, bit_replicate_zero_append]
  have hi : i % 8 < 8 := mod_lt i (by norm_num)
  have hj : j % 8 < 8 := mod_lt j (by norm_num)
  show bit ((reach bits.bytes (i / 8)).modify ((reach bits.bytes (i / 8)).length - i / 8 - 1) _) j = _
  rw [bit_modify _ hlen, ← hsame j]
  by_cases hdiv : j / 8 = i / 8
  · rw [if_pos hdiv, bit_eq_byte (hdiv ▸ hlen)]
    simp only [hdiv]
    have heq : i % 8 = j % 8 ↔ j = i := by omega
    cases v with
    | true =>
      rw [if_pos rfl, UInt8.toNat_or, testBit_or, toNat_shift hi, testBit_two_pow]
      by_cases hji : j = i
      · rw [if_pos hji, decide_eq_true (heq.mpr hji), Bool.or_true]
      · rw [if_neg hji, decide_eq_false (mt heq.mp hji), Bool.or_false]
    | false =>
      rw [if_neg (by simp), testBit_and_not_shift _ hi hj]
      by_cases hji : j = i
      · rw [if_pos hji, decide_eq_true (heq.mpr hji), Bool.not_true, Bool.and_false]
      · rw [if_neg hji, decide_eq_false (mt heq.mp hji), Bool.not_false, Bool.and_true]
  · have hji : j ≠ i := fun h => hdiv (by rw [h])
    rw [if_neg hdiv, if_neg hji]

/-! ## Reading and writing -/

/-- The bytes that `decode` takes for a list: what there is of them, and zeros for the rest. -/
def taken (b : Bytes) (n : ℕ) : Bytes :=
  b.take (bufferLen n) ++ replicate (bufferLen n - b.length) 0

theorem length_taken (b : Bytes) (n : ℕ) : (taken b n).length = bufferLen n := by
  unfold taken
  rw [length_append, length_take, length_replicate]
  omega

theorem taken_of_le (h : bufferLen n ≤ b.length) : taken b n = b.take (bufferLen n) := by
  unfold taken
  rw [Nat.sub_eq_zero_of_le h, replicate_zero, append_nil]

theorem decode_eq :
    decode b n = if ofBe (taken b n) < 2 ^ n then .ok (⟨taken b n⟩, b.drop (bufferLen n))
      else .error (.err .bitfieldTooLong) := by
  have hbits : (if b.length < bufferLen n then
      (⟨b ++ replicate (bufferLen n - b.length) 0⟩ : SpanBatchBits)
      else ⟨b.take (bufferLen n)⟩) = ⟨taken b n⟩ := by
    by_cases h : b.length < bufferLen n
    · rw [if_pos h]
      unfold taken
      rw [take_of_length_le h.le]
    · rw [if_neg h, taken_of_le (by omega)]
  unfold decode
  dsimp only
  rw [hbits]
  have hlen := bitLen_le_iff ⟨taken b n⟩ n
  by_cases h : ofBe (taken b n) < 2 ^ n
  · rw [if_neg (by have := hlen.mpr h; omega), if_pos h]
  · rw [if_pos (by have := mt hlen.mp h; omega), if_neg h]

theorem decode_ok_iff {rest : Bytes} :
    decode b n = .ok (bits, rest) ↔
      ofBe (taken b n) < 2 ^ n ∧ bits = ⟨taken b n⟩ ∧ rest = b.drop (bufferLen n) := by
  rw [decode_eq]
  by_cases h : ofBe (taken b n) < 2 ^ n
  · rw [if_pos h, Except.ok.injEq, Prod.mk.injEq]
    exact ⟨fun heq => ⟨h, heq.1.symm, heq.2.symm⟩, fun heq => ⟨heq.2.1.symm, heq.2.2.symm⟩⟩
  · rw [if_neg h]
    exact ⟨nofun, fun heq => absurd heq.1 h⟩

theorem encode_eq (hlen : bits.bytes.length ≤ bufferLen n) (hlt : ofBe bits.bytes < 2 ^ n) :
    encode n bits = .ok (replicate (bufferLen n - bits.bytes.length) 0 ++ bits.bytes) := by
  unfold encode
  have := (bitLen_le_iff bits n).mpr hlt
  rw [if_neg (by omega), if_neg (by omega)]

theorem decode_append {p rest : Bytes} (hlen : p.length = bufferLen n) (hlt : ofBe p < 2 ^ n) :
    decode (p ++ rest) n = .ok (⟨p⟩, rest) := by
  have htaken : taken (p ++ rest) n = p := by
    rw [taken_of_le (by rw [length_append]; omega), ← hlen, take_left]
  refine decode_ok_iff.mpr ⟨by rw [htaken]; exact hlt, by rw [htaken], ?_⟩
  rw [← hlen, drop_left]

/-- In a full buffer only the first byte can hold a bit that is too high. -/
theorem ofBe_lt_iff_first {x : UInt8} {t : Bytes} (hlen : (x :: t).length = bufferLen n) :
    ofBe (x :: t) < 2 ^ n ↔ n % 8 = 0 ∨ x.toNat < 2 ^ (n % 8) := by
  rw [length_cons] at hlen
  have ht : ofBe t < 2 ^ (8 * t.length) := pow_256 t.length ▸ ofBe_lt t
  have hx : x.toNat < 2 ^ 8 := x.toNat_lt
  rw [ofBe_cons, pow_256]
  by_cases hmod : n % 8 = 0
  · have hn : n = 8 + 8 * t.length := by
      unfold bufferLen at hlen
      rw [if_neg (by omega)] at hlen
      omega
    refine ⟨fun _ => .inl hmod, fun _ => ?_⟩
    calc x.toNat * 2 ^ (8 * t.length) + ofBe t < (x.toNat + 1) * 2 ^ (8 * t.length) := by
          rw [add_mul]
          omega
      _ ≤ 2 ^ 8 * 2 ^ (8 * t.length) := mul_le_mul_right _ hx
      _ = 2 ^ n := by rw [← pow_add, ← hn]
  · have hn : n = n % 8 + 8 * t.length := by
      unfold bufferLen at hlen
      rw [if_pos hmod] at hlen
      omega
    have hpow : 2 ^ n = 2 ^ (n % 8) * 2 ^ (8 * t.length) := by rw [← pow_add, ← hn]
    rw [hpow]
    constructor
    · intro h
      refine .inr (Nat.lt_of_mul_lt_mul_right (a := 2 ^ (8 * t.length)) ?_)
      omega
    · rintro (h | h)
      · exact absurd h hmod
      · calc x.toNat * 2 ^ (8 * t.length) + ofBe t < (x.toNat + 1) * 2 ^ (8 * t.length) := by
              rw [add_mul]
              omega
          _ ≤ 2 ^ (n % 8) * 2 ^ (8 * t.length) := mul_le_mul_right _ h

/-- A buffer that is too short is refused only for its first byte. -/
theorem taken_short_iff (h : b.length < bufferLen n) :
    ¬ofBe (taken b n) < 2 ^ n ↔ ∃ x rest, b = x :: rest ∧ n % 8 ≠ 0 ∧ 2 ^ (n % 8) ≤ x.toNat := by
  cases b with
  | nil =>
    have hzero : ofBe (taken [] n) = 0 := by
      unfold taken
      rw [take_nil, nil_append, ← append_nil (replicate _ _), ofBe_replicate_zero_append]
      rfl
    rw [hzero]
    refine ⟨fun hlt => absurd (Nat.two_pow_pos n) hlt, ?_⟩
    rintro ⟨x, rest, heq, -⟩
    cases heq
  | cons x rest =>
    obtain ⟨t, ht⟩ : ∃ t, taken (x :: rest) n = x :: t := by
      unfold taken
      rw [take_of_length_le h.le]
      exact ⟨_, rfl⟩
    have hlen := length_taken (x :: rest) n
    rw [ht] at hlen ⊢
    rw [ofBe_lt_iff_first hlen, not_or, not_lt]
    constructor
    · exact fun hfirst => ⟨x, rest, rfl, hfirst⟩
    · rintro ⟨y, rest', heq, hfirst⟩
      cases heq
      exact hfirst

/-! ## Sequences of calls -/

/-- The list reaches the byte of the highest index that was set. -/
theorem lt_length_setBits : k < (setBits calls).bytes.length ↔ ∃ call ∈ calls, k ≤ call.1 / 8 := by
  induction calls using reverseRecOn with
  | nil => simp [setBits, default]
  | append_singleton calls call ih =>
    unfold setBits
    rw [foldl_append, foldl_cons, foldl_nil, length_setBit, lt_max_iff]
    show k < (setBits calls).bytes.length ∨ _ ↔ _
    rw [ih]
    simp only [mem_append, mem_singleton, or_and_right, exists_or, exists_eq_left]
    exact or_congr_right Nat.lt_succ_iff

theorem length_setBits_le (h : ∀ call ∈ calls, call.1 < n) :
    (setBits calls).bytes.length ≤ bufferLen n := by
  by_contra hlong
  obtain ⟨call, hcall, hle⟩ := lt_length_setBits.mp (not_le.mp hlong)
  have hlt := h call hcall
  have hbuffer := le_bufferLen n
  omega

theorem bit_setBits {i : ℕ} (h : ∀ call ∈ calls, call.1 < n) (hi : n ≤ i) :
    (setBits calls).bytes.bit i = false := by
  induction calls using reverseRecOn with
  | nil => exact bit_of_le (zero_le _)
  | append_singleton calls call ih =>
    unfold setBits
    rw [foldl_append, foldl_cons, foldl_nil, bit_setBit]
    have hlast : call.1 < n := h call (by simp)
    rw [if_neg (by omega)]
    exact ih fun c hc => h c (mem_append_left _ hc)

/-! ## The format -/

open Words

theorem bufferLen_eq (n : ℕ) : bufferLen n = divCeil n 8 := by
  unfold bufferLen divCeil
  split_ifs with h h' <;> simp_all

/-- Reading a list of `n` bits off a buffer takes the bytes of an `n`-bit list and nothing else: a
buffer without them is refused, the list written again gives them back, and no higher bit is set. -/
structure DecodesExactly (b : Bytes) (n : ℕ) : Prop where
  refusesShort : b.length < divCeil n 8 → ∃ e, decode b n = .error (.err e)
  consumes : ∀ bits rest, decode b n = .ok (bits, rest) →
    b.length = divCeil n 8 + rest.length ∧ rest = b.drop (divCeil n 8)
  reproduces : ∀ bits rest, decode b n = .ok (bits, rest) → encode n bits = .ok (b.take (divCeil n 8))
  clear : ∀ bits rest, decode b n = .ok (bits, rest) → ∀ i, n ≤ i → bits.getBit i ≠ some 1

/-- Writing a list of `n` bits and reading it back leaves what `view` sees of the bits below `n`. -/
def RoundTrips (view : Option UInt8 → Option UInt8) (calls : List (ℕ × Bool)) (n : ℕ) : Prop :=
  ∃ encoded bits, encode n (setBits calls) = .ok encoded ∧ decode encoded n = .ok (bits, []) ∧
    ∀ i, i < n → view (bits.getBit i) = view ((setBits calls).getBit i)

theorem decodesExactly_of_le (h : bufferLen n ≤ b.length) : DecodesExactly b n := by
  have hlen : (taken b n).length = bufferLen n := length_taken b n
  refine ⟨fun hshort => ?_, fun bits rest hok => ?_, fun bits rest hok => ?_,
    fun bits rest hok i hi => ?_⟩
  · rw [← bufferLen_eq] at hshort
    omega
  all_goals obtain ⟨hlt, rfl, rfl⟩ := decode_ok_iff.mp hok
  · rw [← bufferLen_eq, length_drop]
    exact ⟨by omega, rfl⟩
  · have hencode := @encode_eq ⟨taken b n⟩ n hlen.le hlt
    rw [hencode, ← bufferLen_eq, hlen, Nat.sub_self, replicate_zero, nil_append, taken_of_le h]
  · exact getBit_ne_one (ofBe_lt_two_pow_iff.mp hlt i hi)

/-- A list that was written is read back with zeros in front. -/
theorem roundTrips_iff (view : Option UInt8 → Option UInt8) (hcalls : ∀ call ∈ calls, call.1 < n) :
    RoundTrips view calls n ↔
      ∀ i, i < n → view (some (if (setBits calls).bytes.bit i then 1 else 0)) =
        view ((setBits calls).getBit i) := by
  have hle := length_setBits_le hcalls
  have hlt := ofBe_lt_two_pow_iff.mpr fun _ hi => bit_setBits hcalls hi
  have hencode := encode_eq hle hlt
  have hlen : (replicate (bufferLen n - (setBits calls).bytes.length) 0 ++
      (setBits calls).bytes).length = bufferLen n := by
    rw [length_append, length_replicate]
    omega
  have hdecode : decode (_ ++ []) n = .ok (⟨_⟩, []) :=
    decode_append hlen (by rw [ofBe_replicate_zero_append]; exact hlt)
  rw [append_nil] at hdecode
  have hbit : ∀ i, i < n →
      (⟨replicate (bufferLen n - (setBits calls).bytes.length) 0 ++
        (setBits calls).bytes⟩ : SpanBatchBits).getBit i =
        some (if (setBits calls).bytes.bit i then 1 else 0) := by
    intro i hi
    have hn := le_bufferLen n
    rw [getBit_eq, if_pos (by dsimp only; omega)]
    rw [bit_replicate_zero_append]
  constructor
  · rintro ⟨encoded, bits, henc, hdec, hview⟩ i hi
    obtain rfl := Except.ok.inj (hencode.symm.trans henc)
    obtain ⟨rfl, -⟩ := Prod.mk.inj (Except.ok.inj (hdecode.symm.trans hdec))
    rw [← hview i hi, hbit i hi]
  · intro hview
    refine ⟨_, _, hencode, hdecode, fun i hi => ?_⟩
    rw [hbit i hi]
    exact hview i hi

/-- The calls reach the highest byte of an `n`-bit list. -/
theorem getBit_setBits_isSome_iff :
    (∀ i, i < n → i / 8 < (setBits calls).bytes.length) ↔
      n = 0 ∨ ∃ call ∈ calls, bufferLen n ≤ call.1 / 8 + 1 := by
  have hlt := bufferLen_lt n
  have hle := le_bufferLen n
  constructor
  · intro h
    by_cases hn : n = 0
    · exact .inl hn
    · obtain ⟨call, hmem, hcall⟩ := lt_length_setBits.mp (h (n - 1) (by omega))
      exact .inr ⟨call, hmem, by omega⟩
  · rintro (rfl | ⟨call, hmem, hcall⟩) i hi
    · omega
    · exact lt_length_setBits.mpr ⟨call, hmem, by omega⟩

/-- A buffer that holds the bytes of the list is read as it should be, and a shorter one only where
its first byte gives it away. A list that calls of `setBit` made comes back with the same bits; that
`getBit` answers alike everywhere needs a call that reached the highest byte. -/
theorem decodesExactly_iff (b : Bytes) (n : ℕ) (calls : List (ℕ × Bool))
    (hcalls : ∀ call ∈ calls, call.1 < n) :
    (DecodesExactly b n ↔ divCeil n 8 ≤ b.length ∨
      ∃ x rest, b = x :: rest ∧ n % 8 ≠ 0 ∧ 2 ^ (n % 8) ≤ x.toNat) ∧
    RoundTrips (fun o => some (o.getD 0)) calls n ∧
    (RoundTrips id calls n ↔ n = 0 ∨ ∃ call ∈ calls, divCeil n 8 ≤ call.1 / 8 + 1) := by
  refine ⟨⟨fun h => ?_, fun h => ?_⟩, ?_, ?_⟩
  · by_cases hlen : divCeil n 8 ≤ b.length
    · exact .inl hlen
    · obtain ⟨e, he⟩ := h.refusesShort (by omega)
      rw [decode_eq] at he
      split_ifs at he with hlt
      exact .inr ((taken_short_iff (by rw [bufferLen_eq]; omega)).mp hlt)
  · by_cases hlen : bufferLen n ≤ b.length
    · exact decodesExactly_of_le hlen
    · rcases h with hle | hfirst
      · exact absurd (bufferLen_eq n ▸ hle) hlen
      · have herror : decode b n = .error (.err .bitfieldTooLong) := by
          rw [decode_eq, if_neg ((taken_short_iff (by omega)).mpr hfirst)]
        refine ⟨fun _ => ⟨_, herror⟩, fun bits rest hok => ?_, fun bits rest hok => ?_,
          fun bits rest hok => ?_⟩
        all_goals
          rw [herror] at hok
          cases hok
  · rw [roundTrips_iff _ hcalls]
    intro i _
    rw [getBit_getD, Option.getD_some]
  · rw [roundTrips_iff _ hcalls, ← bufferLen_eq, ← getBit_setBits_isSome_iff]
    refine forall₂_congr fun i _ => ?_
    rw [getBit_eq]
    by_cases hlen : i / 8 < (setBits calls).bytes.length <;> simp

theorem decodesExactly_iff_three_bits :
    (DecodesExactly [5] 3 ↔ divCeil 3 8 ≤ 1 ∨
      ∃ x rest, ([5] : Bytes) = x :: rest ∧ 3 % 8 ≠ 0 ∧ 2 ^ (3 % 8) ≤ x.toNat) ∧
    RoundTrips (fun o => some (o.getD 0)) [(0, true), (2, true)] 3 ∧
    (RoundTrips id [(0, true), (2, true)] 3 ↔
      3 = 0 ∨ ∃ call ∈ [(0, true), (2, true)], divCeil 3 8 ≤ call.1 / 8 + 1) :=
  decodesExactly_iff [5] 3 [(0, true), (2, true)] (by decide)

/-- One byte is taken for sixteen bits, and the list written again has another byte. -/
theorem decode_short_accepted : decode [1] 16 = .ok (⟨[1, 0]⟩, []) ∧ ¬DecodesExactly [1] 16 := by
  have hdecode : decode [1] 16 = .ok (⟨[1, 0]⟩, []) := by decide
  refine ⟨hdecode, fun h => ?_⟩
  obtain ⟨e, he⟩ := h.refusesShort (by decide)
  cases he

end SpanBatchBits

end NodeReth
