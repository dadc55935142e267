import NodeReth.Lib.Bytes

/-!
# Recursive length prefix

The byte format of strings, numbers and lists in which a header gives the length of what follows, and
the lengths that it announces.
-/

namespace RlpFormat

open Bytes List Nat

variable {n : ℕ} {b : Bytes}

/-- The big-endian bytes of `n` without leading zeros, at most `fuel` of them. -/
def natBytesWithin : ℕ → ℕ → Bytes
  | 0, _ => []
  | fuel + 1, n => if n = 0 then [] else natBytesWithin fuel (n / 256) ++ [UInt8.ofNat n]

def natBytes (n : ℕ) : Bytes := natBytesWithin n n

theorem ofBe_natBytesWithin {fuel : ℕ} (h : n < 256 ^ fuel) : ofBe (natBytesWithin fuel n) = n := by
  induction fuel generalizing n with
  | zero =>
    simp [natBytesWithin]
    omega
  | succ fuel ih =>
    unfold natBytesWithin
    split_ifs with hn
    · rw [hn, ofBe_nil]
    · rw [ofBe_concat, ih (by omega), UInt8.toNat_ofNat']
      omega

@[simp] theorem ofBe_natBytes (n : ℕ) : ofBe (natBytes n) = n :=
  ofBe_natBytesWithin (Nat.lt_pow_self (by norm_num))

theorem length_natBytesWithin_le {fuel k : ℕ} (h : n < 256 ^ k) :
    (natBytesWithin fuel n).length ≤ k := by
  induction k generalizing fuel n with
  | zero =>
    rw [pow_zero, lt_one_iff] at h
    cases fuel <;> simp [natBytesWithin, h]
  | succ k ih =>
    cases fuel with
    | zero => simp [natBytesWithin]
    | succ fuel =>
      unfold natBytesWithin
      split_ifs
      · simp
      · rw [length_append]
        exact succ_le_succ (ih (by omega))

theorem length_natBytes_le (h : n < 2 ^ 64) : (natBytes n).length ≤ 8 :=
  length_natBytesWithin_le (h.trans_eq (by norm_num))

theorem natBytes_ne_nil (h : 0 < n) : natBytes n ≠ [] := by
  obtain ⟨-, rfl⟩ := exists_eq_succ_of_ne_zero h.ne'
  simp [natBytes, natBytesWithin]

/-! ## Headers -/

/-- The header of a payload of `n` bytes; `base` tells strings from lists. -/
def header (base n : ℕ) : Bytes :=
  if n < 56 then [UInt8.ofNat (base + n)]
  else UInt8.ofNat (base + 55 + (natBytes n).length) :: natBytes n

/-- The length of the header of a payload of `n` bytes. -/
def lengthOfLength (n : ℕ) : ℕ := if n < 56 then 1 else 1 + (natBytes n).length

@[simp] theorem length_header (base n : ℕ) : (header base n).length = lengthOfLength n := by
  unfold header lengthOfLength
  split_ifs <;> simp [add_comm]

theorem lengthOfLength_pos (n : ℕ) : 0 < lengthOfLength n := by
  unfold lengthOfLength
  split_ifs <;> omega

theorem lengthOfLength_le (h : n < 2 ^ 64) : lengthOfLength n ≤ 9 := by
  have := length_natBytes_le h
  unfold lengthOfLength
  split_ifs <;> omega

theorem header_ne_nil (base n : ℕ) : header base n ≠ [] := by
  unfold header
  split_ifs <;> simp

theorem toNat_ofNat_of_lt (h : n < 256) : (UInt8.ofNat n).toNat = n := by
  rw [UInt8.toNat_ofNat', mod_eq_of_lt h]

/-- The first byte of a header says how long the payload is, or how many bytes say it. -/
theorem header_cases (base : ℕ) (h : n < 2 ^ 64) (hbase : base ≤ 0xc0) : ∃ x : UInt8,
    header base n = [x] ∧ n < 56 ∧ x.toNat = base + n ∨
      header base n = x :: natBytes n ∧ 56 ≤ n ∧ x.toNat = base + 55 + (natBytes n).length ∧
        0 < (natBytes n).length ∧ (natBytes n).length ≤ 8 := by
  have hlen := length_natBytes_le h
  unfold header
  split_ifs with hn
  · exact ⟨_, .inl ⟨rfl, hn, toNat_ofNat_of_lt (by omega)⟩⟩
  · have hpos := length_pos_iff.mpr (natBytes_ne_nil (n := n) (by omega))
    exact ⟨_, .inr ⟨rfl, not_lt.mp hn, toNat_ofNat_of_lt (by omega), hpos, hlen⟩⟩

/-! ## Strings, numbers and lists -/

def writeString (b : Bytes) : Bytes :=
  match b with
  | [x] => if x.toNat < 0x80 then [x] else header 0x80 1 ++ [x]
  | b => header 0x80 b.length ++ b

theorem writeString_eq (h : b.length ≠ 1) : writeString b = header 0x80 b.length ++ b := by
  unfold writeString
  split
  · simp at h
  · rfl

def writeNat (n : ℕ) : Bytes := writeString (natBytes n)

def writeList (payload : Bytes) : Bytes := header 0xc0 payload.length ++ payload

/-- The encoding of a string is its header and the string, or a small byte by itself. -/
theorem writeString_cases (b : Bytes) :
    (∃ x : UInt8, b = [x] ∧ x.toNat < 0x80 ∧ writeString b = [x]) ∨
      (∀ x, b = [x] → 0x80 ≤ x.toNat) ∧ writeString b = header 0x80 b.length ++ b := by
  unfold writeString
  split
  · rename_i x
    split_ifs with hx
    · exact .inl ⟨x, rfl, hx, rfl⟩
    · exact .inr ⟨fun y hy => by cases hy; exact not_lt.mp hx, rfl⟩
  · rename_i hne
    exact .inr ⟨fun x hx => absurd hx (hne x), rfl⟩

theorem writeString_ne_nil (b : Bytes) : writeString b ≠ [] := by
  rcases writeString_cases b with ⟨x, -, -, hbytes⟩ | ⟨-, hbytes⟩
  · simp [hbytes]
  · simp [hbytes, header_ne_nil]

/-- The length of the encoding of a string. -/
def stringLength (b : Bytes) : ℕ :=
  if b.length ≠ 1 ∨ 0x80 ≤ (b.headD 0).toNat then b.length + lengthOfLength b.length else b.length

@[simp] theorem length_writeString (b : Bytes) : (writeString b).length = stringLength b := by
  unfold stringLength
  rcases writeString_cases b with ⟨x, rfl, hx, hbytes⟩ | ⟨hlong, hbytes⟩
  · simp [hbytes, hx]
  · rw [hbytes, length_append, length_header, add_comm, if_pos]
    by_contra hshort
    obtain ⟨hone, hsmall⟩ := not_or.mp hshort
    obtain ⟨x, rfl⟩ := length_eq_one_iff.mp (not_not.mp hone)
    exact hsmall (hlong x rfl)

theorem stringLength_le (h : b.length < 2 ^ 64) : stringLength b ≤ b.length + 9 := by
  have := lengthOfLength_le h
  unfold stringLength
  split_ifs <;> omega

theorem length_lt_of_writeString (h : (writeString b).length < n) : b.length < n := by
  unfold writeString at h
  split at h
  · split_ifs at h
    · exact h
    · rw [length_append] at h
      omega
  · rw [length_append] at h
    omega

end RlpFormat
