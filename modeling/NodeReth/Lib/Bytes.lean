import Mathlib.Data.Fintype.Card
import Mathlib.Tactic

/-!
# Byte strings

Byte strings, byte strings of a fixed length, and the big-endian reading of a byte string as a
number. `toBe w n` writes the `w` low bytes of `n`; `ofBe` reads them back, so the two are
inverse to each other on numbers below `256 ^ w` and on strings of length `w`.
-/

abbrev Bytes := List UInt8

abbrev FixedBytes (n : ℕ) := {b : Bytes // b.length = n}

variable {b : Bytes} {n : ℕ}

namespace FixedBytes

/-- The conversion of a slice into an array of length `n`. -/
def tryFrom (n : ℕ) (b : Bytes) : Option (FixedBytes n) :=
  if h : b.length = n then some ⟨b, h⟩ else none

theorem tryFrom_eq_some (h : b.length = n) : tryFrom n b = some ⟨b, h⟩ := by
  unfold tryFrom
  rw [dif_pos h]

@[simp] theorem tryFrom_val (b : FixedBytes n) : tryFrom n b.val = some b :=
  tryFrom_eq_some b.2

/-- The array of the `n` bytes at the positions from `i` on. -/
def sub {m : ℕ} (b : FixedBytes m) (i n : ℕ) (h : i + n ≤ m) : FixedBytes n :=
  ⟨(b.val.drop i).take n, by rw [List.length_take, List.length_drop, b.2]; omega⟩

def zero (n : ℕ) : FixedBytes n := ⟨List.replicate n 0, List.length_replicate⟩

def fill (n : ℕ) (x : UInt8) : FixedBytes n := ⟨List.replicate n x, List.length_replicate⟩

end FixedBytes

namespace Bytes

variable {i : ℕ} {l r : Bytes}

theorem byte_ext {x y : UInt8} (h : ∀ i < 8, x.toBitVec.getLsbD i = y.toBitVec.getLsbD i) : x = y :=
  UInt8.toBitVec_inj.mp (BitVec.eq_of_getLsbD_eq h)

/-- The bytes at the positions `i, …, j - 1`. -/
def slice (b : Bytes) (i j : ℕ) : Bytes := (b.drop i).take (j - i)

theorem slice_append_right {a : Bytes} {j : ℕ} (h : a.length = n) :
    slice (a ++ b) (n + i) (n + j) = slice b i j := by
  subst h
  simp only [slice, List.drop_length_add_append]
  congr 1
  omega

theorem slice_append_left {a : Bytes} (h : a.length = n) : slice (a ++ b) 0 n = a := by
  subst h
  simp [slice]

theorem slice_mid {m : Bytes} {j : ℕ} (hl : l.length = i) (hm : i + m.length = j) :
    slice (l ++ (m ++ r)) i j = m := by
  subst hm
  exact (slice_append_right hl (i := 0) (j := m.length)).trans (slice_append_left rfl)

/-! ## Writing into a buffer -/

/-- The buffer `b` with `src` copied to the positions from `pos` on. -/
def blit (b : Bytes) (pos : ℕ) (src : Bytes) : Bytes :=
  b.mapIdx fun i x => if pos ≤ i then (src[i - pos]?).getD x else x

@[simp] theorem blit_length (b : Bytes) (pos : ℕ) (src : Bytes) :
    (b.blit pos src).length = b.length := by
  simp [blit]

theorem blit_append_left (a b : Bytes) (pos : ℕ) (src : Bytes) (h : a.length = n) :
    blit (a ++ b) (n + pos) src = a ++ blit b pos src := by
  subst h
  rw [blit, List.mapIdx_append]
  congr 1
  · apply List.ext_getElem (by simp)
    intro i h₁ h₂
    simp only [List.getElem_mapIdx]
    rw [if_neg (by omega)]
  · congr 1
    funext i x
    simp [Nat.add_comm i, Nat.add_sub_add_left]

theorem blit_append_right (a b : Bytes) {src : Bytes} (h : a.length = src.length) :
    blit (a ++ b) 0 src = src ++ b := by
  rw [blit, List.mapIdx_append]
  congr 1
  · apply List.ext_getElem (by simp [h])
    intro i h₁ h₂
    simp [List.getElem?_eq_getElem h₂]
  · apply List.ext_getElem (by simp)
    simp [h]

theorem blit_mid {m s : Bytes} (hl : l.length = i) (hm : m.length = s.length) :
    blit (l ++ (m ++ r)) i s = l ++ (s ++ r) := by
  rw [← blit_append_right m r hm]
  exact blit_append_left l (m ++ r) 0 s hl

theorem set_mid {v w : UInt8} (hl : l.length = i) : (l ++ v :: r).set i w = l ++ w :: r := by
  subst hl
  simp

theorem getD_mid {v w : UInt8} (hl : l.length = i) : (l ++ v :: r).getD i w = v := by
  subst hl
  simp

/-! ## Big-endian numbers -/

/-- The `w` low bytes of `n`, the most significant first. -/
def toBe : ℕ → ℕ → Bytes
  | 0, _ => []
  | w + 1, n => toBe w (n / 256) ++ [UInt8.ofNat n]

/-- The number a byte string denotes, the most significant byte first. -/
def ofBe (b : Bytes) : ℕ := b.foldl (fun acc x => acc * 256 + x.toNat) 0

@[simp] theorem ofBe_nil : ofBe [] = 0 := rfl

@[simp] theorem ofBe_concat (b : Bytes) (x : UInt8) : ofBe (b ++ [x]) = ofBe b * 256 + x.toNat := by
  simp [ofBe]

@[simp] theorem toBe_length (w n : ℕ) : (toBe w n).length = w := by
  induction w generalizing n with
  | zero => rfl
  | succ w ih => simp [toBe, ih]

theorem drop_toBe (k w n : ℕ) : (toBe (k + w) n).drop k = toBe w n := by
  induction w generalizing n with
  | zero => exact List.drop_of_length_le (by simp)
  | succ w ih =>
    have hle : k ≤ (toBe (k + w) (n / 256)).length := by simp
    rw [← Nat.add_assoc, toBe, List.drop_append_of_le_length hle, ih, toBe]

theorem ofBe_lt (b : Bytes) : ofBe b < 256 ^ b.length := by
  induction b using List.reverseRecOn with
  | nil => simp
  | append_singleton b x ih =>
    have hx := x.toNat_lt
    rw [ofBe_concat, List.length_append, List.length_singleton]
    omega

theorem ofBe_toBe_mod (w n : ℕ) : ofBe (toBe w n) = n % 256 ^ w := by
  induction w generalizing n with
  | zero => simp [toBe, Nat.mod_one]
  | succ w ih =>
    have h8 : (UInt8.ofNat n).toNat = n % 256 := by simp
    rw [toBe, ofBe_concat, ih, pow_succ, Nat.mul_comm (256 ^ w), Nat.mod_mul]
    omega

theorem ofBe_toBe {w : ℕ} (h : n < 256 ^ w) : ofBe (toBe w n) = n := by
  rw [ofBe_toBe_mod, Nat.mod_eq_of_lt h]

theorem toBe_ofBe (b : Bytes) : toBe b.length (ofBe b) = b := by
  induction b using List.reverseRecOn with
  | nil => rfl
  | append_singleton b x ih =>
    have hx := x.toNat_lt
    have hdiv : (ofBe b * 256 + x.toNat) / 256 = ofBe b := by omega
    have hlast : UInt8.ofNat (ofBe b * 256 + x.toNat) = x := by
      apply UInt8.toNat_inj.mp
      simp only [UInt8.toNat_ofNat']
      omega
    rw [List.length_append, List.length_singleton, toBe, ofBe_concat, hdiv, ih, hlast]

/-- The array of the low bytes of a number. -/
def fixedBe (w n : ℕ) : FixedBytes w := ⟨toBe w n, toBe_length w n⟩

theorem toBe_ofBe_of_length {w : ℕ} (h : b.length = w) : toBe w (ofBe b) = b := by
  subst h
  exact toBe_ofBe b

end Bytes

/-! ## There are finitely many byte strings of a length -/

namespace FixedBytes

/-- The number that a byte string stands for. -/
def toFin {n : ℕ} (b : FixedBytes n) : Fin (256 ^ n) :=
  ⟨Bytes.ofBe b.val, lt_of_lt_of_eq (Bytes.ofBe_lt b.val) (congrArg (256 ^ ·) b.2)⟩

theorem toFin_injective : Function.Injective (@toFin n) := by
  intro a b h
  have hval : Bytes.ofBe a.val = Bytes.ofBe b.val := congrArg Fin.val h
  apply Subtype.ext
  rw [← Bytes.toBe_ofBe_of_length a.2, ← Bytes.toBe_ofBe_of_length b.2, hval]

instance {n : ℕ} : Finite (FixedBytes n) := Finite.of_injective _ toFin_injective

noncomputable instance {n : ℕ} : Fintype (FixedBytes n) := Fintype.ofFinite _

theorem card_le (n : ℕ) : Fintype.card (FixedBytes n) ≤ 256 ^ n := by
  have h := Fintype.card_le_of_injective _ (@toFin_injective n)
  rwa [Fintype.card_fin] at h

end FixedBytes
