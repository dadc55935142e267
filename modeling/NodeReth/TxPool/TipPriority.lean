import NodeReth.Lib.Checked
import Mathlib.Data.Rat.Cast.Order

/-!
# Priorities by tip per gas

`UnifiedTipPriority` of `txpool/src/ordering.rs` compares the bids `tip / gas` by multiplying across,
in words that saturate. Two products that both saturate look equal, whatever the bids, and that is
the only way in which the order of the bids is lost.
-/

namespace NodeReth

open Checked

structure UnifiedTipPriority where
  tip : BitVec 256
  gas : UInt64
  /-- Fewer predicates rank higher. -/
  predicates : UInt32

namespace UnifiedTipPriority

def new (tip : BitVec 256) (gas : UInt64) (predicateCount : ℕ) : UnifiedTipPriority :=
  ⟨tip, max gas 1, UInt32.ofNat (min predicateCount (2 ^ 32 - 1))⟩

def cmp (a b : UnifiedTipPriority) : Ordering :=
  let left := saturatingMul a.tip (BitVec.ofNat 256 b.gas.toNat)
  let right := saturatingMul b.tip (BitVec.ofNat 256 a.gas.toNat)
  (compare left.toNat right.toNat).then (compare b.predicates.toNat a.predicates.toNat)

/-! ## The order that is meant -/

def bid (a : UnifiedTipPriority) : BitVec 256 × UInt64 := (a.tip, a.gas)

/-- By tip per gas, then by fewer predicates. -/
def exactCmp : UnifiedTipPriority → UnifiedTipPriority → Ordering :=
  compareLex (compareOn fun a => (a.tip.toNat : ℚ) / a.gas.toNat)
    (compareOn fun a => -(a.predicates.toNat : ℤ))

/-- The laws of the order, for the priorities of some bids. -/
structure OrdersBids (bids : Set (BitVec 256 × UInt64)) : Prop where
  refl : ∀ a, a.bid ∈ bids → cmp a a = .eq
  swap : ∀ a b, a.bid ∈ bids → b.bid ∈ bids → cmp a b = (cmp b a).swap
  trans : ∀ a b c, a.bid ∈ bids → b.bid ∈ bids → c.bid ∈ bids →
    (cmp a b).isLE → (cmp b c).isLE → (cmp a c).isLE
  congr : ∀ a b c, a.bid ∈ bids → b.bid ∈ bids → c.bid ∈ bids → cmp a b = .eq → cmp a c = cmp b c
  exact : ∀ a b, a.bid ∈ bids → b.bid ∈ bids → cmp a b = exactCmp a b

/-- Both products saturate, though they differ. -/
def Saturates (x y : BitVec 256 × UInt64) : Prop :=
  2 ^ 256 - 1 ≤ x.1.toNat * y.2.toNat ∧ 2 ^ 256 - 1 ≤ y.1.toNat * x.2.toNat ∧
    x.1.toNat * y.2.toNat ≠ y.1.toNat * x.2.toNat

/-! ## Comparisons -/

theorem compare_congr {α β : Type} [LinearOrder α] [LinearOrder β] {x y : α} {u v : β}
    (hlt : x < y → u < v) (heq : x = y → u = v) (hgt : y < x → v < u) :
    compare u v = compare x y := by
  rcases lt_trichotomy x y with h | h | h
  · rw [compare_lt_iff_lt.mpr h, compare_lt_iff_lt.mpr (hlt h)]
  · rw [compare_eq_iff_eq.mpr h, compare_eq_iff_eq.mpr (heq h)]
  · rw [compare_gt_iff_gt.mpr h, compare_gt_iff_gt.mpr (hgt h)]

theorem compare_div {a b c d : ℕ} (hc : 0 < c) (hd : 0 < d) :
    compare ((a : ℚ) / c) (b / d) = compare (a * d) (b * c) := by
  have hc' : (0 : ℚ) < c := Nat.cast_pos.mpr hc
  have hd' : (0 : ℚ) < d := Nat.cast_pos.mpr hd
  apply compare_congr
  · rw [div_lt_div_iff₀ hc' hd']
    exact_mod_cast id
  · rw [div_eq_div_iff hc'.ne' hd'.ne']
    exact_mod_cast id
  · rw [div_lt_div_iff₀ hd' hc']
    exact_mod_cast id

theorem compare_neg (p q : ℕ) : compare (-(p : ℤ)) (-(q : ℤ)) = compare q p := by
  apply compare_congr <;> omega

theorem compare_min {m x y : ℕ} (h : ¬(m ≤ x ∧ m ≤ y ∧ x ≠ y)) :
    compare (min x m) (min y m) = compare x y := by
  apply compare_congr <;> omega

variable {a b : UnifiedTipPriority}

theorem cmp_eq : cmp a b = (compare (min (a.tip.toNat * b.gas.toNat) (2 ^ 256 - 1))
    (min (b.tip.toNat * a.gas.toNat) (2 ^ 256 - 1))).then
      (compare b.predicates.toNat a.predicates.toNat) := by
  have hgas (g : UInt64) : (BitVec.ofNat 256 g.toNat).toNat = g.toNat := by
    have := g.toNat_lt
    rw [BitVec.toNat_ofNat, Nat.mod_eq_of_lt (by omega)]
  unfold cmp
  dsimp only
  rw [toNat_saturatingMul, toNat_saturatingMul, hgas, hgas]

theorem exactCmp_eq (ha : 0 < a.gas.toNat) (hb : 0 < b.gas.toNat) :
    exactCmp a b = (compare (a.tip.toNat * b.gas.toNat) (b.tip.toNat * a.gas.toNat)).then
      (compare b.predicates.toNat a.predicates.toNat) := by
  rw [← compare_div ha hb, ← compare_neg]
  rfl

instance : Std.TransCmp exactCmp := inferInstanceAs (Std.TransCmp (compareLex _ _))

/-- The comparison orders bids by tip per gas where no two of them saturate. -/
theorem ordersBids_iff (bids : Set (BitVec 256 × UInt64)) (hgas : ∀ x ∈ bids, 0 < x.2.toNat) :
    OrdersBids bids ↔ ∀ x ∈ bids, ∀ y ∈ bids, ¬Saturates x y := by
  constructor
  · rintro h ⟨tip, gas⟩ hx ⟨tip', gas'⟩ hy ⟨hleft, hright, hne⟩
    have hexact := h.exact ⟨tip, gas, 0⟩ ⟨tip', gas', 0⟩ hx hy
    rw [cmp_eq, exactCmp_eq (hgas _ hx) (hgas _ hy), min_eq_right hleft, min_eq_right hright] at hexact
    refine hne (compare_eq_iff_eq.mp ?_)
    simpa using hexact.symm
  · intro h
    have hexact (a b : UnifiedTipPriority) (ha : a.bid ∈ bids) (hb : b.bid ∈ bids) :
        cmp a b = exactCmp a b := by
      rw [cmp_eq, exactCmp_eq (hgas _ ha) (hgas _ hb)]
      exact congrArg (Ordering.then · _) (compare_min (h _ ha _ hb))
    refine ⟨fun a ha => ?_, fun a b ha hb => ?_, fun a b c ha hb hc hab hbc => ?_,
      fun a b c ha hb hc hab => ?_, hexact⟩
    · rw [hexact a a ha ha]
      exact Std.ReflCmp.compare_self
    · rw [hexact a b ha hb, hexact b a hb ha]
      exact Std.OrientedCmp.eq_swap
    · rw [hexact a b ha hb] at hab
      rw [hexact b c hb hc] at hbc
      rw [hexact a c ha hc]
      exact Std.TransCmp.isLE_trans hab hbc
    · rw [hexact a b ha hb] at hab
      rw [hexact a c ha hc, hexact b c hb hc]
      exact Std.TransCmp.congr_left hab

theorem ordersBids_usual : OrdersBids {(5, 1), (100000, 21000)} := by
  refine (ordersBids_iff _ ?_).mpr ?_
  · rintro x (rfl | rfl) <;> decide
  · rintro x (rfl | rfl) y (rfl | rfl) ⟨hleft, -⟩ <;> exact absurd hleft (by decide)

/-- The greatest tip is worth as much for twice the gas, and then as much as its half. -/
theorem cmp_not_transitive :
    cmp (new (BitVec.allOnes 256) 1 0) (new (BitVec.allOnes 256) 2 0) = .eq ∧
      cmp (new (BitVec.allOnes 256) 2 0) (new (BitVec.ofNat 256 (2 ^ 255)) 1 0) = .eq ∧
      cmp (new (BitVec.allOnes 256) 1 0) (new (BitVec.ofNat 256 (2 ^ 255)) 1 0) = .gt := by
  decide

end UnifiedTipPriority

end NodeReth
