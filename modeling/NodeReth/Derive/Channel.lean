import NodeReth.Lib.Effects
import NodeReth.Lib.FinMaps
import NodeReth.Protocol.Frame
import NodeReth.Protocol.SingleBatch

/-!
# Channels on the reading side

`Channel` of `protocol/src/channel.rs`: frames of one channel are collected in any order, a closing
frame fixes the last number and throws out what lies beyond it, and a closed channel without gaps is
ready to be read.

`isReady` compares the number of frames with the last number plus one, in sixteen bits. A channel
that is closed by frame 65535 has 65536 frames when it is complete, and the comparison is with zero.
-/

namespace NodeReth.Derive

open Effects FinMap List UInt16

inductive ChannelError
  | frameIdMismatch
  | channelClosed
  | frameNumberExists (number : ℕ)
  | frameBeyondEndFrame (number : ℕ)
  deriving DecidableEq, Repr

def BlockInfo.zero : BlockInfo := ⟨FixedBytes.zero 32, 0, FixedBytes.zero 32, 0⟩

structure Channel where
  id : ChannelId
  openBlock : BlockInfo
  estimatedSize : ℕ
  closed : Bool
  highestFrameNumber : UInt16
  lastFrameNumber : UInt16
  inputs : FinMap UInt16 Frame
  highestL1InclusionBlock : BlockInfo

namespace Channel

def new (id : ChannelId) (openBlock : BlockInfo) : Channel where
  id := id
  openBlock := openBlock
  estimatedSize := 0
  closed := false
  highestFrameNumber := 0
  lastFrameNumber := 0
  inputs := ∅
  highestL1InclusionBlock := BlockInfo.zero

def len (c : Channel) : ℕ := c.inputs.size

def size (c : Channel) : ℕ := c.estimatedSize

def framesSize (inputs : FinMap UInt16 Frame) : ℕ := inputs.total fun _ frame => frame.size

/-- Fixes the last number. Frames at or above it go, with their sizes. -/
def close (c : Channel) (last : UInt16) : Channel :=
  let closed := { c with lastFrameNumber := last, closed := true }
  if last < c.highestFrameNumber then
    { closed with
      inputs := c.inputs.filter fun number _ => decide (number < last)
      estimatedSize :=
        c.estimatedSize - framesSize (c.inputs.filter fun number _ => !decide (number < last))
      highestFrameNumber := last }
  else closed

def buffer (c : Channel) (frame : Frame) (l1InclusionBlock : BlockInfo) : Channel :=
  { c with
    highestFrameNumber :=
      if c.highestFrameNumber < frame.number then frame.number else c.highestFrameNumber
    highestL1InclusionBlock :=
      if c.highestL1InclusionBlock.number < l1InclusionBlock.number then l1InclusionBlock
      else c.highestL1InclusionBlock
    estimatedSize := c.estimatedSize + frame.size
    inputs := c.inputs.insert frame.number frame }

/-- What an accepted frame makes of the channel. -/
def accept (c : Channel) (frame : Frame) (l1InclusionBlock : BlockInfo) : Channel :=
  (if frame.isLast then c.close frame.number else c).buffer frame l1InclusionBlock

def addFrame (frame : Frame) (l1InclusionBlock : BlockInfo) : EStateM ChannelError Channel Unit := do
  let c ← get
  ensure (frame.id = c.id) .frameIdMismatch
  ensure (¬(frame.isLast = true ∧ c.closed = true)) .channelClosed
  ensure (frame.number ∉ c.inputs) (.frameNumberExists frame.number.toNat)
  ensure (¬(c.closed = true ∧ c.lastFrameNumber ≤ frame.number))
    (.frameBeyondEndFrame frame.number.toNat)
  -- nothing fails from here on
  modify fun c => c.accept frame l1InclusionBlock

def numbersTo (last : UInt16) : List UInt16 := (range (last.toNat + 1)).map UInt16.ofNat

/-- The sum is one of sixteen bits. -/
def isReady (c : Channel) : Bool :=
  if !c.closed then false
  else if c.inputs.size ≠ (c.lastFrameNumber + 1).toNat then false
  else (numbersTo c.lastFrameNumber).all fun number => decide (number ∈ c.inputs)

/-- The data of the frames up to the last number; `none` if one of them is missing. -/
def frameData (c : Channel) : Option Bytes :=
  if c.inputs.size = 0 then none
  else
    ((numbersTo c.lastFrameNumber).mapM fun number =>
      (c.inputs.lookup number).map Frame.data).map flatten

/-- The channel after a call of `addFrame`, whether it was accepted or not. -/
def afterFrame (c : Channel) (call : Frame × BlockInfo) : Channel :=
  finalState (addFrame call.1 call.2 c)

def afterFrames (c : Channel) (calls : List (Frame × BlockInfo)) : Channel :=
  calls.foldl afterFrame c

/-! ## A single call -/

/-- The checks of `addFrame`. -/
structure Accepts (c : Channel) (frame : Frame) : Prop where
  id : frame.id = c.id
  openOrInner : ¬(frame.isLast = true ∧ c.closed = true)
  fresh : frame.number ∉ c.inputs
  belowEnd : ¬(c.closed = true ∧ c.lastFrameNumber ≤ frame.number)

variable {c c' : Channel} {frame : Frame} {block : BlockInfo}

theorem addFrame_ok_iff {u : Unit} :
    addFrame frame block c = .ok u c' ↔ c.Accepts frame ∧ c' = c.accept frame block := by
  unfold addFrame
  rw [get_bind]
  simp only [bind_ok_iff, ensure_ok_iff, modify_ok_iff]
  constructor
  · rintro ⟨-, _, ⟨hid, rfl⟩, -, _, ⟨hopen, rfl⟩, -, _, ⟨hfresh, rfl⟩, -, _, ⟨hbelow, rfl⟩, hc'⟩
    exact ⟨⟨hid, hopen, hfresh, hbelow⟩, hc'⟩
  · rintro ⟨h, hc'⟩
    exact ⟨(), c, ⟨h.id, rfl⟩, (), c, ⟨h.openOrInner, rfl⟩, (), c, ⟨h.fresh, rfl⟩, (), c,
      ⟨h.belowEnd, rfl⟩, hc'⟩

/-- All checks come before the first write. -/
theorem atomic_addFrame (frame : Frame) (block : BlockInfo) : Atomic (addFrame frame block) := by
  unfold addFrame
  exact Clean.atomic

theorem afterFrame_cases (c : Channel) (call : Frame × BlockInfo) :
    c.Accepts call.1 ∧ c.afterFrame call = c.accept call.1 call.2 ∨ c.afterFrame call = c := by
  unfold afterFrame
  cases h : addFrame call.1 call.2 c with
  | ok u c' => exact .inl (addFrame_ok_iff.mp h)
  | error e c' => exact .inr (atomic_addFrame _ _ _ _ _ h)

theorem afterFrame_of_accepts (h : c.Accepts frame) :
    c.afterFrame (frame, block) = c.accept frame block := by
  unfold afterFrame
  rw [(addFrame_ok_iff (u := ())).mpr ⟨h, rfl⟩]
  rfl

/-! ## What the frames of a channel have in common -/

/-- The frames are filed under their numbers, the size is theirs, and the closing frame is the one
with the last number. -/
structure Sound (c : Channel) : Prop where
  size : c.estimatedSize = framesSize c.inputs
  filed : ∀ k f, c.inputs.lookup k = some f → f.number = k ∧ f.id = c.id
  highest : ∀ k ∈ c.inputs, k.toNat ≤ c.highestFrameNumber.toNat
  bounded : c.closed = true → ∀ k ∈ c.inputs, k.toNat ≤ c.lastFrameNumber.toNat
  closing : ∀ k f, c.inputs.lookup k = some f →
    (f.isLast = true ↔ c.closed = true ∧ k = c.lastFrameNumber)

theorem sound_new (id : ChannelId) (openBlock : BlockInfo) : (new id openBlock).Sound where
  size := rfl
  filed := nofun
  highest := nofun
  bounded := nofun
  closing := nofun

variable {last k : UInt16}

theorem lookup_close (hc : c.Sound) (hlast : last ∉ c.inputs) {f : Frame} :
    (c.close last).inputs.lookup k = some f ↔ c.inputs.lookup k = some f ∧ k.toNat < last.toNat := by
  unfold close
  split_ifs with h
  · rw [lookup_filter_eq_some, decide_eq_true_iff, lt_iff_toNat_lt]
  · refine ⟨fun hk => ⟨hk, ?_⟩, fun hk => hk.1⟩
    have hmem : k ∈ c.inputs := mem_iff_lookup.mpr ⟨f, hk⟩
    have hle := hc.highest k hmem
    have hne : k.toNat ≠ last.toNat := by
      intro heq
      rw [UInt16.toNat_inj.mp heq] at hmem
      exact hlast hmem
    rw [lt_iff_toNat_lt] at h
    omega

theorem size_close (hc : c.Sound) :
    (c.close last).estimatedSize = framesSize (c.close last).inputs := by
  unfold close
  split_ifs
  · have hsum := total_filter_add (fun _ frame => Frame.size frame)
      (fun number _ => decide (number < last)) c.inputs
    have hsize := hc.size
    unfold framesSize at hsize ⊢
    dsimp only
    omega
  · exact hc.size

theorem highest_close :
    (c.close last).highestFrameNumber.toNat = min c.highestFrameNumber.toNat last.toNat := by
  unfold close
  split_ifs with h <;> rw [lt_iff_toNat_lt] at h
  · dsimp only
    omega
  · dsimp only
    omega

theorem lookup_accept (hc : c.Sound) (ha : c.Accepts frame) {f : Frame} :
    (c.accept frame block).inputs.lookup k = some f ↔
      (k = frame.number ∧ f = frame) ∨
        (c.inputs.lookup k = some f ∧ (frame.isLast = true → k.toNat < frame.number.toNat)) := by
  have hlookup : ∀ d : Channel, (d.buffer frame block).inputs.lookup k =
      if k = frame.number then some frame else d.inputs.lookup k := by
    intro d
    exact lookup_insert_eq _ _ _ _
  have hnone : c.inputs.lookup frame.number = none := AList.lookup_eq_none.mpr ha.fresh
  unfold accept
  rw [hlookup]
  by_cases hk : k = frame.number
  · subst hk
    rw [if_pos rfl, hnone, Option.some.injEq]
    simp only [true_and, reduceCtorEq, false_and, or_false]
    exact eq_comm
  · rw [if_neg hk]
    cases hlast : frame.isLast with
    | true =>
      rw [if_pos rfl, lookup_close hc ha.fresh]
      simp [hk]
    | false => simp [hk]

theorem mem_accept (hc : c.Sound) (ha : c.Accepts frame) :
    k ∈ (c.accept frame block).inputs ↔
      k = frame.number ∨ (k ∈ c.inputs ∧ (frame.isLast = true → k.toNat < frame.number.toNat)) := by
  simp only [mem_iff_lookup, lookup_accept hc ha]
  constructor
  · rintro ⟨f, ⟨hk, -⟩ | ⟨hf, hlt⟩⟩
    · exact .inl hk
    · exact .inr ⟨⟨f, hf⟩, hlt⟩
  · rintro (hk | ⟨⟨f, hf⟩, hlt⟩)
    · exact ⟨frame, .inl ⟨hk, rfl⟩⟩
    · exact ⟨f, .inr ⟨hf, hlt⟩⟩

theorem closed_accept : (c.accept frame block).closed = (c.closed || frame.isLast) := by
  unfold accept close
  split_ifs <;> simp [buffer, *]

theorem last_accept :
    (c.accept frame block).lastFrameNumber =
      if frame.isLast then frame.number else c.lastFrameNumber := by
  unfold accept close
  split_ifs <;> simp [buffer, *]

theorem id_accept : (c.accept frame block).id = c.id := by
  unfold accept close
  split_ifs <;> simp [buffer, *]

theorem openBlock_accept : (c.accept frame block).openBlock = c.openBlock := by
  unfold accept close
  split_ifs <;> simp [buffer, *]

theorem highest_accept :
    (c.accept frame block).highestFrameNumber.toNat = if frame.isLast then frame.number.toNat
      else max c.highestFrameNumber.toNat frame.number.toNat := by
  have hbuffer : ∀ d : Channel, (d.buffer frame block).highestFrameNumber.toNat =
      max d.highestFrameNumber.toNat frame.number.toNat := by
    intro d
    unfold buffer
    dsimp only
    split_ifs with h <;> rw [lt_iff_toNat_lt] at h <;> omega
  unfold accept
  rw [hbuffer]
  cases frame.isLast with
  | true =>
    rw [if_pos rfl, if_pos rfl, highest_close]
    omega
  | false => rfl

theorem size_accept (hc : c.Sound) (ha : c.Accepts frame) :
    (c.accept frame block).estimatedSize = framesSize (c.accept frame block).inputs := by
  have hbuffer : ∀ d : Channel, d.estimatedSize = framesSize d.inputs → frame.number ∉ d.inputs →
      (d.buffer frame block).estimatedSize = framesSize (d.buffer frame block).inputs := by
    intro d hd hfresh
    unfold buffer framesSize
    rw [total_insert _ hfresh, hd, Nat.add_comm]
    rfl
  unfold accept
  cases frame.isLast with
  | true =>
    apply hbuffer _ (size_close hc)
    intro hmem
    obtain ⟨f, hf⟩ := mem_iff_lookup.mp hmem
    exact lt_irrefl _ ((lookup_close hc ha.fresh).mp hf).2
  | false => exact hbuffer c hc.size ha.fresh

theorem Sound.accept (hc : c.Sound) (ha : c.Accepts frame) (block : BlockInfo) :
    (c.accept frame block).Sound where
  size := size_accept hc ha
  filed := by
    intro k f hf
    rw [id_accept]
    rcases (lookup_accept hc ha).mp hf with ⟨rfl, rfl⟩ | ⟨hf, -⟩
    · exact ⟨rfl, ha.id⟩
    · exact hc.filed k f hf
  highest := by
    intro k hk
    rw [highest_accept]
    rcases (mem_accept hc ha).mp hk with rfl | ⟨hmem, hlt⟩
    · split_ifs <;> omega
    · have := hc.highest k hmem
      split_ifs with hlast
      · exact (hlt hlast).le
      · omega
  bounded := by
    intro hclosed k hk
    rw [closed_accept, Bool.or_eq_true] at hclosed
    rw [last_accept]
    rcases (mem_accept hc ha).mp hk with rfl | ⟨hmem, hlt⟩ <;> split_ifs with hlast
    · exact le_rfl
    · have hbelow := ha.belowEnd
      rw [le_iff_toNat_le] at hbelow
      by_contra hgt
      exact hbelow ⟨hclosed.resolve_right hlast, by omega⟩
    · exact (hlt hlast).le
    · exact hc.bounded (hclosed.resolve_right hlast) k hmem
  closing := by
    intro k f hf
    rw [closed_accept, last_accept, Bool.or_eq_true]
    rcases (lookup_accept hc ha).mp hf with ⟨rfl, rfl⟩ | ⟨hf, hlt⟩
    · refine ⟨fun hlast => ⟨.inr hlast, by rw [if_pos hlast]⟩, ?_⟩
      rintro ⟨hclosed | hlast, heq⟩
      · by_contra hlast
        rw [if_neg hlast] at heq
        have hbelow := ha.belowEnd
        rw [le_iff_toNat_le, heq] at hbelow
        exact hbelow ⟨hclosed, le_rfl⟩
      · exact hlast
    · rw [hc.closing k f hf]
      constructor
      · rintro ⟨hclosed, rfl⟩
        have hinner : ¬frame.isLast = true := fun hlast => ha.openOrInner ⟨hlast, hclosed⟩
        exact ⟨.inl hclosed, by rw [if_neg hinner]⟩
      · rintro ⟨hclosed, heq⟩
        by_cases hlast : frame.isLast = true
        · rw [if_pos hlast] at heq
          have := hlt hlast
          rw [heq] at this
          omega
        · rw [if_neg hlast] at heq
          exact ⟨hclosed.resolve_right hlast, heq⟩

theorem openBlock_afterFrame (call : Frame × BlockInfo) :
    (c.afterFrame call).openBlock = c.openBlock := by
  rcases c.afterFrame_cases call with ⟨-, heq⟩ | heq
  · rw [heq, openBlock_accept]
  · rw [heq]

theorem Sound.afterFrame (hc : c.Sound) (call : Frame × BlockInfo) : (c.afterFrame call).Sound := by
  rcases c.afterFrame_cases call with ⟨ha, heq⟩ | heq
  · rw [heq]
    exact hc.accept ha call.2
  · rwa [heq]

theorem Sound.afterFrames (hc : c.Sound) (calls : List (Frame × BlockInfo)) :
    (c.afterFrames calls).Sound := by
  induction calls generalizing c with
  | nil => exact hc
  | cons call calls ih => exact ih (hc.afterFrame call)

/-! ## Readiness -/

theorem toNat_ofNat {i : ℕ} (h : i < 65536) : (UInt16.ofNat i).toNat = i :=
  toNat_ofNat_of_lt' h

theorem mem_numbersTo : k ∈ numbersTo last ↔ k.toNat ≤ last.toNat := by
  unfold numbersTo
  rw [mem_map]
  constructor
  · rintro ⟨i, hi, rfl⟩
    have := mem_range.mp hi
    have := last.toNat_lt
    rw [toNat_ofNat (by omega)]
    omega
  · intro hk
    exact ⟨k.toNat, mem_range.mpr (by omega), UInt16.ofNat_toNat⟩

theorem nodup_numbersTo : (numbersTo last).Nodup := by
  apply List.Nodup.map_on _ nodup_range
  intro i hi j hj h
  rw [mem_range] at hi hj
  have hlast := last.toNat_lt
  have htoNat := congrArg UInt16.toNat h
  rwa [toNat_ofNat (by omega), toNat_ofNat (by omega)] at htoNat

theorem card_numbersTo : (numbersTo last).toFinset.card = last.toNat + 1 := by
  rw [toFinset_card_of_nodup nodup_numbersTo]
  unfold numbersTo
  rw [length_map, length_range]

/-- Closed, with the frames up to the last number and no other. -/
def Complete (c : Channel) : Prop :=
  c.closed = true ∧ ∀ k, k ∈ c.inputs ↔ k.toNat ≤ c.lastFrameNumber.toNat

theorem Complete.size_eq (h : c.Complete) : c.inputs.size = c.lastFrameNumber.toNat + 1 := by
  rw [← card_numbersTo]
  apply size_eq_card
  intro k
  rw [mem_toFinset, mem_numbersTo]
  exact h.2 k

/-- A closed channel is complete once it has enough frames. -/
theorem complete_of_le_size (hc : c.Sound) (hclosed : c.closed = true)
    (hle : c.lastFrameNumber.toNat + 1 ≤ c.inputs.size) : c.Complete := by
  refine ⟨hclosed, fun k => ⟨hc.bounded hclosed k, fun hk => ?_⟩⟩
  rw [← card_numbersTo] at hle
  apply mem_of_card_le _ hle (mem_toFinset.mpr (mem_numbersTo.mpr hk))
  intro j hj
  exact mem_toFinset.mpr (mem_numbersTo.mpr (hc.bounded hclosed j hj))

/-- A ready channel is complete, and the sum did not wrap. -/
theorem isReady_iff (hc : c.Sound) :
    c.isReady = true ↔ c.Complete ∧ c.lastFrameNumber.toNat + 1 < 65536 := by
  have hsum : (c.lastFrameNumber + 1).toNat = (c.lastFrameNumber.toNat + 1) % 65536 :=
    UInt16.toNat_add _ _
  unfold isReady
  rw [hsum]
  constructor
  · intro h
    split_ifs at h with hopen hsize
    have hclosed : c.closed = true := by simpa using hopen
    have hall : ∀ k, k.toNat ≤ c.lastFrameNumber.toNat → k ∈ c.inputs := by
      intro k hk
      exact of_decide_eq_true (all_eq_true.mp h k (mem_numbersTo.mpr hk))
    have hcomplete : c.Complete := ⟨hclosed, fun k => ⟨hc.bounded hclosed k, hall k⟩⟩
    have := hcomplete.size_eq
    exact ⟨hcomplete, by omega⟩
  · rintro ⟨h, hlt⟩
    rw [h.1, h.size_eq, Nat.mod_eq_of_lt hlt, if_neg (by simp), if_neg (not_not.mpr rfl), all_eq_true]
    intro k hk
    exact decide_eq_true ((h.2 k).mpr (mem_numbersTo.mp hk))

/-- The readiness check is exact as long as the frames can be counted in sixteen bits. -/
theorem isReady_iff_complete_iff (hc : c.Sound) :
    (c.isReady = true ↔ c.Complete) ↔ (c.closed = true → c.inputs.size < 65536) := by
  rw [isReady_iff hc]
  constructor
  · intro h hclosed
    by_contra hge
    have hlast := c.lastFrameNumber.toNat_lt
    have hcomplete := complete_of_le_size hc hclosed (by omega)
    have := (h.mpr hcomplete).2
    have := hcomplete.size_eq
    omega
  · intro h
    refine ⟨fun hready => hready.1, fun hcomplete => ⟨hcomplete, ?_⟩⟩
    rw [← hcomplete.size_eq]
    exact h hcomplete.1

theorem mapM_lookup {frames : List Frame} (h : ∀ f ∈ frames, c.inputs.lookup f.number = some f) :
    ((frames.map Frame.number).mapM fun k => (c.inputs.lookup k).map Frame.data) =
      some (frames.map Frame.data) := by
  induction frames with
  | nil => rfl
  | cons f frames ih =>
    obtain ⟨hf, hrest⟩ := forall_mem_cons.mp h
    rw [map_cons, mapM_cons, hf, ih hrest]
    rfl

/-- Frames that are stored and have the numbers up to the last one give the channel's data. -/
theorem frameData_eq {frames : List Frame}
    (hnumbers : frames.map Frame.number = numbersTo c.lastFrameNumber)
    (h : ∀ f ∈ frames, c.inputs.lookup f.number = some f) (hne : c.inputs.size ≠ 0) :
    c.frameData = some (frames.flatMap Frame.data) := by
  unfold frameData
  rw [if_neg hne, ← hnumbers, mapM_lookup h]
  rfl

theorem frames_of_mem (hc : c.Sound) {numbers : List UInt16} (h : ∀ k ∈ numbers, k ∈ c.inputs) :
    ∃ frames : List Frame, frames.map Frame.number = numbers ∧
      ∀ f ∈ frames, c.inputs.lookup f.number = some f := by
  induction numbers with
  | nil => exact ⟨[], rfl, nofun⟩
  | cons k numbers ih =>
    obtain ⟨f, hf⟩ := mem_iff_lookup.mp (h k mem_cons_self)
    obtain ⟨frames, hnumbers, hlookup⟩ := ih fun j hj => h j (mem_cons_of_mem k hj)
    have hnumber := (hc.filed k f hf).1
    refine ⟨f :: frames, by rw [map_cons, hnumber, hnumbers], ?_⟩
    intro g hg
    rcases mem_cons.mp hg with rfl | hmem
    · rwa [hnumber]
    · exact hlookup g hmem

/-- A complete channel gives the data of its frames, in the order of their numbers. -/
theorem frameData_of_complete (hc : c.Sound) (h : c.Complete) :
    ∃ frames : List Frame, frames.map Frame.number = numbersTo c.lastFrameNumber ∧
      (∀ f ∈ frames, c.inputs.lookup f.number = some f) ∧
      c.frameData = some (frames.flatMap Frame.data) := by
  obtain ⟨frames, hnumbers, hlookup⟩ :=
    frames_of_mem hc fun k hk => (h.2 k).mpr (mem_numbersTo.mp hk)
  exact ⟨frames, hnumbers, hlookup, frameData_eq hnumbers hlookup (by rw [h.size_eq]; omega)⟩

/-- Reassembly, for every sequence of frames given to a new channel: the size is that of the stored
frames, a refused frame changes nothing, a closed channel has no frame beyond the last number, and a
complete channel gives the data of its frames in order. It is ready exactly when it is complete,
unless it is closed with all 65536 numbers. -/
theorem reassembles (id : ChannelId) (openBlock : BlockInfo) (calls : List (Frame × BlockInfo)) :
    let c := (new id openBlock).afterFrames calls
    c.estimatedSize = framesSize c.inputs ∧
    (∀ frame block e c', addFrame frame block c = .error e c' → c' = c) ∧
    (c.closed = true → ∀ k ∈ c.inputs, k.toNat ≤ c.lastFrameNumber.toNat) ∧
    ((c.isReady = true ↔ c.Complete) ↔ (c.closed = true → c.inputs.size < 65536)) ∧
    (c.Complete → ∃ frames : List Frame, frames.map Frame.number = numbersTo c.lastFrameNumber ∧
      (∀ f ∈ frames, c.inputs.lookup f.number = some f) ∧
      c.frameData = some (frames.flatMap Frame.data)) := by
  intro c
  have hc : c.Sound := (sound_new id openBlock).afterFrames calls
  refine ⟨hc.size, ?_, hc.bounded, isReady_iff_complete_iff hc, frameData_of_complete hc⟩
  intro frame block e c' herror
  exact atomic_addFrame frame block c e c' herror

/-! ## Frames in order -/

theorem inputs_close_of_lt (h : ∀ k ∈ c.inputs, k.toNat < last.toNat) :
    (c.close last).inputs = c.inputs := by
  unfold close
  split_ifs
  · apply AList.ext
    apply filter_eq_self.mpr
    intro e he
    exact decide_eq_true (lt_iff_toNat_lt.mpr (h e.1 (mem_map_of_mem he)))
  · rfl

theorem inputs_accept_of_lt (h : ∀ k ∈ c.inputs, k.toNat < frame.number.toNat) :
    (c.accept frame block).inputs = c.inputs.insert frame.number frame := by
  unfold accept
  cases frame.isLast with
  | true =>
    show (c.close frame.number).inputs.insert frame.number frame = _
    rw [inputs_close_of_lt h]
  | false => rfl

/-- Frames of one channel with the numbers below `n`, all empty, of which only frame 65535 closes. -/
def emptyFrames (id : ChannelId) (block : BlockInfo) (n : ℕ) : List (Frame × BlockInfo) :=
  (range n).map fun i => (⟨id, UInt16.ofNat i, [], decide (i = 65535)⟩, block)

theorem afterFrames_emptyFrames (id : ChannelId) (block : BlockInfo) {n : ℕ} (hn : n ≤ 65536) :
    let c := (new id block).afterFrames (emptyFrames id block n)
    c.id = id ∧ (∀ k, k ∈ c.inputs ↔ k.toNat < n) ∧ c.closed = decide (n = 65536) ∧
      (n = 65536 → c.lastFrameNumber = 65535) := by
  intro c
  induction n with
  | zero =>
    refine ⟨rfl, fun k => ?_, rfl, nofun⟩
    exact ⟨nofun, fun h => absurd h (by omega)⟩
  | succ n ih =>
    obtain ⟨hid, hmem, hclosed, -⟩ := ih (by omega)
    have hsound := (sound_new id block).afterFrames (emptyFrames id block n)
    have hstep : c = ((new id block).afterFrames (emptyFrames id block n)).afterFrame
        (⟨id, UInt16.ofNat n, [], decide (n = 65535)⟩, block) := by
      show (new id block).afterFrames (emptyFrames id block (n + 1)) = _
      unfold emptyFrames afterFrames
      rw [range_succ, map_append, foldl_append]
      rfl
    generalize (new id block).afterFrames (emptyFrames id block n) = d at *
    have hopen : d.closed = false := by
      rw [hclosed]
      exact decide_eq_false (by omega)
    have hnumber := @toNat_ofNat n (by omega)
    have ha : d.Accepts ⟨id, UInt16.ofNat n, [], decide (n = 65535)⟩ := by
      refine ⟨hid.symm, by simp [hopen], ?_, by simp [hopen]⟩
      rw [hmem, hnumber]
      exact lt_irrefl n
    rw [afterFrame_of_accepts ha] at hstep
    rw [hstep, id_accept, closed_accept, last_accept, hopen]
    refine ⟨hid, fun k => ?_, by simp, fun h => ?_⟩
    · rw [mem_accept hsound ha, hmem, ← UInt16.toNat_inj, hnumber]
      omega
    · obtain rfl : n = 65535 := by omega
      rfl

/-- The channel of all 65536 frames is complete and never ready. -/
theorem full_channel_not_ready :
    let c := (new (FixedBytes.zero 16) BlockInfo.zero).afterFrames
      (emptyFrames (FixedBytes.zero 16) BlockInfo.zero 65536)
    c.closed = true ∧ c.lastFrameNumber = 65535 ∧
      (∀ k, k ∈ c.inputs ↔ k.toNat ≤ c.lastFrameNumber.toNat) ∧ c.isReady = false := by
  intro c
  obtain ⟨-, hmem, hclosed, hlast⟩ :=
    afterFrames_emptyFrames (FixedBytes.zero 16) BlockInfo.zero (le_refl 65536)
  have hc : c.Sound := (sound_new _ _).afterFrames _
  have hlast' : c.lastFrameNumber = 65535 := hlast rfl
  have hclosed' : c.closed = true := hclosed
  have hmem' : ∀ k, k ∈ c.inputs ↔ k.toNat ≤ c.lastFrameNumber.toNat := by
    intro k
    rw [hlast']
    exact (hmem k).trans Nat.lt_succ_iff
  refine ⟨hclosed', hlast', hmem', Bool.eq_false_iff.mpr fun hready => ?_⟩
  have hlt := ((isReady_iff hc).mp hready).2
  rw [hlast'] at hlt
  exact absurd hlt (by decide)

end Channel

end NodeReth.Derive
