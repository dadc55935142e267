import NodeReth.Batcher.Encoder

/-!
# What a replay takes along

The closure of `invalidate_channel`: it ends, and its result is closed under sharing an artifact or
a submission and under following in the FIFO.
-/

namespace NodeReth

open List PushNew

namespace BatchEncoder

variable {br : Brotli}

/-- The collected lists only grow at their ends. -/
def Affected.Le (st st' : Affected) : Prop :=
  st.channels <+: st'.channels ∧ st.artifacts <+: st'.artifacts

theorem Affected.Le.refl (st : Affected) : st.Le st := ⟨prefix_rfl, prefix_rfl⟩

variable {st st' : Affected}

theorem Affected.Le.trans {st'' : Affected} (h : st.Le st') (h' : st'.Le st'') :
    st.Le st'' := ⟨h.1.trans h'.1, h.2.trans h'.2⟩

theorem Affected.Le.size_le (h : st.Le st') : st.size ≤ st'.size :=
  Nat.add_le_add h.1.length_le h.2.length_le

theorem Affected.Le.eq_of_size (h : st.Le st') (hsize : st'.size = st.size) : st = st' := by
  have hchannels := h.1.length_le
  have hartifacts := h.2.length_le
  unfold Affected.size at hsize
  have h₁ := h.1.eq_of_length (by omega)
  have h₂ := h.2.eq_of_length (by omega)
  cases st
  simp_all

theorem Affected.Le.antisymm (h : st.Le st') (h' : st'.Le st) : st = st' :=
  h.eq_of_size (le_antisymm h'.size_le h.size_le)

theorem le_extendArtifact (st : Affected) (a : DaArtifact) : st.Le (extendArtifact st a) := by
  unfold extendArtifact
  split_ifs
  · exact ⟨prefix_pushAllNew _ _, prefix_pushNew _ _⟩
  · exact .refl st

theorem prefix_extendTail (channels : List (Channel br)) (affected : List ChannelId) :
    affected <+: extendTail channels affected := by
  unfold extendTail
  split
  · exact prefix_rfl
  · exact prefix_pushAllNew _ _

/-- One submission of the fold in `extendWithSubmissionArtifacts`. -/
def extendSubmission (affected : List ArtifactId) (p : SubmissionId × List ArtifactId) :
    List ArtifactId :=
  if p.2.any (· ∈ affected) then pushAllNew affected p.2 else affected

theorem prefix_extendSubmission (affected : List ArtifactId) (p : SubmissionId × List ArtifactId) :
    affected <+: extendSubmission affected p := by
  unfold extendSubmission
  split_ifs
  · exact prefix_pushAllNew _ _
  · exact prefix_rfl

theorem le_foldl_extendArtifact (as : List DaArtifact) (st : Affected) :
    st.Le (as.foldl extendArtifact st) := by
  induction as generalizing st with
  | nil => exact .refl st
  | cons a as ih => exact (le_extendArtifact st a).trans (ih _)

theorem prefix_foldl_extendSubmission (ps : List (SubmissionId × List ArtifactId))
    (affected : List ArtifactId) : affected <+: ps.foldl extendSubmission affected := by
  induction ps generalizing affected with
  | nil => exact prefix_rfl
  | cons p ps ih => exact (prefix_extendSubmission affected p).trans (ih _)

theorem le_extendAffected (e : BatchEncoder br) (st : Affected) : st.Le (e.extendAffected st) :=
  (le_foldl_extendArtifact e.egress.artifacts.artifacts st).trans
    ⟨prefix_extendTail _ _, prefix_foldl_extendSubmission _ _⟩

/-! ## The bound -/

/-- The closure of the channel `id` collects each value once, and only values that are there. -/
structure Collects (e : BatchEncoder br) (id : ChannelId) (st : Affected) : Prop where
  channels_nodup : st.channels.Nodup
  artifacts_nodup : st.artifacts.Nodup
  channels_subset : st.channels ⊆ id :: (e.channels.map (·.id) ++
    e.egress.artifacts.artifacts.flatMap (·.channelIds))
  artifacts_subset : st.artifacts ⊆
    e.egress.artifacts.artifacts.map (·.id) ++ e.egress.pending.flatMap (·.2)

namespace Collects

variable {e : BatchEncoder br} {id : ChannelId} {st : Affected}

theorem start : Collects e id ⟨[id], []⟩ where
  channels_nodup := nodup_singleton id
  artifacts_nodup := nodup_nil
  channels_subset := by simp
  artifacts_subset := by simp

section

variable (h : Collects e id st)

include h

theorem size_le : st.size ≤ e.closureBound := by
  have hchannels := h.channels_nodup.length_le_of_subset h.channels_subset
  have hartifacts := h.artifacts_nodup.length_le_of_subset h.artifacts_subset
  simp only [length_cons, length_append, length_map] at hchannels hartifacts
  unfold Affected.size closureBound
  omega

theorem extendArtifact {a : DaArtifact}
    (ha : a ∈ e.egress.artifacts.artifacts) : Collects e id (extendArtifact st a) := by
  unfold BatchEncoder.extendArtifact
  split_ifs
  · refine ⟨nodup_pushAllNew h.channels_nodup _, nodup_pushNew h.artifacts_nodup _, ?_, ?_⟩
    · intro c hc
      rcases mem_pushAllNew.mp hc with hc | hc
      · exact h.channels_subset hc
      · exact mem_cons_of_mem _ (mem_append_right _ (mem_flatMap.mpr ⟨a, ha, hc⟩))
    · intro i hi
      rcases mem_pushNew.mp hi with hi | rfl
      · exact h.artifacts_subset hi
      · exact mem_append_left _ (mem_map_of_mem ha)
  · exact h

theorem foldl_extendArtifact {as : List DaArtifact} (has : as ⊆ e.egress.artifacts.artifacts) :
    Collects e id (as.foldl BatchEncoder.extendArtifact st) := by
  induction as generalizing st with
  | nil => exact h
  | cons a as ih =>
    exact ih (h.extendArtifact (has mem_cons_self)) fun b hb => has (mem_cons_of_mem a hb)

theorem extendTail : Collects e id ⟨extendTail e.channels st.channels, st.artifacts⟩ := by
  unfold BatchEncoder.extendTail
  split
  · exact h
  · refine ⟨nodup_pushAllNew h.channels_nodup _, h.artifacts_nodup, ?_, h.artifacts_subset⟩
    intro c hc
    rcases mem_pushAllNew.mp hc with hc | hc
    · exact h.channels_subset hc
    · obtain ⟨d, hd, rfl⟩ := mem_map.mp hc
      exact mem_cons_of_mem _ (mem_append_left _ (mem_map_of_mem (mem_of_mem_drop hd)))

theorem foldl_extendSubmission {ps : List (SubmissionId × List ArtifactId)}
    (hps : ps ⊆ e.egress.pending) :
    Collects e id ⟨st.channels, ps.foldl extendSubmission st.artifacts⟩ := by
  induction ps generalizing st with
  | nil => exact h
  | cons p ps ih =>
    have hp : Collects e id ⟨st.channels, extendSubmission st.artifacts p⟩ := by
      unfold extendSubmission
      split_ifs
      · refine ⟨h.channels_nodup, nodup_pushAllNew h.artifacts_nodup _, h.channels_subset, ?_⟩
        intro i hi
        rcases mem_pushAllNew.mp hi with hi | hi
        · exact h.artifacts_subset hi
        · exact mem_append_right _ (mem_flatMap.mpr ⟨p, hps mem_cons_self, hi⟩)
      · exact h
    exact ih hp fun q hq => hps (mem_cons_of_mem p hq)

theorem extendAffected : Collects e id (e.extendAffected st) :=
  ((h.foldl_extendArtifact (List.Subset.refl _)).extendTail).foldl_extendSubmission (List.Subset.refl _)

end

end Collects

/-! ## The closure -/

/-- A set of channels and artifacts that a replay may remove as a whole. -/
structure Closed (e : BatchEncoder br) (st : Affected) : Prop where
  /-- An artifact goes with any of its channels, and all of its channels with it. -/
  artifact : ∀ a ∈ e.egress.artifacts.artifacts,
    ((∃ c ∈ a.channelIds, c ∈ st.channels) ∨ a.id ∈ st.artifacts) →
      a.id ∈ st.artifacts ∧ a.channelIds ⊆ st.channels
  /-- A submission goes with any of its artifacts. -/
  submission : ∀ p ∈ e.egress.pending, (∃ i ∈ p.2, i ∈ st.artifacts) → p.2 ⊆ st.artifacts
  /-- Every channel goes with an earlier one. -/
  tail : ∀ (i j : ℕ) (c d : Channel br), e.channels[i]? = some c → c.id ∈ st.channels → i ≤ j →
    e.channels[j]? = some d → d.id ∈ st.channels

theorem closed_of_fixed {e : BatchEncoder br} (h : e.extendAffected st = st) : Closed e st := by
  -- the parts of the round grow one after the other, so none of them changes the state
  have hfold : e.egress.artifacts.artifacts.foldl extendArtifact st = st := by
    have hle := le_foldl_extendArtifact e.egress.artifacts.artifacts st
    have hge : (e.egress.artifacts.artifacts.foldl extendArtifact st).Le (e.extendAffected st) :=
      ⟨prefix_extendTail _ _, prefix_foldl_extendSubmission _ _⟩
    rw [h] at hge
    exact hge.antisymm hle
  have hparts : e.extendAffected st =
      ⟨extendTail e.channels st.channels, e.egress.pending.foldl extendSubmission st.artifacts⟩ := by
    conv_lhs => rw [extendAffected, hfold]
    rfl
  rw [h] at hparts
  have htail : extendTail e.channels st.channels = st.channels :=
    (congrArg Affected.channels hparts).symm
  have hsubmissions : e.egress.pending.foldl extendSubmission st.artifacts = st.artifacts :=
    (congrArg Affected.artifacts hparts).symm
  refine ⟨?_, ?_, ?_⟩
  · intro a ha htouched
    have hfixed := foldl_fixed Affected.Le.refl (fun _ _ _ => Affected.Le.trans)
      (fun _ _ => Affected.Le.antisymm) le_extendArtifact hfold a ha
    unfold extendArtifact at hfixed
    rw [if_pos (by simpa using htouched)] at hfixed
    refine ⟨?_, fun c hc => ?_⟩
    · rw [← hfixed]
      exact mem_pushNew.mpr (.inr rfl)
    · rw [← hfixed]
      exact mem_pushAllNew.mpr (.inr hc)
  · intro p hp htouched i hi
    have hfixed := foldl_fixed (fun _ => prefix_rfl) (fun _ _ _ => List.IsPrefix.trans)
      (fun _ _ h h' => h.eq_of_length_le h'.length_le) prefix_extendSubmission hsubmissions p hp
    unfold extendSubmission at hfixed
    rw [if_pos (by simpa using htouched)] at hfixed
    rw [← hfixed]
    exact mem_pushAllNew.mpr (.inr hi)
  · intro i j c d hc hmem hij hd
    unfold extendTail at htail
    split at htail
    · rename_i hnone
      rw [findIdx?_eq_none_iff] at hnone
      simpa [hmem] using hnone c (mem_of_getElem? hc)
    · rename_i k hk
      -- the first affected channel is not behind `c`
      obtain ⟨hklt, -, hfirst⟩ := findIdx?_eq_some_iff_getElem.mp hk
      have hki : k ≤ i := by
        by_contra hlt
        have := hfirst i (by omega)
        obtain ⟨hi, rfl⟩ := List.getElem?_eq_some_iff.mp hc
        simp [hmem] at this
      rw [← htail]
      refine mem_pushAllNew.mpr (.inr (mem_map_of_mem (f := (·.id)) (a := d) ?_))
      refine mem_of_getElem? (i := j - k) ?_
      rw [getElem?_drop, Nat.add_sub_cancel' (by omega), hd]

/-- The rounds of the closure are enough: another one changes nothing. -/
theorem affectedBy_fixed (e : BatchEncoder br) (id : ChannelId) :
    id ∈ (e.affectedBy id).channels ∧ e.extendAffected (e.affectedBy id) = e.affectedBy id := by
  obtain ⟨t, ⟨-, hstart⟩, hsize, hresult⟩ :=
    untilStable_spec Affected.size e.extendAffected
      (fun st => Collects e id st ∧ Affected.Le ⟨[id], []⟩ st) e.closureBound
      (fun st h => ⟨h.1.extendAffected, h.2.trans (le_extendAffected e st)⟩)
      (fun st _ => (le_extendAffected e st).size_le) (fun _ h => h.1.size_le)
      (e.closureBound + 1) ⟨[id], []⟩ ⟨Collects.start, .refl _⟩ (by omega)
  have hfixed : e.extendAffected t = t := ((le_extendAffected e t).eq_of_size hsize).symm
  have heq : e.affectedBy id = t := hresult.trans hfixed
  rw [heq]
  exact ⟨hstart.1.subset (mem_singleton_self id), hfixed⟩

theorem affectedBy_spec (e : BatchEncoder br) (id : ChannelId) :
    id ∈ (e.affectedBy id).channels ∧ Closed e (e.affectedBy id) :=
  ⟨(affectedBy_fixed e id).1, closed_of_fixed (affectedBy_fixed e id).2⟩

/-- A replay goes back to the first affected channel, which is not behind the one that expired. -/
theorem invalidateChannel_spec {e : BatchEncoder br} {channelIdx : ℕ} {channel : Channel br}
    (hchannel : e.channels[channelIdx]? = some channel) :
    ∃ (i : ℕ) (replay : Channel br), i ≤ channelIdx ∧ e.channels[i]? = some replay ∧
      replay.id ∈ (e.affectedBy channel.id).channels ∧
      (∀ (j : ℕ) (d : Channel br), j < i → e.channels[j]? = some d →
        d.id ∉ (e.affectedBy channel.id).channels) ∧
      e.invalidateChannel channelIdx =
        { e with
          egress := e.egress.invalidateArtifacts (e.affectedBy channel.id).artifacts
          channels := e.channels.take i
          blockCursor := min e.blockCursor replay.blockStart } := by
  obtain ⟨hmem, -⟩ := affectedBy_spec e channel.id
  obtain ⟨i, hi⟩ : ∃ i, e.channels.findIdx? (·.id ∈ (e.affectedBy channel.id).channels) = some i := by
    refine Option.isSome_iff_exists.mp (findIdx?_isSome.trans ?_)
    exact any_eq_true.mpr ⟨channel, mem_of_getElem? hchannel, by simpa using hmem⟩
  obtain ⟨hlt, hreplay, hfirst⟩ := findIdx?_eq_some_iff_getElem.mp hi
  refine ⟨i, e.channels[i], ?_, getElem?_eq_getElem hlt, by simpa using hreplay,
    fun j d hj hd => ?_, ?_⟩
  · by_contra hgt
    obtain ⟨hidx, rfl⟩ := List.getElem?_eq_some_iff.mp hchannel
    have hnot := hfirst channelIdx (not_le.mp hgt)
    simp [hmem] at hnot
  · obtain ⟨-, rfl⟩ := List.getElem?_eq_some_iff.mp hd
    simpa using hfirst j hj
  · unfold invalidateChannel
    simp only [hchannel, hi, getElem?_eq_getElem hlt]

/-- A replay removes a closed set: the channels from the first affected one on, and the affected
artifacts. -/
theorem invalidateChannel_cases (e : BatchEncoder br) (channelIdx : ℕ) :
    e.invalidateChannel channelIdx = e ∨
      ∃ (st : Affected) (i : ℕ) (replay : Channel br), Closed e st ∧ e.channels[i]? = some replay ∧
        replay.id ∈ st.channels ∧
        (∀ (j : ℕ) (d : Channel br), j < i → e.channels[j]? = some d → d.id ∉ st.channels) ∧
        e.invalidateChannel channelIdx =
          { e with
            egress := e.egress.invalidateArtifacts st.artifacts
            channels := e.channels.take i
            blockCursor := min e.blockCursor replay.blockStart } := by
  cases hchannel : e.channels[channelIdx]? with
  | none =>
    refine .inl ?_
    unfold invalidateChannel
    rw [hchannel]
  | some channel =>
    obtain ⟨i, replay, -, hreplay, hmem, hfirst, heq⟩ := invalidateChannel_spec hchannel
    exact .inr ⟨_, i, replay, (affectedBy_spec e channel.id).2, hreplay, hmem, hfirst, heq⟩

end BatchEncoder

end NodeReth
