import NodeReth.Batcher.Partition

/-!
# Leases

An artifact is pending exactly while one in-flight submission lists it. The invariant `Leased` is
kept by every move, with or without compressor failures. Along a run the ledger only forgets
artifacts or adds them under new identifiers, and what is confirmed stays confirmed (`LedgerLe`).
-/

namespace NodeReth

open BatchEncoder DaArtifacts DaEgress List Nat Runs

variable {state : ArtifactState} {id : SubmissionId} {i : ArtifactId}

namespace DaArtifacts

def ids (s : DaArtifacts) : List ArtifactId := s.artifacts.map (·.id)

variable (ids : List ArtifactId)

theorem restate_eq (state : ArtifactState) (a : DaArtifact) :
    restate ids state a = { a with state := if a.id ∈ ids then state else a.state } := by
  unfold restate
  split_ifs <;> rfl

theorem setState_ids (s : DaArtifacts) (state : ArtifactState) :
    (s.setState ids state).ids = s.ids := by
  unfold DaArtifacts.ids DaArtifacts.setState
  rw [map_map]
  congr 1
  funext a
  simp [restate_eq]

variable {as : List DaArtifact}

theorem map_restate_of_disjoint {ids : List ArtifactId} (h : ∀ a ∈ as, a.id ∉ ids) :
    as.map (restate ids state) = as := by
  conv_rhs => rw [← map_id as]
  refine map_congr_left fun a ha => ?_
  unfold restate
  rw [if_neg (h a ha)]
  rfl

/-- The ready blobs before the first ready calldata. -/
def leadingBlobs (as : List DaArtifact) : List DaArtifact :=
  (as.filter (·.state = .ready)).takeWhile (·.payload.isBlob)

theorem leaseBlobs_fst (maximum : ℕ) (as : List DaArtifact) :
    (leaseBlobs maximum as).1 = (leadingBlobs as).take maximum := by
  unfold leadingBlobs
  fun_induction leaseBlobs maximum as with
  | case1 as | case2 => rfl
  | case3 maximum a as hready frame hpayload =>
    have hcalldata : a.payload.isBlob = false := by rw [hpayload]; rfl
    simp [hready, hcalldata]
  | case4 maximum a as hready frames hpayload leased rest hrest ih =>
    have hblob : a.payload.isBlob = true := by rw [hpayload]; rfl
    rw [hrest] at ih
    simp [hready, hblob, ← ih]
  | case5 maximum a as hready leased rest hrest ih =>
    rw [hrest] at ih
    simpa [hready] using ih

theorem leaseBlobs_sublist (maximum : ℕ) (as : List DaArtifact) :
    ((leaseBlobs maximum as).1).Sublist (as.filter (·.state = .ready)) := by
  rw [leaseBlobs_fst]
  exact (take_sublist _ _).trans (takeWhile_sublist _)

theorem leaseBlobs_snd {maximum : ℕ} (hnodup : (as.map (·.id)).Nodup) :
    (leaseBlobs maximum as).2 = as.map (restate ((leaseBlobs maximum as).1.map (·.id)) .pending) := by
  have hnone : ∀ as : List DaArtifact, as.map (restate [] .pending) = as :=
    fun as => map_restate_of_disjoint fun _ _ => not_mem_nil
  fun_induction leaseBlobs maximum as with
  | case1 as => exact (hnone as).symm
  | case2 => rfl
  | case3 => exact (hnone _).symm
  | case4 maximum a as hready frames hpayload leased rest hrest ih =>
    rw [map_cons, nodup_cons] at hnodup
    simp only [hrest] at ih
    rw [ih hnodup.2]
    refine congrArg₂ cons ?_ (map_congr_left fun b hb => ?_)
    · simp [restate]
    · have hne : b.id ≠ a.id := fun heq => hnodup.1 (heq ▸ mem_map_of_mem hb)
      simp [restate, hne]
  | case5 maximum a as hready leased rest hrest ih =>
    rw [map_cons, nodup_cons] at hnodup
    simp only [hrest] at ih
    have hsub := (leaseBlobs_sublist (maximum + 1) as).trans filter_sublist
    rw [hrest] at hsub
    have hnotmem : a.id ∉ leased.map (·.id) := fun hmem => hnodup.1 ((hsub.map _).subset hmem)
    rw [ih hnodup.2, map_cons, restate, if_neg hnotmem]

theorem leaseCalldata_spec {first : DaArtifact}
    (hnodup : (as.map (·.id)).Nodup) (h : as.find? (·.state = .ready) = some first) :
    leaseCalldata as = as.map (restate [first.id] .pending) := by
  induction as with
  | nil => cases h
  | cons a as ih =>
    have hnotmem : a.id ∉ as.map (·.id) := (nodup_cons.mp hnodup).1
    have hnodup' : (as.map (·.id)).Nodup := (nodup_cons.mp hnodup).2
    unfold leaseCalldata
    split_ifs with hready
    · rw [find?_cons_of_pos (by simpa using hready)] at h
      obtain rfl := Option.some.inj h
      have hrest : ∀ b ∈ as, b.id ∉ [a.id] := by
        intro b hb
        rw [mem_singleton]
        exact fun heq => hnotmem (heq ▸ mem_map_of_mem hb)
      rw [map_cons, map_restate_of_disjoint hrest]
      simp [restate]
    · rw [find?_cons_of_neg (by simpa using hready)] at h
      have hne : a.id ≠ first.id := by
        intro heq
        refine hnotmem ?_
        rw [heq]
        exact mem_map_of_mem (mem_of_find?_eq_some h)
      rw [ih hnodup' h]
      simp [restate, hne]

/-- A lease takes the first ready artifact if it is calldata, and ready blobs otherwise. -/
theorem lease_cases {s s' : DaArtifacts} {maxBlobs : ℕ}
    {submission : BatchSubmission} {ids : List ArtifactId}
    (h : s.lease id maxBlobs = some (submission, ids, s')) :
    ∃ leased, leased.Sublist (s.artifacts.filter (·.state = .ready)) ∧ submission.id = id ∧
      ids = leased.map (·.id) ∧ (s.ids.Nodup → s' = s.setState ids .pending) ∧
      ((∃ a frame, leased = [a] ∧ a.payload = .calldata frame ∧ submission.payload = .calldata frame) ∨
        submission.payload = .blobs (leased.map (·.payload.frames)) ∧
          leased = (leadingBlobs s.artifacts).take maxBlobs ∧ leadingBlobs s.artifacts ≠ []) := by
  unfold lease at h
  split at h
  · cases h
  rename_i first hfirst
  have hhead : (s.artifacts.filter (·.state = .ready)).head? = some first := by
    rw [head?_filter, hfirst]
  split at h
  · rename_i frames hblob
    refine ⟨_, leaseBlobs_sublist maxBlobs s.artifacts, ?_⟩
    cases h
    refine ⟨rfl, rfl, fun hnodup => ?_, .inr ⟨rfl, leaseBlobs_fst _ _, ?_⟩⟩
    · unfold setState
      rw [← leaseBlobs_snd hnodup]
    · obtain ⟨rest, hrest⟩ := head?_eq_some_iff.mp hhead
      simp [leadingBlobs, hrest, hblob, DaArtifactPayload.isBlob]
  · rename_i frame hcalldata
    cases h
    refine ⟨[first], ?_, rfl, rfl, fun hnodup => ?_, .inl ⟨first, frame, rfl, hcalldata, rfl⟩⟩
    · exact singleton_sublist.mpr (mem_of_mem_head? hhead)
    · unfold setState
      rw [leaseCalldata_spec hnodup hfirst]

theorem lease_spec {s s' : DaArtifacts} {maxBlobs : ℕ}
    {submission : BatchSubmission} {ids : List ArtifactId} (hnodup : s.ids.Nodup)
    (h : s.lease id maxBlobs = some (submission, ids, s')) :
    ids.Nodup ∧ (∀ i ∈ ids, ∃ a ∈ s.artifacts, a.id = i ∧ a.state = .ready) ∧
      s' = s.setState ids .pending := by
  obtain ⟨leased, hsub, -, rfl, hs', -⟩ := lease_cases h
  refine ⟨((hsub.trans filter_sublist).map _).nodup hnodup, fun i hi => ?_, hs' hnodup⟩
  obtain ⟨a, ha, rfl⟩ := mem_map.mp hi
  obtain ⟨hmem, hready⟩ := mem_filter.mp (hsub.subset ha)
  exact ⟨a, hmem, rfl, by simpa using hready⟩

end DaArtifacts

namespace DaEgress

/-- The artifacts that in-flight submissions list. -/
def listed (e : DaEgress) : List ArtifactId := e.pending.flatMap (·.2)

def inFlight (e : DaEgress) : List SubmissionId := e.pending.map (·.1)

variable {e : DaEgress}

theorem mem_listed : i ∈ e.listed ↔ ∃ p ∈ e.pending, i ∈ p.2 := mem_flatMap

/-- Submissions leave with all that they list. -/
theorem mem_listed_filter {s : DaArtifacts} {keep : SubmissionId × List ArtifactId → Bool}
    {removed : List ArtifactId}
    (hkeep : ∀ p ∈ e.pending, ∀ i ∈ p.2, (keep p = true ↔ i ∉ removed)) :
    i ∈ DaEgress.listed ⟨s, e.pending.filter keep⟩ ↔ i ∈ e.listed ∧ i ∉ removed := by
  simp only [mem_listed, mem_filter]
  grind

end DaEgress

/-- The lease map and the ledger agree; `next` is the next submission identifier. -/
structure Leased (e : DaEgress) (next : SubmissionId) : Prop where
  ids_increasing : e.artifacts.ids.Pairwise (· < ·)
  ids_lt : ∀ i ∈ e.artifacts.ids, i < e.artifacts.nextId
  inFlight_nodup : e.inFlight.Nodup
  inFlight_lt : ∀ id ∈ e.inFlight, id < next
  listed_nodup : e.listed.Nodup
  listed_mem : ∀ i ∈ e.listed, i ∈ e.artifacts.ids
  pending_iff : ∀ a ∈ e.artifacts.artifacts, a.state = .pending ↔ a.id ∈ e.listed

namespace Leased

variable {e : DaEgress} {next : SubmissionId} {ids : List ArtifactId}

theorem new : Leased DaEgress.new 0 :=
  ⟨List.Pairwise.nil, nofun, nodup_nil, nofun, nodup_nil, nofun, nofun⟩

section

variable (h : Leased e next)

include h

theorem ids_nodup : e.artifacts.ids.Nodup :=
  h.ids_increasing.imp fun hlt => hlt.ne

theorem eq_of_id {a b : DaArtifact} (ha : a ∈ e.artifacts.artifacts)
    (hb : b ∈ e.artifacts.artifacts) (hid : a.id = b.id) : a = b :=
  inj_on_of_nodup_map h.ids_nodup ha hb hid

theorem exists_of_listed (hi : i ∈ e.listed) :
    ∃ a ∈ e.artifacts.artifacts, a.id = i ∧ a.state = .pending := by
  obtain ⟨a, ha, rfl⟩ := mem_map.mp (h.listed_mem i hi)
  exact ⟨a, ha, rfl, (h.pending_iff a ha).mpr hi⟩

/-- An artifact is listed by exactly one submission while it is pending. -/
theorem pending_iff_existsUnique {a : DaArtifact}
    (ha : a ∈ e.artifacts.artifacts) : a.state = .pending ↔ ∃! p, p ∈ e.pending ∧ a.id ∈ p.2 := by
  rw [h.pending_iff a ha, mem_listed]
  constructor
  · rintro ⟨p, hp, hap⟩
    refine ⟨p, ⟨hp, hap⟩, ?_⟩
    rintro q ⟨hq, haq⟩
    -- two different submissions list disjoint artifacts
    by_contra hne
    have hdisjoint := (nodup_flatMap.mp h.listed_nodup).2
    have hsymm : Std.Symm (Function.onFun List.Disjoint
        fun p : SubmissionId × List ArtifactId => p.2) := ⟨fun _ _ hd => hd.symm⟩
    exact (hdisjoint.forall hq hp hne) haq hap
  · rintro ⟨p, hp, -⟩
    exact ⟨p, hp⟩

/-! ## The operations of the ledger -/

theorem push (payload : DaArtifactPayload) (channelIds : List ChannelId) :
    Leased { e with artifacts := e.artifacts.push payload channelIds } next := by
  have hids : (e.artifacts.push payload channelIds).ids = e.artifacts.ids ++ [e.artifacts.nextId] := by
    simp [DaArtifacts.ids, DaArtifacts.push]
  refine ⟨?_, ?_, h.inFlight_nodup, h.inFlight_lt, h.listed_nodup, ?_, ?_⟩
  · rw [hids, pairwise_append]
    refine ⟨h.ids_increasing, pairwise_singleton _ _, fun i hi j hj => ?_⟩
    rw [mem_singleton.mp hj]
    exact h.ids_lt i hi
  · rw [hids, forall_mem_append, forall_mem_singleton]
    exact ⟨fun i hi => (h.ids_lt i hi).trans (lt_succ_self _), lt_succ_self _⟩
  · intro i hi
    rw [hids]
    exact mem_append_left _ (h.listed_mem i hi)
  · refine forall_mem_append.mpr ⟨h.pending_iff, forall_mem_singleton.mpr ⟨nofun, fun hmem => ?_⟩⟩
    -- the new identifier is not listed yet
    exact absurd (h.ids_lt _ (h.listed_mem _ hmem)) (lt_irrefl _)

theorem lease (hnodup : ids.Nodup)
    (hready : ∀ i ∈ ids, ∃ a ∈ e.artifacts.artifacts, a.id = i ∧ a.state = .ready) :
    Leased ⟨e.artifacts.setState ids .pending,
      e.pending.filter (·.1 ≠ next) ++ [(next, ids)]⟩ (next + 1) := by
  have hfilter : e.pending.filter (fun p => decide (p.1 ≠ next)) = e.pending := by
    refine filter_eq_self.mpr fun p hp => ?_
    simpa using (h.inFlight_lt p.1 (mem_map_of_mem hp)).ne
  rw [hfilter]
  have hlisted : ∀ (s : DaArtifacts),
      DaEgress.listed ⟨s, e.pending ++ [(next, ids)]⟩ = e.listed ++ ids := by
    simp [DaEgress.listed]
  have hinFlight : ∀ (s : DaArtifacts),
      DaEgress.inFlight ⟨s, e.pending ++ [(next, ids)]⟩ = e.inFlight ++ [next] := by
    simp [DaEgress.inFlight]
  -- a ready artifact is not listed yet
  have hfresh : ∀ i ∈ ids, i ∉ e.listed := by
    intro i hi hmem
    obtain ⟨a, ha, rfl, hstate⟩ := hready i hi
    rw [(h.pending_iff a ha).mpr hmem] at hstate
    cases hstate
  refine ⟨?_, ?_, ?_, ?_, ?_, ?_, ?_⟩
  · rw [setState_ids]
    exact h.ids_increasing
  · rw [setState_ids]
    exact h.ids_lt
  · rw [hinFlight, nodup_append]
    refine ⟨h.inFlight_nodup, nodup_singleton _, fun i hi j hj => ?_⟩
    rw [mem_singleton.mp hj]
    exact (h.inFlight_lt i hi).ne
  · rw [hinFlight, forall_mem_append, forall_mem_singleton]
    exact ⟨fun id hid => (h.inFlight_lt id hid).trans (lt_succ_self _), lt_succ_self _⟩
  · rw [hlisted, nodup_append]
    refine ⟨h.listed_nodup, hnodup, fun i hi j hj heq => ?_⟩
    exact hfresh j hj (heq ▸ hi)
  · rw [hlisted, setState_ids]
    refine forall_mem_append.mpr ⟨h.listed_mem, fun i hi => ?_⟩
    obtain ⟨a, ha, rfl, -⟩ := hready i hi
    exact mem_map_of_mem ha
  · rw [hlisted]
    refine forall_mem_map.mpr fun a ha => ?_
    simp only [restate_eq]
    by_cases hmem : a.id ∈ ids
    · simp [hmem]
    · rw [if_neg hmem, h.pending_iff a ha]
      simp [hmem]

theorem mem_listed_removePending (hp : (id, ids) ∈ e.pending) :
    i ∈ (e.removePending id).listed ↔ i ∈ e.listed ∧ i ∉ ids := by
  refine mem_listed_filter fun q hq i hi => ?_
  rw [decide_eq_true_eq, not_iff_not]
  constructor
  · intro heq
    have hsame : q = (id, ids) := inj_on_of_nodup_map h.inFlight_nodup hq hp heq
    rwa [hsame] at hi
  · intro hmem
    obtain ⟨a, ha, rfl, hstate⟩ := h.exists_of_listed (mem_listed.mpr ⟨q, hq, hi⟩)
    obtain ⟨r, -, huniq⟩ := (h.pending_iff_existsUnique ha).mp hstate
    rw [huniq q ⟨hq, hi⟩, ← huniq (id, ids) ⟨hp, hmem⟩]

/-- Steps that forget artifacts and submissions. -/
theorem forget {e' : DaEgress} (hids : e'.artifacts.ids.Sublist e.artifacts.ids)
    (hnextId : e'.artifacts.nextId = e.artifacts.nextId)
    (hinFlight : e'.inFlight.Sublist e.inFlight) (hlisted : e'.listed.Sublist e.listed)
    (hmem : ∀ i ∈ e'.listed, i ∈ e'.artifacts.ids)
    (hpending : ∀ a ∈ e'.artifacts.artifacts, a.state = .pending ↔ a.id ∈ e'.listed) :
    Leased e' next where
  ids_increasing := h.ids_increasing.sublist hids
  ids_lt i hi := hnextId ▸ h.ids_lt i (hids.subset hi)
  inFlight_nodup := hinFlight.nodup h.inFlight_nodup
  inFlight_lt i hi := h.inFlight_lt i (hinFlight.subset hi)
  listed_nodup := hlisted.nodup h.listed_nodup
  listed_mem := hmem
  pending_iff := hpending

/-- The artifacts of a submission leave the pending state with it. -/
theorem settle (hp : (id, ids) ∈ e.pending) (hstate : state ≠ .pending) :
    Leased { e.removePending id with artifacts := e.artifacts.setState ids state } next := by
  have hlisted : DaEgress.listed
      { e.removePending id with artifacts := e.artifacts.setState ids state } =
        (e.removePending id).listed := rfl
  refine h.forget (by rw [setState_ids]) rfl (filter_sublist.map _) (filter_sublist.flatMap _) ?_ ?_
  · rw [setState_ids]
    exact fun i hi => h.listed_mem i ((h.mem_listed_removePending hp).mp hi).1
  · rw [hlisted]
    refine forall_mem_map.mpr fun a ha => ?_
    simp only [restate_eq]
    rw [h.mem_listed_removePending hp]
    by_cases hmem : a.id ∈ ids
    · simp [hmem, hstate]
    · rw [if_neg hmem, h.pending_iff a ha]
      simp [hmem]

theorem allPending (hp : (id, ids) ∈ e.pending) : e.artifacts.allPending ids = true := by
  unfold DaArtifacts.allPending
  rw [all_eq_true]
  intro i hi
  obtain ⟨a, ha, hid, hstate⟩ := h.exists_of_listed (mem_listed.mpr ⟨_, hp, hi⟩)
  exact any_eq_true.mpr ⟨a, ha, by simp [hid, hstate]⟩

/-- Artifacts without a live channel leave the ledger and the lists. -/
theorem prune (channelIds : List ChannelId) : Leased (e.pruneChannels channelIds) next := by
  have hids : (e.pruneChannels channelIds).artifacts.ids.Sublist e.artifacts.ids := by
    refine (filter_sublist.map _).trans ?_
    rw [map_map]
    exact List.Sublist.refl _
  -- what is listed afterwards was listed and is still in the ledger
  have hlisted : ∀ i, i ∈ (e.pruneChannels channelIds).listed ↔
      i ∈ e.listed ∧ i ∈ (e.pruneChannels channelIds).artifacts.ids := by
    intro i
    rw [mem_listed, mem_listed]
    simp only [DaEgress.pruneChannels, mem_filter, mem_map, DaArtifacts.contains, DaArtifacts.ids]
    constructor
    · rintro ⟨_, ⟨⟨p, hp, rfl⟩, -⟩, hi⟩
      obtain ⟨hi, hcontains⟩ := mem_filter.mp hi
      exact ⟨⟨p, hp, hi⟩, by simpa using hcontains⟩
    · rintro ⟨⟨p, hp, hi⟩, hcontains⟩
      have hmem : i ∈ p.2.filter fun id =>
          (e.artifacts.pruneChannels channelIds).artifacts.any (·.id = id) :=
        mem_filter.mpr ⟨hi, by simpa using hcontains⟩
      exact ⟨_, ⟨⟨p, hp, rfl⟩, by simpa using ne_nil_of_mem hmem⟩, hmem⟩
  have hinFlight : (e.pruneChannels channelIds).inFlight.Sublist e.inFlight := by
    refine (filter_sublist.map _).trans ?_
    rw [map_map]
    exact List.Sublist.refl _
  refine h.forget hids rfl hinFlight ?_ (fun i hi => ((hlisted i).mp hi).2) ?_
  · have hsub : (e.pruneChannels channelIds).listed.Sublist (e.listed.filter fun id =>
        (e.artifacts.pruneChannels channelIds).contains id) := by
      unfold DaEgress.listed
      refine (filter_sublist.flatMap _).trans ?_
      rw [flatMap_map, filter_flatMap]
    exact hsub.trans filter_sublist
  · intro b hb
    have hmem : b.id ∈ (e.pruneChannels channelIds).artifacts.ids := mem_map_of_mem hb
    obtain ⟨a, ha, rfl⟩ := mem_map.mp (mem_filter.mp hb).1
    rw [hlisted, h.pending_iff a ha]
    exact ⟨fun hi => ⟨hi, hmem⟩, And.left⟩

/-- A closed set of artifacts leaves the ledger with the submissions that carry it. -/
theorem invalidate {removed : List ArtifactId}
    (hclosed : ∀ p ∈ e.pending, (∃ i ∈ p.2, i ∈ removed) → p.2 ⊆ removed) :
    Leased (e.invalidateArtifacts removed) next := by
  have hlisted : ∀ i, i ∈ (e.invalidateArtifacts removed).listed ↔ i ∈ e.listed ∧ i ∉ removed := by
    refine fun i => mem_listed_filter fun p hp i hi => ?_
    rw [Bool.not_eq_true', Bool.eq_false_iff, Ne, any_eq_true, not_iff_not]
    simp only [decide_eq_true_eq]
    exact ⟨fun htouched => hclosed p hp htouched hi, fun hmem => ⟨i, hi, hmem⟩⟩
  refine h.forget (filter_sublist.map _) rfl (filter_sublist.map _) (filter_sublist.flatMap _) ?_ ?_
  · intro i hi
    obtain ⟨hi, hnot⟩ := (hlisted i).mp hi
    obtain ⟨a, ha, rfl⟩ := mem_map.mp (h.listed_mem i hi)
    exact mem_map_of_mem (mem_filter.mpr ⟨ha, by simpa using hnot⟩)
  · intro a ha
    obtain ⟨ha, hnot⟩ := mem_filter.mp ha
    rw [hlisted, h.pending_iff a ha]
    exact ⟨fun hi => ⟨hi, by simpa using hnot⟩, And.left⟩

end

theorem reset (e : DaEgress) (next : SubmissionId) : Leased e.reset next :=
  ⟨List.Pairwise.nil, nofun, nodup_nil, nofun, nodup_nil, nofun, nofun⟩

end Leased

/-! ## Along a run -/

/-- The later ledger has old artifacts only as they were, confirmed ones stay confirmed, and no
submission that left comes back. -/
structure LedgerLe (e : DaEgress) (next : SubmissionId) (e' : DaEgress) (next' : SubmissionId) :
    Prop where
  nextId_le : e.artifacts.nextId ≤ e'.artifacts.nextId
  next_le : next ≤ next'
  artifact : ∀ a' ∈ e'.artifacts.artifacts, a'.id < e.artifacts.nextId →
    ∃ a ∈ e.artifacts.artifacts, a.id = a'.id ∧ a.payload = a'.payload ∧
      (a.state = .confirmed → a'.state = .confirmed)
  submission : ∀ id ∈ e'.inFlight, id < next → id ∈ e.inFlight

namespace LedgerLe

variable {e e' e'' : DaEgress} {next next' next'' : SubmissionId}

theorem refl (e : DaEgress) (next : SubmissionId) : LedgerLe e next e next :=
  ⟨le_rfl, le_rfl, fun a ha _ => ⟨a, ha, rfl, rfl, id⟩, fun _ h _ => h⟩

theorem trans (h : LedgerLe e next e' next') (h' : LedgerLe e' next' e'' next'') :
    LedgerLe e next e'' next'' where
  nextId_le := h.nextId_le.trans h'.nextId_le
  next_le := h.next_le.trans h'.next_le
  artifact a'' ha'' hlt := by
    obtain ⟨a', ha', hid', hpayload', hstate'⟩ :=
      h'.artifact a'' ha'' (hlt.trans_le h.nextId_le)
    obtain ⟨a, ha, hid, hpayload, hstate⟩ := h.artifact a' ha' (hid' ▸ hlt)
    exact ⟨a, ha, hid.trans hid', hpayload.trans hpayload', fun hc => hstate' (hstate hc)⟩
  submission id hid hlt :=
    h.submission id (h'.submission id hid (hlt.trans_le h.next_le)) hlt

/-- Steps that forget artifacts and submissions. -/
theorem of_forget (hnextId : e'.artifacts.nextId = e.artifacts.nextId)
    (hartifacts : ∀ a' ∈ e'.artifacts.artifacts, ∃ a ∈ e.artifacts.artifacts,
      a.id = a'.id ∧ a.payload = a'.payload ∧ a.state = a'.state)
    (hinFlight : e'.inFlight ⊆ e.inFlight) : LedgerLe e next e' next where
  nextId_le := hnextId.ge
  next_le := le_rfl
  artifact a' ha' _ := by
    obtain ⟨a, ha, hid, hpayload, hstate⟩ := hartifacts a' ha'
    exact ⟨a, ha, hid, hpayload, fun hc => hstate ▸ hc⟩
  submission id hid _ := hinFlight hid

/-- Steps that change the state of artifacts none of which is confirmed. -/
theorem of_restate {ids : List ArtifactId}
    (hids : ∀ a ∈ e.artifacts.artifacts, a.id ∈ ids → a.state = .confirmed → state = .confirmed)
    (hartifacts : e'.artifacts = e.artifacts.setState ids state)
    (hinFlight : ∀ id ∈ e'.inFlight, id < next → id ∈ e.inFlight) (hnext : next ≤ next') :
    LedgerLe e next e' next' where
  nextId_le := by rw [hartifacts]; exact le_rfl
  next_le := hnext
  artifact b hb _ := by
    rw [hartifacts] at hb
    obtain ⟨a, ha, rfl⟩ := mem_map.mp hb
    rw [restate_eq]
    refine ⟨a, ha, rfl, rfl, fun hc => ?_⟩
    split_ifs with hmem
    · exact hids a ha hmem hc
    · exact hc
  submission := hinFlight

end LedgerLe

section

variable {br : Brotli} {e e' : BatchEncoder br}

abbrev BatchEncoder.Leased (e : BatchEncoder br) : Prop := NodeReth.Leased e.egress e.nextId

abbrev BatchEncoder.LedgerLe (e e' : BatchEncoder br) : Prop :=
  NodeReth.LedgerLe e.egress e.nextId e'.egress e'.nextId

theorem BatchEncoder.settled (h : e.Leased) (id : SubmissionId) (l1Block : ℕ) :
    ((e.confirm id l1Block).Leased ∧ e.LedgerLe (e.confirm id l1Block)) ∧
      (e.requeue id).Leased ∧ e.LedgerLe (e.requeue id) := by
  unfold confirm requeue DaEgress.confirm DaEgress.requeue
  cases hlookup : e.egress.pending.lookup id with
  | none => exact ⟨⟨h, .refl _ _⟩, h, .refl _ _⟩
  | some ids =>
    have hp : (id, ids) ∈ e.egress.pending := by
      obtain ⟨l₁, l₂, hl, -⟩ := lookup_eq_some_iff.mp hlookup
      rw [hl]
      simp
    have hunconfirmed : ∀ a ∈ e.egress.artifacts.artifacts, a.id ∈ ids → a.state ≠ .confirmed := by
      intro a ha hmem hstate
      have hlisted := mem_listed.mpr ⟨_, hp, hmem⟩
      rw [(h.pending_iff a ha).mpr hlisted] at hstate
      cases hstate
    have hinFlight : (e.egress.removePending id).inFlight ⊆ e.egress.inFlight :=
      (filter_sublist.map _).subset
    simp only [h.allPending hp]
    refine ⟨⟨h.settle hp (by decide), ?_⟩, h.settle hp (by decide), ?_⟩
    · exact .of_restate (fun _ _ _ _ => rfl) rfl (fun i hi _ => hinFlight hi) le_rfl
    · exact .of_restate (fun a ha hmem hc => absurd hc (hunconfirmed a ha hmem)) rfl
        (fun i hi _ => hinFlight hi) le_rfl

theorem BatchEncoder.egress_dropSafe (e : BatchEncoder br) (n : ℕ) :
    (e.dropSafe n).egress = e.egress ∨
      (e.dropSafe n).egress = e.egress.pruneChannels
        ((e.channels.takeWhile fun c => decide (c.blockEnd ≤ n)).map (·.id)) := by
  unfold dropSafe pruneSafeChannels
  simp only
  split_ifs
  · exact .inr rfl
  · exact .inl rfl

theorem BatchEncoder.artifacts_settled (e : BatchEncoder br) (id : SubmissionId)
    (l1Block : ℕ) : ∃ ids, (e.confirm id l1Block).egress.artifacts.artifacts =
        e.egress.artifacts.artifacts.map (restate ids .confirmed) ∧
      (e.requeue id).egress.artifacts.artifacts =
        e.egress.artifacts.artifacts.map (restate ids .ready) := by
  have hsame : ∀ state, e.egress.artifacts.artifacts =
      e.egress.artifacts.artifacts.map (restate [] state) := by
    intro state
    rw [map_restate_of_disjoint (by simp)]
  unfold confirm requeue DaEgress.confirm DaEgress.requeue
  cases e.egress.pending.lookup id with
  | none => exact ⟨[], hsame _, hsame _⟩
  | some ids =>
    cases hall : e.egress.artifacts.allPending ids with
    | true =>
      exact ⟨ids, by simp [hall, DaArtifacts.confirm, DaArtifacts.requeue, DaArtifacts.setState]⟩
    | false => exact ⟨[], by simpa [hall] using ⟨hsame _, hsame _⟩⟩

theorem BatchEncoder.nextId_dropSafe (n : ℕ) : (e.dropSafe n).nextId = e.nextId := by
  unfold dropSafe pruneSafeChannels
  simp only
  split_ifs <;> rfl

theorem LedgerLe.push (e : DaEgress) (next : SubmissionId) (payload : DaArtifactPayload)
    (channelIds : List ChannelId) :
    LedgerLe e next { e with artifacts := e.artifacts.push payload channelIds } next where
  nextId_le := le_succ _
  next_le := le_rfl
  artifact a' ha' hlt := by
    rcases mem_append.mp ha' with ha' | ha'
    · exact ⟨a', ha', rfl, rfl, id⟩
    · rw [mem_singleton.mp ha'] at hlt
      exact absurd hlt (lt_irrefl _)
  submission _ h _ := h

theorem BatchEncoder.Leased.move {evs : List MoveEvent} (h : e.Leased) (hmove : Move e evs e') :
    e'.Leased ∧ e.LedgerLe e' := by
  cases hmove with
  | cutBlob hplan hcommit =>
    obtain ⟨-, -, rfl⟩ := commitBlob_ok hcommit
    exact ⟨h.push _ _, .push _ _ _ _⟩
  | cutCalldata hplan hcommit =>
    obtain ⟨-, -, rfl⟩ := commitCalldata_ok hcommit
    exact ⟨h.push _ _, .push _ _ _ _⟩
  | lease hlease =>
    obtain ⟨hnodup, hready, rfl⟩ := lease_spec h.ids_nodup hlease
    refine ⟨h.lease hnodup hready, .of_restate (fun a ha hmem hc => ?_) rfl ?_ (le_succ _)⟩
    · obtain ⟨b, hb, hid, hstate⟩ := hready a.id hmem
      rw [h.eq_of_id hb ha hid, hc] at hstate
      cases hstate
    · intro id hid hlt
      obtain ⟨p, hp, rfl⟩ := mem_map.mp hid
      rcases mem_append.mp hp with hp | hp
      · exact mem_map_of_mem (mem_filter.mp hp).1
      · rw [mem_singleton.mp hp] at hlt
        exact absurd hlt (lt_irrefl _)
  | confirm id l1Block => exact (settled h id l1Block).1
  | requeue id => exact (settled h id 0).2
  | invalidate channelIdx =>
    rcases invalidateChannel_cases e channelIdx with
      heq | ⟨st, i, replay, hclosed, -, -, -, heq⟩ <;> rw [heq]
    · exact ⟨h, .refl _ _⟩
    · refine ⟨h.invalidate hclosed.submission, .of_forget rfl ?_ (filter_sublist.map _).subset⟩
      exact fun a ha => ⟨a, (mem_filter.mp ha).1, rfl, rfl, rfl⟩
  | prune =>
    rename_i n hn
    unfold BatchEncoder.Leased BatchEncoder.LedgerLe
    rw [nextId_dropSafe]
    rcases egress_dropSafe e n with heq | heq <;> rw [heq]
    · exact ⟨h, .refl _ _⟩
    · refine ⟨h.prune _, .of_forget rfl ?_ ?_⟩
      · intro b hb
        obtain ⟨a, ha, rfl⟩ := mem_map.mp (mem_filter.mp hb).1
        exact ⟨a, ha, rfl, rfl, rfl⟩
      · intro id hid
        obtain ⟨p, hp, rfl⟩ := mem_map.mp hid
        obtain ⟨q, hq, rfl⟩ := mem_map.mp (mem_filter.mp hp).1
        exact mem_map.mpr ⟨q, hq, rfl⟩
  | reset => exact ⟨.reset _ _, .of_forget rfl nofun nofun⟩
  | _ => exact ⟨h, .refl _ _⟩

theorem BatchEncoder.Leased.moves {evs : List MoveEvent} (h : e.Leased)
    (hmoves : Moves e evs e') : e'.Leased ∧ e.LedgerLe e' := by
  refine Steps.preserved (fun u => u.Leased ∧ e.LedgerLe u) (fun evs t u ih hmove => ?_)
    ⟨h, .refl _ _⟩ hmoves
  obtain ⟨hu, hle⟩ := ih.1.move hmove
  exact ⟨hu, ih.2.trans hle⟩

/-! ## Submission identifiers -/

/-- The submission that a reply hands out. -/
def PipelineReply.submissionId? : PipelineReply → Option SubmissionId
  | submission (some s) => some s.id
  | _ => none

theorem BatchEncoder.call_submissionId {op : PipelineCall} {reply : PipelineReply}
    (hcall : e.call op = .ok (reply, e')) (hid : reply.submissionId? = some id) :
    id = e.nextId ∧ e'.nextId = e.nextId + 1 := by
  cases op with
  | nextSubmission =>
    simp only [call] at hcall
    split at hcall
    · cases hcall
    rename_i r e₁ hnext
    cases hcall
    obtain ⟨egress, -, -, ⟨-, rfl, rfl⟩ | ⟨submission, ids, artifacts, hlease, rfl, rfl⟩⟩ :=
      nextSubmission_cases hnext
    · cases hid
    · cases hid
      obtain ⟨-, -, hid, -⟩ := lease_cases hlease
      exact ⟨hid, rfl⟩
  | step freshId =>
    simp only [call] at hcall
    split at hcall <;> cases hcall
    · cases hid
  | _ =>
    cases hcall
    cases hid

/-- The submissions of a run have increasing identifiers from the counter on. -/
theorem submissionIds_increasing {ops : List PipelineCall} {replies : List PipelineReply}
    (h : e.Leased) (hrun : e.runCalls ops = some (replies, e')) :
    (replies.filterMap PipelineReply.submissionId?).Pairwise (· < ·) ∧
      ∀ id ∈ replies.filterMap PipelineReply.submissionId?, e.nextId ≤ id := by
  induction ops generalizing e replies with
  | nil =>
    cases hrun
    exact ⟨List.Pairwise.nil, nofun⟩
  | cons op ops ih =>
    obtain ⟨reply, rest, e₁, rfl, hcall, hrest⟩ := runCalls_cons hrun
    obtain ⟨evs, -, hmoves⟩ := moves_of_call hcall
    obtain ⟨h₁, hle⟩ := h.moves hmoves
    obtain ⟨hincreasing, hbound⟩ := ih h₁ hrest
    cases hid : reply.submissionId? with
    | none =>
      rw [filterMap_cons_none hid]
      exact ⟨hincreasing, fun id hmem => hle.next_le.trans (hbound id hmem)⟩
    | some id =>
      obtain ⟨rfl, hnext⟩ := call_submissionId hcall hid
      rw [filterMap_cons_some hid, pairwise_cons]
      refine ⟨⟨fun j hj => ?_, hincreasing⟩, ?_⟩
      · have hj' := hbound j hj
        rw [hnext] at hj'
        exact hj'
      · exact forall_mem_cons.mpr ⟨le_rfl, fun j hj => hle.next_le.trans (hbound j hj)⟩

theorem BatchEncoder.settled_of_not_inFlight (hid : id ∉ e.egress.inFlight)
    (l1Block : ℕ) : e.confirm id l1Block = e ∧ e.requeue id = e := by
  have hlookup : e.egress.pending.lookup id = none := by
    rw [lookup_eq_none_iff]
    intro p hp
    rw [bne_iff_ne]
    rintro rfl
    exact hid (mem_map_of_mem hp)
  unfold confirm requeue DaEgress.confirm DaEgress.requeue
  rw [hlookup]
  exact ⟨rfl, rfl⟩

end

/-- In every state of a run, an artifact is pending exactly when one in-flight submission lists it,
and every listed artifact is in the ledger. Up to every later state, confirmed artifacts stay
confirmed, identifiers keep their payloads and grow, and nothing that left comes back; to confirm or
requeue what is not in flight changes nothing. -/
theorem lease_discipline (br : Brotli) (rollupConfig : RollupConfig) (config : EncoderConfig)
    (e₀ e e' : BatchEncoder br) (ops ops' : List PipelineCall)
    (replies replies' : List PipelineReply) (hnew : new br rollupConfig config = .ok e₀)
    (hrun : e₀.runCalls ops = some (replies, e))
    (hlater : e.runCalls ops' = some (replies', e')) :
    (∀ a ∈ e.egress.artifacts.artifacts, a.state = .pending ↔ ∃! p, p ∈ e.egress.pending ∧ a.id ∈ p.2) ∧
    (∀ p ∈ e.egress.pending, ∀ i ∈ p.2, ∃ a ∈ e.egress.artifacts.artifacts, a.id = i) ∧
    (∀ a ∈ e.egress.artifacts.artifacts, a.state = .confirmed →
      ∀ a' ∈ e'.egress.artifacts.artifacts, a'.id = a.id → a'.state = .confirmed) ∧
    e.egress.artifacts.ids.Nodup ∧
    (∀ a ∈ e.egress.artifacts.artifacts, ∀ a' ∈ e'.egress.artifacts.artifacts, a'.id = a.id →
      a'.payload = a.payload) ∧
    (∀ i < e.egress.artifacts.nextId, i ∉ e.egress.artifacts.ids → i ∉ e'.egress.artifacts.ids) ∧
    ((replies ++ replies').filterMap PipelineReply.submissionId?).Pairwise (· < ·) ∧
    (∀ id < e.nextId, id ∉ e.egress.inFlight → id ∉ e'.egress.inFlight) ∧
    ∀ id, id ∉ e.egress.inFlight → ∀ l1Block, e.confirm id l1Block = e ∧ e.requeue id = e := by
  obtain ⟨-, rfl⟩ := new_ok hnew
  have hinit : (initial br rollupConfig config).Leased := Leased.new
  obtain ⟨evs, -, -, hmoves⟩ := moves_of_runCalls hrun
  obtain ⟨evs', -, -, hmoves'⟩ := moves_of_runCalls hlater
  obtain ⟨h, -⟩ := hinit.moves hmoves
  obtain ⟨-, hle⟩ := h.moves hmoves'
  have hsame : ∀ a ∈ e.egress.artifacts.artifacts, ∀ a' ∈ e'.egress.artifacts.artifacts,
      a'.id = a.id → a.payload = a'.payload ∧ (a.state = .confirmed → a'.state = .confirmed) := by
    intro a ha a' ha' hid
    have hlt : a'.id < e.egress.artifacts.nextId := hid ▸ h.ids_lt _ (mem_map_of_mem ha)
    obtain ⟨b, hb, hbid, hpayload, hstate⟩ := hle.artifact a' ha' hlt
    rw [h.eq_of_id hb ha (hbid.trans hid)] at hpayload hstate
    exact ⟨hpayload, hstate⟩
  refine ⟨fun a ha => h.pending_iff_existsUnique ha, fun p hp i hi => ?_,
    fun a ha hc a' ha' hid => (hsame a ha a' ha' hid).2 hc, h.ids_nodup,
    fun a ha a' ha' hid => (hsame a ha a' ha' hid).1.symm, fun i hi hnot hmem => ?_, ?_,
    fun id hid hnot hmem => hnot (hle.submission id hmem hid),
    fun id hid l1Block => settled_of_not_inFlight hid l1Block⟩
  · obtain ⟨a, ha, hid, -⟩ := h.exists_of_listed (mem_listed.mpr ⟨p, hp, hi⟩)
    exact ⟨a, ha, hid⟩
  · obtain ⟨a', ha', rfl⟩ := mem_map.mp hmem
    obtain ⟨a, ha, hid, -⟩ := hle.artifact a' ha' hi
    exact hnot (hid ▸ mem_map_of_mem ha)
  · exact (submissionIds_increasing hinit (runCalls_append hrun hlater)).1

/-- The second channel is submitted, requeued and submitted again, before a reset. -/
def sampleCallsLater : List PipelineCall :=
  [.flush, .nextSubmission, .requeue 1, .nextSubmission, .reset, .confirm 2 9]

theorem lease_discipline_sample : ∃ (e₀ e e' : BatchEncoder Brotli.stored)
    (replies replies' : List PipelineReply),
    new Brotli.stored sampleRollup EncoderConfig.defaultConfig = .ok e₀ ∧
      e₀.runCalls sampleCalls = some (replies, e) ∧
      e.runCalls sampleCallsLater = some (replies', e') ∧
      (∀ a ∈ e.egress.artifacts.artifacts,
        a.state = .pending ↔ ∃! p, p ∈ e.egress.pending ∧ a.id ∈ p.2) ∧
      ((replies ++ replies').filterMap PipelineReply.submissionId?).Pairwise (· < ·) := by
  have hsome : ((initial Brotli.stored sampleRollup
      EncoderConfig.defaultConfig).runCalls sampleCalls).isSome := by decide +kernel
  have hsome' : (((initial Brotli.stored sampleRollup
      EncoderConfig.defaultConfig).runCalls sampleCalls).bind
        fun p => p.2.runCalls sampleCallsLater).isSome := by decide +kernel
  obtain ⟨⟨replies, e⟩, he⟩ := Option.isSome_iff_exists.mp hsome
  rw [he] at hsome'
  obtain ⟨⟨replies', e'⟩, he'⟩ := Option.isSome_iff_exists.mp hsome'
  have h := lease_discipline Brotli.stored sampleRollup EncoderConfig.defaultConfig _ e e' sampleCalls
    sampleCallsLater replies replies' rfl he he'
  exact ⟨_, e, e', replies, replies', rfl, he, he', h.1, h.2.2.2.2.2.2.1⟩

end NodeReth
