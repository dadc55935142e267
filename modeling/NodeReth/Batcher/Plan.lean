import NodeReth.Batcher.Egress

/-!
# Blob plans

What `plan_blob` may plan. The frames that a plan takes from one channel are data frames, each as
long as the frame size, the output or the blob allows, and the terminal frame at the end (`Cuts`). A
plan goes through the FIFO and leaves a channel only when it is complete (`FifoPlan`).
-/

namespace NodeReth

open Bool NodeReth.Frame List

/-- `Cuts id M a t r ps a' t' r'`: from a channel with `a` buffered bytes, the terminal frame due or
not (`t`), and `r` bytes left in the blob, the frames `ps` are planned; they leave `a'`, `t'` and
`r'`. -/
inductive Cuts (id : ChannelId) (M : ℕ) :
    ℕ → Bool → ℕ → List PlannedFrame → ℕ → Bool → ℕ → Prop
  | done (a : ℕ) (t : Bool) (r : ℕ) : Cuts id M a t r [] a t r
  /-- A data frame; the terminal flag is set when it takes the whole rest. -/
  | data {a a' r r' len t t' ps} (hpos : 0 < len) (hM : len ≤ M) (ha : len ≤ a)
      (hr : encodedOverhead + len ≤ r) (hcut : len = M ∨ len = a ∨ encodedOverhead + len = r)
      (hrest : Cuts id M (a - len) (t && len != a) (r - (encodedOverhead + len)) ps a' t' r') :
      Cuts id M a t r (⟨id, len, len == a && t⟩ :: ps) a' t' r'
  /-- The terminal frame of a channel without buffered bytes. -/
  | terminal {r : ℕ} (hr : encodedOverhead ≤ r) :
      Cuts id M 0 true r [⟨id, 0, true⟩] 0 false (r - encodedOverhead)

variable {plan' : BlobPlan} {br : Brotli} {cs : List (Channel br)} {ps : List PlannedFrame}

namespace Cuts

variable {id : ChannelId} {M a a' r r' : ℕ} {t t' : Bool}

/-- What each frame of a cut is. -/
theorem frame (h : Cuts id M a t r ps a' t' r') :
    ∀ p ∈ ps, p.channelId = id ∧ p.dataLen ≤ M ∧ (0 < p.dataLen ∨ p.isLast = true) := by
  induction h with
  | done => simp
  | data hpos hM _ _ _ _ ih =>
    intro p hp
    rcases mem_cons.mp hp with rfl | hp
    · exact ⟨rfl, hM, .inl hpos⟩
    · exact ih p hp
  | terminal =>
    intro p hp
    rw [mem_singleton.mp hp]
    exact ⟨rfl, Nat.zero_le _, .inr rfl⟩

theorem of_nil (h : Cuts id M a t r [] a' t' r') : a' = a ∧ r' = r := by
  cases h
  exact ⟨rfl, rfl⟩

section

variable (h : Cuts id M a t r ps a' t' r')

include h

theorem eq_nil
    (hend : r < encodedOverhead ∨ (a = 0 ∧ t = false)) : ps = [] ∧ a' = a ∧ t' = t ∧ r' = r := by
  cases h with
  | done => exact ⟨rfl, rfl, rfl, rfl⟩
  | data => omega
  | terminal hr =>
    rcases hend with hend | ⟨-, ht⟩
    · omega
    · cases ht

/-- The frames are whole ones, `j` of them; or behind these stands a shorter one, which uses up the
output or the blob; or the terminal one. -/
theorem shape :
    ∃ j, (ps.length = j ∧ t' = t ∧ a = a' + j * M ∧ r = r' + j * (encodedOverhead + M)) ∨
      ∃ p, ps.length = j + 1 ∧ a = a' + j * M + p ∧
        r = r' + j * (encodedOverhead + M) + encodedOverhead + p ∧
        ((0 < p ∧ p < M ∧ t' = t ∧ (a' = 0 ∨ r' = 0) ∧ (t = true → 0 < a')) ∨
          (p ≤ M ∧ t = true ∧ t' = false ∧ a' = 0)) := by
  induction h with
  | done => exact ⟨0, .inl ⟨rfl, rfl, by omega, by omega⟩⟩
  | @data a a' r r' len t t' ps hpos hlen ha hr hcut hrest ih =>
    by_cases hlast : t = true ∧ len = a
    · obtain ⟨rfl, rfl⟩ := hlast
      obtain ⟨rfl, rfl, rfl, rfl⟩ := hrest.eq_nil (.inr ⟨by omega, by simp⟩)
      exact ⟨0, .inr ⟨len, rfl, by omega, by omega, .inr ⟨hlen, rfl, by simp, by omega⟩⟩⟩
    have ht : (t && len != a) = t := by
      cases t with
      | false => rfl
      | true => simpa using hlast
    rw [ht] at hrest ih
    rcases Nat.lt_or_ge len M with hshort | hge
    · have hend : r - (encodedOverhead + len) < encodedOverhead ∨ (a - len = 0 ∧ t = false) := by
        rcases hcut with hcut | rfl | hcut
        · omega
        · exact .inr ⟨by omega, by simpa using hlast⟩
        · exact .inl (by unfold encodedOverhead at hcut ⊢; omega)
      have hmore : t = true → 0 < a - len := fun ht => by
        have hne : len ≠ a := fun heq => hlast ⟨ht, heq⟩
        omega
      obtain ⟨rfl, rfl, rfl, rfl⟩ := hrest.eq_nil hend
      exact ⟨0, .inr ⟨len, rfl, by omega, by omega, .inl ⟨hpos, hshort, rfl, by omega, hmore⟩⟩⟩
    · obtain ⟨j, hwhole | ⟨p, hshort⟩⟩ := ih
      · obtain ⟨rfl, rfl, ha', hr'⟩ := hwhole
        refine ⟨ps.length + 1, .inl ⟨rfl, rfl, ?_, ?_⟩⟩ <;> rw [Nat.succ_mul] <;> omega
      · obtain ⟨hps, ha', hr', hp⟩ := hshort
        refine ⟨j + 1, .inr ⟨p, by rw [length_cons, hps], ?_, ?_, hp⟩⟩ <;> rw [Nat.succ_mul] <;> omega
  | terminal hr => exact ⟨0, .inr ⟨0, rfl, by omega, by omega, .inr ⟨by omega, rfl, rfl, rfl⟩⟩⟩

theorem terminal_or : t' = t ∨ (t = true ∧ t' = false ∧ a' = 0) := by
  obtain ⟨-, ⟨-, ht, -, -⟩ | ⟨-, -, -, -, ⟨-, -, ht, -⟩ | ⟨-, ht⟩⟩⟩ := h.shape
  · exact .inl ht
  · exact .inl ht
  · exact .inr ht

theorem append {a'' r'' : ℕ} {t'' : Bool} {qs : List PlannedFrame}
    (h' : Cuts id M a' t' r' qs a'' t'' r'') : Cuts id M a t r (ps ++ qs) a'' t'' r'' := by
  induction h with
  | done => exact h'
  | data hpos hM ha hr hcut _ ih => exact .data hpos hM ha hr hcut (ih h')
  | terminal hr =>
    -- nothing is cut behind the terminal frame
    cases h' with
    | done => exact .terminal hr
    | data hpos _ ha => omega

end

end Cuts

namespace DaEgress

theorem planDataFrames_cuts {id : ChannelId} {M fuel a a' : ℕ} {t t' : Bool} {plan : BlobPlan}
    (hM : 0 < M) (hfuel : plan.remaining ≤ fuel)
    (h : planDataFrames id M fuel a t plan = (a', t', plan')) :
    ∃ ps, plan'.frames = plan.frames ++ ps ∧ Cuts id M a t plan.remaining ps a' t' plan'.remaining ∧
      (a' = 0 ∨ plan'.remaining ≤ encodedOverhead) := by
  induction fuel generalizing a t plan with
  | zero =>
    cases h
    exact ⟨[], (append_nil _).symm, .done _ _ _, .inr (by omega)⟩
  | succ fuel ih =>
    unfold planDataFrames at h
    split_ifs at h with hmore
    · simp only at h
      set len := min a (min (plan.remaining - encodedOverhead) M) with hlen
      have hcut : len = M ∨ len = a ∨ encodedOverhead + len = plan.remaining := by omega
      split_ifs at h with hlast
      · cases h
        rw [and_eq_true, beq_iff_eq] at hlast
        refine ⟨_, rfl, .data (by omega) (by omega) (by omega) (by omega) hcut ?_, .inl (by omega)⟩
        have hflag : (t && len != a) = false := by simp [hlast.1]
        rw [hflag]
        exact .done _ _ _
      · have hflag : (t && len != a) = t := by
          cases t with
          | false => rfl
          | true => simpa using hlast
        obtain ⟨ps, hframes, hcuts, hend⟩ := ih (by simp only; omega) h
        refine ⟨⟨id, len, len == a && t⟩ :: ps, ?_,
          .data (by omega) (by omega) (by omega) (by omega) hcut ?_, hend⟩
        · rw [hframes, append_assoc]
          rfl
        · rwa [hflag]
    · cases h
      refine ⟨[], (append_nil _).symm, .done _ _ _, ?_⟩
      omega

end DaEgress

/-- A plan takes `ps` from a channel; `complete` says that nothing of it is left. -/
def ChannelCut {br : Brotli} (c : Channel br) (r : ℕ) (ps : List PlannedFrame) (r' : ℕ)
    (complete : Bool) : Prop :=
  ∃ a' t', Cuts c.id c.maxFrameData c.availableOutput c.terminalPending r ps a' t' r' ∧
    complete = (!c.isOpen && a' == 0 && !t') ∧
    -- what is left of a closed channel did not fit
    (complete = false → r' ≤ encodedOverhead ∨ (c.isOpen = true ∧ a' = 0))

/-- A plan through the FIFO: `r` bytes of the blob are left before it and `r'` behind it. -/
inductive FifoPlan {br : Brotli} : List (Channel br) → ℕ → List PlannedFrame → ℕ → Prop
  | nil (r : ℕ) : FifoPlan [] r [] r
  | skip {c cs ps r r'} (hcomplete : c.framingComplete = true) (hrest : FifoPlan cs r ps r') :
      FifoPlan (c :: cs) r ps r'
  | stop {c cs ps r r'}
      (hincomplete : c.framingComplete = false) (hcut : ChannelCut c r ps r' false) :
      FifoPlan (c :: cs) r ps r'
  | next {c cs ps qs r r₁ r'}
      (hincomplete : c.framingComplete = false) (hcut : ChannelCut c r ps r₁ true)
      (hrest : FifoPlan cs r₁ qs r') : FifoPlan (c :: cs) r (ps ++ qs) r'

namespace DaEgress

theorem planChannelFrames_cut {c : Channel br} {plan : BlobPlan} {complete : Bool}
    (hM : 0 < c.maxFrameData) (h : planChannelFrames c plan = (complete, plan')) :
    ∃ ps, plan'.frames = plan.frames ++ ps ∧
      ChannelCut c plan.remaining ps plan'.remaining complete := by
  unfold planChannelFrames at h
  rcases hdata : planDataFrames c.id c.maxFrameData plan.remaining c.availableOutput
    c.terminalPending plan with ⟨a, t, plan₁⟩
  obtain ⟨ps, hframes, hcuts, hend⟩ := planDataFrames_cuts hM le_rfl hdata
  rw [hdata] at h
  simp only at h
  split_ifs at h with hterminal
  · obtain ⟨rfl, rfl, hr⟩ := hterminal
    cases h
    refine ⟨ps ++ [⟨c.id, 0, true⟩], by rw [hframes, append_assoc], ⟨0, false, ?_, ?_, ?_⟩⟩
    · exact hcuts.append (.terminal hr)
    · simp
    · intro hopen
      exact .inr ⟨by simpa using hopen, rfl⟩
  · cases h
    refine ⟨ps, hframes, ⟨a, t, hcuts, rfl, fun hcomplete => ?_⟩⟩
    rcases hend with rfl | hr
    · cases hopen : c.isOpen with
      | true => exact .inr ⟨rfl, rfl⟩
      | false =>
        -- the terminal frame is due and does not fit
        have ht : t = true := by simpa [hopen] using hcomplete
        by_contra hlt
        exact hterminal ⟨rfl, ht, by omega⟩
    · exact .inl hr

theorem planChannels_fifo {l1Head : ℕ} {due due' : Bool} {plan : BlobPlan}
    (hM : ∀ c ∈ cs, 0 < c.maxFrameData) (h : planChannels l1Head cs due plan = (due', plan')) :
    ∃ ps, plan'.frames = plan.frames ++ ps ∧ FifoPlan cs plan.remaining ps plan'.remaining ∧
      (due' = true → due = true ∨ ∃ c ∈ cs, c.isOpen = false ∧ c.framingComplete = false ∧
        c.deadlineDue l1Head = true ∧ ∃ p ∈ ps, p.channelId = c.id) := by
  induction cs generalizing due plan with
  | nil =>
    cases h
    exact ⟨[], (append_nil _).symm, .nil _, .inl⟩
  | cons c cs ih =>
    have hMc := hM c mem_cons_self
    have hMcs : ∀ d ∈ cs, 0 < d.maxFrameData := fun d hd => hM d (mem_cons_of_mem c hd)
    unfold planChannels at h
    split_ifs at h with hcomplete
    · obtain ⟨ps, hframes, hfifo, hdue⟩ := ih hMcs h
      refine ⟨ps, hframes, .skip hcomplete hfifo, fun hd => ?_⟩
      rcases hdue hd with hd | ⟨d, hmem, hd⟩
      · exact .inl hd
      · exact .inr ⟨d, mem_cons_of_mem c hmem, hd⟩
    · have hincomplete := eq_false_iff.mpr hcomplete
      rcases hnext : planChannelFrames c plan with ⟨complete, plan₁⟩
      obtain ⟨ps, hframes, hcut⟩ := planChannelFrames_cut hMc hnext
      simp only [hnext] at h
      -- a deadline that became due here belongs to a closed channel with frames in the plan
      have hdue₁ : (if plan₁.frames.length > plan.frames.length && !c.isOpen then
            due || c.deadlineDue l1Head else due) = true →
          due = true ∨ (c.isOpen = false ∧ c.deadlineDue l1Head = true ∧
            ∃ p ∈ ps, p.channelId = c.id) := by
        split_ifs with hcond
        · rw [and_eq_true, decide_eq_true_eq, hframes, length_append, not_eq_true'] at hcond
          rw [or_eq_true]
          rintro (hd | hd)
          · exact .inl hd
          · obtain ⟨p, hp⟩ := exists_mem_of_length_pos (l := ps) (by omega)
            obtain ⟨a', t', hcuts, -⟩ := hcut
            exact .inr ⟨hcond.2, hd, p, hp, (hcuts.frame p hp).1⟩
        · exact .inl
      generalize (if plan₁.frames.length > plan.frames.length && !c.isOpen then
        due || c.deadlineDue l1Head else due) = due₁ at h hdue₁
      split_ifs at h with hdone
      · obtain ⟨qs, hframes', hfifo, hdue⟩ := ih hMcs h
        refine ⟨ps ++ qs, by rw [hframes', hframes, append_assoc],
          .next hincomplete (hdone ▸ hcut) hfifo, fun hd => ?_⟩
        rcases hdue hd with hd | ⟨d, hmem, hclosed, hopen, hd, p, hp, hid⟩
        · rcases hdue₁ hd with hd | ⟨hclosed, hd, p, hp, hid⟩
          · exact .inl hd
          · exact .inr ⟨c, mem_cons_self, hclosed, hincomplete, hd, p, mem_append_left _ hp, hid⟩
        · exact .inr ⟨d, mem_cons_of_mem c hmem, hclosed, hopen, hd, p, mem_append_right _ hp, hid⟩
      · cases h
        refine ⟨ps, hframes, .stop hincomplete (eq_false_iff.mpr hdone ▸ hcut), fun hd => ?_⟩
        rcases hdue₁ hd with hd | ⟨hclosed, hd, p, hp, hid⟩
        · exact .inl hd
        · exact .inr ⟨c, mem_cons_self, hclosed, hincomplete, hd, p, hp, hid⟩

/-- A blob plan is full, or the deadline of a closed channel in it is due. -/
theorem planBlob_spec {l1Head : ℕ} {plan : List PlannedFrame}
    (hM : ∀ c ∈ cs, 0 < c.maxFrameData) (h : planBlob cs l1Head = some plan) :
    ∃ r', FifoPlan cs blobCapacity plan r' ∧
      (r' ≤ encodedOverhead ∨ ∃ c ∈ cs, c.isOpen = false ∧ c.framingComplete = false ∧
        c.deadlineDue l1Head = true ∧ ∃ p ∈ plan, p.channelId = c.id) := by
  unfold planBlob at h
  rcases hplan : planChannels l1Head cs false ⟨blobCapacity, []⟩ with ⟨due, plan'⟩
  obtain ⟨ps, hframes, hfifo, hdue⟩ := planChannels_fifo hM hplan
  rw [nil_append] at hframes
  simp only [hplan] at h
  split_ifs at h with _ hfull
  obtain rfl := Option.some.inj h
  rw [← hframes] at hfifo hdue
  refine ⟨plan'.remaining, hfifo, ?_⟩
  rw [or_eq_true, decide_eq_true_eq] at hfull
  rcases hfull with hfull | hrelease
  · exact .inl (by omega)
  · rcases hdue hrelease with hfalse | hc
    · cases hfalse
    · exact .inr hc

end DaEgress

namespace FifoPlan

variable {r r' : ℕ}

theorem frame (h : FifoPlan cs r ps r') :
    ∀ p ∈ ps, ∃ c ∈ cs, p.dataLen ≤ c.maxFrameData ∧ (0 < p.dataLen ∨ p.isLast = true) := by
  intro p hp
  induction h with
  | nil => cases hp
  | skip _ _ ih => exact (ih hp).imp fun _ => .imp_left (mem_cons_of_mem _)
  | stop _ hcut =>
    obtain ⟨a', t', hcuts, -⟩ := hcut
    exact ⟨_, mem_cons_self, (hcuts.frame p hp).2⟩
  | next _ hcut _ ih =>
    obtain ⟨a', t', hcuts, -⟩ := hcut
    rcases mem_append.mp hp with hp | hp
    · exact ⟨_, mem_cons_self, (hcuts.frame p hp).2⟩
    · exact (ih hp).imp fun _ => .imp_left (mem_cons_of_mem _)

end FifoPlan

/-- A calldata plan is one frame of the first unfinished channel, a whole one or the terminal
one. -/
theorem DaEgress.planCalldata_cut {p : PlannedFrame}
    (hM : ∀ c ∈ cs, 0 < c.maxFrameData) (h : planCalldata cs = some p) :
    ∃ pre c post a' t' r r', cs = pre ++ c :: post ∧ (∀ d ∈ pre, d.framingComplete = true) ∧
      c.framingComplete = false ∧
      Cuts c.id c.maxFrameData c.availableOutput c.terminalPending r [p] a' t' r' ∧
      (t' = c.terminalPending → a' + c.maxFrameData = c.availableOutput) := by
  induction cs with
  | nil => cases h
  | cons c cs ih =>
    have hMc := hM c mem_cons_self
    unfold planCalldata at h
    split_ifs at h with hcomplete hwhole hterminal
    · obtain ⟨pre, d, post, a', t', r, r', rfl, hpre, hd⟩ :=
        ih (fun d hd => hM d (mem_cons_of_mem c hd)) h
      refine ⟨c :: pre, d, post, a', t', r, r', rfl, fun x hx => ?_, hd⟩
      rcases mem_cons.mp hx with rfl | hx
      · exact hcomplete
      · exact hpre x hx
    · cases h
      have hcuts : Cuts c.id c.maxFrameData c.availableOutput c.terminalPending
          (encodedOverhead + c.maxFrameData) _ _ _ _ :=
        .data hMc le_rfl hwhole le_rfl (.inl rfl) (.done _ _ _)
      exact ⟨[], c, cs, _, _, _, _, rfl, nofun, eq_false_iff.mpr hcomplete, hcuts,
        fun _ => by omega⟩
    · cases h
      have hincomplete := eq_false_iff.mpr hcomplete
      have hcuts : ∃ r r', Cuts c.id c.maxFrameData c.availableOutput true r
          [⟨c.id, c.availableOutput, true⟩] 0 false r' := by
        rcases Nat.eq_zero_or_pos c.availableOutput with hzero | hpos
        · rw [hzero]
          exact ⟨_, _, .terminal le_rfl⟩
        · have hdata : Cuts c.id c.maxFrameData c.availableOutput true
              (encodedOverhead + c.availableOutput) _ _ _ _ :=
            .data hpos (by omega) le_rfl le_rfl (.inr (.inl rfl)) (.done _ _ _)
          simp only [Nat.sub_self, beq_self_eq_true, bne_self_eq_false] at hdata
          exact ⟨_, _, hdata⟩
      obtain ⟨r, r', hcuts⟩ := hcuts
      refine ⟨[], c, cs, 0, false, r, r', rfl, nofun, hincomplete, ?_⟩
      rw [hterminal]
      exact ⟨hcuts, nofun⟩

end NodeReth
