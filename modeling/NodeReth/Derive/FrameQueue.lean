import NodeReth.Derive.Pipeline
import NodeReth.Primitives

/-!
# The frame queue

`FrameQueue::prune` of `derive/src/stages/frame_queue.rs`. From Holocene on the queue is pruned to
frames that can be part of channels in order: a frame that does not continue its channel is removed,
and when the first frame of another channel comes before the present one is finished, the present
channel is removed.

The loop looks for the start of the present channel from the front of the queue, by its id. If a
finished channel with that id is still there, everything from that channel on is removed. The second
half of the file describes the scan that was meant, with the channels kept so far as segments, and
shows that the loop is that scan as long as this does not happen.

The queue is one of any type with frames in it. So the frames can carry their positions, and it can
be said that a frame is still there and not only one like it.
-/

namespace NodeReth.Derive.FrameQueue

open List

variable {α : Type} (frame : α → Frame)

/-- The frame numbers do not follow each other. The sum has to fit in sixteen bits. -/
def outOfSequence (prev next : Frame) : Except Fault Bool :=
  if prev.number.toNat + 1 < 65536 then .ok (decide (prev.number + 1 ≠ next.number))
  else .error .overflow

/-- One turn of the loop at an index, unless the index is that of the last frame. -/
def pruneStep (queue : List α) (i : ℕ) : Except Fault (Option (List α × ℕ)) :=
  match queue[i]?, queue[i + 1]? with
  | some prev, some next =>
    let prevFrame := frame prev
    let nextFrame := frame next
    let extendsChannel := decide (prevFrame.id = nextFrame.id)
    match (if extendsChannel then outOfSequence prevFrame nextFrame else .ok false) with
    | .error e => .error e
    | .ok true => .ok (some (queue.eraseIdx (i + 1), i))
    | .ok false =>
      if extendsChannel && prevFrame.isLast then .ok (some (queue.eraseIdx (i + 1), i))
      else if !extendsChannel && decide (nextFrame.number ≠ 0) then
        .ok (some (queue.eraseIdx (i + 1), i))
      else if !extendsChannel && !prevFrame.isLast && decide (nextFrame.number = 0) then
        -- the first frame with the id of the channel, in the whole queue
        let firstFrame := queue.findIdx fun f => decide ((frame f).id = prevFrame.id)
        .ok (some (queue.take firstFrame ++ queue.drop (i + 1), i - (i + 1 - firstFrame)))
      else .ok (some (queue, i + 1))
  | _, _ => .ok none

/-- The loop from an index on; `none` if the given number of turns is not enough. -/
def pruneLoop : ℕ → List α → ℕ → Except Fault (Option (List α))
  | 0, _, _ => .ok none
  | turns + 1, queue, i =>
    match pruneStep frame queue i with
    | .error e => .error e
    | .ok none => .ok (some queue)
    | .ok (some (queue, i)) => pruneLoop turns queue i

/-- An empty queue has no last index. -/
def prune (cfg : RollupConfig) (timestamp : ℕ) (queue : List α) : Except Fault (Option (List α)) :=
  if !cfg.isHoloceneActive timestamp then .ok (some queue)
  else if queue.isEmpty then .error .underflow
  else pruneLoop frame (2 * queue.length + 1) queue 0

/-! ## What pruning is for -/

/-- The second frame is the next one of the first frame's channel. -/
def Continues (prev next : Frame) : Prop :=
  prev.id = next.id ∧ prev.number.toNat + 1 = next.number.toNat ∧ prev.isLast = false

instance : DecidableRel Continues := fun _ _ => inferInstanceAs (Decidable (_ ∧ _ ∧ _))

/-- Frames of one channel with consecutive numbers, of which only the last one may close. -/
def InSequence (run : List α) : Prop := run.IsChain fun x y => Continues (frame x) (frame y)

/-- A whole channel: from number 0 to a closing frame. -/
structure Finished (run : List α) : Prop where
  inSequence : InSequence frame run
  first : ∃ x ∈ run.head?, (frame x).number = 0
  last : ∃ x ∈ run.getLast?, (frame x).isLast = true

/-- A concatenation of channels, of which the first one may lack its beginning and the last one its
end. -/
def Segmented (queue : List α) : Prop :=
  ∃ segments : List (List α), queue = segments.flatten ∧ (∀ s ∈ segments, s ≠ [] ∧ InSequence frame s) ∧
    (∀ s ∈ segments.tail, ∃ x ∈ s.head?, (frame x).number = 0) ∧
    ∀ s ∈ segments.dropLast, ∃ x ∈ s.getLast?, (frame x).isLast = true

/-- The states that the loop goes through. -/
inductive Scanned (queue : List α) : List α → ℕ → Prop
  | start : Scanned queue queue 0
  | step {q q' : List α} {i i' : ℕ} :
      Scanned queue q i → pruneStep frame q i = .ok (some (q', i')) → Scanned queue q' i'

/-- Pruning leaves channels in order, out of the given frames, and every whole channel that the scan
has passed. -/
def PrunesWell (queue : List α) : Prop :=
  ∃ result, pruneLoop frame (2 * queue.length + 1) queue 0 = .ok (some result) ∧
    result.Sublist queue ∧ Segmented frame result ∧
    ∀ q i before run after, Scanned frame queue q i → q = before ++ run ++ after →
      (before ++ run).length ≤ i + 1 → Finished frame run → run <:+: result

/-! ## The intended scan -/

/-- The frames of a channel that are kept, at least one. -/
structure Segment (α : Type) where
  init : List α
  last : α

def Segment.toList (s : Segment α) : List α := s.init ++ [s.last]

/-- The finished channels, the latest first, the present one, and the frames to come. -/
structure Scan (α : Type) where
  done : List (Segment α)
  current : Segment α
  rest : List α

namespace Scan

def doneList (s : Scan α) : List α := s.done.reverse.flatMap Segment.toList

def kept (s : Scan α) : List α := s.doneList ++ s.current.toList

def queue (s : Scan α) : List α := s.kept ++ s.rest

def index (s : Scan α) : ℕ := (s.doneList ++ s.current.init).length

/-- Looks at the next frame. Where it begins another channel, a present channel that is not finished
goes, and the frame is compared with what was kept before. -/
def next (s : Scan α) : Option (Scan α) :=
  match s.rest with
  | [] => none
  | f :: rest =>
    let prev := frame s.current.last
    let next := frame f
    if Continues prev next then some ⟨s.done, ⟨s.current.toList, f⟩, rest⟩
    else if prev.id = next.id ∨ next.number ≠ 0 then some ⟨s.done, s.current, rest⟩
    else if prev.isLast then some ⟨s.current :: s.done, ⟨[], f⟩, rest⟩
    else
      match s.done with
      | [] => some ⟨[], ⟨[], f⟩, rest⟩
      | d :: done => some ⟨done, d, f :: rest⟩

/-- The states of the scan of a queue. -/
inductive Reached (queue : List α) : Scan α → Prop
  | start {f : α} {rest : List α} : queue = f :: rest → Reached queue ⟨[], ⟨[], f⟩, rest⟩
  | next {s t : Scan α} : Reached queue s → s.next frame = some t → Reached queue t

/-- The next frame makes the loop leave the scan: its channel stands at number 65535, or it replaces
an unfinished channel with the id of a channel that was kept. -/
def Clashes (s : Scan α) : Prop :=
  ∃ f ∈ s.rest.head?,
    ((frame s.current.last).id = (frame f).id ∧ (frame s.current.last).number = 65535) ∨
    ((frame s.current.last).id ≠ (frame f).id ∧ (frame f).number = 0 ∧
      (frame s.current.last).isLast = false ∧
      ∃ d ∈ s.done, ∃ x ∈ d.toList, (frame x).id = (frame s.current.last).id)

end Scan

/-! ## Turns of the loop -/

section Turns

variable {frame} {queue k rest : List α} {p f : α} {i i' : ℕ} {q q' : List α} {turns : ℕ}

theorem pruneStep_end (k : List α) (p : α) : pruneStep frame (k ++ [p]) k.length = .ok none := by
  unfold pruneStep
  have hnext : (k ++ [p])[k.length + 1]? = none := by simp
  rw [hnext]
  cases (k ++ [p])[k.length]? <;> rfl

/-- A turn at two frames: the second one is kept, or it is removed, or the channel of the first one
is removed. -/
theorem pruneStep_eq (k : List α) (p f : α) (rest : List α) :
    pruneStep frame (k ++ p :: f :: rest) k.length =
      if (frame p).id = (frame f).id then
        if (frame p).number = 65535 then .error .overflow
        else if Continues (frame p) (frame f) then .ok (some (k ++ p :: f :: rest, k.length + 1))
        else .ok (some (k ++ p :: rest, k.length))
      else if (frame f).number ≠ 0 then .ok (some (k ++ p :: rest, k.length))
      else if (frame p).isLast then .ok (some (k ++ p :: f :: rest, k.length + 1))
      else
        let firstFrame := (k ++ p :: f :: rest).findIdx fun x => decide ((frame x).id = (frame p).id)
        .ok (some ((k ++ p :: f :: rest).take firstFrame ++ f :: rest,
          k.length - (k.length + 1 - firstFrame))) := by
  have hprev : (k ++ p :: f :: rest)[k.length]? = some p := by simp
  have hnext : (k ++ p :: f :: rest)[k.length + 1]? = some f := by
    simp
  have herase : (k ++ p :: f :: rest).eraseIdx (k.length + 1) = k ++ p :: rest := by
    rw [eraseIdx_append_of_length_le (by omega)]
    simp
  have hdrop : (k ++ p :: f :: rest).drop (k.length + 1) = f :: rest := by
    simp
  have hlt := (frame p).number.toNat_lt
  unfold pruneStep
  rw [hprev, hnext, herase]
  dsimp only
  by_cases hid : (frame p).id = (frame f).id
  · rw [decide_eq_true hid, if_pos rfl, if_pos hid]
    unfold outOfSequence
    by_cases hmax : (frame p).number = 65535
    · rw [if_pos hmax, if_neg]
      rw [hmax]
      decide
    · have hfits : (frame p).number.toNat + 1 < 65536 := by
        have hne : (frame p).number.toNat ≠ 65535 := fun h => hmax (UInt16.toNat_inj.mp h)
        omega
      have hsucc : ((frame p).number + 1).toNat = (frame p).number.toNat + 1 := by
        exact Nat.mod_eq_of_lt hfits
      rw [if_neg hmax, if_pos hfits]
      by_cases hseq : (frame p).number + 1 = (frame f).number
      · have hnumber : (frame p).number.toNat + 1 = (frame f).number.toNat := by rw [← hsucc, hseq]
        rw [decide_eq_false (not_not.mpr hseq)]
        cases hlast : (frame p).isLast with
        | true => simp [Continues, hlast]
        | false => simp [Continues, hid, hnumber, hlast]
      · have hnumber : ¬(frame p).number.toNat + 1 = (frame f).number.toNat := by
          rw [← hsucc]
          exact fun h => hseq (UInt16.toNat_inj.mp h)
        rw [decide_eq_true hseq]
        simp [Continues, hnumber]
  · rw [decide_eq_false hid, if_neg hid]
    by_cases hzero : (frame f).number = 0
    · cases hlast : (frame p).isLast <;> simp [hzero]
    · simp [hzero]

section

variable (h : pruneStep frame q i = .ok (some (q', i')))

include h

/-- What a turn can do, whatever the queue. -/
theorem pruneStep_cases :
    ∃ k p f rest, q = k ++ p :: f :: rest ∧ i = k.length ∧
      (q' = q ∧ i' = i + 1 ∨ q' = k ++ p :: rest ∧ i' = i ∨
        ∃ first ≤ i, q' = q.take first ++ f :: rest ∧ i' = i - (i + 1 - first)) := by
  have hlen : i + 1 < q.length := by
    by_contra hge
    have hnone : q[i + 1]? = none := getElem?_eq_none (by omega)
    unfold pruneStep at h
    rw [hnone] at h
    cases hi : q[i]? <;> simp at h
  obtain ⟨k, p, f, rest, rfl, rfl⟩ : ∃ k p f rest, q = k ++ p :: f :: rest ∧ i = k.length := by
    refine ⟨q.take i, q[i], q[i + 1], q.drop (i + 2), ?_, ?_⟩
    · rw [← drop_eq_getElem_cons hlen, ← drop_eq_getElem_cons (by omega), take_append_drop]
    · rw [length_take]
      omega
  refine ⟨k, p, f, rest, rfl, rfl, ?_⟩
  rw [pruneStep_eq] at h
  split_ifs at h <;> cases h
  · exact .inl ⟨rfl, rfl⟩
  · exact .inr (.inl ⟨rfl, rfl⟩)
  · exact .inr (.inl ⟨rfl, rfl⟩)
  · exact .inl ⟨rfl, rfl⟩
  · refine .inr (.inr ⟨_, ?_, rfl, rfl⟩)
    by_contra hgt
    have := not_of_lt_findIdx (not_le.mp hgt)
    simp at this

theorem measure_lt_of_pruneStep : 2 * q'.length - i' < 2 * q.length - i := by
  obtain ⟨k, p, f, rest, rfl, rfl, hcases⟩ := pruneStep_cases h
  rcases hcases with ⟨rfl, rfl⟩ | ⟨rfl, rfl⟩ | ⟨first, hfirst, rfl, rfl⟩
  all_goals
    simp only [length_append, length_cons, length_take]
    omega

theorem sublist_of_pruneStep : q'.Sublist q := by
  obtain ⟨k, p, f, rest, rfl, rfl, hcases⟩ := pruneStep_cases h
  rcases hcases with ⟨rfl, rfl⟩ | ⟨rfl, rfl⟩ | ⟨first, hfirst, rfl, rfl⟩
  · exact List.Sublist.refl _
  · exact (List.Sublist.refl k).append ((sublist_cons_self f rest).cons_cons p)
  · have hle : first ≤ k.length := hfirst
    rw [take_append_of_le_length hle]
    exact (take_sublist first k).append (sublist_cons_self p _)

end

theorem pruneLoop_ne_none (h : 2 * q.length - i < turns) : pruneLoop frame turns q i ≠ .ok none := by
  induction turns generalizing q i with
  | zero => omega
  | succ turns ih =>
    unfold pruneLoop
    cases hstep : pruneStep frame q i with
    | error e => simp
    | ok state =>
      cases state with
      | none => simp
      | some state =>
        have := measure_lt_of_pruneStep hstep
        exact ih (by omega)

theorem sublist_of_pruneLoop {result : List α} (h : pruneLoop frame turns q i = .ok (some result)) :
    result.Sublist q := by
  induction turns generalizing q i with
  | zero => cases h
  | succ turns ih =>
    unfold pruneLoop at h
    cases hstep : pruneStep frame q i with rw [hstep] at h
    | error e => cases h
    | ok state =>
      cases state with
      | none =>
        cases h
        exact List.Sublist.refl _
      | some state => exact (ih h).trans (sublist_of_pruneStep hstep)

theorem pruneLoop_of_scanned {result : List α}
    (h : pruneLoop frame turns queue 0 = .ok (some result)) (hscan : Scanned frame queue q i) :
    ∃ turns', pruneLoop frame turns' q i = .ok (some result) := by
  induction hscan with
  | start => exact ⟨turns, h⟩
  | step _ hstep ih =>
    obtain ⟨turns', hloop⟩ := ih
    cases turns' with
    | zero => cases hloop
    | succ turns' =>
      unfold pruneLoop at hloop
      rw [hstep] at hloop
      exact ⟨turns', hloop⟩

end Turns

/-! ## Segments -/

namespace Scan

variable {frame} {s t : Scan α} {u : Segment α}

/-- The kept channels are in sequence; all but the present one are finished, all but the first one
have their beginning, and neighbours have different ids. -/
structure Sound (frame : α → Frame) (s : Scan α) : Prop where
  inSequence : ∀ u ∈ s.current :: s.done, InSequence frame u.toList
  closed : ∀ u ∈ s.done, (frame u.last).isLast = true
  first : ∀ u ∈ (s.current :: s.done).dropLast, ∃ x ∈ u.toList.head?, (frame x).number = 0
  ids : (s.current :: s.done).IsChain fun u v => (frame u.last).id ≠ (frame v.last).id

theorem id_of_mem (h : InSequence frame u.toList) {x : α} (hx : x ∈ u.toList) :
    (frame x).id = (frame u.last).id := by
  rcases mem_append.mp hx with hx | hx
  · apply List.IsChain.backwards_concat_induction (fun y => (frame y).id = (frame u.last).id)
      u.init h _ rfl x hx
    intro y z hyz hz
    exact hyz.1.trans hz
  · rw [mem_singleton.mp hx]

theorem sound_start (f : α) (rest : List α) : Sound frame ⟨[], ⟨[], f⟩, rest⟩ where
  inSequence := by
    intro u hu
    rw [mem_singleton.mp hu]
    exact isChain_singleton f
  closed := nofun
  first := nofun
  ids := isChain_singleton _

theorem next_cases (h : s.next frame = some t) :
    ∃ f rest, s.rest = f :: rest ∧
      (Continues (frame s.current.last) (frame f) ∧ t = ⟨s.done, ⟨s.current.toList, f⟩, rest⟩ ∨
        ¬Continues (frame s.current.last) (frame f) ∧
          ((frame s.current.last).id = (frame f).id ∨ (frame f).number ≠ 0) ∧
          t = ⟨s.done, s.current, rest⟩ ∨
        (frame s.current.last).id ≠ (frame f).id ∧ (frame f).number = 0 ∧
          ((frame s.current.last).isLast = true ∧ t = ⟨s.current :: s.done, ⟨[], f⟩, rest⟩ ∨
            (frame s.current.last).isLast = false ∧
              (s.done = [] ∧ t = ⟨[], ⟨[], f⟩, rest⟩ ∨
                ∃ d done, s.done = d :: done ∧ t = ⟨done, d, f :: rest⟩))) := by
  unfold next at h
  cases hrest : s.rest with rw [hrest] at h
  | nil => cases h
  | cons f rest =>
    dsimp only at h
    refine ⟨f, rest, rfl, ?_⟩
    split_ifs at h with hcont hskip hlast
    · cases h
      exact .inl ⟨hcont, rfl⟩
    · cases h
      exact .inr (.inl ⟨hcont, hskip, rfl⟩)
    · cases h
      rw [not_or, not_not] at hskip
      exact .inr (.inr ⟨hskip.1, hskip.2, .inl ⟨hlast, rfl⟩⟩)
    · rw [not_or, not_not] at hskip
      refine .inr (.inr ⟨hskip.1, hskip.2, .inr ⟨Bool.eq_false_iff.mpr hlast, ?_⟩⟩)
      cases hdone : s.done with rw [hdone] at h
      | nil =>
        cases h
        exact .inl ⟨rfl, rfl⟩
      | cons d done =>
        cases h
        exact .inr ⟨d, done, rfl, rfl⟩

theorem Sound.extend (hs : s.Sound frame) {f : α} {rest : List α}
    (hcont : Continues (frame s.current.last) (frame f)) :
    Sound frame ⟨s.done, ⟨s.current.toList, f⟩, rest⟩ where
  inSequence := by
    intro u hu
    rcases mem_cons.mp hu with rfl | hu
    · apply (hs.inSequence _ mem_cons_self).append (isChain_singleton f)
      intro x hx y hy
      rw [Segment.toList, getLast?_concat] at hx
      obtain rfl := Option.some.inj hx
      obtain rfl := Option.some.inj hy
      exact hcont
    · exact hs.inSequence u (mem_cons_of_mem _ hu)
  closed := hs.closed
  first := by
    intro u hu
    cases hdone : s.done with
    | nil =>
      rw [hdone] at hu
      cases hu
    | cons d done =>
      have hfirst := hs.first
      rw [hdone] at hu hfirst
      rcases mem_cons.mp hu with rfl | hu
      · obtain ⟨x, hx, hzero⟩ := hfirst _ mem_cons_self
        refine ⟨x, ?_, hzero⟩
        show x ∈ (s.current.toList ++ [f]).head?
        rw [head?_append, Option.mem_def.mp hx]
        rfl
      · exact hfirst u (mem_cons_of_mem _ hu)
  ids := by
    have hids := hs.ids
    cases hdone : s.done with
    | nil => exact isChain_singleton _
    | cons d done =>
      rw [hdone, isChain_cons_cons] at hids
      refine isChain_cons_cons.mpr ⟨?_, hids.2⟩
      rw [← hcont.1]
      exact hids.1

theorem Sound.push (hs : s.Sound frame) {f : α} {rest : List α}
    (hid : (frame s.current.last).id ≠ (frame f).id) (hzero : (frame f).number = 0)
    (hlast : (frame s.current.last).isLast = true) :
    Sound frame ⟨s.current :: s.done, ⟨[], f⟩, rest⟩ where
  inSequence := by
    intro u hu
    rcases mem_cons.mp hu with rfl | hu
    · exact isChain_singleton f
    · exact hs.inSequence u hu
  closed := by
    intro u hu
    rcases mem_cons.mp hu with rfl | hu
    · exact hlast
    · exact hs.closed u hu
  first := by
    intro u hu
    rcases mem_cons.mp hu with rfl | hu
    · exact ⟨f, rfl, hzero⟩
    · exact hs.first u hu
  ids := isChain_cons_cons.mpr ⟨hid.symm, hs.ids⟩

theorem Sound.pop (hs : s.Sound frame) {d : Segment α} {done : List (Segment α)}
    (hdone : s.done = d :: done) (rest : List α) : Sound frame ⟨done, d, rest⟩ where
  inSequence := by
    intro u hu
    exact hs.inSequence u (mem_cons_of_mem _ (hdone ▸ hu))
  closed := by
    intro u hu
    exact hs.closed u (hdone ▸ mem_cons_of_mem d hu)
  first := by
    intro u hu
    apply hs.first u
    rw [hdone]
    exact mem_cons_of_mem _ hu
  ids := by
    have hids := hs.ids
    rw [hdone] at hids
    exact (isChain_cons_cons.mp hids).2

theorem Sound.next (hs : s.Sound frame) (h : s.next frame = some t) : t.Sound frame := by
  obtain ⟨f, rest, -, ⟨hcont, rfl⟩ | ⟨-, -, rfl⟩ |
    ⟨hid, hzero, ⟨hlast, rfl⟩ | ⟨-, ⟨-, rfl⟩ | ⟨d, done, hdone, rfl⟩⟩⟩⟩ := next_cases h
  · exact hs.extend hcont
  · exact ⟨hs.inSequence, hs.closed, hs.first, hs.ids⟩
  · exact hs.push hid hzero hlast
  · exact sound_start f rest
  · exact hs.pop hdone _

theorem Reached.sound {queue : List α} (h : Reached frame queue s) : s.Sound frame := by
  induction h with
  | start => exact sound_start _ _
  | next _ hnext ih => exact ih.next hnext

theorem mem_next (h : s.next frame = some t) (hu : u ∈ s.current :: s.done)
    (hlast : (frame u.last).isLast = true) : u ∈ t.current :: t.done := by
  have hold : (frame s.current.last).isLast = false → u ∈ s.done := by
    intro hopen
    rcases mem_cons.mp hu with rfl | hu
    · rw [hopen] at hlast
      cases hlast
    · exact hu
  obtain ⟨f, -, -, ⟨hcont, rfl⟩ | ⟨-, -, rfl⟩ |
    ⟨-, -, ⟨-, rfl⟩ | ⟨hopen, ⟨hdone, rfl⟩ | ⟨d, done, hdone, rfl⟩⟩⟩⟩ := next_cases h
  · exact mem_cons_of_mem _ (hold hcont.2.2)
  · exact hu
  · exact mem_cons_of_mem _ hu
  · cases hdone ▸ hold hopen
  · exact hdone ▸ hold hopen

/-! ## The loop is the scan -/

theorem queue_eq : s.queue = (s.doneList ++ s.current.init) ++ s.current.last :: s.rest := by
  simp [queue, kept, Segment.toList]

theorem length_kept : s.kept.length = s.index + 1 := by
  simp [kept, index, Segment.toList]
  omega

/-- The frame has the id of the present channel. -/
def isCurrent (frame : α → Frame) (s : Scan α) (x : α) : Bool :=
  decide ((frame x).id = (frame s.current.last).id)

/-- Without a clash the search finds the start of the present channel. -/
theorem findIdx_eq (hs : s.Sound frame)
    (hfree : ¬∃ d ∈ s.done, ∃ x ∈ d.toList, (frame x).id = (frame s.current.last).id) :
    s.queue.findIdx (s.isCurrent frame) = s.doneList.length := by
  have hdone : ∀ x ∈ s.doneList, s.isCurrent frame x = false := by
    intro x hx
    obtain ⟨d, hd, hxd⟩ := mem_flatMap.mp hx
    exact decide_eq_false fun hid => hfree ⟨d, mem_reverse.mp hd, x, hxd, hid⟩
  have hnone : s.doneList.findIdx (s.isCurrent frame) = s.doneList.length :=
    findIdx_eq_length.mpr hdone
  have hzero : (s.current.toList ++ s.rest).findIdx (s.isCurrent frame) = 0 := by
    have hseq := hs.inSequence _ mem_cons_self
    obtain ⟨x, xs, hx⟩ : ∃ x xs, s.current.toList = x :: xs :=
      exists_cons_of_ne_nil (by simp [Segment.toList])
    have hid := id_of_mem hseq (hx ▸ mem_cons_self)
    rw [hx, cons_append, findIdx_cons, isCurrent, decide_eq_true hid]
    rfl
  have hqueue : s.queue = s.doneList ++ (s.current.toList ++ s.rest) := by simp [queue, kept]
  rw [hqueue, findIdx_append, hnone, hzero, if_neg (lt_irrefl _), Nat.zero_add]

/-- A turn of the loop at a frame that does not clash is a step of the scan. -/
theorem pruneStep_of_next (hs : s.Sound frame) (hclash : ¬s.Clashes frame)
    (h : s.next frame = some t) : pruneStep frame s.queue s.index = .ok (some (t.queue, t.index)) := by
  obtain ⟨f, rest, hrest, hcases⟩ := next_cases h
  have hqueue : s.queue = (s.doneList ++ s.current.init) ++ s.current.last :: f :: rest := by
    rw [queue_eq, hrest]
  have hmem : f ∈ s.rest.head? := by rw [hrest]; rfl
  have hmax : (frame s.current.last).id = (frame f).id → (frame s.current.last).number ≠ 65535 :=
    fun hid hnumber => hclash ⟨f, hmem, .inl ⟨hid, hnumber⟩⟩
  have hstep := @pruneStep_eq α frame (s.doneList ++ s.current.init) s.current.last f rest
  rw [← hqueue] at hstep
  change pruneStep frame s.queue s.index = _ at hstep
  rw [hstep]
  rcases hcases with ⟨hcont, rfl⟩ | ⟨hcont, hskip, rfl⟩ |
    ⟨hid, hzero, ⟨hlast, rfl⟩ | ⟨hlast, hdone⟩⟩
  · rw [if_pos hcont.1, if_neg (hmax hcont.1), if_pos hcont, hqueue]
    simp [queue, kept, index, doneList, Segment.toList]
    omega
  · have hremoved : (s.doneList ++ s.current.init ++ s.current.last :: rest,
        (s.doneList ++ s.current.init).length) =
        ((⟨s.done, s.current, rest⟩ : Scan α).queue, (⟨s.done, s.current, rest⟩ : Scan α).index) := by
      simp [queue, kept, index, doneList, Segment.toList]
    by_cases hid : (frame s.current.last).id = (frame f).id
    · rw [if_pos hid, if_neg (hmax hid), if_neg hcont, hremoved]
    · rw [if_neg hid, if_pos (hskip.resolve_left hid), hremoved]
  · rw [if_neg hid, if_neg (not_not.mpr hzero), if_pos hlast, hqueue]
    simp [queue, kept, index, doneList, Segment.toList]
    omega
  · have hfree : ¬∃ d ∈ s.done, ∃ x ∈ d.toList, (frame x).id = (frame s.current.last).id :=
      fun hd => hclash ⟨f, hmem, .inr ⟨hid, hzero, hlast, hd⟩⟩
    have hfirst := findIdx_eq hs hfree
    unfold isCurrent at hfirst
    rw [if_neg hid, if_neg (not_not.mpr hzero), hlast]
    dsimp only
    rw [hfirst, hqueue, append_assoc, take_left]
    rcases hdone with ⟨hdone, rfl⟩ | ⟨d, done, hdone, rfl⟩
    · simp [queue, kept, index, doneList, Segment.toList, hdone]
    · simp [queue, kept, index, doneList, Segment.toList, hdone]
      omega

theorem pruneStep_of_rest_nil (h : s.rest = []) : pruneStep frame s.queue s.index = .ok none := by
  rw [queue_eq, h]
  exact pruneStep_end _ _

theorem next_of_rest_cons (h : s.rest ≠ []) : ∃ t, s.next frame = some t := by
  obtain ⟨f, rest, hrest⟩ := exists_cons_of_ne_nil h
  unfold next
  rw [hrest]
  dsimp only
  cases s.done <;> split_ifs <;> exact ⟨_, rfl⟩

/-! ## Whole channels -/

theorem kept_eq (s : Scan α) : s.kept = ((s.current :: s.done).reverse.map Segment.toList).flatten := by
  simp [kept, doneList, flatMap_def]

/-- In a concatenation of closed sequences, of which the last one need not be closed, a whole channel
is one of them. -/
theorem mem_of_finished {segments : List (List α)} (hseq : ∀ u ∈ segments, InSequence frame u)
    (hclosed : ∀ u ∈ segments.dropLast, ∃ x ∈ u.getLast?, (frame x).isLast = true)
    {before run after : List α} (hrun : Finished frame run)
    (heq : segments.flatten = before ++ run ++ after) : run ∈ segments := by
  obtain ⟨first, hfirst, hzero⟩ := hrun.first
  obtain ⟨last, hlast, hisLast⟩ := hrun.last
  have hne : run ≠ [] := by
    rintro rfl
    cases hfirst
  -- nothing follows the closing frame within a sequence, and nothing precedes number 0
  have hwhole : ∀ a b : List α, InSequence frame (a ++ run ++ b) → a = [] ∧ b = [] := by
    intro a b hab
    obtain ⟨hleft, -, hafter⟩ := isChain_append.mp hab
    obtain ⟨-, -, hbefore⟩ := isChain_append.mp hleft
    constructor
    · rcases eq_nil_or_concat a with rfl | ⟨a, x, rfl⟩
      · rfl
      · have := (hbefore x (by simp) first hfirst).2.1
        rw [hzero] at this
        simp at this
    · cases b with
      | nil => rfl
      | cons y b =>
        have hgetLast : last ∈ (a ++ run).getLast? := by
          rwa [getLast?_append_of_ne_nil _ hne]
        have := (hafter last hgetLast y rfl).2.2
        rw [hisLast] at this
        cases this
  induction segments generalizing before with
  | nil => exact absurd (append_eq_nil_iff.mp (append_eq_nil_iff.mp heq.symm).1).2 hne
  | cons u segments ih =>
    rw [append_assoc] at heq
    rcases append_eq_append_iff.mp heq with ⟨a, rfl, hrest⟩ | ⟨b, rfl, hrest⟩
    · -- the channel begins after the first sequence
      refine mem_cons_of_mem u (ih (fun v hv => hseq v (mem_cons_of_mem u hv))
        (fun v hv => hclosed v ?_) (hrest.trans (append_assoc a run after).symm))
      cases segments with
      | nil => cases hv
      | cons w segments => exact mem_cons_of_mem u hv
    · have hu := hseq _ mem_cons_self
      rcases append_eq_append_iff.mp hrest with ⟨c, rfl, hafter⟩ | ⟨c, hb, hafter⟩
      · -- it ends within the first sequence
        rw [← append_assoc] at hu
        obtain ⟨rfl, rfl⟩ := hwhole before c hu
        rw [append_nil]
        exact mem_cons_self
      · subst hb
        by_cases hc : c = []
        · subst hc
          rw [append_nil] at hwhole ⊢
          obtain ⟨rfl, -⟩ := hwhole before [] (by rwa [append_nil])
          exact mem_cons_self
        · have hsegments : segments ≠ [] := by
            rintro rfl
            exact hc (append_eq_nil_iff.mp hafter.symm).1
          have hdropLast : ((before ++ b) :: segments).dropLast =
              (before ++ b) :: segments.dropLast := dropLast_cons_of_ne_nil hsegments
          rw [hdropLast] at hclosed
          by_cases hb : b = []
          · subst hb
            refine mem_cons_of_mem _ (@ih (fun v hv => hseq v (mem_cons_of_mem _ hv))
              (fun v hv => hclosed v (mem_cons_of_mem _ hv)) [] ?_)
            rw [hafter, nil_append, nil_append]
          · -- it would go on behind the closing frame of the first sequence
            obtain ⟨x, hx, hxLast⟩ := hclosed _ mem_cons_self
            rw [getLast?_append_of_ne_nil _ hb] at hx
            obtain ⟨y, c, rfl⟩ := exists_cons_of_ne_nil hc
            have := ((isChain_append.mp hrun.inSequence).2.2 x hx y rfl).2.2
            rw [hxLast] at this
            cases this

theorem Sound.closed_segments (hs : s.Sound frame) :
    ∀ v ∈ ((s.current :: s.done).reverse.map Segment.toList).dropLast,
      ∃ x ∈ v.getLast?, (frame x).isLast = true := by
  intro v hv
  rw [← map_dropLast, dropLast_reverse] at hv
  obtain ⟨u, hu, rfl⟩ := mem_map.mp hv
  exact ⟨u.last, getLast?_concat, hs.closed u (mem_reverse.mp hu)⟩

theorem Sound.mem_of_finished (hs : s.Sound frame) {before run after : List α}
    (hrun : Finished frame run) (heq : s.kept = before ++ run ++ after) :
    ∃ u ∈ s.current :: s.done, u.toList = run ∧ (frame u.last).isLast = true := by
  have hmem : run ∈ (s.current :: s.done).reverse.map Segment.toList := by
    refine Scan.mem_of_finished (fun v hv => ?_) hs.closed_segments hrun
      ((kept_eq s).symm.trans heq)
    obtain ⟨u, hu, rfl⟩ := mem_map.mp hv
    exact hs.inSequence u (mem_reverse.mp hu)
  obtain ⟨u, hu, rfl⟩ := mem_map.mp hmem
  refine ⟨u, mem_reverse.mp hu, rfl, ?_⟩
  obtain ⟨x, hx, hlast⟩ := hrun.last
  rw [Segment.toList, getLast?_concat] at hx
  rwa [Option.some.inj hx]

theorem isInfix_kept (hu : u ∈ s.current :: s.done) : u.toList <:+: s.kept := by
  rw [kept_eq]
  obtain ⟨a, b, hab⟩ := append_of_mem (mem_map_of_mem (f := Segment.toList) (mem_reverse.mpr hu))
  rw [hab]
  exact ⟨a.flatten, b.flatten, by simp⟩

theorem Sound.segmented (hs : s.Sound frame) : Segmented frame s.kept := by
  refine ⟨(s.current :: s.done).reverse.map Segment.toList, kept_eq s, fun v hv => ?_,
    fun v hv => ?_, hs.closed_segments⟩
  · obtain ⟨u, hu, rfl⟩ := mem_map.mp hv
    exact ⟨by simp [Segment.toList], hs.inSequence u (mem_reverse.mp hu)⟩
  · rw [← map_tail, tail_reverse] at hv
    obtain ⟨u, hu, rfl⟩ := mem_map.mp hv
    exact hs.first u (mem_reverse.mp hu)

/-! ## Clashes -/

/-- A clash stops the loop, or removes a whole channel that had been kept. -/
theorem pruneStep_of_clash (hs : s.Sound frame) (hnodup : s.queue.Nodup) (hclash : s.Clashes frame) :
    pruneStep frame s.queue s.index = .error .overflow ∨
      ∃ q' i' before run after x, pruneStep frame s.queue s.index = .ok (some (q', i')) ∧
        s.queue = before ++ run ++ after ∧ (before ++ run).length ≤ s.index + 1 ∧
        Finished frame run ∧ x ∈ run ∧ x ∉ q' := by
  obtain ⟨f, hf, hcases⟩ := hclash
  obtain ⟨rest, hrest⟩ : ∃ rest, s.rest = f :: rest := by
    cases hrest : s.rest with rw [hrest] at hf
    | nil => cases hf
    | cons g rest => exact ⟨rest, by rw [Option.some.inj hf]⟩
  have hqueue : s.queue = (s.doneList ++ s.current.init) ++ s.current.last :: f :: rest := by
    rw [queue_eq, hrest]
  have hstep := @pruneStep_eq α frame (s.doneList ++ s.current.init) s.current.last f rest
  rw [← hqueue] at hstep
  change pruneStep frame s.queue s.index = _ at hstep
  rcases hcases with ⟨hid, hmax⟩ | ⟨hid, hzero, hopen, d, hd, x, hx, hxid⟩
  · left
    rw [hstep, if_pos hid, if_pos hmax]
  · right
    rw [id_of_mem (hs.inSequence d (mem_cons_of_mem _ hd)) hx] at hxid
    -- the channel after the one with the same id is whole, and it is not the present one
    obtain ⟨up, down, hdone⟩ := append_of_mem hd
    obtain ⟨up, u, rfl⟩ : ∃ up' u, up = up' ++ [u] := by
      rcases eq_nil_or_concat up with rfl | ⟨up, u, rfl⟩
      · have hids := hs.ids
        rw [hdone] at hids
        exact absurd hxid.symm (isChain_cons_cons.mp hids).1
      · exact ⟨up, u, concat_eq_append⟩
    have hu : u ∈ s.done := by simp [hdone]
    have hfinished : Finished frame u.toList := by
      refine ⟨hs.inSequence u (mem_cons_of_mem _ hu), hs.first u ?_,
        u.last, getLast?_concat, hs.closed u hu⟩
      rw [hdone, append_assoc, ← cons_append, dropLast_append_of_ne_nil (by simp)]
      simp
    have hkept : s.kept = (down.reverse.flatMap Segment.toList ++ d.toList) ++ u.toList ++
        (up.reverse.flatMap Segment.toList ++ s.current.toList) := by
      simp [kept, doneList, hdone]
    generalize hbefore : down.reverse.flatMap Segment.toList ++ d.toList = before at hkept
    generalize up.reverse.flatMap Segment.toList ++ s.current.toList = after at hkept
    have hsplit : s.queue = before ++ (u.toList ++ (after ++ f :: rest)) := by
      simp [queue, hkept, hrest]
    have hfirst : s.queue.findIdx (s.isCurrent frame) ≤ before.length := by
      have hlt : before.findIdx (s.isCurrent frame) < before.length := by
        apply findIdx_lt_length_of_exists
        exact ⟨d.last, by simp [← hbefore, Segment.toList], decide_eq_true hxid⟩
      rw [hsplit, findIdx_append, if_pos hlt]
      exact hlt.le
    rw [if_neg hid, if_neg (not_not.mpr hzero), hopen] at hstep
    refine ⟨_, _, before, u.toList, after ++ f :: rest, u.last, hstep, ?_, ?_, hfinished,
      by simp [Segment.toList], ?_⟩
    · rw [hsplit, append_assoc]
    · rw [← length_kept, hkept]
      exact (prefix_append (before ++ u.toList) after).length_le
    · rw [hsplit] at hnodup
      obtain ⟨-, hrestNodup, hdisjoint⟩ := nodup_append.mp hnodup
      obtain ⟨-, -, hdisjoint'⟩ := nodup_append.mp hrestNodup
      have hlast : u.last ∈ u.toList := by simp [Segment.toList]
      intro hmem
      rcases mem_append.mp hmem with hmem | hmem
      · unfold isCurrent at hfirst
        rw [hsplit] at hfirst hmem
        rw [take_append_of_le_length hfirst] at hmem
        exact hdisjoint _ (mem_of_mem_take hmem) _ (mem_append_left _ hlast) rfl
      · exact hdisjoint' _ hlast _ (mem_append_right _ hmem) rfl

end Scan

/-! ## The two together -/

section Result

variable {frame} {queue : List α}

/-- No state of the scan clashes. -/
def Clear (frame : α → Frame) (queue : List α) : Prop :=
  ∀ s, Scan.Reached frame queue s → ¬s.Clashes frame

theorem sublist_of_scanned {q : List α} {i : ℕ} (h : Scanned frame queue q i) : q.Sublist queue := by
  induction h with
  | start => exact List.Sublist.refl _
  | step _ hstep ih => exact (sublist_of_pruneStep hstep).trans ih

/-- On a clear queue every state of the loop is one of the scan. -/
theorem reached_of_scanned (hclear : Clear frame queue) (hne : queue ≠ []) {q : List α} {i : ℕ}
    (h : Scanned frame queue q i) :
    ∃ s, Scan.Reached frame queue s ∧ q = s.queue ∧ i = s.index := by
  induction h with
  | start =>
    obtain ⟨f, rest, hqueue⟩ := exists_cons_of_ne_nil hne
    exact ⟨_, .start hqueue, hqueue, rfl⟩
  | step _ hstep ih =>
    obtain ⟨s, hs, rfl, rfl⟩ := ih
    by_cases hrest : s.rest = []
    · rw [Scan.pruneStep_of_rest_nil hrest] at hstep
      cases hstep
    · obtain ⟨t, ht⟩ := Scan.next_of_rest_cons hrest
      rw [Scan.pruneStep_of_next hs.sound (hclear s hs) ht] at hstep
      cases hstep
      exact ⟨t, hs.next ht, rfl, rfl⟩

/-- On a clear queue the loop ends where the scan does, and whole channels stay. -/
theorem pruneLoop_of_reached (hclear : Clear frame queue) {turns : ℕ} {s : Scan α}
    (hs : Scan.Reached frame queue s) :
    pruneLoop frame turns s.queue s.index = .ok none ∨
      ∃ t, Scan.Reached frame queue t ∧ t.rest = [] ∧
        pruneLoop frame turns s.queue s.index = .ok (some t.kept) ∧
        ∀ u ∈ s.current :: s.done, (frame u.last).isLast = true → u ∈ t.current :: t.done := by
  induction turns generalizing s with
  | zero => exact .inl rfl
  | succ turns ih =>
    unfold pruneLoop
    by_cases hrest : s.rest = []
    · refine .inr ⟨s, hs, hrest, ?_, fun u hu _ => hu⟩
      rw [Scan.pruneStep_of_rest_nil hrest]
      simp [Scan.queue, hrest]
    · obtain ⟨t, ht⟩ := Scan.next_of_rest_cons hrest
      rw [Scan.pruneStep_of_next hs.sound (hclear s hs) ht]
      rcases ih (hs.next ht) with hnone | ⟨r, hr, hend, hloop, hstay⟩
      · exact .inl hnone
      · exact .inr ⟨r, hr, hend, hloop, fun u hu hlast => hstay u (Scan.mem_next ht hu hlast) hlast⟩

theorem prunesWell_of_clear (hne : queue ≠ []) (hclear : Clear frame queue) :
    PrunesWell frame queue := by
  obtain ⟨f, rest, hqueue⟩ := exists_cons_of_ne_nil hne
  have hstart : Scan.Reached frame queue ⟨[], ⟨[], f⟩, rest⟩ := .start hqueue
  have hloop := @pruneLoop_of_reached α frame queue hclear (2 * queue.length + 1) _ hstart
  have hscan : (⟨[], ⟨[], f⟩, rest⟩ : Scan α).queue = queue := hqueue.symm
  rw [hscan] at hloop
  rcases hloop with hnone | ⟨t, ht, -, hok, -⟩
  · exact absurd hnone (pruneLoop_ne_none (by omega))
  · refine ⟨t.kept, hok, sublist_of_pruneLoop hok, ht.sound.segmented, ?_⟩
    intro q i before run after hscanned heq hlen hrun
    obtain ⟨s, hs, rfl, rfl⟩ := reached_of_scanned hclear hne hscanned
    -- the run lies within the kept frames
    obtain ⟨after', hkept⟩ : ∃ after', s.kept = before ++ run ++ after' := by
      have hpre : before ++ run <+: s.kept ++ s.rest := ⟨after, heq.symm⟩
      rw [← Scan.length_kept] at hlen
      obtain ⟨after', h⟩ := prefix_of_prefix_length_le hpre (prefix_append _ _) hlen
      exact ⟨after', h.symm⟩
    obtain ⟨u, hu, rfl, hlast⟩ := hs.sound.mem_of_finished hrun hkept
    obtain ⟨turns, hloop⟩ := pruneLoop_of_scanned hok hscanned
    rcases @pruneLoop_of_reached α frame queue hclear turns s hs with
      hnone | ⟨r, -, -, hr, hstay⟩
    · rw [hloop] at hnone
      cases hnone
    · rw [Option.some.inj (Except.ok.inj (hloop.symm.trans hr))]
      exact Scan.isInfix_kept (hstay u hu hlast)

/-- A state of the scan is one of the loop, unless there was a clash before. -/
theorem scanned_of_reached {s : Scan α} (h : Scan.Reached frame queue s) :
    Scanned frame queue s.queue s.index ∨
      ∃ t : Scan α, t.Sound frame ∧ Scanned frame queue t.queue t.index ∧ t.Clashes frame := by
  induction h with
  | start hqueue =>
    left
    subst hqueue
    exact .start
  | @next s t hs hnext ih =>
    rcases ih with hscanned | hclash
    · by_cases hclash : s.Clashes frame
      · exact .inr ⟨s, hs.sound, hscanned, hclash⟩
      · exact .inl (hscanned.step (Scan.pruneStep_of_next hs.sound hclash hnext))
    · exact .inr hclash

theorem clear_of_prunesWell (hnodup : queue.Nodup) (h : PrunesWell frame queue) :
    Clear frame queue := by
  obtain ⟨result, hok, -, -, hstays⟩ := h
  intro s hs hclash
  obtain ⟨t, ht, hscanned, hclash⟩ : ∃ t : Scan α, t.Sound frame ∧
      Scanned frame queue t.queue t.index ∧ t.Clashes frame := by
    rcases scanned_of_reached hs with hscanned | h
    · exact ⟨s, hs.sound, hscanned, hclash⟩
    · exact h
  obtain ⟨turns, hloop⟩ := pruneLoop_of_scanned hok hscanned
  cases turns with
  | zero => cases hloop
  | succ turns =>
    unfold pruneLoop at hloop
    rcases Scan.pruneStep_of_clash ht (hnodup.sublist (sublist_of_scanned hscanned)) hclash with
      herror | ⟨q', i', before, run, after, x, hstep, hsplit, hlen, hrun, hx, hgone⟩
    · rw [herror] at hloop
      cases hloop
    · rw [hstep] at hloop
      have hmem := (hstays _ _ before run after hscanned hsplit hlen hrun).subset hx
      exact hgone ((sublist_of_pruneLoop hloop).subset hmem)

/-! ## Frames with their positions -/

theorem pruneStep_map {β : Type} (g : β → α) (q : List β) (i : ℕ) :
    pruneStep frame (q.map g) i =
      (pruneStep (frame ∘ g) q i).map (Option.map fun state => (state.1.map g, state.2)) := by
  unfold pruneStep
  rw [getElem?_map, getElem?_map]
  cases q[i]? with
  | none => rfl
  | some prev =>
    cases q[i + 1]? with
    | none => rfl
    | some next =>
      dsimp only [Option.map_some, Function.comp_apply]
      cases (if decide ((frame (g prev)).id = (frame (g next)).id) = true then
          outOfSequence (frame (g prev)) (frame (g next)) else .ok false) with
      | error e => rfl
      | ok gap =>
        cases gap with
        | true => simp [Except.map, eraseIdx_map]
        | false =>
          split_ifs
          · simp [Except.map, eraseIdx_map]
          · simp [Except.map, eraseIdx_map]
          · simp [Except.map, Function.comp_def]
          · simp [Except.map]

/-- Pruning does not look at what the frames carry. -/
theorem pruneLoop_map {β : Type} (g : β → α) (turns : ℕ) (q : List β) (i : ℕ) :
    pruneLoop frame turns (q.map g) i = (pruneLoop (frame ∘ g) turns q i).map (Option.map (map g)) := by
  induction turns generalizing q i with
  | zero => rfl
  | succ turns ih =>
    unfold pruneLoop
    rw [pruneStep_map]
    cases pruneStep (frame ∘ g) q i with
    | error e => rfl
    | ok state =>
      cases state with
      | none => rfl
      | some state => exact ih state.1 state.2

end Result

/-- Pruning of a queue that is not empty ends. It leaves channels in order and every whole channel
that it has passed exactly when the scan does not clash. -/
theorem prune_keeps_finished_iff (cfg : RollupConfig) (timestamp : ℕ)
    (hholocene : cfg.isHoloceneActive timestamp = true) (queue : List Frame) (hne : queue ≠ []) :
    let tagged := queue.zipIdx
    prune id cfg timestamp queue ≠ .ok none ∧
    prune id cfg timestamp queue =
      (pruneLoop Prod.fst (2 * tagged.length + 1) tagged 0).map (Option.map (map Prod.fst)) ∧
    (PrunesWell Prod.fst tagged ↔ Clear Prod.fst tagged) := by
  intro tagged
  have hprune : prune id cfg timestamp queue = pruneLoop id (2 * queue.length + 1) queue 0 := by
    unfold prune
    rw [hholocene, if_neg (by simp), if_neg (by simpa using hne)]
  have hfst : tagged.map Prod.fst = queue := zipIdx_map_fst 0 queue
  have hlength : tagged.length = queue.length := length_zipIdx
  have hnodup : tagged.Nodup := by
    apply List.Nodup.of_map Prod.snd
    rw [zipIdx_map_snd]
    exact nodup_range'
  have hne' : tagged ≠ [] := fun h => hne (by rw [← hfst, h]; rfl)
  refine ⟨?_, ?_, clear_of_prunesWell hnodup, prunesWell_of_clear hne'⟩
  · rw [hprune]
    exact pruneLoop_ne_none (by omega)
  · have hmap := @pruneLoop_map Frame id (Frame × ℕ) Prod.fst (2 * queue.length + 1) tagged 0
    rw [hfst] at hmap
    rw [hprune, hmap, hlength]
    rfl

def frameOf (channel : UInt8) (number : UInt16) (isLast : Bool) : Frame :=
  ⟨⟨replicate 16 channel, length_replicate⟩, number, [], isLast⟩

theorem prune_keeps_finished_sample :
    let queue := [frameOf 1 0 false, frameOf 1 1 true, frameOf 2 0 true]
    PrunesWell Prod.fst queue.zipIdx ↔ Clear Prod.fst queue.zipIdx :=
  (prune_keeps_finished_iff sampleConfig 0 (by decide)
    [frameOf 1 0 false, frameOf 1 1 true, frameOf 2 0 true] (by decide)).2.2

/-- Two whole channels are lost when a later channel with the first one's id is replaced. -/
theorem finished_channels_lost :
    let queue := [frameOf 1 0 true, frameOf 2 0 true, frameOf 1 0 false, frameOf 3 0 true]
    prune id sampleConfig 0 queue = .ok (some [frameOf 3 0 true]) ∧
      ¬PrunesWell Prod.fst queue.zipIdx := by
  intro queue
  refine ⟨by decide +kernel, ?_⟩
  rintro ⟨result, hok, -, -, hstays⟩
  have hresult : pruneLoop Prod.fst 9 queue.zipIdx 0 = .ok (some [(frameOf 3 0 true, 3)]) := by
    decide +kernel
  obtain rfl := Option.some.inj (Except.ok.inj (hresult.symm.trans hok))
  have hscanned : Scanned Prod.fst queue.zipIdx queue.zipIdx 1 :=
    .step .start (by decide +kernel)
  have hrun : Finished Prod.fst [(frameOf 1 0 true, 0)] :=
    ⟨isChain_singleton _, ⟨_, rfl, rfl⟩, ⟨_, rfl, rfl⟩⟩
  have hinfix := hstays _ _ [] [(frameOf 1 0 true, 0)] (queue.zipIdx.tail) hscanned rfl (by decide) hrun
  have hmem := hinfix.subset mem_cons_self
  exact absurd hmem (by decide)

end NodeReth.Derive.FrameQueue
