import NodeReth.Precompiles.B20.Spec

/-!
# Runs of a token

A call that succeeds is a list of steps: operations, and the two ends of an announcement. A run
takes a token from one storage to the next, a failed call leaves the storage alone, and the history
of the run is the list of the steps that were taken, each with the storage before and after it.
-/

namespace NodeReth

open B20AssetStorage B20Guards Bytes Checked Effects List

inductive TokenStep
  | operation (o : B20Operation)
  | beginAnnounce (id description uri : String)
  | endAnnounce (id : String)
  deriving DecidableEq

structure Visit where
  ctx : CallContext
  step : TokenStep
  pre : B20AssetStorage
  post : B20AssetStorage

structure TokenCall where
  ctx : CallContext
  calldata : Bytes

variable (env : B20Env) (abi : AssetAbi) (ctx : CallContext) (privileged : Bool) (depth : ℕ)

def TokenStep.perform : TokenStep → TokenM Unit
  | operation o => do
    let _ ← handle env ctx privileged o
  | beginAnnounce id description uri => NodeReth.beginAnnounce ctx id description uri privileged
  | endAnnounce id => NodeReth.endAnnounce id

/-- The steps of a call; what cannot be decoded has none. -/
def stepsOf (version : AssetVersion) : ℕ → Bytes → List TokenStep
  | depth, calldata =>
    match abi.decode version calldata with
    | .error _ => []
    | .ok (.operation o) => [.operation o]
    | .ok (.announce internalCalls id description uri) =>
      match depth with
      | 0 => []
      | depth + 1 =>
        .beginAnnounce id description uri ::
          (internalCalls.flatMap (stepsOf version depth) ++ [.endAnnounce id])

def performAll (steps : List TokenStep) : TokenM Unit :=
  steps.forM (TokenStep.perform env ctx privileged)

/-- The steps that are taken one after the other until one of them fails. -/
def visits : List TokenStep → B20AssetStorage → List Visit
  | [], _ => []
  | step :: steps, s =>
    match step.perform env ctx privileged s with
    | .ok _ t => ⟨ctx, step, s, t⟩ :: visits steps t
    | .error _ _ => []

namespace TokenCall

def execute (s : B20AssetStorage) (c : TokenCall) : B20AssetStorage :=
  match dispatch env abi c.ctx depth c.calldata s with
  | .ok _ t => t
  | .error _ _ => s

def visits (s : B20AssetStorage) (c : TokenCall) : List Visit :=
  match dispatch env abi c.ctx depth c.calldata s with
  | .ok _ _ => NodeReth.visits env c.ctx false (stepsOf abi c.ctx.version depth c.calldata) s
  | .error _ _ => []

end TokenCall

def runCalls (calls : List TokenCall) (s : B20AssetStorage) : B20AssetStorage :=
  calls.foldl (TokenCall.execute env abi depth) s

def history : List TokenCall → B20AssetStorage → List Visit
  | [], _ => []
  | c :: calls, s => c.visits env abi depth s ++ history calls (c.execute env abi depth s)

/-! ## Calls are lists of steps -/

variable {env abi ctx privileged depth}
variable {s t : B20AssetStorage} {v : AbiValue} {u : Unit} {steps : List TokenStep}
  {step : TokenStep}

theorem performAll_cons {l : List TokenStep} :
    performAll env ctx privileged (step :: l) s = .ok u t ↔
      ∃ w, step.perform env ctx privileged s = .ok () w ∧
        performAll env ctx privileged l w = .ok u t := by
  show ((step.perform env ctx privileged) >>= fun _ => performAll env ctx privileged l) s = _ ↔ _
  rw [bind_ok_iff]
  exact ⟨fun ⟨_, w, h⟩ => ⟨w, h⟩, fun ⟨w, h⟩ => ⟨(), w, h⟩⟩

theorem performAll_nil : performAll env ctx privileged [] s = .ok () s := rfl

theorem performAll_append {l l' : List TokenStep} :
    performAll env ctx privileged (l ++ l') s = .ok u t ↔
      ∃ w, performAll env ctx privileged l s = .ok () w ∧
        performAll env ctx privileged l' w = .ok u t := by
  induction l generalizing s with
  | nil =>
    constructor
    · exact fun h => ⟨s, rfl, h⟩
    · rintro ⟨w, hnil, h⟩
      rwa [(pure_ok_iff.mp hnil).2] at h
  | cons step l ih =>
    rw [cons_append, performAll_cons]
    constructor
    · rintro ⟨w, hstep, hrest⟩
      obtain ⟨w', hl, hl'⟩ := ih.mp hrest
      exact ⟨w', performAll_cons.mpr ⟨w, hstep, hl⟩, hl'⟩
    · rintro ⟨w', hl, hl'⟩
      obtain ⟨w, hstep, hl⟩ := performAll_cons.mp hl
      exact ⟨w, hstep, ih.mpr ⟨w', hl, hl'⟩⟩

theorem mapError_ok_iff {α : Type} {f : B20Error → B20Error} {x : TokenM α} {a : α} :
    mapError f x s = .ok a t ↔ x s = .ok a t := by
  unfold mapError
  cases x s with
  | ok b w => exact Iff.rfl
  | error e w =>
    constructor
    · nofun
    · nofun

theorem runInternalCall_ok {route : Bytes → TokenM AbiValue} {call : Bytes}
    (h : runInternalCall route call s = .ok u t) : ∃ v, route call s = .ok v t := by
  unfold runInternalCall at h
  simp only [bind_ok_iff, ensure_ok_iff, mapError_ok_iff] at h
  obtain ⟨_, _, ⟨-, rfl⟩, _, _, ⟨-, rfl⟩, v, _, hroute, -, rfl⟩ := h
  exact ⟨v, hroute⟩

theorem forM_runInternalCall_ok {route : Bytes → TokenM AbiValue} {f : Bytes → List TokenStep}
    (hroute : ∀ call s v t, route call s = .ok v t →
      performAll env ctx privileged (f call) s = .ok () t) {calls : List Bytes}
    (h : calls.forM (runInternalCall route) s = .ok u t) :
    performAll env ctx privileged (calls.flatMap f) s = .ok () t := by
  induction calls generalizing s with
  | nil =>
    rw [(pure_ok_iff.mp h).2]
    rfl
  | cons call calls ih =>
    obtain ⟨_, w, hcall, hcalls⟩ := bind_ok_iff.mp h
    obtain ⟨v, hcall⟩ := runInternalCall_ok hcall
    rw [flatMap_cons, performAll_append]
    exact ⟨w, hroute call s v w hcall, ih hcalls⟩

theorem route_ok {calldata : Bytes} (h : route env abi ctx privileged depth calldata s = .ok v t) :
    performAll env ctx privileged (stepsOf abi ctx.version depth calldata) s = .ok () t := by
  induction depth using Nat.strong_induction_on generalizing calldata s v t with
  | _ depth ih =>
    unfold route at h
    unfold stepsOf
    cases hdecode : abi.decode ctx.version calldata with simp only [hdecode] at h
    | error e => cases h
    | ok call =>
      cases call with
      | operation o =>
        rw [performAll_cons]
        exact ⟨t, bind_ok_iff.mpr ⟨v, t, h, rfl⟩, performAll_nil⟩
      | announce internalCalls id description uri =>
        cases depth with
        | zero => cases h
        | succ depth =>
          simp only [bind_ok_iff] at h
          obtain ⟨_, w, hbegin, _, w', hcalls, _, _, hend, -, rfl⟩ := h
          rw [performAll_cons]
          refine ⟨w, hbegin, performAll_append.mpr ⟨w', ?_, ?_⟩⟩
          · exact forM_runInternalCall_ok
              (fun _ _ _ _ hroute => ih depth (Nat.lt_succ_self _) hroute) hcalls
          · exact performAll_cons.mpr ⟨_, hend, performAll_nil⟩

theorem dispatch_ok {calldata : Bytes} (h : dispatch env abi ctx depth calldata s = .ok v t) :
    performAll env ctx false (stepsOf abi ctx.version depth calldata) s = .ok () t := by
  unfold dispatch at h
  simp only [bind_ok_iff, ensure_ok_iff, get_bind] at h
  obtain ⟨_, _, ⟨-, rfl⟩, _, _, ⟨-, rfl⟩, hroute⟩ := h
  exact route_ok hroute

/-! ## Histories -/

variable {calls : List TokenCall} {w : Visit}

/-- Every step of a history was taken, by a call that is not privileged. -/
theorem perform_of_mem_visits (h : w ∈ visits env ctx privileged steps s) :
    w.ctx = ctx ∧ w.step.perform env ctx privileged w.pre = .ok () w.post := by
  induction steps generalizing s with
  | nil => cases h
  | cons step steps ih =>
    unfold visits at h
    cases hstep : step.perform env ctx privileged s with simp only [hstep] at h
    | error e t => cases h
    | ok a t =>
      rcases mem_cons.mp h with rfl | h
      · exact ⟨rfl, hstep⟩
      · exact ih h

theorem perform_of_mem_call {c : TokenCall} (h : w ∈ c.visits env abi depth s) :
    w.ctx = c.ctx ∧ w.step.perform env c.ctx false w.pre = .ok () w.post := by
  unfold TokenCall.visits at h
  split at h
  · exact perform_of_mem_visits h
  · cases h

theorem call_of_mem_history (h : w ∈ history env abi depth calls s) :
    (∃ c ∈ calls, w.ctx = c.ctx) ∧ w.step.perform env w.ctx false w.pre = .ok () w.post := by
  induction calls generalizing s with
  | nil => cases h
  | cons c calls ih =>
    rcases mem_append.mp h with h | h
    · obtain ⟨hctx, hperform⟩ := perform_of_mem_call h
      exact ⟨⟨c, mem_cons_self, hctx⟩, hctx ▸ hperform⟩
    · obtain ⟨⟨c', hc', hctx⟩, hperform⟩ := ih h
      exact ⟨⟨c', mem_cons_of_mem _ hc', hctx⟩, hperform⟩

theorem perform_of_mem_history (h : w ∈ history env abi depth calls s) :
    w.step.perform env w.ctx false w.pre = .ok () w.post :=
  (call_of_mem_history h).2

section Invariants

variable (rel : B20AssetStorage → B20AssetStorage → Prop) (hrefl : ∀ s, rel s s)
  (htrans : ∀ s t u, rel s t → rel t u → rel s u)

include hrefl htrans

/-- A relation that every step keeps relates the start to every storage on the way, and every
storage to those after it. -/
theorem visits_related
    (hstep : ∀ step s t, TokenStep.perform env ctx privileged step s = .ok () t → rel s t)
    (h : performAll env ctx privileged steps s = .ok () t) :
    rel s t ∧ (∀ w ∈ visits env ctx privileged steps s, rel s w.pre ∧ rel w.post t) ∧
      (visits env ctx privileged steps s).Pairwise fun v w => rel v.post w.pre := by
  induction steps generalizing s with
  | nil =>
    rw [(pure_ok_iff.mp h).2]
    exact ⟨hrefl s, fun w hw => (by cases hw), .nil⟩
  | cons step steps ih =>
    obtain ⟨s₁, hperform, hrest⟩ := performAll_cons.mp h
    have hfirst := hstep step s s₁ hperform
    obtain ⟨hlast, hmem, hpair⟩ := ih hrest
    unfold visits
    simp only [hperform]
    refine ⟨htrans _ _ _ hfirst hlast, fun w hw => ?_, pairwise_cons.mpr ⟨?_, hpair⟩⟩
    · rcases mem_cons.mp hw with rfl | hw
      · exact ⟨hrefl s, hlast⟩
      · exact ⟨htrans _ _ _ hfirst (hmem w hw).1, (hmem w hw).2⟩
    · exact fun w hw => (hmem w hw).1

theorem execute_related {c : TokenCall} (h : ∀ w ∈ c.visits env abi depth s, rel w.pre w.post) :
    rel s (c.execute env abi depth s) := by
  have hsteps : ∀ {ctx steps s t}, performAll env ctx false steps s = .ok () t →
      (∀ w ∈ visits env ctx false steps s, rel w.pre w.post) → rel s t := by
    intro ctx steps s t hok hrel
    induction steps generalizing s with
    | nil =>
      rw [(pure_ok_iff.mp hok).2]
      exact hrefl s
    | cons step steps ih =>
      obtain ⟨s₁, hperform, hrest⟩ := performAll_cons.mp hok
      unfold visits at hrel
      simp only [hperform] at hrel
      have hfirst := hrel _ mem_cons_self
      exact htrans _ _ _ hfirst (ih hrest fun w hw => hrel w (mem_cons_of_mem _ hw))
  unfold TokenCall.execute
  unfold TokenCall.visits at h
  cases hdispatch : dispatch env abi c.ctx depth c.calldata s with
  | error e t => exact hrefl s
  | ok a t =>
    simp only [hdispatch] at h
    exact hsteps (dispatch_ok hdispatch) h

/-- A relation that a call breaks is broken by one of its steps. -/
theorem exists_visit {c : TokenCall} (h : ¬ rel s (c.execute env abi depth s)) :
    ∃ w ∈ c.visits env abi depth s, ¬ rel w.pre w.post := by
  by_contra hnone
  push Not at hnone
  exact h (execute_related rel hrefl htrans hnone)

theorem history_related (hstep : ∀ c ∈ calls, ∀ step s t,
      TokenStep.perform env c.ctx false step s = .ok () t → rel s t) :
    rel s (runCalls env abi depth calls s) ∧ (∀ w ∈ history env abi depth calls s, rel s w.pre) ∧
      (history env abi depth calls s).Pairwise fun v w => rel v.post w.pre := by
  induction calls generalizing s with
  | nil => exact ⟨hrefl s, fun w hw => (by cases hw), .nil⟩
  | cons c calls ih =>
    obtain ⟨hlast, hmem, hpair⟩ := ih (s := c.execute env abi depth s) fun c' hc' =>
      hstep c' (mem_cons_of_mem _ hc')
    -- a failed call has no visits and leaves the storage alone
    have hcall : rel s (c.execute env abi depth s) ∧
        (∀ w ∈ c.visits env abi depth s, rel s w.pre ∧ rel w.post (c.execute env abi depth s)) ∧
        (c.visits env abi depth s).Pairwise fun v w => rel v.post w.pre := by
      unfold TokenCall.execute TokenCall.visits
      cases hdispatch : dispatch env abi c.ctx depth c.calldata s with
      | error e t => exact ⟨hrefl s, fun w hw => (by cases hw), .nil⟩
      | ok a t =>
        exact visits_related rel hrefl htrans (hstep c mem_cons_self) (dispatch_ok hdispatch)
    obtain ⟨hexecute, hvisits, hvisitsPair⟩ := hcall
    refine ⟨htrans _ _ _ hexecute hlast, fun w hw => ?_, ?_⟩
    · rcases mem_append.mp hw with hw | hw
      · exact (hvisits w hw).1
      · exact htrans _ _ _ hexecute (hmem w hw)
    · refine pairwise_append.mpr ⟨hvisitsPair, hpair, fun v hv w hw => ?_⟩
      exact htrans _ _ _ (hvisits v hv).2 (hmem w hw)

end Invariants

/-- What every step keeps holds in every storage of a run. -/
theorem history_invariant (inv : B20AssetStorage → Prop) (hstep : ∀ c ∈ calls, ∀ step s t,
      TokenStep.perform env c.ctx false step s = .ok () t → inv s → inv t)
    (hs : inv s) :
    inv (runCalls env abi depth calls s) ∧
      ∀ w ∈ history env abi depth calls s, inv w.pre ∧ inv w.post := by
  have hkept : (inv s → inv (runCalls env abi depth calls s)) ∧
      (∀ w ∈ history env abi depth calls s, inv s → inv w.pre) ∧ _ :=
    history_related (fun s t => inv s → inv t) (fun _ h => h) (fun _ _ _ h h' hs => h' (h hs)) hstep
  obtain ⟨hlast, hmem, -⟩ := hkept
  refine ⟨hlast hs, fun w hw => ⟨hmem w hw hs, ?_⟩⟩
  obtain ⟨⟨c, hc, hctx⟩, hperform⟩ := call_of_mem_history hw
  exact hstep c hc _ _ _ (hctx ▸ hperform) (hmem w hw hs)

/-! ## Effects of the steps -/

instance (id description uri : String) :
    Frames slots ((TokenStep.beginAnnounce id description uri).perform env ctx privileged) :=
  inferInstanceAs (Frames slots (beginAnnounce ctx id description uri privileged))

instance (id : String) : Frames slots ((TokenStep.endAnnounce id).perform env ctx privileged) :=
  inferInstanceAs (Frames slots (endAnnounce id))

/-- What a step leaves in the ledger: the ends of an announcement leave it alone. -/
def StepEffect (env : B20Env) (ctx : CallContext) (privileged : Bool) (s : B20AssetStorage) :
    TokenStep → B20AssetStorage → Prop
  | .operation o, t => Effect env ctx privileged s o t
  | .beginAnnounce _ _ _, t | .endAnnounce _, t => SameSlots s t

theorem perform_ok (h : step.perform env ctx privileged s = .ok u t) :
    StepEffect env ctx privileged s step t := by
  cases step with
  | operation o =>
    obtain ⟨v, _, hhandle, hreturn⟩ := bind_ok_iff.mp h
    rw [(pure_ok_iff.mp hreturn).2]
    exact handle_ok hhandle
  | beginAnnounce _ _ _ | endAnnounce _ => exact sameSlots_of_frames h

/-- An invariant of the ledger holds along a run if every operation keeps it. -/
theorem perform_keeps {inv : B20AssetStorage → Prop} (hsame : ∀ s t, SameLedger s t → inv s → inv t)
    (heffect : ∀ o s t, Effect env ctx privileged s o t → inv s → inv t)
    (h : step.perform env ctx privileged s = .ok u t) (hs : inv s) : inv t := by
  have hstep := perform_ok h
  cases step with
  | operation o => exact heffect o s t hstep hs
  | beginAnnounce _ _ _ | endAnnounce _ => exact hsame s t (SameSlots.toSameLedger hstep) hs

/-! ## Created tokens -/

/-- A step of the factory. -/
def InitStep (env : B20Env) (ctx : CallContext) (s t : B20AssetStorage) : Prop :=
  ∃ step, TokenStep.perform env ctx true step s = .ok () t

/-- The storage that a creation writes before it grants the admin role. -/
def freshStorage (address : Address) (params : B20AssetCreateParams) : B20AssetStorage :=
  (B20AssetStorage.empty address).setCode.writeInit params.name params.symbol b20MaxSupplyCap 0
    params.decimals

/-- The storage in which the calls of a creation start. -/
def adminStorage (address : Address) (params : B20AssetCreateParams) : B20AssetStorage :=
  if params.initialAdmin ≠ Address.zero then
    (freshStorage address params).granted B20TokenRole.defaultAdmin.id params.initialAdmin
  else freshStorage address params

theorem createB20Asset_ok {params : B20AssetCreateParams} {initCalls : List Bytes} {address : Address}
    (h : createB20Asset env abi ctx depth params initCalls (.empty address) = .ok u t) :
    ∃ s, SameSlots (adminStorage address params) s ∧
      Relation.ReflTransGen (InitStep env { ctx with caller := factoryAddress }) s t := by
  have hroutes : ∀ (entry : Bytes × ℕ) s t, (do
      let _ ← mapError (initCallError entry.2)
        (route env abi { ctx with caller := factoryAddress } true depth entry.1)) s = .ok () t →
      Relation.ReflTransGen (InitStep env { ctx with caller := factoryAddress }) s t := by
    intro entry s t hcall
    obtain ⟨v, w, hroute, hreturn⟩ := bind_ok_iff.mp hcall
    rw [(pure_ok_iff.mp hreturn).2]
    rw [mapError_ok_iff] at hroute
    exact (visits_related _ (fun _ => .refl) (fun _ _ _ => .trans)
      (fun step _ _ hstep => .single ⟨step, hstep⟩) (route_ok hroute)).1
  unfold createB20Asset at h
  simp only [bind_ok_iff, ensure_ok_iff, get_bind, modify_ok_iff] at h
  obtain ⟨_, _, ⟨-, rfl⟩, _, _, ⟨-, rfl⟩, _, _, ⟨-, rfl⟩, _, _, rfl, _, _, rfl, h⟩ := h
  unfold adminStorage
  split_ifs at h ⊢
  · obtain ⟨_, s₁, hgrant, hloop⟩ := bind_ok_iff.mp h
    exact ⟨s₁, grantRoleUnchecked_ok hgrant,
      forM_ok_related _ (fun _ => .refl) (fun _ _ _ => .trans) hroutes hloop⟩
  · exact ⟨_, .refl _, forM_ok_related _ (fun _ => .refl) (fun _ _ _ => .trans) hroutes h⟩

/-- What the creation starts from and every privileged operation keeps holds of every created
token. -/
theorem created_invariant {inv : B20AssetStorage → Prop} (hsame : ∀ s t, SameLedger s t → inv s → inv t)
    (heffect : ∀ o s t, Effect env { ctx with caller := factoryAddress } true s o t → inv s → inv t)
    {params : B20AssetCreateParams} {initCalls : List Bytes} {address : Address}
    (hstart : inv (adminStorage address params))
    (h : createB20Asset env abi ctx depth params initCalls (.empty address) = .ok u t) : inv t := by
  obtain ⟨s, hs, hsteps⟩ := createB20Asset_ok h
  clear h
  induction hsteps with
  | refl => exact hsame _ _ hs.1 hstart
  | tail _ hstep ih =>
    obtain ⟨step, hstep⟩ := hstep
    exact perform_keeps hsame heffect hstep ih

end NodeReth
