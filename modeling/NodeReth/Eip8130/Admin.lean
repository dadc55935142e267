import NodeReth.Eip8130.Replay

/-!
# Only admins change an account

What an accepted authentication blob proves: a signature over the hash by an actor that is bound to
the account under the authenticator in the blob and has not expired, or, for the delegate
authenticator, by such an actor of the account that is delegated to, which must be an admin there.
An accepted transaction changes slots of its sender only, and each of its batches is signed by an
admin in the state that the changes before it have left (`only_admins_change`).
-/

namespace NodeReth.Eip8130

open AccountChangeApplier AccountConfigurationStorage ActorAuthorizer Bool Bytes
  ConfigChangeAuthorizer Fallible List Option Runs TransactionAuthorizer

variable {p q : Progress}

/-! ## Actors -/

/-- The configurations under which an actor is bound to an account: the entry of the actor, and for
the account itself the inline key unless it is disabled. An empty slot is no entry. -/
inductive Bound (s : AccountConfigurationStorage) (account : Address) : B256 → ActorConfig → Prop
  | entry (id : B256) : id ≠ FixedBytes.zero 32 → (s.actorConfigSlot account id).isEmpty = false →
      Bound s account id (s.actorConfigSlot account id)
  | inline : (s.getAccountState account).defaultEoaRevoked = false →
      Bound s account (selfActorId account) ⟨k1Authenticator,
        (s.getAccountState account).defaultEoaExpiry, (s.getAccountState account).defaultEoaScope⟩

/-- The actor is bound to the account under the authenticator and has not expired. -/
def LiveActor (s : AccountConfigurationStorage) (now : UInt64) (account authenticator : Address)
    (actor : ResolvedActor) : Prop :=
  ∃ config, Bound s account actor.actorId config ∧ config.authenticator = authenticator ∧
    config.scope = actor.scope ∧ config.expiry = actor.expiry ∧ config.isExpired now = false

/-- The data is a signature over the hash by the key with this id, under an authenticator that checks
signatures itself. -/
def Signs (env : Env) (hash : B256) (authenticator : Address) (data : Bytes) (id : B256) : Prop :=
  (authenticator = k1Authenticator ∧
    ∃ recovered, RecoveredActorId.recoverK1 env hash data = .ok recovered ∧ recovered.actorId = id) ∨
  ((authenticator = p256Authenticator ∨ authenticator = webauthnAuthenticator) ∧
    AuthenticatorDispatch.authenticate env hash authenticator data = .ok (.authenticated id))

def Authenticated (env : Env) (s : AccountConfigurationStorage) (now : UInt64) (account : Address)
    (hash : B256) (auth : Bytes) (actor : ResolvedActor) : Prop :=
  ∃ (authenticator : Address) (data : Bytes), auth = authenticator.val ++ data ∧
    LiveActor s now account authenticator actor ∧
    (Signs env hash authenticator data actor.actorId ∨
      authenticator = delegateAuthenticator ∧
        ∃ (delegate nestedAuthenticator : Address) (nestedData : Bytes) (nested : ResolvedActor),
          data = delegate.val ++ (nestedAuthenticator.val ++ nestedData) ∧
          actor.actorId = selfActorId delegate ∧ nestedAuthenticator ≠ delegateAuthenticator ∧
          Signs env hash nestedAuthenticator nestedData nested.actorId ∧
          LiveActor s now delegate nestedAuthenticator nested ∧ nested.scope = 0)

def AdminSigned (env : Env) (s : AccountConfigurationStorage) (now : UInt64) (account : Address)
    (hash : B256) (auth : Bytes) : Prop :=
  ∃ actor, actor.scope = 0 ∧ Authenticated env s now account hash auth actor

variable {s t : AccountConfigurationStorage} {now : UInt64}

section Authentication

variable {env : Env} {account authenticator : Address} {hash : B256} {data : Bytes}
  {accountState : Option AccountState} {actor : ResolvedActor} {id : B256} {auth : Bytes}

theorem not_isExpired {config : ActorConfig}
    (h : ¬(config.expiry ≠ 0 ∧ now > config.expiry)) : config.isExpired now = false := by
  unfold ActorConfig.isExpired
  simpa using h

theorem Signs.ne_zero (h : Signs env hash authenticator data id) :
    authenticator ≠ FixedBytes.zero 20 := by
  rcases h with ⟨rfl, -⟩ | ⟨rfl | rfl, -⟩ <;> decide

theorem resolveBound_ok (hzero : authenticator ≠ FixedBytes.zero 20)
    (h : resolveBound s account id authenticator now = .ok actor) :
    actor.actorId = id ∧ LiveActor s now account authenticator actor := by
  obtain ⟨_, hid, h⟩ := bind_ok_iff.mp h
  obtain ⟨_, hauthenticator, h⟩ := bind_ok_iff.mp h
  obtain ⟨_, hexpiry, ⟨⟩⟩ := bind_return_ok h
  have hauthenticator := not_not.mp (failIf_ok_iff.mp hauthenticator)
  refine ⟨rfl, _, .entry id (failIf_ok_iff.mp hid) ?_, hauthenticator, rfl, rfl,
    not_isExpired (failIf_ok_iff.mp hexpiry)⟩
  exact decide_eq_false (hauthenticator ▸ hzero)

/-- A state that the caller passes must be the one in storage. -/
theorem authorizeK1_ok {recovered : RecoveredActorId}
    (hstate : accountState.getD (s.getAccountState account) = s.getAccountState account)
    (h : authorizeK1WithAccountState s account recovered now accountState = .ok actor) :
    actor.actorId = recovered.actorId ∧ LiveActor s now account k1Authenticator actor := by
  unfold authorizeK1WithAccountState at h
  by_cases hself : recovered.actorId = selfActorId account
  · rw [if_pos hself] at h
    obtain ⟨_, hrevoked, h⟩ := bind_ok_iff.mp h
    obtain ⟨_, hexpiry, ⟨⟩⟩ := bind_return_ok h
    rw [hstate] at hrevoked hexpiry ⊢
    refine ⟨rfl, ?_⟩
    refine ⟨⟨k1Authenticator, (s.getAccountState account).defaultEoaExpiry,
      (s.getAccountState account).defaultEoaScope⟩, ?_, rfl, rfl, rfl,
      not_isExpired (failIf_ok_iff.mp hexpiry)⟩
    rw [hself]
    exact .inline (eq_false_of_not_eq_true (failIf_ok_iff.mp hrevoked))
  · rw [if_neg hself] at h
    exact resolveBound_ok (by decide) h

theorem dispatch_authenticated (hk1 : authenticator ≠ k1Authenticator)
    (h : AuthenticatorDispatch.authenticate env hash authenticator data =
      .ok (.authenticated id)) : Signs env hash authenticator data id := by
  refine .inr ⟨?_, h⟩
  unfold AuthenticatorDispatch.authenticate at h
  rw [if_neg hk1] at h
  split_ifs at h with hp256 hwebauthn hdelegate
  · exact .inl hp256
  · exact .inr hwebauthn
  · -- the delegate authenticator never authenticates by itself
    unfold AuthenticatorDispatch.delegate at h
    split_ifs at h
    obtain ⟨_, -, ⟨⟩⟩ := bind_return_ok h

theorem dispatch_delegated {delegate : Address}
    (h : AuthenticatorDispatch.authenticate env hash authenticator data =
      .ok (.delegated id delegate)) :
    authenticator = delegateAuthenticator ∧ data.take 20 = delegate.val ∧ id = selfActorId delegate := by
  unfold AuthenticatorDispatch.authenticate at h
  split_ifs at h with hk1 hp256 hwebauthn hdelegate
  iterate 3 · obtain ⟨_, -, ⟨⟩⟩ := bind_return_ok h
  · unfold AuthenticatorDispatch.delegate at h
    split_ifs at h
    obtain ⟨_, -, ⟨⟩⟩ := bind_return_ok h
    exact ⟨hdelegate, rfl, rfl⟩

/-- A blob is the address of an authenticator and its data. -/
theorem authenticateActorWithAccountState_ok
    (h : authenticateActorWithAccountState env s account hash auth now accountState = .ok actor) :
    ∃ (authenticator : Address) (data : Bytes), auth = authenticator.val ++ data ∧
      authenticate env s account hash authenticator data now accountState = .ok actor := by
  rw [authenticateActorWithAccountState] at h
  split_ifs at h
  refine ⟨_, _, ?_, h⟩
  exact (take_append_drop 20 auth).symm

theorem authenticate_ok
    (hstate : accountState.getD (s.getAccountState account) = s.getAccountState account)
    (h : authenticate env s account hash authenticator data now accountState = .ok actor) :
    LiveActor s now account authenticator actor ∧
      (Signs env hash authenticator data actor.actorId ∨
        authenticator = delegateAuthenticator ∧ ∃ (delegate : Address) (nested : ResolvedActor),
          data.take 20 = delegate.val ∧ actor.actorId = selfActorId delegate ∧
          (data.drop 20).take 20 ≠ delegateAuthenticator.val ∧
          authenticateActorWithAccountState env s delegate hash (data.drop 20) now none = .ok nested ∧
          nested.scope = 0) := by
  rw [authenticate] at h
  split_ifs at h with hk1
  · obtain ⟨recovered, hrecovered, h⟩ := bind_ok_iff.mp h
    obtain ⟨hid, hlive⟩ := authorizeK1_ok hstate h
    exact ⟨hk1 ▸ hlive, .inl (.inl ⟨hk1, recovered, mapError_ok_iff.mp hrecovered, hid.symm⟩)⟩
  · obtain ⟨outcome, hdispatch, h⟩ := bind_ok_iff.mp h
    have hdispatch := mapError_ok_iff.mp hdispatch
    cases outcome with
    | authenticated id =>
      have hsigns := dispatch_authenticated hk1 hdispatch
      obtain ⟨hid, hlive⟩ := resolveBound_ok hsigns.ne_zero h
      exact ⟨hlive, .inl (hid ▸ hsigns)⟩
    | delegated id delegate =>
      obtain ⟨hdelegate, htake, hself⟩ := dispatch_delegated hdispatch
      obtain ⟨_, hdepth, h⟩ := bind_ok_iff.mp h
      obtain ⟨nested, hnested, h⟩ := bind_ok_iff.mp h
      obtain ⟨_, hscope, h⟩ := bind_ok_iff.mp h
      obtain ⟨hid, hlive⟩ := resolveBound_ok (by decide) h
      exact ⟨hdelegate ▸ hlive, .inr ⟨hdelegate, delegate, nested, htake, hid.trans hself,
        failIf_ok_iff.mp hdepth, hnested, not_not.mp (failIf_ok_iff.mp hscope)⟩⟩

theorem authenticated_of_ok
    (hstate : accountState.getD (s.getAccountState account) = s.getAccountState account)
    (h : authenticateActorWithAccountState env s account hash auth now accountState = .ok actor) :
    Authenticated env s now account hash auth actor := by
  obtain ⟨authenticator, data, hauth, h⟩ := authenticateActorWithAccountState_ok h
  refine ⟨authenticator, data, hauth, ?_⟩
  obtain ⟨hlive, hsigns | ⟨hdelegate, delegate, nested, htake, hself, hdepth, hnested, hscope⟩⟩ :=
    authenticate_ok hstate h
  · exact ⟨hlive, .inl hsigns⟩
  -- the blob of the delegate is not one of the delegate authenticator, so there is a signature in it
  obtain ⟨nestedAuthenticator, nestedData, hsplit, hnested⟩ :=
    authenticateActorWithAccountState_ok hnested
  have hother : nestedAuthenticator ≠ delegateAuthenticator := by
    rintro rfl
    rw [hsplit] at hdepth
    exact hdepth (take_left' delegateAuthenticator.2)
  obtain ⟨hnestedLive, hsigns | ⟨hagain, -⟩⟩ := authenticate_ok (getD_none ..) hnested
  · refine ⟨hlive, .inr ⟨hdelegate, delegate, nestedAuthenticator, nestedData, nested, ?_, hself,
      hother, hsigns, hnestedLive, hscope⟩⟩
    rw [← hsplit, ← htake, take_append_drop]
  · exact absurd hagain hother

theorem authorizeScoped_ok {operation : Operation}
    (h : ActorTxVerifier.authorizeScoped env s account hash auth operation now = .ok actor) :
    Authenticated env s now account hash auth actor := by
  obtain ⟨actor', hactor, h⟩ := bind_ok_iff.mp h
  obtain ⟨_, -, ⟨⟩⟩ := bind_return_ok h
  exact authenticated_of_ok (getD_none ..) (mapError_ok_iff.mp hactor)

end Authentication

/-! ## Sender and payer -/

section Actors

variable {env : Env} {signed : Eip8130Signed} {account : Address}
  {recovered : Option RecoveredActorId}

/-- The sender's blob proves the actor; without an explicit sender it is a signature of the account's
own key. -/
def SenderSigned (env : Env) (signed : Eip8130Signed) (s : AccountConfigurationStorage) (now : UInt64)
    (account : Address) (actor : ResolvedActor) : Prop :=
  match signed.explicitSender with
  | some _ => Authenticated env s now account (signed.tx.senderSignatureHash env) signed.senderAuth
      actor
  | none => signed.recoverEoaSender env = .ok (some account) ∧
      actor.actorId = selfActorId account ∧ LiveActor s now account k1Authenticator actor

/-- The payer is the one that the transaction names, and its blob proves the actor. -/
def PayerSigned (env : Env) (signed : Eip8130Signed) (s : AccountConfigurationStorage) (now : UInt64)
    (account : Address) (payer : AuthorizedActor) : Prop :=
  signed.tx.payer = some payer.account ∧ Authenticated env s now payer.account
    (signed.tx.payerSignatureHash env account) signed.payerAuth payer.resolved

theorem recoverEoaSender_ok {signer : RecoveredActorId}
    (h : RecoveredActorId.recoverEoaSender env signed = .ok (some signer)) :
    signed.recoverEoaSender env = .ok (some signer.address) := by
  obtain ⟨address, haddress, heq⟩ := bind_return_ok h
  obtain ⟨a, rfl, rfl⟩ := map_eq_some_iff.mp heq
  exact mapError_ok_iff.mp haddress

theorem verifySender_ok (hsender : resolveSender env signed = .ok (account, recovered))
    {a : AuthorizedActor} (h : ActorTxVerifier.verifySender env signed s now recovered = .ok a) :
    a.account = account ∧ SenderSigned env signed s now account a.resolved := by
  unfold resolveSender at hsender
  unfold ActorTxVerifier.verifySender at h
  unfold SenderSigned
  cases hexplicit : signed.explicitSender with simp only [hexplicit] at hsender h ⊢
  | some explicit =>
    cases hsender
    obtain ⟨actor, hactor, h⟩ := bind_ok_iff.mp h
    obtain ⟨_, -, ⟨⟩⟩ := bind_return_ok h
    exact ⟨rfl, authorizeScoped_ok hactor⟩
  | none =>
    obtain ⟨o, hrecover, hsender⟩ := bind_ok_iff.mp hsender
    obtain ⟨signer, hsigned, ⟨⟩⟩ := bind_return_ok hsender
    obtain ⟨signer', hsigner, h⟩ := bind_ok_iff.mp h
    cases hsigner
    obtain ⟨actor, hactor, h⟩ := bind_ok_iff.mp h
    obtain ⟨_, -, h⟩ := bind_ok_iff.mp h
    obtain ⟨_, -, ⟨⟩⟩ := bind_return_ok h
    obtain rfl := orFail_ok_iff.mp hsigned
    obtain ⟨hid, hlive⟩ := authorizeK1_ok (getD_none ..) (mapError_ok_iff.mp hactor)
    exact ⟨rfl, recoverEoaSender_ok (mapError_ok_iff.mp hrecover), hid, hlive⟩

theorem verifyWithRecoveredSender_ok (hsender : resolveSender env signed = .ok (account, recovered))
    {actors : TxActors}
    (h : ActorTxVerifier.verifyWithRecoveredSender env signed s now recovered = .ok actors) :
    (actors.sender.account = account ∧
      SenderSigned env signed s now account actors.sender.resolved) ∧
    ∀ payer, actors.payer = some payer → PayerSigned env signed s now account payer := by
  obtain ⟨sender, hverify, h⟩ := bind_ok_iff.mp h
  have hsenderOk := verifySender_ok hsender hverify
  unfold PayerSigned
  cases hpayer : signed.tx.payer with simp only [hpayer] at h ⊢
  | none =>
    obtain ⟨_, -, ⟨⟩⟩ := bind_return_ok h
    exact ⟨hsenderOk, nofun⟩
  | some payer =>
    obtain ⟨actor, hactor, ⟨⟩⟩ := bind_return_ok h
    refine ⟨hsenderOk, fun p hp => ?_⟩
    cases hp
    rw [hsenderOk.1] at hactor
    exact ⟨rfl, authorizeScoped_ok hactor⟩

end Actors

/-! ## Accepted transactions -/

/-- What holds of a transaction that was accepted for the sender account and took the storage from
`s` to `t`. -/
structure Accepted (env : Env) (signed : Eip8130Signed) (chainId now : UInt64)
    (s t : AccountConfigurationStorage) (result : AppliedTransaction) (account : Address) : Prop where
  sender : result.actors.sender.account = account
  frame : OnlyAccount account s t
  create : ∀ entry, .create entry ∈ signed.tx.accountChanges →
    (s.getAccountState account).isInitialized = false ∧
    computeAddress env entry.userSalt entry.code entry.initialActors = .ok account
  /-- The batch is signed by an admin in the state that the changes before it have left. -/
  configChange : ∀ before cc rest, signed.tx.accountChanges = before ++ .configChange cc :: rest →
    ∃ mid, before.zipIdx.foldlM (step env account chainId now) (Progress.start s) = .ok mid ∧
      AdminSigned env mid.storage now account (changesDigest env account chainId cc) cc.signature
  delegation : result.applied.delegation.isSome = true →
    result.actors.sender.resolved.scope = 0 ∧ t.isLocked account now = false
  senderSigned : SenderSigned env signed t now account result.actors.sender.resolved
  payerSigned : ∀ payer, result.actors.payer = some payer →
    PayerSigned env signed t now account payer

section

variable {account : Address} {chainId : UInt64} {env : Env}

theorem adminSigned_of_step {cc : SignedAccountChanges} {i : ℕ}
    (h : step env account chainId now p (.configChange cc, i) = .ok q) :
    AdminSigned env p.storage now account (changesDigest env account chainId cc) cc.signature := by
  obtain ⟨actor, -, hauthorize, -, -⟩ := step_configChange h
  obtain ⟨-, hactor, hadmin⟩ := authorizeWithAccountState_ok hauthorize
  exact ⟨actor, hadmin, authenticated_of_ok (getD_some ..) hactor⟩

theorem step_of_mem {before rest : List AccountChange} {change : AccountChange}
    (h : (before ++ change :: rest).zipIdx.foldlM (step env account chainId now) p = .ok q) :
    ∃ mid next, before.zipIdx.foldlM (step env account chainId now) p = .ok mid ∧
      step env account chainId now mid (change, before.length) = .ok next := by
  rw [zipIdx_append, Nat.zero_add] at h
  obtain ⟨mid, hmid, h⟩ := foldlM_append_ok_iff.mp h
  obtain ⟨next, hnext, -⟩ := foldlM_cons_ok_iff.mp h
  exact ⟨mid, next, hmid, hnext⟩

theorem accepted_of_ok {signed : Eip8130Signed} {result : AppliedTransaction}
    {recovered : Option RecoveredActorId}
    (hsender : resolveSender env signed = .ok (account, recovered))
    (h : authorizeAndApply env signed s chainId now = .ok (result, t)) :
    Accepted env signed chainId now s t result account := by
  obtain ⟨account', recovered', p, hsender', hfold, hactors, hdelegation, happlied, rfl⟩ :=
    authorizeAndApply_ok h
  cases hsender.symm.trans hsender'
  obtain ⟨⟨haccount, hlive⟩, hpayer⟩ := verifyWithRecoveredSender_ok hsender hactors
  refine ⟨haccount, ?_, ?_, ?_, ?_, hlive, hpayer⟩
  · exact foldlM_related (fun p q : Progress => OnlyAccount account p.storage q.storage)
      (fun _ => .refl _ _) (fun _ _ _ => .trans) (fun change _ p q h =>
        AppliedChange.Stepped.onlyAccount (v := ⟨account, now, change.1, p.storage, q.storage⟩)
          ⟨p, q, change.2, h, rfl, rfl⟩) hfold
  · intro entry hentry
    obtain ⟨before, rest, hsplit⟩ := append_of_mem hentry
    rw [hsplit] at hfold
    obtain ⟨mid, next, hmid, hstep⟩ := step_of_mem hfold
    obtain ⟨hfirst, created, hcreate, haddress⟩ := step_create hstep
    obtain ⟨hcompute, hnew, -⟩ := computeAddress_of_applyCreate hcreate
    -- a creation is the first change, so it finds the storage as it was
    cases length_eq_zero_iff.mp hfirst
    cases hmid
    rw [haddress] at hcompute hnew
    exact ⟨eq_false_of_not_eq_true hnew, hcompute⟩
  · intro before cc rest hsplit
    rw [hsplit] at hfold
    obtain ⟨mid, next, hmid, hstep⟩ := step_of_mem hfold
    exact ⟨mid, hmid, adminSigned_of_step hstep⟩
  · intro hsome
    rw [happlied] at hsome
    have hauthorized := hdelegation hsome
    obtain ⟨_, hlocked, hadmin⟩ := bind_ok_iff.mp hauthorized
    rw [haccount] at hlocked
    refine ⟨?_, eq_false_of_not_eq_true (failIf_ok_iff.mp hlocked)⟩
    exact of_decide_eq_true (eq_true_of_not_eq_false (failIf_ok_iff.mp hadmin))

/-! ## Runs -/

/-- No slot of the account differs. -/
structure SameSlots (account : Address) (s t : AccountConfigurationStorage) : Prop where
  actors : ∀ id, t.actors id account = s.actors id account
  policyManager : ∀ id, t.policyManager id account = s.policyManager id account
  policyCommitment : ∀ id, t.policyCommitment id account = s.policyCommitment id account
  accountState : t.accountState account = s.accountState account

namespace SameSlots

variable {account : Address} {u : AccountConfigurationStorage}

theorem refl (account : Address) (s : AccountConfigurationStorage) : SameSlots account s s :=
  ⟨fun _ => rfl, fun _ => rfl, fun _ => rfl, rfl⟩

theorem trans (h : SameSlots account s t) (h' : SameSlots account t u) : SameSlots account s u where
  actors id := (h'.actors id).trans (h.actors id)
  policyManager id := (h'.policyManager id).trans (h.policyManager id)
  policyCommitment id := (h'.policyCommitment id).trans (h.policyCommitment id)
  accountState := h'.accountState.trans h.accountState

theorem of_onlyAccount {other : Address} (h : OnlyAccount other s t) (hne : account ≠ other) :
    SameSlots account s t where
  actors id := h.actors id account hne
  policyManager id := h.policyManager id account hne
  policyCommitment id := h.policyCommitment id account hne
  accountState := h.accountState account hne

end SameSlots

namespace AppliedChange

variable {env : Env} {chainId : UInt64} {v : AppliedChange}

/-- The change creates its account, at the address of its entry, or an admin of the account in the
storage before the change has signed it. -/
def Rightful (env : Env) (chainId : UInt64) (v : AppliedChange) : Prop :=
  (∃ entry, v.change = .create entry ∧ v.stateBefore.isInitialized = false ∧
    computeAddress env entry.userSalt entry.code entry.initialActors = .ok v.account) ∨
  ∃ cc, v.change = .configChange cc ∧ AdminSigned env v.before v.now v.account
    (changesDigest env v.account chainId cc) cc.signature

theorem Stepped.rightful (h : v.Stepped env chainId) (hchanged : v.after ≠ v.before) :
    v.Rightful env chainId := by
  cases hchange : v.change with
  | create entry =>
    obtain ⟨p, q, i, hstep, hp, -⟩ := h
    rw [hchange] at hstep
    obtain ⟨-, created, hcreate, haddress⟩ := step_create hstep
    obtain ⟨hcompute, hnew, -⟩ := computeAddress_of_applyCreate hcreate
    rw [haddress] at hcompute
    rw [haddress, hp] at hnew
    exact .inl ⟨entry, hchange, eq_false_of_not_eq_true hnew, hcompute⟩
  | configChange cc =>
    obtain ⟨p, q, i, hstep, hp, -⟩ := h
    rw [hchange] at hstep
    have hsigned := adminSigned_of_step hstep
    rw [hp] at hsigned
    exact .inr ⟨cc, hchange, hsigned⟩
  | delegation target => exact absurd (h.same hchange) hchanged

end AppliedChange

/-- An account that differs after a run was changed by one of its admins, or created. -/
theorem exists_rightful_of_changed {txs : List Timed}
    (h : ¬SameSlots account s (run env chainId s txs)) :
    ∃ v ∈ history env chainId s txs, v.account = account ∧ v.Rightful env chainId := by
  by_contra hnone
  apply h
  refine (history_linked s txs).related (SameSlots account) (SameSlots.refl account)
    (fun _ _ _ => .trans) fun v hv => ?_
  have hstepped := history_stepped hv
  by_cases haccount : v.account = account
  · by_cases hchanged : v.after = v.before
    · rw [hchanged]
      exact .refl account _
    · exact absurd ⟨v, hv, haccount, hstepped.rightful hchanged⟩ hnone
  · exact .of_onlyAccount hstepped.onlyAccount (Ne.symm haccount)

/-- Only admins change an account: what an accepted transaction implies, and that whatever differs
after any run of transactions goes back to a change of the account by one of its admins, or to its
creation. -/
theorem only_admins_change {env : Env} {signed : Eip8130Signed} {chainId now : UInt64}
    {s t : AccountConfigurationStorage} {result : AppliedTransaction}
    (h : authorizeAndApply env signed s chainId now = .ok (result, t)) :
    (∃ account recovered, resolveSender env signed = .ok (account, recovered) ∧
      Accepted env signed chainId now s t result account) ∧
    ∀ u txs account, ¬SameSlots account u (run env chainId u txs) →
      ∃ v ∈ history env chainId u txs, v.account = account ∧ v.Rightful env chainId := by
  refine ⟨?_, fun u txs account => exists_rightful_of_changed⟩
  obtain ⟨account, recovered, -, hsender, -⟩ := authorizeAndApply_ok h
  exact ⟨account, recovered, hsender, accepted_of_ok hsender h⟩

end

namespace CreateExample

/-! An account is created with two admins, a key and a delegate. The delegate increments the epoch,
the key sends the transaction, and another account pays for it. -/

def key : Address := fixedBe 20 0x3738b6588213ca533eaa60977832b586ec8d7b4c
def delegate : Address := fixedBe 20 0xecc7db48ab5181e5e53ae1fae149e13835798edd
def payer : Address := fixedBe 20 0x412b6f5f4dee83bbc263b4e817a8b07ed1a89659
def account : Address := fixedBe 20 0x808dc0edb5901aa2f9ad58955cf7e3e7937eecb4

def publicKeys : List (FixedBytes 64 × B256) :=
  [(fixedBe 64 0x9ecdff5b8bc38696587ef1effbc9fc44a4b12854492b1d2970e942aed2787ffcc4d14a6b8bfb0be32490bfbcaffc8273cb47e48865942201f3e084b1785b4ebd,
      fixedBe 32 0x7034bbd5d383ee60f922a1623738b6588213ca533eaa60977832b586ec8d7b4c),
    (fixedBe 64 0xd0762f4145aa0889be8a3af5668d1a7b6990618824cbf76b0e868191620669e73b0144bf4d720fec3dd49a0ed8d3edd315cbad00d6c84a4899bca9ad28eaa6f7,
      fixedBe 32 0x757b11e0b6beab7c6252d2deecc7db48ab5181e5e53ae1fae149e13835798edd),
    (fixedBe 64 0xd505871c4aea3211ed32e6be0116f60485091a0699921a558c05e257ffa6bf455007c8fcd517316bbb53075d863136a9d9bdec321bb41f913c31434745ec016b,
      fixedBe 32 0xb9ade0c1dc08582f790dd902412b6f5f4dee83bbc263b4e817a8b07ed1a89659)]

def entry : CreateEntry where
  userSalt := FixedBytes.zero 32
  code := [0x00]
  initialActors := [⟨selfActorId key, k1Authenticator, 0, []⟩,
    ⟨selfActorId delegate, delegateAuthenticator, 0, []⟩]

def delegateSignature : Bytes :=
  toBe 65 0x8e7df8c0de88903e71224c973a8ca65a0923f872841f2dccbcd69e64b1dce1eb23352be8d9e6de0ddb187cbec6bc79047ed613d122efd63fac487062225aa10d1b

def batch : SignedAccountChanges where
  channel := .localChain
  sequence := 1
  changes := [⟨.incrementLocalEpoch, []⟩]
  signature := delegateAuthenticator.val ++ (delegate.val ++ (k1Authenticator.val ++ delegateSignature))

/-- A contract that stores its input, and one that reverts. -/
def storing : Address := fixedBe 20 0x1111111111111111111111111111111111111111
def reverting : Address := fixedBe 20 0x2222222222222222222222222222222222222222

def senderSignature : Bytes :=
  toBe 65 0x2e43be7a12916cf6f312a513fcb6c98b708ce2dd18dc4ebf72a807c9c8a31b0d1aba7f3e75d0ed449acbee3120b71e9749833b49590d3d512335297145569f281b

def payerSignature : Bytes :=
  toBe 65 0x3ef30130654689a64c864d6dd38760481c55fc525e2c6c7084e2d2d3d4d51be90cfaace3a43e259f13f65160ed3e6db65e6d7f935942eba81827eb52536a5d631b

def signed : Eip8130Signed where
  tx := {
    chainId := 8453
    sender := some account
    nonceKey := 0
    nonceSequence := 0
    validAfter := 0
    validBefore := 0
    maxPriorityFeePerGas := 1
    maxFeePerGas := 2
    gasLimit := 1000000
    accountChanges := [.create entry, .configChange batch]
    calls := [[⟨storing, toBe 32 7⟩], [⟨storing, toBe 32 9⟩, ⟨reverting, []⟩]]
    metadata := []
    payer := some payer }
  senderAuth := k1Authenticator.val ++ senderSignature
  payerAuth := k1Authenticator.val ++ payerSignature

/-- The key delegates its own account. -/
def delegating : Eip8130Signed where
  tx := { signed.tx with
    sender := none
    accountChanges := [.delegation (fixedBe 20 0x3333333333333333333333333333333333333333)]
    calls := []
    payer := none }
  senderAuth :=
    toBe 65 0x6a6e1dc6f203f7fdd97965892301e5fb995a37318c410543835f0edcd3456c495b38118ed31761a8618de47b5a8c50d585ef147e2143d0c067267532e84d5bea1c
  payerAuth := []

def batchDigest : B256 :=
  fixedBe 32 0x9ff2f2e6101916b704c4a341aeb876fe97e3bbb3ea595ef66042754b7103d25d

def senderDigest : B256 :=
  fixedBe 32 0x89fc45bfec76ebb0c3806a5782f8a632f101cc62183ccb910f678d41f0fc1204

def payerDigest : B256 :=
  fixedBe 32 0x93c83d1ab7f8288fa8d21568222c65923ad2a3a4e4e34936fb14953633443dec

def delegatingDigest : B256 :=
  fixedBe 32 0x2627b206f01056fa7bac08df00d943c4700c1243490b6249c4dad3b1e6c00dfc

def keyLeaf : B256 := fixedBe 32 0x1442b62e7162bf31afae36a747e699af450df698131cb8c8920eec01643427df
def delegateLeaf : B256 := fixedBe 32 0x7ca038b560440d08f713ad598748a4c04c52e6149c1ab06e233c8627e9597f5e
def commitment : B256 := fixedBe 32 0x0848bf67d3fc2bfb58b5a88352f6ed3316cb682f5617cdf31e77610246b2598a
def salt : B256 := fixedBe 32 0x9fd896de0030898ab96c8172db8da30af40351519def0c5b7fb69e8cc2b57dab
def deploymentHash : B256 := fixedBe 32 0xcf3412914778836286f126bbb7573999088363f5e46ff9fbefe92114e610dfeb
def emptyHash : B256 := fixedBe 32 0xc5d2460186f7233c927e7db2dcc703c0e500b653ca82273b7bfad8045d85a470
def changeHash : B256 := fixedBe 32 0x244cbb510b84d74b138a51c02ded09d6bba8b4356557060fd936ca49e1f9a9f9
def changesHash : B256 := fixedBe 32 0x98386ec8400cd80b894d5febe3fb1c152fdc2beef070f889df6ddac2a944f74d

/-- The hashes in question. -/
def hashes : List (Bytes × B256) :=
  publicKeys.map (fun (x, h) => (x.val, h)) ++
  [((selfActorId key).val ++ k1Authenticator.val ++ toBe 2 0, keyLeaf),
    ((selfActorId delegate).val ++ delegateAuthenticator.val ++ toBe 2 0, delegateLeaf),
    (keyLeaf.val ++ delegateLeaf.val, commitment),
    ((FixedBytes.zero 32).val ++ commitment.val, salt),
    ([0x61, 0, 1, 0x60, 0x0e, 0x60, 0, 0x39, 0x61, 0, 1, 0x60, 0, 0xf3, 0x00], deploymentHash),
    (0xff :: (accountConfig.val ++ salt.val ++ deploymentHash.val),
      fixedBe 32 0x0407a7745a9699743765c74f808dc0edb5901aa2f9ad58955cf7e3e7937eecb4),
    ([0x00], fixedBe 32 0xbc36789e7a1e281436464229828f817d6612f7b477d66591ff96a9e064bcc98a),
    ([], emptyHash), (accountChangeTypehash.val ++ toBe 32 2 ++ emptyHash.val, changeHash),
    (changeHash.val, changesHash),
    (signedAccountChangesTypehash.val ++ (selfActorId account).val ++ toBe 32 8453 ++ toBe 32 1 ++
      changesHash.val, batchDigest),
    (eip8130TxType :: RlpFormat.writeList (signed.tx.rlpEncodeFieldsWithSender (some account)),
      senderDigest),
    (eip8130PayerType :: RlpFormat.writeList (signed.tx.rlpEncodeFieldsWithSender (some account)),
      payerDigest),
    (eip8130TxType :: RlpFormat.writeList (delegating.tx.rlpEncodeFieldsWithSender none),
      delegatingDigest)]

/-- What is signed, in the order of the keys. -/
def signatures : List (B256 × Bytes) :=
  [(senderDigest, senderSignature), (batchDigest, delegateSignature), (payerDigest, payerSignature)]

def env : Env where
  keccak256 data := (hashes.lookup data).getD (FixedBytes.zero 32)
  sha256 _ := FixedBytes.zero 32
  base64Url _ := []
  k256FromSlice _ := true
  k256HighS _ := false
  k256RecoverFromPrehash hash sig recoveryId :=
    ((signatures.zip publicKeys).find? fun (s, _) =>
      (s.1, s.2.take 64, 0) = (hash, sig, recoveryId)).map fun (_, x) => x.1
  recoverSigner sig hash :=
    if (sig, hash) = (delegating.senderAuth, delegatingDigest) then some key else none
  p256FromSec1Bytes _ := false
  p256FromSlice _ := false
  p256HighS _ := false
  p256VerifyPrehash _ _ _ := false
  abiDecodeWebAuthn _ := none
  abiEncodeWebAuthn _ := []
  abiDecodeAuthorize _ := none
  abiDecodeRevoke _ := none

def admin (a : Address) : ResolvedActor := ⟨selfActorId a, 0, FixedBytes.zero 20, 0⟩

/-- The actors that the two transactions return, and whether they create or delegate an account. -/
def applied : Except TxAuthError (List (TxActors × List ResolvedActor × Bool × Bool)) := do
  let (first, s) ← authorizeAndApply env signed .empty 8453 1000
  let (second, _) ← authorizeAndApply env delegating s 8453 1000
  return [first, second].map fun r =>
    (r.actors, r.configChanges, r.applied.created.isSome, r.applied.delegation.isSome)

theorem applied_eq : applied.toOption = some
    [(⟨⟨account, admin key⟩, some ⟨payer, admin payer⟩⟩, [admin delegate], true, false),
      (⟨⟨key, admin key⟩, none⟩, [], false, true)] := by
  decide +kernel

end CreateExample

open CreateExample

theorem only_admins_change_created : applied.toOption = some
    [(⟨⟨account, admin key⟩, some ⟨payer, admin payer⟩⟩, [admin delegate], true, false),
      (⟨⟨key, admin key⟩, none⟩, [], false, true)] ∧
    ∃ first s second t, authorizeAndApply env signed .empty 8453 1000 = .ok (first, s) ∧
      authorizeAndApply env delegating s 8453 1000 = .ok (second, t) ∧
      (∃ account recovered, resolveSender env signed = .ok (account, recovered) ∧
        Accepted env signed 8453 1000 .empty s first account) ∧
      ∃ account recovered, resolveSender env delegating = .ok (account, recovered) ∧
        Accepted env delegating 8453 1000 s t second account := by
  refine ⟨applied_eq, ?_⟩
  have happlied := applied_eq
  cases hok : applied with rw [hok] at happlied
  | error e => cases happlied
  | ok r =>
    obtain ⟨⟨first, s⟩, hfirst, hok⟩ := bind_ok_iff.mp hok
    obtain ⟨⟨second, t⟩, hsecond, -⟩ := bind_ok_iff.mp hok
    exact ⟨first, s, second, t, hfirst, hsecond, (only_admins_change hfirst).1,
      (only_admins_change hsecond).1⟩

end NodeReth.Eip8130
