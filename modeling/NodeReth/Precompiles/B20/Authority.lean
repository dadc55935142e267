import NodeReth.Precompiles.B20.Funds

/-!
# Who may spend

A balance goes down only by the act of its owner, by a spender within the allowance the owner gave,
or by the holder of a role over an account that the policies single out. An allowance goes up only
by the act of the owner or by a permit that the owner signed for the current nonce, and since the
nonces of an owner only grow, no signature is accepted twice.
-/

namespace NodeReth

open B20AssetStorage B20Guards Bytes Checked Effects List

variable {env : B20Env} {abi : AssetAbi} {ctx : CallContext} {privileged : Bool} {depth : ℕ}
variable {s t : B20AssetStorage} {o : B20Operation}
  {a : Address} {step : TokenStep} {w : Visit} {c : TokenCall}

/-! ## Authority -/

/-- The ways in which a step may take from the balance of `a`. -/
inductive Spends (env : B20Env) (w : Visit) (a : Address) : Prop
  | transfer {o receiver amount} (hstep : w.step = .operation o)
      (ho : o.asTransfer = some (receiver, amount)) (howner : w.ctx.caller = a)
  | burn {o amount} (hstep : w.step = .operation o) (ho : o.asBurn = some amount)
      (howner : w.ctx.caller = a)
  | transferFrom {o receiver amount} (hstep : w.step = .operation o)
      (ho : o.asTransferFrom = some (a, receiver, amount))
      (hallowance : amount ≤ w.pre.allowances a w.ctx.caller)
      (hinfinite : w.pre.allowances a w.ctx.caller = BitVec.allOnes 256 →
        w.post.allowances a w.ctx.caller = BitVec.allOnes 256)
      (hfinite : w.pre.allowances a w.ctx.caller ≠ BitVec.allOnes 256 →
        (w.post.allowances a w.ctx.caller).toNat + amount.toNat =
          (w.pre.allowances a w.ctx.caller).toNat)
  | burnBlocked {amount} (hstep : w.step = .operation (.burnBlocked a amount))
      (hrole : w.pre.roles B20TokenRole.burnBlocked.id w.ctx.caller = true)
      (hblocked : w.ctx.isAuthorized env (w.pre.policyIds .transferSender) a = .ok false)
  | seizeWithMemo {receiver amount memo}
      (hstep : w.step = .operation (.seizeWithMemo a receiver amount memo))
      (hrole : w.pre.roles B20TokenRole.seize.id w.ctx.caller = true)
      (hseizable : w.ctx.isAuthorized env (w.pre.policyIds .seizeExempt) a = .ok false)

/-- The ways in which a step may raise the allowance that `a` gave to `spender`. -/
inductive Allows (env : B20Env) (w : Visit) (a spender : Address) : Prop
  | approve {amount} (hstep : w.step = .operation (.approve spender amount))
      (howner : w.ctx.caller = a)
  | permit {args : PermitArgs} (hstep : w.step = .operation (.permit args))
      (howner : args.owner = a) (hspender : args.spender = spender)
      (hsigned : args.SignedByOwner env w.ctx w.pre)
      (hnonce : (w.post.nonces a).toNat = (w.pre.nonces a).toNat + 1)

/-! ## Operations -/

/-- An operation takes from a balance only with authority. -/
theorem Effect.spends (h : Effect env ctx false s o t)
    (hlt : t.balances a < s.balances a) : Spends env ⟨ctx, .operation o, s, t⟩ a := by
  have hirrefl : t.balances = s.balances → Spends env ⟨ctx, .operation o, s, t⟩ a := by
    intro hsame
    rw [hsame] at hlt
    exact absurd hlt (BitVec.lt_irrefl _)
  cases h with
  | quiet _ hsame _ | updateSupplyCap _ _ _ _ hsame => exact hirrefl hsame.balances
  | rights hstep hsame => exact hirrefl (hsame.balances.trans hstep.sameFunds.balances)
  | funds hstep hsame =>
    rw [hsame.balances] at hlt
    cases hstep with
    | transfer ho _ hcan => exact .transfer rfl ho (eq_of_moved_balances_lt hcan hlt).symm
    | transferFrom ho _ hallowance hcan =>
      rw [spent_balances] at hlt
      obtain rfl := eq_of_moved_balances_lt hcan hlt
      refine .transferFrom rfl ho hallowance (fun hinfinite => ?_) (fun hfinite => ?_)
      · rw [hsame.allowances]
        exact spent_infinite (s := s.moved _ _ _) hinfinite
      · rw [hsame.allowances]
        exact spent_finite (s := s.moved _ _ _) hallowance hfinite
    | burn ho _ _ _ => exact .burn rfl ho (eq_of_burned_balances_lt hlt).symm
    | burnBlocked _ hrole hblocked _ _ =>
      obtain rfl := eq_of_burned_balances_lt hlt
      exact .burnBlocked rfl (hrole rfl) hblocked
    | seizeWithMemo _ hrole hseizable hcan =>
      obtain rfl := eq_of_moved_balances_lt hcan hlt
      exact .seizeWithMemo rfl hrole hseizable
    | mint _ _ hsteps => exact absurd (balances_le_of_mintSteps hsteps a) (BitVec.not_le.mpr hlt)
    | approve | permit _ _ => exact hirrefl hsame.balances

/-- An operation raises an allowance only with the consent of who gave it. -/
theorem Effect.allows (h : Effect env ctx privileged s o t) {spender : Address}
    (hlt : s.allowances a spender < t.allowances a spender) :
    Allows env ⟨ctx, .operation o, s, t⟩ a spender := by
  have hirrefl : t.allowances = s.allowances → Allows env ⟨ctx, .operation o, s, t⟩ a spender := by
    intro hsame
    rw [hsame] at hlt
    exact absurd hlt (BitVec.lt_irrefl _)
  cases h with
  | quiet _ hsame _ | updateSupplyCap _ _ _ _ hsame => exact hirrefl hsame.allowances
  | rights hstep hsame => exact hirrefl (hsame.allowances.trans hstep.sameFunds.allowances)
  | funds hstep hsame =>
    rw [hsame.allowances] at hlt
    cases hstep with
    | approve =>
      obtain ⟨rfl, rfl⟩ := eq_of_setAllowance_lt hlt
      exact .approve rfl rfl
    | permit hsigned hnonce =>
      obtain ⟨rfl, rfl⟩ := eq_of_setAllowance_lt (s := s.setNonce _ _) hlt
      refine .permit rfl rfl rfl hsigned ?_
      rw [hsame.nonces]
      exact setNonce_next hnonce
    | transferFrom ho _ hallowance hcan =>
      exact absurd hlt (spent_allowances_le (s := s.moved _ _ _) hallowance a spender)
    | mint _ _ hsteps => exact hirrefl (hsame.allowances.trans (allowances_of_mintSteps hsteps).1)
    | transfer _ _ _ | burn _ _ _ _ | burnBlocked _ _ _ _ _ | seizeWithMemo _ _ _ _ =>
      exact hirrefl hsame.allowances

theorem FundsStep.nonces_le (h : FundsStep env ctx privileged s o t) (a : Address) :
    s.nonces a ≤ t.nonces a := by
  cases h with
  | permit _ hnonce => exact nonces_le_setNonce hnonce a
  | mint _ _ hsteps =>
    rw [(allowances_of_mintSteps hsteps).2]
    exact BitVec.le_refl _
  | transferFrom _ _ _ _ =>
    rw [spent_nonces]
    exact BitVec.le_refl _
  | transfer _ _ _ | burn _ _ _ _ | burnBlocked _ _ _ _ _ | seizeWithMemo _ _ _ _ | approve =>
    exact BitVec.le_refl _

theorem Effect.nonces_le (h : Effect env ctx privileged s o t) (a : Address) :
    s.nonces a ≤ t.nonces a := by
  cases h with
  | quiet _ hsame _ | updateSupplyCap _ _ _ _ hsame =>
    rw [hsame.nonces]
    exact BitVec.le_refl _
  | rights hstep hsame =>
    rw [hsame.nonces, hstep.sameFunds.nonces]
    exact BitVec.le_refl _
  | funds hstep hsame =>
    rw [hsame.nonces]
    exact hstep.nonces_le a

/-! ## Permits -/

theorem PermitArgs.abiWord_injective : Function.Injective abiWord := by
  intro n m h
  have hbound : ∀ k : U256, k.toNat < 256 ^ 32 := fun k => k.isLt.trans_le (by norm_num)
  have hnat := congrArg ofBe h
  unfold abiWord at hnat
  rw [ofBe_toBe (hbound n), ofBe_toBe (hbound m)] at hnat
  exact BitVec.eq_of_toNat_eq hnat

theorem PermitArgs.structEncoding_inj {p q : PermitArgs} {n m : U256}
    (h : p.structEncoding n = q.structEncoding m) : p.owner = q.owner ∧ n = m := by
  have hlen : ∀ a b : Address, (abiAddress a).length = (abiAddress b).length := fun a b =>
    (abiAddress_length a).trans (abiAddress_length b).symm
  have hlen' : ∀ k l : U256, (abiWord k).length = (abiWord l).length := fun k l =>
    (abiWord_length k).trans (abiWord_length l).symm
  obtain ⟨howner, h⟩ := append_inj (append_cancel_left h) (hlen _ _)
  obtain ⟨-, h⟩ := append_inj h (hlen _ _)
  obtain ⟨-, h⟩ := append_inj h (hlen' _ _)
  obtain ⟨hnonce, -⟩ := append_inj h (hlen' _ _)
  exact ⟨Subtype.ext (append_cancel_left howner), abiWord_injective hnonce⟩

/-- A permit with the domain and the nonce that its signature is checked against. -/
structure SignedPermit where
  args : PermitArgs
  domainSeparator : B256
  nonce : U256
  deriving DecidableEq

namespace SignedPermit

variable (env : B20Env) (p : SignedPermit)

def structEncoding : Bytes := p.args.structEncoding p.nonce

def signingEncoding : Bytes := p.args.signingEncoding env p.domainSeparator p.nonce

def signingHash : B256 := p.args.signingHash env p.domainSeparator p.nonce

def signature : UInt8 × B256 × B256 := (p.args.v, p.args.r, p.args.s)

/-- The signature recovers to the owner. -/
def Signed : Prop := p.args.recovered env (p.signingHash env) = some p.args.owner

instance : Decidable (p.Signed env) := inferInstanceAs (Decidable (_ = _))

end SignedPermit

/-- The permit that a step accepts. -/
def Visit.signedPermit (env : B20Env) (w : Visit) : Option SignedPermit :=
  match w.step with
  | .operation (.permit args) =>
    some ⟨args, AssetV1.domainSeparator env w.pre w.ctx.chainId, w.pre.nonces args.owner⟩
  | _ => none

theorem mem_signedPermit {ws : List Visit} (hw : w ∈ ws) {args : PermitArgs}
    (hstep : w.step = .operation (.permit args)) :
    ⟨args, AssetV1.domainSeparator env w.pre w.ctx.chainId, w.pre.nonces args.owner⟩ ∈
      ws.filterMap (Visit.signedPermit env) :=
  mem_filterMap.mpr ⟨w, hw, by rw [Visit.signedPermit, hstep]⟩

/-- On the permits in question no two encodings collide, and no signature is the signature of their
owners under two digests. -/
structure IdealCrypto (env : B20Env) (accepted : List SignedPermit) : Prop where
  structs : ∀ p ∈ accepted, ∀ q ∈ accepted,
    env.keccak256 p.structEncoding = env.keccak256 q.structEncoding →
      p.structEncoding = q.structEncoding
  digests : ∀ p ∈ accepted, ∀ q ∈ accepted, p.signingHash env = q.signingHash env →
    p.signingEncoding env = q.signingEncoding env
  signatures : ∀ p ∈ accepted, ∀ q ∈ accepted, p.signature = q.signature →
    p.Signed env → q.Signed env → p.signingHash env = q.signingHash env

/-- Permits that one signature fits are for the same owner and nonce. -/
theorem IdealCrypto.same_nonce {accepted : List SignedPermit}
    (hideal : IdealCrypto env accepted) {p q : SignedPermit} (hp : p ∈ accepted) (hq : q ∈ accepted)
    (hsignature : p.signature = q.signature) (hsigned : p.Signed env) (hsigned' : q.Signed env) :
    p.args.owner = q.args.owner ∧ p.nonce = q.nonce := by
  have hdigest := hideal.signatures p hp q hq hsignature hsigned hsigned'
  have hencoding := hideal.digests p hp q hq hdigest
  -- the prefix and the domain have fixed lengths
  have hhashes := append_cancel_left hencoding
  have hstruct := (append_inj hhashes (p.domainSeparator.2.trans q.domainSeparator.2.symm)).2
  exact PermitArgs.structEncoding_inj (hideal.structs p hp q hq (Subtype.ext hstruct))

/-! ## Steps and runs -/

def NoncesLe (s t : B20AssetStorage) : Prop := ∀ a, s.nonces a ≤ t.nonces a

theorem StepEffect.noncesLe (h : StepEffect env ctx privileged s step t) : NoncesLe s t := by
  intro a
  cases step with
  | operation o => exact Effect.nonces_le h a
  | beginAnnounce _ _ _ | endAnnounce _ =>
    rw [SameLedger.nonces (SameSlots.toSameLedger h)]
    exact BitVec.le_refl _

/-- A permit that is accepted is signed for the current nonce, and uses it up. -/
theorem permit_accepted {p : PermitArgs} (hstep : w.step = .operation (.permit p))
    (h : w.step.perform env w.ctx false w.pre = .ok () w.post) :
    p.SignedByOwner env w.ctx w.pre ∧
      (w.post.nonces p.owner).toNat = (w.pre.nonces p.owner).toNat + 1 := by
  have heffect := perform_ok h
  rw [hstep] at heffect
  cases (heffect : Effect env w.ctx false w.pre (.permit p) w.post) with
  | funds hfunds hsame =>
    cases hfunds with
    | permit hsigned hnonce =>
      refine ⟨hsigned, ?_⟩
      rw [hsame.nonces]
      exact setNonce_next hnonce
    | transfer ho _ _ | transferFrom ho _ _ _ | mint ho _ _ | burn ho _ _ _ => cases ho
  | quiet ho _ _ | updateSupplyCap ho _ _ _ _ => cases ho
  | rights hrights _ => cases hrights

/-- What every step of a call has checked. -/
structure Authorized (env : B20Env) (w : Visit) : Prop where
  spends : ∀ a, w.post.balances a < w.pre.balances a → Spends env w a
  allows : ∀ a spender, w.pre.allowances a spender < w.post.allowances a spender →
    Allows env w a spender
  /-- Balances change by operations of a feature only. -/
  feature : w.post.balances ≠ w.pre.balances → ∃ o f, w.step = .operation o ∧ o.feature = some f
  /-- An operation of a feature succeeds only while the feature is not paused. -/
  unpaused : ∀ o f, w.step = .operation o → o.feature = some f → w.pre.paused &&& f.mask = 0

theorem SameLedger.authorized (h : SameLedger s t) (hstep : ∀ o, step ≠ .operation o) :
    Authorized env ⟨ctx, step, s, t⟩ where
  spends a hlt := by
    rw [show t.balances = s.balances from h.balances] at hlt
    exact absurd hlt (BitVec.lt_irrefl _)
  allows a spender hlt := by
    rw [show t.allowances = s.allowances from h.allowances] at hlt
    exact absurd hlt (BitVec.lt_irrefl _)
  feature hne := absurd h.balances hne
  unpaused o _ ho := absurd ho (hstep o)

theorem StepEffect.authorized (h : StepEffect env ctx false s step t) :
    Authorized env ⟨ctx, step, s, t⟩ := by
  cases step with
  | operation o =>
    refine ⟨fun a => Effect.spends h, fun a spender => Effect.allows h, fun hne => ?_, ?_⟩
    · rcases Effect.feature h with ⟨-, hsame⟩ | ⟨f, hf, -⟩
      · exact absurd hsame hne
      · exact ⟨o, f, rfl, hf⟩
    · intro o' f ho hf
      cases ho
      rcases Effect.feature h with ⟨hnone, -⟩ | ⟨f', hf', hpaused⟩
      · rw [hnone] at hf
        cases hf
      · rw [hf'] at hf
        cases hf
        exact hpaused
  | beginAnnounce _ _ _ | endAnnounce _ => exact SameLedger.authorized (SameSlots.toSameLedger h) nofun

theorem authorized_of_perform (h : w.step.perform env w.ctx false w.pre = .ok () w.post) :
    Authorized env w :=
  (perform_ok h).authorized

/-- Whatever happens to a token, by whatever calls: who loses funds has consented or is singled out
by a policy, who gives an allowance has consented, nothing moves while it is paused, and no
signature of a permit is accepted twice. -/
theorem spend_authority {calls : List TokenCall} :
    (∀ w ∈ history env abi depth calls s, Authorized env w) ∧
    (∀ (c : TokenCall) (r : B20AssetStorage),
      (∀ a, (c.execute env abi depth r).balances a < r.balances a →
        ∃ w ∈ c.visits env abi depth r, w.ctx = c.ctx ∧ Spends env w a) ∧
      (∀ a spender, r.allowances a spender < (c.execute env abi depth r).allowances a spender →
        ∃ w ∈ c.visits env abi depth r, w.ctx = c.ctx ∧ Allows env w a spender)) ∧
    (IdealCrypto env ((history env abi depth calls s).filterMap (Visit.signedPermit env)) →
      (history env abi depth calls s).Pairwise fun v w => ∀ p q : PermitArgs,
        v.step = .operation (.permit p) → w.step = .operation (.permit q) →
          (p.v, p.r, p.s) ≠ (q.v, q.r, q.s)) := by
  have hnonces : _ ∧ _ ∧ (history env abi depth calls s).Pairwise fun v w =>
      NoncesLe v.post w.pre :=
    history_related NoncesLe (fun _ _ => BitVec.le_refl _)
      (fun _ _ _ h h' a => BitVec.le_trans (h a) (h' a)) fun _ _ _ _ _ h =>
        (perform_ok h).noncesLe
  refine ⟨fun w hw => authorized_of_perform (perform_of_mem_history hw), fun c r => ⟨?_, ?_⟩, ?_⟩
  · intro a hlt
    obtain ⟨w, hw, hstep⟩ := exists_visit (fun s t => s.balances a ≤ t.balances a)
      (fun _ => BitVec.le_refl _) (fun _ _ _ => BitVec.le_trans) (BitVec.not_le.mpr hlt)
    obtain ⟨hctx, hperform⟩ := perform_of_mem_call hw
    exact ⟨w, hw, hctx, (authorized_of_perform (hctx ▸ hperform)).spends a
      (BitVec.not_le.mp hstep)⟩
  · intro a spender hlt
    obtain ⟨w, hw, hstep⟩ := exists_visit
      (fun s t => t.allowances a spender ≤ s.allowances a spender) (fun _ => BitVec.le_refl _)
      (fun _ _ _ h h' => BitVec.le_trans h' h) (BitVec.not_le.mpr hlt)
    obtain ⟨hctx, hperform⟩ := perform_of_mem_call hw
    exact ⟨w, hw, hctx, (authorized_of_perform (hctx ▸ hperform)).allows a spender
      (BitVec.not_le.mp hstep)⟩
  · intro hideal
    refine hnonces.2.2.imp_of_mem fun {v w} hv hw hle p q hp hq hsame => ?_
    obtain ⟨hsigned, hnext⟩ := permit_accepted hp (perform_of_mem_history hv)
    obtain ⟨hsigned', -⟩ := permit_accepted hq (perform_of_mem_history hw)
    obtain ⟨howner, hnonce⟩ := hideal.same_nonce (mem_signedPermit hv hp) (mem_signedPermit hw hq)
      hsame hsigned hsigned'
    have hlater := BitVec.le_def.mp (hle p.owner)
    have hequal : (v.pre.nonces p.owner).toNat = (w.pre.nonces q.owner).toNat :=
      congrArg BitVec.toNat hnonce
    rw [show q.owner = p.owner from howner.symm] at hequal
    omega

/-! ### A permit that is sent twice -/

namespace Replay

def account (n : ℕ) : Address := ⟨toBe 20 n, toBe_length 20 n⟩

/-- Signed by the owner for the nonce 0, on chain 8453. -/
def args₀ : PermitArgs where
  owner := account 0x8c85934da06fd02ff618a44132ba20511bfab584
  spender := account 0x0202020202020202020202020202020202020202
  value := 1000
  deadline := 100
  v := 27
  r := .ofNat 0xd47644539acec3da5e3ecf5fe8863c628a9c97e8b71e9ea9167a6f4f83c03c32
  s := .ofNat 0x7202d31189423090409d088e2c90183a033c4cc08f94b6723963344d301d1756

/-- Signed by the owner for the nonce 1. -/
def args₁ : PermitArgs :=
  { args₀ with
    value := 70
    r := .ofNat 0xf30e4bd8094e53a679ddb8f55b5216b03c44623fc4279ef0791f9aa1f6930d49
    s := .ofNat 0x6f466c537bab17d6ed90a55c99615d2d5d41b1730305411ab0393ca7638d4e14 }

def token : B20AssetStorage :=
  freshStorage (account 0xb200000000000000000000000000000000000001) ⟨1, "Asset", "AST", Address.zero, 6⟩

def calldata (args : PermitArgs) : Bytes :=
  [0xd5, 0x05, 0xac, 0xcf] ++ (PermitArgs.abiAddress args.owner ++
    (PermitArgs.abiAddress args.spender ++ (PermitArgs.abiWord args.value ++
      (PermitArgs.abiWord args.deadline ++ (PermitArgs.abiWord 27 ++ (args.r.val ++ args.s.val))))))

def nameHash : B256 := .ofNat 0x303f29710bdb32c454f997691648d517a200bf0368eb7146ad943c976beb1808

def versionHash : B256 := .ofNat 0xc89efdaa54c0f20c7adf612882df0950f5a951637e0307cdcb4c672f298b8bc6

def domain : B256 := .ofNat 0xc4a7607efc73c84056dfadc6586a8f508b27e0fe01f4ef690da178ae20dfadbf

/-- The permits that are checked, with their struct hashes and digests. -/
def checked : List (PermitArgs × U256 × B256 × B256) :=
  [(args₀, 0, .ofNat 0xbb9ed7b5a32b5c52f86da3c2aeda78c0d5e9cd12dc493535c6b27a908ab908bc,
      .ofNat 0x691be66bda9978f060a6b2b17c77f87a116db6cf0af875c4307a298b729b5ff3),
    (args₀, 1, .ofNat 0x7cc092fcb531837aa6a1d3162002cbe38d7cb08216d0cf8633b1bff8ef888eff,
      .ofNat 0x5efb3195461d02fdfa888f55e7b6b7b405bb31f8cd51f8697ef1d56c4349ac67),
    (args₁, 1, .ofNat 0x4990925c79fcfea9458769ed255486d856e2183eea40f5807b8bb3a385f570d0,
      .ofNat 0x107d0c6a4f72a941e363915e8cdb1da2409957778712796914ec8790c1839308)]

/-- The values of the hash function that the run asks for. -/
def hashes : List (Bytes × B256) :=
  [([0x41, 0x73, 0x73, 0x65, 0x74], nameHash), ([0x31], versionHash),
    (domainEncoding nameHash versionHash 8453 token.tokenAddress, domain)] ++
  checked.flatMap fun (args, nonce, struct, digest) =>
    [(args.structEncoding nonce, struct), ([0x19, 0x01] ++ (domain.val ++ struct.val), digest)]

/-- For the nonce that it was not made for, a signature recovers to a stranger. -/
def signers : List Address :=
  [args₀.owner, account 0x44306822d251a2254863c95aa89238723ba45f13, args₁.owner]

def platform : B20Env where
  keccak256 m := (hashes.lookup m).getD B256.zero
  recoverAddressFromPrehash r s parity digest :=
    ((checked.zip signers).find? fun (c, _) =>
      (c.1.r, c.1.s, false, c.2.2.2) = (r, s, parity, digest)).map Prod.snd
  policyDepth := 1

def permitAbi : AssetAbi where
  decode _ b :=
    if b = calldata args₀ then .ok (.operation (.permit args₀))
    else if b = calldata args₁ then .ok (.operation (.permit args₁))
    else .error .unknownFunctionSelector

def context : CallContext := ⟨account 3, 0, 8453, 50, .v2, .empty, fun _ => 5000⟩

/-- The first permit is sent twice, and then the second one. -/
def calls : List TokenCall :=
  [⟨context, calldata args₀⟩, ⟨context, calldata args₀⟩, ⟨context, calldata args₁⟩]

def visited : List Visit := history platform permitAbi 0 calls token

theorem signedPermits :
    visited.filterMap (Visit.signedPermit platform) = [⟨args₀, domain, 0⟩, ⟨args₁, domain, 1⟩] := by
  decide +kernel

theorem idealCrypto : IdealCrypto platform (visited.filterMap (Visit.signedPermit platform)) := by
  rw [signedPermits]
  constructor <;> decide +kernel

end Replay

/-- Two permits of one owner are accepted, and the one that is sent again is not. -/
theorem spend_authority_replayed : Replay.visited.length = 2 ∧
    (∀ w ∈ Replay.visited, Authorized Replay.platform w) ∧
    Replay.visited.Pairwise fun v w => ∀ p q : PermitArgs, v.step = .operation (.permit p) →
      w.step = .operation (.permit q) → (p.v, p.r, p.s) ≠ (q.v, q.r, q.s) :=
  ⟨by decide +kernel, spend_authority.1, spend_authority.2.2 Replay.idealCrypto⟩

end NodeReth
