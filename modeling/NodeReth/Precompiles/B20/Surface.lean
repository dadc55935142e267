import NodeReth.Precompiles.B20.Authority

/-!
# The common surface of the two versions

`AssetV2` reads the policies of a transfer together, before the checks that use them, and checks
the addresses of `transferFrom` once. On the operations that both versions have, it does what
`AssetV1` does, also when several checks fail. A permit alone it charges for its hashes and its
recovery.
-/

namespace NodeReth

open B20AssetStorage Bytes

variable {ctx : CallContext} {s : B20AssetStorage}

/-- The calls that both versions have. -/
inductive CommonCall
  | transfer (receiver : Address) (amount : U256)
  | transferFrom (sender receiver : Address) (amount : U256)
  | approve (spender : Address) (amount : U256)
  | mint (receiver : Address) (amount : U256)
  | burn (amount : U256)
  | burnBlocked (sender : Address) (amount : U256)
  | grantRole (role : B256) (account : Address)
  | revokeRole (role : B256) (account : Address)
  | renounceRole (role : B256) (confirmation : Address)
  | renounceLastAdmin
  | setRoleAdmin (role newAdminRole : B256)
  | updateSupplyCap (newCap : U256)
  | permit (args : PermitArgs)

namespace CommonCall

/-- The body of a version. The registry answers both versions alike. -/
def run (env : B20Env) (ctx : CallContext) (privileged : Bool) (logic : AssetVersion) :
    CommonCall → TokenM Unit
  | transfer receiver amount =>
    match logic with
    | .v1 => AssetV1.transfer env ctx receiver amount privileged
    | .v2 => AssetV2.transfer env ctx receiver amount privileged
  | transferFrom sender receiver amount =>
    match logic with
    | .v1 => AssetV1.transferFrom env ctx sender receiver amount privileged
    | .v2 => AssetV2.transferFrom env ctx sender receiver amount privileged
  | approve spender amount => NodeReth.approve ctx.caller spender amount
  | mint receiver amount => NodeReth.mint env ctx receiver amount privileged
  | burn amount => NodeReth.burn ctx amount
  | burnBlocked sender amount => NodeReth.burnBlocked env ctx sender amount privileged
  | grantRole role account => NodeReth.grantRole ctx role account privileged
  | revokeRole role account => NodeReth.revokeRole ctx role account privileged
  | renounceRole role confirmation => NodeReth.renounceRole ctx role confirmation
  | renounceLastAdmin => NodeReth.renounceLastAdmin ctx
  | setRoleAdmin role newAdminRole => NodeReth.setRoleAdmin ctx role newAdminRole privileged
  | updateSupplyCap newCap => NodeReth.updateSupplyCap ctx newCap privileged
  | permit args =>
    match logic with
    | .v1 => AssetV1.permit env ctx args
    | .v2 => AssetV2.permit env ctx args

/-- What a call comes to: its result, and the storage, in which an error leaves nothing. -/
def outcome (env : B20Env) (ctx : CallContext) (privileged : Bool) (logic : AssetVersion)
    (c : CommonCall) (s : B20AssetStorage) : Except B20Error Unit × B20AssetStorage :=
  match c.run env ctx privileged logic s with
  | .ok _ t => (.ok (), t)
  | .error e _ => (.error e, s)

/-- A permit in time, with less gas than `AssetV2` charges for it. -/
def Unpaid (ctx : CallContext) (s : B20AssetStorage) : CommonCall → Prop
  | permit args => ctx.timestamp ≤ args.deadline ∧ ctx.gasLeft s < AssetV2.permitCost s
  | _ => False

instance (c : CommonCall) : Decidable (c.Unpaid ctx s) := by
  cases c <;> unfold Unpaid <;> infer_instance

end CommonCall

end NodeReth
