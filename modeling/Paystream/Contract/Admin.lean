import Paystream.Contract.Guards

/-!
# Administrator entry points

Initialisation, the two-step administrator handover, the nonce-guarded
setters, the token allowlist, the payout of the fee ledger, and the upgrade.

`initialize` is a reserved word here, so its model is `initializeContract`.
-/

namespace Paystream
namespace Contract
namespace StreamContract

open Library
open Storage

/-- `initialize`. -/
def initializeContract (ctx : Context) (admin : Address) (w : World) :
    Except String World := do
  requireAuth ctx admin
  return setAdmin w admin

/-- `propose_admin`. -/
def proposeAdmin (ctx : Context) (currentAdmin newAdmin : Address) (w : World) :
    Except String World := do
  requireAuth ctx currentAdmin
  requireAdmin w currentAdmin
  return setPendingAdmin w newAdmin

/-- `accept_admin`. -/
def acceptAdmin (ctx : Context) (newAdmin : Address) (w : World) :
    Except String World := do
  requireAuth ctx newAdmin
  requirePendingAdmin w newAdmin
  return clearPendingAdmin (setAdmin w newAdmin)

/-- The opening lines the administrator's entry points share. -/
def authorizeAdmin (ctx : Context) (admin : Address) (w : World) :
    Except String Unit := do
  requireAuth ctx admin
  requireAdmin w admin

/-- The same, followed by `consume_admin_nonce`. -/
def authorizeAdminNonce (ctx : Context) (admin : Address) (nonce : Nat)
    (w : World) : Except String World := do
  authorizeAdmin ctx admin w
  consumeAdminNonce w nonce

/-- `pause_contract`. -/
def pauseContract (ctx : Context) (admin : Address) (nonce : Nat) (w : World) :
    Except String World := do
  let w ← authorizeAdminNonce ctx admin nonce w
  return (setPausedCfg w true).emit (.contractPaused true)

/-- `unpause_contract`. -/
def unpauseContract (ctx : Context) (admin : Address) (nonce : Nat) (w : World) :
    Except String World := do
  let w ← authorizeAdminNonce ctx admin nonce w
  return (setPausedCfg w false).emit (.contractPaused false)

/-- `emergency_pause`: no nonce. -/
def emergencyPause (ctx : Context) (admin : Address) (w : World) :
    Except String World := do
  authorizeAdmin ctx admin w
  return (setPausedCfg w true).emit (.contractPaused true)

/-- `set_min_deposit`. -/
def setMinDeposit (ctx : Context) (admin : Address) (nonce : Nat) (amount : Int)
    (w : World) : Except String World := do
  let w ← authorizeAdminNonce ctx admin nonce w
  ensure (decide (0 < amount)) errZeroDeposit
  return Storage.setMinDeposit w amount

/-- `set_protocol_fee`. -/
def setProtocolFee (ctx : Context) (admin : Address) (nonce feeBps : Nat)
    (feeRecipient : Address) (w : World) : Except String World := do
  let w ← authorizeAdminNonce ctx admin nonce w
  ensure (decide (feeBps ≤ 100)) errFeeTooHigh
  return setFeeRecipient (setFeeBps w feeBps) feeRecipient

/-- `set_max_streams_per_employer`. -/
def setMaxStreamsPerEmployer (ctx : Context) (admin : Address)
    (nonce limit : Nat) (w : World) : Except String World := do
  let w ← authorizeAdminNonce ctx admin nonce w
  return Storage.setMaxStreamsPerEmployer w limit

/-- `add_allowed_token`. -/
def addAllowedToken (ctx : Context) (admin token : Address) (w : World) :
    Except String World := do
  authorizeAdmin ctx admin w
  return Storage.addAllowedToken w token

/-- `remove_allowed_token`. -/
def removeAllowedToken (ctx : Context) (admin token : Address) (w : World) :
    Except String World := do
  authorizeAdmin ctx admin w
  return Storage.removeAllowedToken w token

/-- `withdraw_protocol_fees`. -/
def withdrawProtocolFees (host : Host) (ctx : Context) (admin token : Address)
    (amount : Int) (w : World) : Except String World := do
  authorizeAdmin ctx admin w
  ensure (decide (0 < amount)) "amount must be positive"
  let balance := w.feeBalance token
  ensure (decide (amount ≤ balance)) "insufficient fee balance"
  let feeRecipient := w.feeRecipient.getD admin
  let w ← tokenTransfer host
    ⟨.feePayout, token, host.self, feeRecipient, amount⟩ w
  return (setFeeBalance w token (balance - amount)).emit
    (.protocolFeesWithdrawn token amount feeRecipient)

/-- `upgrade`.  The new code itself is not modelled: a run goes on with the
entry points of this file. -/
def upgrade (ctx : Context) (admin : Address) (newWasmHash : BitVec 256)
    (nonce : Nat) (w : World) : Except String World := do
  let w ← authorizeAdminNonce ctx admin nonce w
  return { w with wasmHash := some newWasmHash }

/-- `migrate`: only the role check. -/
def migrate (ctx : Context) (admin : Address) (w : World) :
    Except String World := do
  authorizeAdmin ctx admin w
  return w

/-! ## What the guards establish -/

@[simp] theorem authorizeAdmin_eq_ok_iff (ctx : Context) (admin : Address)
    (w : World) (result : Unit) :
    authorizeAdmin ctx admin w = .ok result ↔
      admin ∈ ctx.auth ∧ w.admin = some admin := by
  simp [authorizeAdmin]

@[simp] theorem authorizeAdminNonce_eq_ok_iff (ctx : Context) (admin : Address)
    (nonce : Nat) (w w' : World) :
    authorizeAdminNonce ctx admin nonce w = .ok w' ↔
      (admin ∈ ctx.auth ∧ w.admin = some admin) ∧
        nonce = w.config.adminNonce ∧ w.config.adminNonce + 1 ≤ u64Max ∧
        w' = saveConfig w
          { w.config with adminNonce := w.config.adminNonce + 1 } := by
  simp only [authorizeAdminNonce, bind_eq_ok_iff, authorizeAdmin_eq_ok_iff,
    consumeAdminNonce, ensure_eq_ok_iff, decide_eq_true_eq, expect_eq_ok_iff,
    checkedAddU64_eq_some_iff, pure_eq_ok_iff]
  constructor
  · rintro ⟨_, hadmin, _, hnonce, next, ⟨hfits, rfl⟩, rfl⟩
    exact ⟨hadmin, hnonce, hfits, rfl⟩
  · rintro ⟨hadmin, hnonce, hfits, rfl⟩
    exact ⟨(), hadmin, (), hnonce, _, ⟨hfits, rfl⟩, rfl⟩

end StreamContract
end Contract
end Paystream
