import Paystream.Contract.Composition
import Paystream.Properties.TokenSupply
import Paystream.Semantics.Steps

/-!
# Creating a stream in the repository's own token

The two contracts together: what a run of the pair keeps about the balances of
the token, and when `create_stream` gets its transfers through.

The stream contract charges a creation fee by two transfers, the rest of the
deposit and the fee.  The token moves positive amounts only, and the fee of a
small deposit rounds to zero, so such a creation panics
(`creation_composes_iff`).  The other conditions are about overflow; they hold
by themselves while no balance is negative.
-/

namespace Paystream
namespace Properties

open Library
open Contract
open Contract.Storage
open Contract.StreamContract
open Contract.TokenContract
open Semantics

/-! ## Transfers in the own token -/

/-- When the own token makes a transfer, and what it then holds. -/
theorem ownToken_transfer_iff (holdings holdings' : Address → Int)
    (source target : Address) (amount : Int) :
    ownToken.transfer holdings source target amount = some holdings' ↔
      0 < amount ∧ amount ≤ holdings source ∧
        TransferFits holdings source target amount ∧
        holdings' = move holdings source target amount := by
  have hcode := transfer_eq_ok_iff ⟨0, [source]⟩ source target amount
    { TokenState.deployed with balances := holdings }
  unfold ownToken
  simp only
  split
  · rename_i t ht
    obtain ⟨_, hpos, hcovered, hfits, rfl⟩ := (hcode t).mp ht
    simp only [Option.some.injEq]
    constructor
    · rintro rfl
      exact ⟨hpos, hcovered, hfits, rfl⟩
    · rintro ⟨_, _, _, rfl⟩
      rfl
  · rename_i message hmessage
    constructor
    · intro h
      cases h
    · rintro ⟨hpos, hcovered, hfits, rfl⟩
      have hok := (hcode _).mpr ⟨List.mem_singleton_self _, hpos, hcovered, hfits, rfl⟩
      rw [hmessage] at hok
      cases hok

/-! ## What a run of the pair keeps -/

/-- Whatever a call on the stream contract did, it moved balances by transfers
only. -/
theorem performed_of_created {host : Host} {ctx : Context} {w w' : World}
    (h : Created host ctx w w') :
    ∃ log : List TokenTransfer, Performed host.tokens log w.balances w'.balances := by
  induction h with
  | done hbooks _ => exact ⟨[], congrArg Books.balances hbooks⟩
  | cons hfirst _ ih =>
      obtain ⟨log, hrest⟩ := ih
      exact ⟨_, hfirst.performed.append hrest⟩

theorem performed_of_effect {host : Host} {ctx : Context} {w w' : World} {call : Call}
    (h : CallEffect host ctx w w' call) :
    ∃ log : List TokenTransfer, Performed host.tokens log w.balances w'.balances := by
  -- a call that leaves the books makes no transfer
  have hidle : books w' = books w → ∃ log : List TokenTransfer,
      Performed host.tokens log w.balances w'.balances := by
    intro hbooks
    exact ⟨[], congrArg Books.balances hbooks⟩
  cases h with
  | admin call _ hnext =>
      subst hnext
      exact hidle (books_adminNext w call)
  | governance call hframe => exact hidle hframe.books
  | create call hcreated => exact performed_of_created hcreated
  | onStream streamId call heffect =>
      rcases heffect with ⟨_, hbooks, _⟩ | ⟨s, op, log, _, _, hupdate⟩
      · exact hidle hbooks
      · exact ⟨log, hupdate.performed⟩
  | feePayout admin token amount _ _ hpayout => exact ⟨_, hpayout.performed⟩
  | query query hsame => exact hidle (congrArg books hsame)
  | directTransfer token source target amount hdirect =>
      exact ⟨_, hdirect.performed⟩

/-- What the own token's transfers keep about its balances, every call on the
stream contract keeps. -/
theorem holdings_of_step {host : Host} {token : Address}
    (hown : host.tokens token = some ownToken) {P : (Address → Int) → Prop}
    (hkeeps : ∀ holdings source target amount, 0 < amount →
      amount ≤ holdings source → TransferFits holdings source target amount →
      P holdings → P (move holdings source target amount))
    (w : World) (inv : Invocation) (h : P (w.balances token)) :
    P ((step host w inv).balances token) := by
  rcases step_cases host w inv with ⟨value, hsucceeds⟩ | ⟨_, hsame⟩
  · obtain ⟨log, hperformed⟩ := performed_of_effect (effect_of_succeeds hsucceeds)
    refine hperformed.holdings hown ?_ h
    intro holdings source target amount holdings' htransfer hholdings
    obtain ⟨hpos, hcovered, hfits, rfl⟩ :=
      (ownToken_transfer_iff _ _ _ _ _).mp htransfer
    exact hkeeps holdings source target amount hpos hcovered hfits hholdings
  · rw [hsame]
    exact h

/-- What the two contracts together keep about the token. -/
structure TokenSound (t : TokenState) : Prop where
  conserved : SupplyConserved t
  fit : BalancesFit t.balances

def callsToken : PairInput → Bool
  | .onContract _ => false
  | .onToken _ => true

def initializesToken : PairInput → Bool
  | .onContract _ => false
  | .onToken inv => isInitialize inv.call

/-- `initialize` is the first call on the token, and there is no other.  The
stream contract may have been called before. -/
def TokenInitializedOnce {token : Address} (history : PairHistory token) : Prop :=
  ∃ later first earlier, history = later ++ first :: earlier ∧
    initializesToken first.input = true ∧
    (∀ entry ∈ later, initializesToken entry.input = false) ∧
    ∀ entry ∈ earlier, callsToken entry.input = false

/-- Before its first call the token is as it was deployed: the stream contract
cannot move what nobody has. -/
theorem deployed_of_uncalled {host : Host} {token : Address}
    (hown : host.tokens token = some ownToken) {history : PairHistory token}
    {p : Pair token} (hrun : PairReaches host history p)
    (hnone : ∀ entry ∈ history, callsToken entry.input = false) :
    p.tokenState = TokenState.deployed := by
  induction hrun using System.Run.induction with
  | start p hstart => exact hstart.1
  | next history p input _ _ ih =>
      obtain ⟨hlast, hearlier⟩ := List.forall_mem_cons.mp hnone
      have hbefore := ih hearlier
      cases input with
      | onToken inv => cases hlast
      | onContract inv =>
          have hzero : (step host p.world inv).balances token = fun _ => 0 := by
            refine holdings_of_step hown
              (P := fun holdings => holdings = fun _ => 0) ?_ p.world inv ?_
            · intro holdings source target amount hpos hcovered _ hholdings
              rw [hholdings] at hcovered
              change amount ≤ 0 at hcovered
              omega
            · rw [p.shared, hbefore]
              rfl
          show { p.tokenState with
            balances := (step host p.world inv).balances token } = _
          rw [hzero, hbefore]
          rfl

/-- Every call but `initialize`, on either contract. -/
theorem tokenSound_of_pairStep {host : Host} {token : Address}
    (hown : host.tokens token = some ownToken) (p : Pair token)
    {input : PairInput} (hother : initializesToken input = false)
    (h : TokenSound p.tokenState) : TokenSound (pairStep host p input).tokenState := by
  obtain ⟨⟨hadds, hcap⟩, hfit⟩ := h
  cases input with
  | onContract inv =>
      rw [← p.shared] at hadds hfit
      refine ⟨⟨?_, hcap⟩, ?_⟩
      · refine holdings_of_step hown (P := fun holdings =>
          AddsUpTo holdings p.tokenState.totalSupply) ?_ p.world inv hadds
        intro holdings source target amount _ _ _ hholdings
        exact hholdings.move source target amount
      · refine holdings_of_step hown (P := BalancesFit) ?_ p.world inv hfit
        intro holdings source target amount _ _ hfits hholdings
        exact hholdings.move hfits
  | onToken inv =>
      show TokenSound (tokenStep p.tokenState inv)
      rcases tokenStep_cases p.tokenState inv with hsucceeds | ⟨_, hsame⟩
      · have heffect := tokenEffect_of_succeeds hsucceeds
        exact ⟨supplyConserved_of_effect heffect hother ⟨hadds, hcap⟩,
          balancesFit_of_effect heffect hfit⟩
      · rw [hsame]
        exact ⟨⟨hadds, hcap⟩, hfit⟩

/-- In every run of the pair in which the token is initialized once, its balances
add up to a supply within the cap and are `i128` values. -/
theorem tokenSound_of_run {host : Host} {token : Address}
    (hown : host.tokens token = some ownToken) {history : PairHistory token}
    {p : Pair token} (hrun : PairReaches host history p)
    (honce : TokenInitializedOnce history) : TokenSound p.tokenState := by
  obtain ⟨later, first, earlier, rfl, hstarts, hlater, hearlier⟩ := honce
  refine System.Run.persists (P := fun p => TokenSound p.tokenState)
    (Q := fun _ input => initializesToken input = false) ?_ hrun hlater ?_
  · intro _ p input _ _ hother h
    exact tokenSound_of_pairStep hown p hother h
  · obtain ⟨hbefore, hafter, _⟩ := hrun.of_split
    have hdeployed := deployed_of_uncalled hown hbefore hearlier
    change first.after = pairStep host first.before first.input at hafter
    rw [hafter]
    generalize first.input = input at hstarts
    cases input with
    | onContract inv => cases hstarts
    | onToken inv =>
        have hfit : BalancesFit first.before.tokenState.balances := by
          rw [hdeployed]
          intro _
          show InI128 0
          decide
        show TokenSound (tokenStep first.before.tokenState inv)
        rcases tokenStep_cases first.before.tokenState inv with hsucceeds | ⟨_, hsame⟩
        · exact ⟨supplyConserved_of_deployed hdeployed hsucceeds hstarts,
            balancesFit_of_effect (tokenEffect_of_succeeds hsucceeds) hfit⟩
        · rw [hsame]
          refine ⟨?_, hfit⟩
          rw [hdeployed]
          exact supplyConserved_deployed

/-! ## One transfer -/

/-- Of a covered amount only the credit can overflow. -/
theorem fits_of_covered {balances : Address → Int} (hfit : BalancesFit balances)
    {source target : Address} {amount : Int} (hnonneg : 0 ≤ amount)
    (hcovered : amount ≤ balances source)
    (hcredit : move balances source target amount target ≤ i128Max) :
    TransferFits balances source target amount := by
  have hmin : i128Min ≤ 0 := by decide
  have hsource := (hfit source).2
  have htarget := (hfit target).1
  refine ⟨⟨by omega, by omega⟩, ?_, hcredit⟩
  rw [move_apply, if_pos rfl]
  split
  · omega
  · omega

/-- A transfer the stream contract asks the own token for: the balances are `i128`
values, so only the credit can overflow. -/
theorem tokenTransfer_own_iff {host : Host} {token : Address}
    (hown : host.tokens token = some ownToken) {w : World}
    {holdings : Address → Int} (hholdings : w.balances token = holdings)
    (hfit : BalancesFit holdings) (purpose : Purpose)
    (source target : Address) (amount : Int) (w' : World) :
    tokenTransfer host ⟨purpose, token, source, target, amount⟩ w = .ok w' ↔
      0 < amount ∧ amount ≤ holdings source ∧
        move holdings source target amount target ≤ i128Max ∧
        w' = { w with
          balances := Function.update w.balances token
            (move holdings source target amount)
          transfers := ⟨purpose, token, source, target, amount⟩ :: w.transfers } := by
  have hlaw : host.tokens
      (⟨purpose, token, source, target, amount⟩ : TokenTransfer).token =
        some ownToken := hown
  subst hholdings
  rw [tokenTransfer_eq_ok_iff]
  constructor
  · rintro ⟨balances, hperform, rfl⟩
    obtain ⟨holdings, htransfer, rfl⟩ := (perform_eq_some_iff hlaw _ _).mp hperform
    obtain ⟨hpos, hcovered, ⟨_, hcredit⟩, rfl⟩ :=
      (ownToken_transfer_iff _ _ _ _ _).mp htransfer
    exact ⟨hpos, hcovered, hcredit.2, rfl⟩
  · rintro ⟨hpos, hcovered, hcredit, rfl⟩
    have hfits := fits_of_covered hfit hpos.le hcovered hcredit
    refine ⟨_, (perform_eq_some_iff hlaw _ _).mpr ⟨_, ?_, rfl⟩, rfl⟩
    exact (ownToken_transfer_iff _ _ _ _ _).mpr
      ⟨hpos, hcovered, hfits, rfl⟩

/-! ## Funding a stream -/

/-- The recipient of the creation fee, if there is a fee. -/
def feeCharged (w : World) : Option Address :=
  if 0 < w.config.feeBps then w.feeRecipient else none

/-- The fee does not round to zero. -/
def FeePositive (w : World) (deposit : Int) : Prop :=
  (feeCharged w).isSome = true → 10000 ≤ deposit * (w.config.feeBps : Int)

/-- The balances after the net deposit went to the contract. -/
def afterDeposit (contract token : Address) (w : World) (employer : Address)
    (deposit : Int) : Address → Int :=
  move (w.balances token) employer contract
    (deposit - creationFee (creationSetup w) deposit)

/-- Nothing overflows: the product the fee is computed from, and the balances of
the contract and of the recipient. -/
structure CreditsFit (contract token : Address) (w : World) (employer : Address)
    (deposit : Int) : Prop where
  product : (feeCharged w).isSome = true →
    deposit * (w.config.feeBps : Int) ≤ i128Max
  toContract : afterDeposit contract token w employer deposit contract ≤ i128Max
  toRecipient : ∀ recipient, feeCharged w = some recipient →
    move (afterDeposit contract token w employer deposit) employer recipient
      (creationFee (creationSetup w) deposit) recipient ≤ i128Max

/-- Where a fee is charged, it is the rounded share of the deposit. -/
theorem creationFee_of_charged {w : World} {recipient : Address}
    (h : feeCharged w = some recipient) (deposit : Int) :
    creationFee (creationSetup w) deposit =
      (deposit * (w.config.feeBps : Int)).tdiv 10000 := by
  unfold feeCharged at h
  split at h
  · simp only [creationFee, creationSetup, h]
  · cases h

/-- Without a recipient, or at rate zero, there is no fee. -/
theorem creationFee_of_not_charged {w : World} (h : feeCharged w = none)
    (deposit : Int) : creationFee (creationSetup w) deposit = 0 := by
  unfold feeCharged at h
  split at h
  · simp only [creationFee, creationSetup, h]
  · rename_i hzero
    have hrate : w.config.feeBps = 0 := by omega
    unfold creationFee
    split
    · show (deposit * ((w.config.feeBps : Nat) : Int)).tdiv 10000 = 0
      rw [hrate]
      simp
    · rfl

/-- At a rate of at most one percent the fee is less than the deposit, and
positive from a product of 10000 on. -/
theorem creationFee_bounds {w : World} {recipient : Address}
    (hcharged : feeCharged w = some recipient) {deposit : Int} (hpos : 0 < deposit)
    (hrate : w.config.feeBps ≤ 100) :
    0 ≤ deposit * (w.config.feeBps : Int) ∧
      0 ≤ creationFee (creationSetup w) deposit ∧
      creationFee (creationSetup w) deposit < deposit ∧
      (0 < creationFee (creationSetup w) deposit ↔
        10000 ≤ deposit * (w.config.feeBps : Int)) := by
  have hproduct : 0 ≤ deposit * (w.config.feeBps : Int) := by positivity
  have hbound : deposit * (w.config.feeBps : Int) ≤ deposit * 100 :=
    mul_le_mul_of_nonneg_left (by exact_mod_cast hrate) hpos.le
  rw [creationFee_of_charged hcharged, Int.tdiv_eq_ediv_of_nonneg hproduct]
  generalize deposit * (w.config.feeBps : Int) = product at hproduct hbound
  refine ⟨hproduct, ?_, ?_, ?_⟩
  · omega
  · omega
  · omega

theorem creationFee_lt {w : World} {deposit : Int} (hpos : 0 < deposit)
    (hrate : w.config.feeBps ≤ 100) :
    creationFee (creationSetup w) deposit < deposit := by
  cases hcharged : feeCharged w with
  | none =>
      rw [creationFee_of_not_charged hcharged]
      exact hpos
  | some recipient => exact (creationFee_bounds hcharged hpos hrate).2.2.1

/-- The funding part of a creation, in the branch that charges a fee. -/
theorem collectDeposit_of_charged {host : Host} {employer token recipient : Address}
    {deposit : Int} {w : World} (hcharged : feeCharged w = some recipient) :
    collectDeposit host employer token deposit w.config.feeBps w.feeRecipient w = do
      let product ← expect (checkedMul deposit (w.config.feeBps : Int)) errOverflow
      let middle ← tokenTransfer host ⟨.deposit (w.streamCount + 1), token, employer,
        host.self, deposit - product.tdiv 10000⟩ w
      let w' ← tokenTransfer host ⟨.creationFee (w.streamCount + 1), token, employer,
        recipient, product.tdiv 10000⟩ middle
      return ((w.config.feeBps, deposit - product.tdiv 10000), w') := by
  unfold feeCharged at hcharged
  split at hcharged
  · rename_i hfee
    simp only [collectDeposit, if_pos hfee, hcharged]
  · cases hcharged

/-- The funding part without a fee. -/
theorem collectDeposit_of_not_charged {host : Host} {employer token : Address}
    {deposit : Int} {w : World} (hcharged : feeCharged w = none) :
    collectDeposit host employer token deposit w.config.feeBps w.feeRecipient w = do
      let w' ← tokenTransfer host ⟨.deposit (w.streamCount + 1), token, employer,
        host.self, deposit⟩ w
      return ((0, deposit), w') := by
  unfold feeCharged at hcharged
  split at hcharged
  · rename_i hfee
    simp only [collectDeposit, if_pos hfee, hcharged]
  · rename_i hfee
    simp only [collectDeposit, if_neg hfee]

/-- What the employer has left after the net deposit still covers the fee. -/
theorem fee_le_afterDeposit {contract token employer : Address} {w : World}
    {deposit : Int} (hcovered : deposit ≤ w.balances token employer)
    (hfee : creationFee (creationSetup w) deposit ≤ deposit) :
    creationFee (creationSetup w) deposit ≤
      afterDeposit contract token w employer deposit employer := by
  rw [afterDeposit, move_apply, if_pos rfl]
  split
  · omega
  · omega

/-- The net deposit leaves `i128` values. -/
theorem afterDeposit_fits {contract token employer : Address} {w : World}
    {deposit : Int} (hfit : BalancesFit (w.balances token))
    (hcovered : deposit ≤ w.balances token employer)
    (hnonneg : 0 ≤ creationFee (creationSetup w) deposit)
    (hfee : creationFee (creationSetup w) deposit ≤ deposit)
    (hcredit : afterDeposit contract token w employer deposit contract ≤ i128Max) :
    BalancesFit (afterDeposit contract token w employer deposit) := by
  have hfits := fits_of_covered hfit (by omega) (by omega) hcredit
  exact hfit.move hfits

/-- The balances after both transfers. -/
def afterFunding (contract token : Address) (w : World) (employer : Address)
    (deposit : Int) : Address → Int :=
  match feeCharged w with
  | some recipient =>
      move (afterDeposit contract token w employer deposit) employer recipient
        (creationFee (creationSetup w) deposit)
  | none => afterDeposit contract token w employer deposit

/-- `w'` is `w` with the stream funded and nothing recorded yet. -/
structure Funded (contract token : Address) (w w' : World) (employer : Address)
    (deposit net : Int) : Prop where
  fee_positive : FeePositive w deposit
  fits : CreditsFit contract token w employer deposit
  net_eq : net = deposit - creationFee (creationSetup w) deposit
  balances : w'.balances token = afterFunding contract token w employer deposit
  streamCount : w'.streamCount = w.streamCount

section Funding

variable {host : Host} {employer token : Address}
  (hown : host.tokens token = some ownToken) {w : World}
  (hfit : BalancesFit (w.balances token)) {deposit : Int} (hpos : 0 < deposit)
  (hcovered : deposit ≤ w.balances token employer)

include hown hfit

/-- Without a fee there is one transfer. -/
theorem funded_of_not_charged (hcharged : feeCharged w = none) {w' : World}
    (h : tokenTransfer host ⟨.deposit (w.streamCount + 1), token, employer,
      host.self, deposit⟩ w = .ok w') :
    Funded host.self token w w' employer deposit deposit := by
  have hfee := creationFee_of_not_charged hcharged deposit
  have hafter : afterDeposit host.self token w employer deposit =
      move (w.balances token) employer host.self deposit := by
    rw [afterDeposit, hfee, Int.sub_zero]
  have huncharged : (feeCharged w).isSome = true → False := by
    rw [hcharged]
    rintro ⟨⟩
  obtain ⟨_, _, hcredit, rfl⟩ := (tokenTransfer_own_iff hown rfl hfit _ _ _ _ _).mp h
  exact
    { fee_positive := fun hsome => absurd hsome huncharged
      fits :=
        { product := fun hsome => absurd hsome huncharged
          toContract := by rw [hafter]; exact hcredit
          toRecipient := by
            intro recipient hrecipient
            rw [hcharged] at hrecipient
            cases hrecipient }
      net_eq := by rw [hfee, Int.sub_zero]
      balances := by
        simp only [afterFunding, hcharged, hafter]
        exact Function.update_self token _ _
      streamCount := rfl }

include hpos hcovered

/-- With a fee there are two. -/
theorem funded_of_charged (hrate : w.config.feeBps ≤ 100) {recipient : Address}
    (hcharged : feeCharged w = some recipient) {middle w' : World}
    (hrange : InI128 (deposit * (w.config.feeBps : Int)))
    (hfirst : tokenTransfer host ⟨.deposit (w.streamCount + 1), token, employer,
      host.self, deposit - creationFee (creationSetup w) deposit⟩ w = .ok middle)
    (hsecond : tokenTransfer host ⟨.creationFee (w.streamCount + 1), token, employer,
      recipient, creationFee (creationSetup w) deposit⟩ middle = .ok w') :
    Funded host.self token w w' employer deposit
      (deposit - creationFee (creationSetup w) deposit) := by
  obtain ⟨_, hnonneg, hless, hpositive⟩ := creationFee_bounds hcharged hpos hrate
  obtain ⟨_, _, hcredit, rfl⟩ :=
    (tokenTransfer_own_iff hown rfl hfit _ _ _ _ _).mp hfirst
  have hmiddle := afterDeposit_fits hfit hcovered hnonneg hless.le hcredit
  obtain ⟨hfeePos, _, hfeeCredit, rfl⟩ := (tokenTransfer_own_iff hown
    (Function.update_self token _ _) hmiddle _ _ _ _ _).mp hsecond
  exact
    { fee_positive := fun _ => hpositive.mp hfeePos
      fits :=
        { product := fun _ => hrange.2
          toContract := hcredit
          toRecipient := by
            intro other hother
            obtain rfl : recipient = other :=
              Option.some.inj (hcharged.symm.trans hother)
            exact hfeeCredit }
      net_eq := rfl
      balances := by
        simp only [afterFunding, hcharged]
        exact Function.update_self token _ _
      streamCount := rfl }

/-- The funding of a stream in the own token, if it goes through. -/
theorem collectDeposit_funded (hrate : w.config.feeBps ≤ 100) {reported : Nat}
    {net : Int} {w' : World}
    (h : collectDeposit host employer token deposit w.config.feeBps w.feeRecipient w =
      .ok ((reported, net), w')) :
    Funded host.self token w w' employer deposit net := by
  cases hcharged : feeCharged w with
  | none =>
      rw [collectDeposit_of_not_charged hcharged] at h
      simp only [bind_eq_ok_iff, pure_eq_ok_iff, Prod.mk.injEq] at h
      obtain ⟨_, htransfer, ⟨_, rfl⟩, rfl⟩ := h
      exact funded_of_not_charged hown hfit hcharged htransfer
  | some recipient =>
      rw [collectDeposit_of_charged hcharged] at h
      simp only [bind_eq_ok_iff, expect_eq_ok_iff, checkedMul_eq_some_iff,
        pure_eq_ok_iff, Prod.mk.injEq] at h
      obtain ⟨_, ⟨hrange, rfl⟩, middle, hfirst, _, hsecond, ⟨_, rfl⟩, rfl⟩ := h
      rw [← creationFee_of_charged hcharged] at hfirst hsecond ⊢
      exact funded_of_charged hown hfit hpos hcovered hrate hcharged hrange hfirst
        hsecond

/-- When it goes through. -/
theorem collectDeposit_returns (hrate : w.config.feeBps ≤ 100)
    (hfee : FeePositive w deposit)
    (hfits : CreditsFit host.self token w employer deposit) :
    Returns (collectDeposit host employer token deposit w.config.feeBps
      w.feeRecipient w) := by
  cases hcharged : feeCharged w with
  | none =>
      have hcredit := hfits.toContract
      rw [afterDeposit, creationFee_of_not_charged hcharged, Int.sub_zero] at hcredit
      rw [collectDeposit_of_not_charged hcharged]
      exact Returns.bind ((tokenTransfer_own_iff hown rfl hfit _ _ _ _ _).mpr
        ⟨hpos, hcovered, hcredit, rfl⟩) ⟨_, rfl⟩
  | some recipient =>
      obtain ⟨hproduct, hnonneg, hless, hpositive⟩ :=
        creationFee_bounds hcharged hpos hrate
      have hmiddle := afterDeposit_fits hfit hcovered hnonneg hless.le hfits.toContract
      have hsome : (feeCharged w).isSome = true := by
        rw [hcharged]
        rfl
      have hrange : InI128 (deposit * (w.config.feeBps : Int)) :=
        ⟨le_trans (by decide) hproduct, hfits.product hsome⟩
      rw [collectDeposit_of_charged hcharged]
      refine Returns.bind ((expect_eq_ok_iff _ _ _).mpr
        ((checkedMul_eq_some_iff _ _ _).mpr ⟨hrange, rfl⟩)) ?_
      rw [← creationFee_of_charged hcharged]
      refine Returns.bind ((tokenTransfer_own_iff hown rfl hfit _ _ _ _ _).mpr
        ⟨by omega, by omega, hfits.toContract, rfl⟩) ?_
      exact Returns.bind ((tokenTransfer_own_iff hown
        (Function.update_self token _ _) hmiddle _ _ _ _ _).mpr
          ⟨hpositive.mpr (hfee hsome), fee_le_afterDeposit hcovered hless.le,
            hfits.toRecipient recipient hcharged, rfl⟩) ⟨_, rfl⟩

end Funding

/-! ## Creating a stream -/

/-- What has to hold before `create_stream` collects the deposit. -/
structure CreationReady (ctx : Context) (w : World)
    (employer employee token : Address) (deposit ratePerSecond : Int)
    (stopTime cliffTime : Nat) : Prop where
  signed : employer ∈ ctx.auth
  not_paused : w.config.paused = false
  below_limit : (w.employerStreams employer).length < w.config.maxStreams
  valid : validateCreateStream deposit w.config.minDeposit ratePerSecond stopTime
    cliffTime ctx.now employer employee = .ok ()
  allowed : isTokenAllowed w token = true
  covered : deposit ≤ w.balances token employer
  rate_le : w.config.feeBps ≤ 100

section Creation

variable {host : Host} {ctx : Context} {w : World}
  {employer employee token : Address} {deposit ratePerSecond : Int}
  {stopTime cooldownPeriod cliffTime : Nat}
  (hown : host.tokens token = some ownToken)
  (hfit : BalancesFit (w.balances token))
  (hready : CreationReady ctx w employer employee token deposit ratePerSecond
    stopTime cliffTime)

include hown hfit hready

/-- A creation that returned funded the stream and stored it. -/
theorem createStream_funded {id : Nat} {w' : World}
    (h : createStream host ctx employer employee token deposit ratePerSecond stopTime
      cooldownPeriod cliffTime w = .ok (id, w')) :
    w.streamCount < u64Max ∧ ∃ middle s, w'.streams id = some s ∧
      w'.balances = middle.balances ∧
      Funded host.self token w middle employer deposit s.deposit := by
  obtain ⟨_, _, _, v, hshared, rfl⟩ :=
    (createStream_eq_ok_iff _ _ _ _ _ _ _ _ _ _ _ _ _).mp h
  simp only [createShared, nextId, bind_eq_ok_iff, expect_eq_ok_iff,
    checkedAddU64_eq_some_iff, pure_eq_ok_iff, Prod.mk.injEq] at hshared
  obtain ⟨_, _, _, _, _, _, ⟨⟨reported, net⟩, middle⟩, hcollect, _,
    ⟨_, ⟨hcount, rfl⟩, rfl⟩, rfl, rfl⟩ := hshared
  have hfunded := collectDeposit_funded hown hfit
    (validateCreateStream_ok hready.valid).1 hready.covered hready.rate_le hcollect
  have hcounter := hfunded.streamCount
  change middle.streamCount + 1 ≤ u64Max at hcount
  exact ⟨by omega, middle, _, Function.update_self _ _ _, rfl, hfunded⟩

/-- A creation that is ready returns when its transfers go through and an id is
left. -/
theorem createStream_returns (hcount : w.streamCount < u64Max)
    (hfee : FeePositive w deposit)
    (hfits : CreditsFit host.self token w employer deposit) :
    Returns (createStream host ctx employer employee token deposit ratePerSecond
      stopTime cooldownPeriod cliffTime w) := by
  have hpos := (validateCreateStream_ok hready.valid).1
  obtain ⟨⟨⟨reported, net⟩, middle⟩, hcollect⟩ :=
    collectDeposit_returns hown hfit hpos hready.covered hready.rate_le hfee hfits
  have hfunded := collectDeposit_funded hown hfit hpos hready.covered hready.rate_le
    hcollect
  have hnext : nextId middle = .ok (middle.streamCount + 1,
      { middle with streamCount := middle.streamCount + 1 }) := by
    have hcounter := hfunded.streamCount
    simp only [nextId, bind_eq_ok_iff, expect_eq_ok_iff, checkedAddU64_eq_some_iff,
      pure_eq_ok_iff]
    exact ⟨_, ⟨by omega, rfl⟩, rfl⟩
  have htoken : requireToken host token = .ok () := by
    simp only [requireToken, hown, Option.isSome_some, ensure_eq_ok_iff]
  obtain ⟨⟨id, v⟩, hshared⟩ : Returns (createShared host ctx employer
      (creationSetup w) cooldownPeriod
      ⟨employee, token, deposit, ratePerSecond, stopTime, cliffTime⟩ w) :=
    Returns.bind hready.valid (Returns.ensure hready.allowed
      (Returns.bind htoken (Returns.bind hcollect (Returns.bind hnext ⟨_, rfl⟩))))
  exact ⟨_, (createStream_eq_ok_iff _ _ _ _ _ _ _ _ _ _ _ _ _).mpr
    ⟨hready.signed, hready.not_paused, hready.below_limit, v, hshared, rfl⟩⟩

end Creation

/-- While no balance is negative the credits fit: all of them are within the
supply. -/
theorem creditsFit_of_nonneg {contract token : Address} {w : World} {total : Int}
    (hadds : AddsUpTo (w.balances token) total) (hcap : total ≤ maxSupply)
    (hnonneg : ∀ account, 0 ≤ w.balances token account) {employer : Address}
    {deposit : Int} (hpos : 0 < deposit)
    (hcovered : deposit ≤ w.balances token employer)
    (hrate : w.config.feeBps ≤ 100) :
    CreditsFit contract token w employer deposit := by
  have hsmall : maxSupply * 100 ≤ i128Max := by decide
  have hdeposit : deposit ≤ maxSupply :=
    (hcovered.trans (hadds.le hnonneg employer)).trans hcap
  have hmax : total ≤ i128Max := by omega
  have hfee := creationFee_nonneg (creationSetup w) hpos.le
  have hless := creationFee_lt hpos hrate
  have hafterAdds : AddsUpTo (afterDeposit contract token w employer deposit) total :=
    hadds.move employer contract _
  have hafterNonneg : ∀ account,
      0 ≤ afterDeposit contract token w employer deposit account :=
    move_nonneg (Or.inl (by omega)) (by omega) hnonneg
  refine ⟨?_, (hafterAdds.le hafterNonneg contract).trans hmax, ?_⟩
  · intro _
    have hproduct : deposit * (w.config.feeBps : Int) ≤ deposit * 100 :=
      mul_le_mul_of_nonneg_left (by exact_mod_cast hrate) hpos.le
    omega
  · intro recipient _
    have hlastAdds := hafterAdds.move employer recipient
      (creationFee (creationSetup w) deposit)
    have hlastNonneg := move_nonneg (Or.inl hfee : _ ∨ employer = recipient)
      (fee_le_afterDeposit hcovered hless.le) hafterNonneg
    exact (hlastAdds.le hlastNonneg recipient).trans hmax

/-- The deposit left the employer, for the contract as the deposit of the stream
and for the fee recipient. -/
structure DepositSplit (contract token : Address) (w w' : World)
    (employer : Address) (deposit : Int) (s : Stream) (fee : Int) : Prop where
  whole : s.deposit + fee = deposit
  fee_nonneg : 0 ≤ fee
  fee_of_none : w.feeRecipient = none → fee = 0
  debit : w'.balances token employer = w.balances token employer - deposit
  credits : ∀ account, account ≠ employer →
    w'.balances token account = w.balances token account +
      (if contract = account then s.deposit else 0) +
      (if w.feeRecipient = some account then fee else 0)

/-- Both transfers, account by account. -/
theorem afterFunding_apply (contract token : Address) (w : World)
    (employer : Address) (deposit : Int) (account : Address) :
    afterFunding contract token w employer deposit account =
      w.balances token account +
        (if contract = account then
          deposit - creationFee (creationSetup w) deposit else 0) +
        (if w.feeRecipient = some account then
          creationFee (creationSetup w) deposit else 0) -
        (if employer = account then deposit else 0) := by
  cases hcharged : feeCharged w with
  | none =>
      have hfee := creationFee_of_not_charged hcharged deposit
      simp only [afterFunding, hcharged, afterDeposit, move_apply, hfee, ite_self,
        Int.sub_zero]
      omega
  | some recipient =>
      have hrecipient : w.feeRecipient = some recipient := by
        unfold feeCharged at hcharged
        split at hcharged
        · exact hcharged
        · cases hcharged
      simp only [afterFunding, hcharged, afterDeposit, move_apply, hrecipient,
        Option.some.injEq]
      by_cases hemployer : employer = account
      · simp only [if_pos hemployer]
        omega
      · simp only [if_neg hemployer]
        omega

/-- The transfers of a funded stream split the deposit. -/
theorem depositSplit_of_funded {contract token : Address} {w middle w' : World}
    {employer : Address} {deposit : Int} {s : Stream} (hpos : 0 < deposit)
    (hfunded : Funded contract token w middle employer deposit s.deposit)
    (hbalances : w'.balances = middle.balances) (hcontract : contract ≠ employer)
    (hrecipient : w.feeRecipient ≠ some employer) :
    DepositSplit contract token w w' employer deposit s
      (creationFee (creationSetup w) deposit) where
  whole := by
    rw [hfunded.net_eq]
    omega
  fee_nonneg := creationFee_nonneg _ hpos.le
  fee_of_none := by
    intro hnone
    simp only [creationFee, creationSetup, hnone]
  debit := by
    rw [hbalances, hfunded.balances, afterFunding_apply, if_neg hcontract,
      if_neg hrecipient, if_pos rfl]
    omega
  credits := by
    intro account haccount
    rw [hbalances, hfunded.balances, afterFunding_apply, hfunded.net_eq,
      if_neg (Ne.symm haccount), Int.sub_zero]

/-- Creation on the repository's own token, in every reachable state of the two
contracts: a call that is ready returns exactly when an id is left, a fee that is
charged does not round to zero, and nothing overflows, which is the case while no
balance is negative.  The deposit is then split between the contract and the
recipient. -/
theorem creation_composes_iff {host : Host} {token : Address}
    (hown : host.tokens token = some ownToken) {history : PairHistory token}
    {p : Pair token} (hrun : PairReaches host history p)
    (honce : TokenInitializedOnce history) {inv : Invocation}
    {employer employee : Address} {deposit ratePerSecond : Int}
    {stopTime cooldownPeriod cliffTime : Nat}
    (hcall : inv.call = .create (.createStream employer employee token deposit
      ratePerSecond stopTime cooldownPeriod cliffTime))
    (hready : CreationReady inv.toContext p.world employer employee token deposit
      ratePerSecond stopTime cliffTime) :
    (Returns (exec host inv.toContext inv.call p.world) ↔
        p.world.streamCount < u64Max ∧ FeePositive p.world deposit ∧
          CreditsFit host.self token p.world employer deposit) ∧
      (BalancesNonneg p.tokenState →
        CreditsFit host.self token p.world employer deposit) ∧
      ∀ value w', Succeeds host p.world inv value w' → host.self ∉ inv.auth →
        p.world.feeRecipient ≠ some employer →
          ∃ id s fee, value = .nat id ∧ w'.streams id = some s ∧
            DepositSplit host.self token p.world w' employer deposit s fee := by
  obtain ⟨⟨hadds, hcap⟩, hfit⟩ := tokenSound_of_run hown hrun honce
  rw [← p.shared] at hadds hfit
  have hpos := (validateCreateStream_ok hready.valid).1
  have hexec : exec host inv.toContext inv.call p.world =
      (createStream host inv.toContext employer employee token deposit ratePerSecond
        stopTime cooldownPeriod cliffTime p.world).map
          fun created => (.nat created.1, created.2) := by
    rw [hcall]
    rfl
  refine ⟨⟨?_, ?_⟩, ?_, ?_⟩
  · rintro ⟨result, h⟩
    rw [hexec, map_eq_ok_iff] at h
    obtain ⟨⟨id, w'⟩, hcreate, _⟩ := h
    obtain ⟨hcount, middle, s, _, _, hfunded⟩ :=
      createStream_funded hown hfit hready hcreate
    exact ⟨hcount, hfunded.fee_positive, hfunded.fits⟩
  · rintro ⟨hcount, hfee, hfits⟩
    rw [hexec]
    exact (createStream_returns hown hfit hready hcount hfee hfits).map _
  · -- no sum can pass the supply while nobody is in debt
    intro hnonneg
    refine creditsFit_of_nonneg hadds hcap ?_ hpos hready.covered hready.rate_le
    rw [p.shared]
    exact hnonneg
  · intro value w' hsucceeds hself hrecipient
    unfold Succeeds at hsucceeds
    rw [hexec, map_eq_ok_iff] at hsucceeds
    obtain ⟨⟨id, v⟩, hcreate, heq⟩ := hsucceeds
    cases heq
    obtain ⟨_, middle, s, hstored, hbalances, hfunded⟩ :=
      createStream_funded hown hfit hready hcreate
    have hcontract : host.self ≠ employer := by
      rintro rfl
      exact hself hready.signed
    exact ⟨id, s, _, rfl, hstored,
      depositSplit_of_funded hpos hfunded hbalances hcontract hrecipient⟩

theorem ownHost_token : Sample.ownHost.tokens Sample.token = some ownToken := rfl

/-- A deposit of 10000 at one percent: 9900 for the stream, 100 for the
treasury. -/
theorem creation_composes_of_fee :
    ∃ (history : PairHistory Sample.token) (p : Pair Sample.token)
      (inv : Invocation), PairReaches Sample.ownHost history p ∧
        TokenInitializedOnce history ∧
        inv.call = .create (.createStream Sample.employer Sample.employee
          Sample.token 10000 100 0 0 0) ∧
        Returns (exec Sample.ownHost inv.toContext inv.call p.world) ∧
        ∃ value w' id s fee, Succeeds Sample.ownHost p.world inv value w' ∧
          w'.balances Sample.token Sample.treasury = 100 ∧ value = .nat id ∧
          w'.streams id = some s ∧ DepositSplit Sample.ownHost.self Sample.token
            p.world w' Sample.employer 10000 s fee := by
  have hrun := Sample.playPair_reaches [
    .onToken (Sample.invokeToken 1 Sample.employer
      (.initializeToken Sample.employer 1000000)),
    .onContract (Sample.invoke 2 Sample.admin
      (.admin (.initializeContract Sample.admin))),
    .onContract (Sample.invoke 3 Sample.admin
      (.admin (.setProtocolFee Sample.admin 0 100 Sample.treasury)))] (by decide)
  have hcall : (Sample.openStream 10 10000 100 0).call =
      .create (.createStream Sample.employer Sample.employee Sample.token 10000 100
        0 0 0) := rfl
  obtain ⟨hreturns, _, hsplit⟩ := creation_composes_iff ownHost_token hrun
    ⟨[_, _], _, [], rfl, rfl, by decide, by decide⟩ hcall
    ⟨by decide, by decide, by decide, rfl, by decide, by decide, by decide⟩
  have hok := hreturns.mpr ⟨by decide, fun _ => by decide,
    ⟨fun _ => by decide, by decide, by rintro recipient ⟨⟩; decide⟩⟩
  obtain ⟨⟨value, w'⟩, hsucceeds⟩ := id hok
  obtain ⟨id, s, fee, hvalue, hstored, hsplit⟩ :=
    hsplit value w' hsucceeds (by decide) (by decide)
  refine ⟨_, _, _, hrun, ⟨[_, _], _, [], rfl, rfl, by decide, by decide⟩, hcall, hok,
    value, w', id, s, fee, hsucceeds, ?_, hvalue, hstored, hsplit⟩
  rw [← step_eq_of_succeeds hsucceeds]
  decide

/-- A deposit of 1000 at a rate of 5: the fee is zero, the token refuses it, and the
creation panics. -/
theorem zero_fee_refused :
    ∃ (history : PairHistory Sample.token) (p : Pair Sample.token)
      (inv : Invocation), PairReaches Sample.ownHost history p ∧
        TokenInitializedOnce history ∧
        inv.call = .create (.createStream Sample.employer Sample.employee
          Sample.token 1000 10 0 0 0) ∧
        CreationReady inv.toContext p.world Sample.employer Sample.employee
          Sample.token 1000 10 0 0 ∧
        p.world.config.feeBps = 5 ∧
        ¬ Returns (exec Sample.ownHost inv.toContext inv.call p.world) := by
  have hrun := Sample.playPair_reaches [
    .onToken (Sample.invokeToken 1 Sample.employer
      (.initializeToken Sample.employer 1000000)),
    .onContract (Sample.invoke 2 Sample.admin
      (.admin (.initializeContract Sample.admin))),
    .onContract (Sample.invoke 3 Sample.admin
      (.admin (.setProtocolFee Sample.admin 0 5 Sample.treasury)))] (by decide)
  refine ⟨_, _, Sample.openStream 10 1000 10 0, hrun,
    ⟨[_, _], _, [], rfl, rfl, by decide, by decide⟩, rfl,
    ⟨by decide, by decide, by decide, rfl, by decide, by decide, by decide⟩,
    by decide, ?_⟩
  rintro ⟨result, h⟩
  cases h

end Properties
end Paystream
