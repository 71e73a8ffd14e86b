import Paystream.Contract.Admin
import Paystream.Contract.Governance
import Paystream.Contract.Streams
import Paystream.Library.History

/-!
# Calls, invocations and runs

`Call` lists the entry points with their arguments, `exec` dispatches one call,
and `system` is the contract as a clocked system: an invocation that panics
leaves the world as it was, one that returns replaces it.

One call is not an entry point of the contract: `directTransfer` is the
`transfer` anybody may invoke on a token contract directly, with tokens of their
own.  It lets balances move, and the contract be credited, between two calls.
-/

namespace Paystream
namespace Contract

open Library

/-! ## Calls -/

inductive AdminCall
  | initializeContract (admin : Address)
  | proposeAdmin (currentAdmin newAdmin : Address)
  | acceptAdmin (newAdmin : Address)
  | pauseContract (admin : Address) (nonce : Nat)
  | unpauseContract (admin : Address) (nonce : Nat)
  | emergencyPause (admin : Address)
  | setMinDeposit (admin : Address) (nonce : Nat) (amount : Int)
  | setProtocolFee (admin : Address) (nonce feeBps : Nat) (feeRecipient : Address)
  | setMaxStreamsPerEmployer (admin : Address) (nonce limit : Nat)
  | addAllowedToken (admin token : Address)
  | removeAllowedToken (admin token : Address)
  | upgrade (admin : Address) (newWasmHash : BitVec 256) (nonce : Nat)
  | migrate (admin : Address)
  deriving DecidableEq

inductive GovernanceCall
  | proposeParameter (proposer : Address) (param : GovParam) (newValue : Nat)
  | vote (voter : Address) (proposalId : Nat) (support : Bool)
  | tally (proposalId : Nat)
  | executeProposal (proposalId : Nat)
  | configureMultisig (caller : Address) (admins : List Address) (threshold : Nat)
  | multisigPropose (caller : Address) (op : AdminOp)
  | multisigApprove (caller : Address) (opId : Nat)
  deriving DecidableEq

/-- The creation calls. -/
inductive CreateCall
  | createStream (employer employee tokenAddress : Address)
      (deposit ratePerSecond : Int) (stopTime cooldownPeriod cliffTime : Nat)
  | createStreamsBatch (employer : Address) (params : List StreamParams)
  deriving DecidableEq

/-- The calls that name one stream and may write it. -/
inductive StreamCall
  | withdraw (employee : Address)
  | transferStream (employee newEmployee : Address)
  | topUp (caller : Address) (amount : Int)
  | pauseStream (caller : Address)
  | resumeStream (caller : Address)
  | cancelStream (employer : Address)
  | setDelegate (employer : Address) (delegate : Option Address)
  | proposeEmployerTransfer (employer newEmployer : Address)
  | acceptEmployerTransfer (newEmployer : Address)
  | updateRate (employer : Address) (newRate : Int)
  | getStream
  | reclaimExpired (employer : Address)
  deriving DecidableEq

/-- The calls that only read. -/
inductive Query
  | claimable (streamId : Nat)
  | claimableAt (streamId timestamp : Nat)
  | isPaused
  | getAllowedTokens
  | streamCount
  | adminNonce
  | maxStreamsPerEmployer
  | streamsByEmployer (employer : Address)
  | streamsByEmployee (employee : Address)
  | pauseHistory (streamId : Nat)
  | getProposal (proposalId : Nat)
  | getPendingAdminOp (opId : Nat)
  | getMultisigConfig
  deriving DecidableEq

inductive Call
  | admin (call : AdminCall)
  | governance (call : GovernanceCall)
  | create (call : CreateCall)
  | onStream (streamId : Nat) (call : StreamCall)
  | withdrawProtocolFees (admin token : Address) (amount : Int)
  | query (query : Query)
  | directTransfer (token source target : Address) (amount : Int)
  deriving DecidableEq

/-- The values the entry points return. -/
inductive Value
  | unit
  | bool (value : Bool)
  | nat (value : Nat)
  | amount (value : Int)
  | ids (value : List Nat)
  | addresses (value : List Address)
  | stream (value : Stream)
  | pauses (value : List PauseEvent)
  | proposal (value : Proposal)
  | pendingOp (value : PendingAdminOp)
  | multisig (value : MultisigConfig)
  deriving DecidableEq

/-! ## Dispatch -/

/-- Return no value. -/
def unitResult (result : Except String World) : Except String (Value × World) :=
  result.map fun w => (.unit, w)

def execAdmin (ctx : Context) (call : AdminCall) (w : World) :
    Except String World :=
  match call with
  | .initializeContract admin => StreamContract.initializeContract ctx admin w
  | .proposeAdmin currentAdmin newAdmin =>
      StreamContract.proposeAdmin ctx currentAdmin newAdmin w
  | .acceptAdmin newAdmin => StreamContract.acceptAdmin ctx newAdmin w
  | .pauseContract admin nonce => StreamContract.pauseContract ctx admin nonce w
  | .unpauseContract admin nonce =>
      StreamContract.unpauseContract ctx admin nonce w
  | .emergencyPause admin => StreamContract.emergencyPause ctx admin w
  | .setMinDeposit admin nonce amount =>
      StreamContract.setMinDeposit ctx admin nonce amount w
  | .setProtocolFee admin nonce feeBps feeRecipient =>
      StreamContract.setProtocolFee ctx admin nonce feeBps feeRecipient w
  | .setMaxStreamsPerEmployer admin nonce limit =>
      StreamContract.setMaxStreamsPerEmployer ctx admin nonce limit w
  | .addAllowedToken admin token =>
      StreamContract.addAllowedToken ctx admin token w
  | .removeAllowedToken admin token =>
      StreamContract.removeAllowedToken ctx admin token w
  | .upgrade admin newWasmHash nonce =>
      StreamContract.upgrade ctx admin newWasmHash nonce w
  | .migrate admin => StreamContract.migrate ctx admin w

def execGovernance (ctx : Context) (call : GovernanceCall) (w : World) :
    Except String (Value × World) :=
  match call with
  | .proposeParameter proposer param newValue =>
      (StreamContract.proposeParameter ctx proposer param newValue w).map
        fun (id, w) => (.nat id, w)
  | .vote voter proposalId support =>
      unitResult (StreamContract.vote ctx voter proposalId support w)
  | .tally proposalId => unitResult (StreamContract.tally proposalId w)
  | .executeProposal proposalId =>
      unitResult (StreamContract.executeProposal ctx proposalId w)
  | .configureMultisig caller admins threshold =>
      unitResult (StreamContract.configureMultisig ctx caller admins threshold w)
  | .multisigPropose caller op =>
      (StreamContract.multisigPropose ctx caller op w).map
        fun (id, w) => (.nat id, w)
  | .multisigApprove caller opId =>
      unitResult (StreamContract.multisigApprove ctx caller opId w)

def execCreate (host : Host) (ctx : Context) (call : CreateCall) (w : World) :
    Except String (Value × World) :=
  match call with
  | .createStream employer employee tokenAddress deposit ratePerSecond stopTime
      cooldownPeriod cliffTime =>
      (StreamContract.createStream host ctx employer employee tokenAddress deposit
        ratePerSecond stopTime cooldownPeriod cliffTime w).map
        fun (id, w) => (.nat id, w)
  | .createStreamsBatch employer params =>
      (StreamContract.createStreamsBatch host ctx employer params w).map
        fun (ids, w) => (.ids ids, w)

def execOnStream (host : Host) (ctx : Context) (streamId : Nat)
    (call : StreamCall) (w : World) : Except String (Value × World) :=
  match call with
  | .withdraw employee =>
      (StreamContract.withdraw host ctx employee streamId w).map
        fun (amount, w) => (.amount amount, w)
  | .transferStream employee newEmployee =>
      unitResult (StreamContract.transferStream ctx employee streamId newEmployee w)
  | .topUp caller amount =>
      unitResult (StreamContract.topUp host ctx caller streamId amount w)
  | .pauseStream caller =>
      unitResult (StreamContract.pauseStream ctx caller streamId w)
  | .resumeStream caller =>
      unitResult (StreamContract.resumeStream ctx caller streamId w)
  | .cancelStream employer =>
      unitResult (StreamContract.cancelStream host ctx employer streamId w)
  | .setDelegate employer delegate =>
      unitResult (StreamContract.setDelegate ctx employer streamId delegate w)
  | .proposeEmployerTransfer employer newEmployer =>
      unitResult (StreamContract.proposeEmployerTransfer ctx employer streamId
        newEmployer w)
  | .acceptEmployerTransfer newEmployer =>
      unitResult (StreamContract.acceptEmployerTransfer ctx newEmployer streamId w)
  | .updateRate employer newRate =>
      unitResult (StreamContract.updateRate ctx employer streamId newRate w)
  | .getStream =>
      (StreamContract.getStream ctx streamId w).map
        fun (stream, w) => (.stream stream, w)
  | .reclaimExpired employer =>
      unitResult (StreamContract.reclaimExpired host ctx employer streamId w)

def execQuery (ctx : Context) (query : Query) (w : World) :
    Except String Value :=
  match query with
  | .claimable streamId =>
      (StreamContract.claimable ctx streamId w).map .amount
  | .claimableAt streamId timestamp =>
      (StreamContract.claimableAt streamId timestamp w).map .amount
  | .isPaused => .ok (.bool w.config.paused)
  | .getAllowedTokens => .ok (.addresses w.allowedTokens)
  | .streamCount => .ok (.nat w.streamCount)
  | .adminNonce => .ok (.nat w.config.adminNonce)
  | .maxStreamsPerEmployer => .ok (.nat w.config.maxStreams)
  | .streamsByEmployer employer => .ok (.ids (w.employerStreams employer))
  | .streamsByEmployee employee => .ok (.ids (w.employeeStreams employee))
  | .pauseHistory streamId => .ok (.pauses (w.pauseHistory streamId))
  | .getProposal proposalId => (Storage.loadProposal w proposalId).map .proposal
  | .getPendingAdminOp opId => (Storage.loadPendingOp w opId).map .pendingOp
  | .getMultisigConfig =>
      (expect w.multisigConfig errMultisigNotConfigured).map .multisig

/-- `transfer` on the token contract, signed by the source. -/
def directTransfer (host : Host) (ctx : Context)
    (token source target : Address) (amount : Int) (w : World) :
    Except String World := do
  requireAuth ctx source
  tokenTransfer host ⟨.direct, token, source, target, amount⟩ w

def exec (host : Host) (ctx : Context) (call : Call) (w : World) :
    Except String (Value × World) :=
  match call with
  | .admin call => unitResult (execAdmin ctx call w)
  | .governance call => execGovernance ctx call w
  | .create call => execCreate host ctx call w
  | .onStream streamId call => execOnStream host ctx streamId call w
  | .withdrawProtocolFees admin token amount =>
      unitResult (StreamContract.withdrawProtocolFees host ctx admin token amount w)
  | .query query => (execQuery ctx query w).map fun value => (value, w)
  | .directTransfer token source target amount =>
      unitResult (directTransfer host ctx token source target amount w)

/-! ## Argument types -/

/-- The `i128` and `u64` arguments of one batch item are in range. -/
def StreamParams.inRange (p : StreamParams) : Bool :=
  decide (InI128 p.deposit) && decide (InI128 p.ratePerSecond) &&
    decide (p.stopTime ≤ u64Max) && decide (p.cliffTime ≤ u64Max)

/-- The numeric arguments of a call are values of their declared types. -/
def Call.inRange : Call → Bool
  | .admin (.pauseContract _ nonce) => decide (nonce ≤ u64Max)
  | .admin (.unpauseContract _ nonce) => decide (nonce ≤ u64Max)
  | .admin (.setMinDeposit _ nonce amount) =>
      decide (nonce ≤ u64Max) && decide (InI128 amount)
  | .admin (.setProtocolFee _ nonce feeBps _) =>
      decide (nonce ≤ u64Max) && decide (feeBps ≤ u32Max)
  | .admin (.setMaxStreamsPerEmployer _ nonce limit) =>
      decide (nonce ≤ u64Max) && decide (limit ≤ u32Max)
  | .admin (.upgrade _ _ nonce) => decide (nonce ≤ u64Max)
  | .admin _ => true
  | .governance (.proposeParameter _ _ newValue) => decide (newValue ≤ u64Max)
  | .governance (.vote _ proposalId _) => decide (proposalId ≤ u64Max)
  | .governance (.tally proposalId) => decide (proposalId ≤ u64Max)
  | .governance (.executeProposal proposalId) => decide (proposalId ≤ u64Max)
  | .governance (.configureMultisig _ admins threshold) =>
      decide (admins.length ≤ u32Max) && decide (threshold ≤ u32Max)
  | .governance (.multisigPropose _ _) => true
  | .governance (.multisigApprove _ opId) => decide (opId ≤ u64Max)
  | .create (.createStream _ _ _ deposit ratePerSecond stopTime cooldownPeriod
      cliffTime) =>
      decide (InI128 deposit) && decide (InI128 ratePerSecond) &&
        decide (stopTime ≤ u64Max) && decide (cooldownPeriod ≤ u64Max) &&
        decide (cliffTime ≤ u64Max)
  | .create (.createStreamsBatch _ params) =>
      decide (params.length ≤ u32Max) && params.all StreamParams.inRange
  | .onStream streamId (.topUp _ amount) =>
      decide (streamId ≤ u64Max) && decide (InI128 amount)
  | .onStream streamId (.updateRate _ newRate) =>
      decide (streamId ≤ u64Max) && decide (InI128 newRate)
  | .onStream streamId _ => decide (streamId ≤ u64Max)
  | .withdrawProtocolFees _ _ amount => decide (InI128 amount)
  | .query (.claimable streamId) => decide (streamId ≤ u64Max)
  | .query (.claimableAt streamId timestamp) =>
      decide (streamId ≤ u64Max) && decide (timestamp ≤ u64Max)
  | .query (.pauseHistory streamId) => decide (streamId ≤ u64Max)
  | .query (.getProposal proposalId) => decide (proposalId ≤ u64Max)
  | .query (.getPendingAdminOp opId) => decide (opId ≤ u64Max)
  | .query _ => true
  | .directTransfer _ _ _ amount => decide (InI128 amount)

/-! ## Runs -/

/-- A call as the ledger carries it out: a `u64` timestamp, the signers, and
arguments of the declared types. -/
structure Invocation extends Context where
  call : Call
  now_le : now ≤ u64Max
  inRange : call.inRange = true

/-- One invocation: a panic reverts everything. -/
def step (host : Host) (w : World) (inv : Invocation) : World :=
  match exec host inv.toContext inv.call w with
  | .ok (_, w') => w'
  | .error _ => w

/-- The contract as a clocked system, from deployment on. -/
def system (host : Host) : System World Invocation where
  initial w := ∃ balances : Balances Address Address,
    (∀ token account, 0 ≤ balances token account) ∧ w = World.deployed balances
  time inv := inv.now
  step := step host

/-- The entries of a run, newest first. -/
abbrev History := List (Entry World Invocation)

/-- The run with this history ends in this world. -/
abbrev Reaches (host : Host) (history : History) (w : World) : Prop :=
  (system host).Run history w

/-- The last ledger time of a run. -/
abbrev ledgerTime (host : Host) (history : History) : Nat :=
  (system host).lastTime history

/-- An invocation returned, with this value and this world. -/
def Succeeds (host : Host) (w : World) (inv : Invocation) (value : Value)
    (w' : World) : Prop :=
  exec host inv.toContext inv.call w = .ok (value, w')

theorem step_eq_of_succeeds {host : Host} {w w' : World} {inv : Invocation}
    {value : Value} (h : Succeeds host w inv value w') :
    step host w inv = w' := by
  unfold Succeeds at h
  simp [step, h]

/-- A run goes on with an invocation that returned. -/
theorem Reaches.extend {host : Host} {history : History} {w w' : World}
    {inv : Invocation} {value : Value} (hrun : Reaches host history w)
    (htime : ledgerTime host history ≤ inv.now)
    (h : Succeeds host w inv value w') :
    Reaches host (⟨w, inv, w'⟩ :: history) w' := by
  have hnext := System.Run.next hrun inv htime
  have hstep : (system host).step w inv = w' := step_eq_of_succeeds h
  unfold System.entryOf at hnext
  rw [hstep] at hnext
  exact hnext

/-- An invocation panicked. -/
def Fails (host : Host) (w : World) (inv : Invocation) : Prop :=
  ∃ message, exec host inv.toContext inv.call w = .error message

theorem Succeeds.not_fails {host : Host} {w w' : World} {inv : Invocation}
    {value : Value} (h : Succeeds host w inv value w') : ¬ Fails host w inv := by
  rintro ⟨message, hmessage⟩
  unfold Succeeds at h
  rw [hmessage] at h
  cases h

theorem Fails.step_eq {host : Host} {w : World} {inv : Invocation}
    (h : Fails host w inv) : step host w inv = w := by
  obtain ⟨message, hmessage⟩ := h
  simp [step, hmessage]

/-- A step either returned, or it panicked and left the world as it was. -/
theorem step_cases (host : Host) (w : World) (inv : Invocation) :
    (∃ value, Succeeds host w inv value (step host w inv)) ∨
      (Fails host w inv ∧ step host w inv = w) := by
  unfold Succeeds Fails step
  cases hexec : exec host inv.toContext inv.call w with
  | error message => exact Or.inr ⟨⟨message, rfl⟩, rfl⟩
  | ok result =>
      obtain ⟨value, w'⟩ := result
      exact Or.inl ⟨value, rfl⟩

/-- The invariant rule for the contract: a property of the deployed world that
every returning invocation keeps holds along every run.  It may speak of the
history, and must not mind the entry of a panic. -/
theorem Reaches.invariant {host : Host} {P : History → World → Prop}
    (hdeployed : ∀ balances : Balances Address Address,
      (∀ token account, 0 ≤ balances token account) →
        P [] (World.deployed balances))
    (hreturned : ∀ history w inv value w', Reaches host history w →
      ledgerTime host history ≤ inv.now → P history w →
      Succeeds host w inv value w' → P (⟨w, inv, w'⟩ :: history) w')
    (hreverted : ∀ history w inv, Reaches host history w →
      ledgerTime host history ≤ inv.now → P history w → Fails host w inv →
      P (⟨w, inv, w⟩ :: history) w)
    {history : History} {w : World} (hrun : Reaches host history w) :
    P history w := by
  apply System.Run.invariant _ _ hrun
  · rintro w ⟨balances, hbalances, rfl⟩
    exact hdeployed balances hbalances
  · intro history w inv hrun htime ih
    show P (⟨w, inv, step host w inv⟩ :: history) (step host w inv)
    rcases step_cases host w inv with ⟨value, hsucceeds⟩ | ⟨hfails, hsame⟩
    · exact hreturned history w inv value _ hrun htime ih hsucceeds
    · rw [hsame]
      exact hreverted history w inv hrun htime ih hfails

/-- What every returning invocation keeps holds from the moment it held
once. -/
theorem Reaches.persists {host : Host} {P : World → Prop}
    (hreturned : ∀ history w inv value w', Reaches host history w →
      ledgerTime host history ≤ inv.now → P w → Succeeds host w inv value w' →
      P w')
    {later earlier : History} {entry : Entry World Invocation} {w : World}
    (hrun : Reaches host (later ++ entry :: earlier) w)
    (hentry : P entry.after) : P w := by
  refine System.Run.persists (Q := fun _ _ => True) ?_ hrun
    (fun _ _ => trivial) hentry
  intro history w inv hrun htime _ hw
  show P (step host w inv)
  rcases step_cases host w inv with ⟨value, hsucceeds⟩ | ⟨_, hsame⟩
  · exact hreturned history w inv value _ hrun htime hw hsucceeds
  · rw [hsame]
    exact hw

/-- All states of a run have a property exactly when the calls that returned
met the condition under which a call keeps it. -/
theorem Reaches.throughout_iff {host : Host} {P : World → Prop}
    (Keeps : World → Invocation → Prop)
    (hdeployed : ∀ balances : Balances Address Address,
      P (World.deployed balances))
    (hreturned : ∀ history w inv value w', Reaches host history w →
      ledgerTime host history ≤ inv.now → P w → Succeeds host w inv value w' →
      (P w' ↔ Keeps w inv))
    {history : History} {w : World} (hrun : Reaches host history w) :
    System.Throughout P history w ↔ ∀ entry ∈ history,
      Keeps entry.before entry.input ∨ Fails host entry.before entry.input := by
  apply System.Run.throughout_iff
    (fun w inv => Keeps w inv ∨ Fails host w inv) _ _ hrun
  · rintro w ⟨balances, _, rfl⟩
    exact hdeployed balances
  · intro history w inv hrun htime hw
    show P (step host w inv) ↔ _
    rcases step_cases host w inv with ⟨value, hsucceeds⟩ | ⟨hfails, hsame⟩
    · rw [hreturned history w inv value _ hrun htime hw hsucceeds]
      simp only [hsucceeds.not_fails, or_false]
    · rw [hsame]
      simp only [hw, hfails, or_true]

/-- The call of an entry returned. -/
def returned (host : Host) (entry : Entry World Invocation) : Bool :=
  match exec host entry.input.toContext entry.input.call entry.before with
  | .ok _ => true
  | .error _ => false

theorem Succeeds.returned_eq {host : Host} {w w' : World} {inv : Invocation}
    {value : Value} (h : Succeeds host w inv value w') :
    returned host ⟨w, inv, w'⟩ = true := by
  unfold Succeeds at h
  simp only [returned, h]

theorem Fails.returned_eq {host : Host} {w : World} {inv : Invocation}
    (h : Fails host w inv) : returned host ⟨w, inv, w⟩ = false := by
  obtain ⟨message, hmessage⟩ := h
  simp only [returned, hmessage]

/-- The call of an entry returned, or it panicked and changed nothing. -/
theorem Reaches.entry_cases {host : Host} {later earlier : History}
    {entry : Entry World Invocation} {w : World}
    (hrun : Reaches host (later ++ entry :: earlier) w) :
    Reaches host earlier entry.before ∧
      ((returned host entry = true ∧ ∃ value,
          Succeeds host entry.before entry.input value entry.after) ∨
        (returned host entry = false ∧ entry.after = entry.before)) := by
  obtain ⟨hbefore, hafter, _⟩ := hrun.of_split
  change entry.after = step host entry.before entry.input at hafter
  refine ⟨hbefore, ?_⟩
  rcases step_cases host entry.before entry.input with
    ⟨value, hsucceeds⟩ | ⟨hfails, hsame⟩
  · exact Or.inl ⟨hsucceeds.returned_eq, value, hafter ▸ hsucceeds⟩
  · exact Or.inr ⟨hfails.returned_eq, hafter.trans hsame⟩

/-- The same for the newest entry. -/
theorem Reaches.newest_cases {host : Host} {earlier : History}
    {entry : Entry World Invocation} {w : World}
    (hrun : Reaches host (entry :: earlier) w) :
    Reaches host earlier entry.before ∧
      ((returned host entry = true ∧ ∃ value,
          Succeeds host entry.before entry.input value entry.after) ∨
        (returned host entry = false ∧ entry.after = entry.before)) := by
  have hsplit : Reaches host ([] ++ entry :: earlier) w := hrun
  exact hsplit.entry_cases

/-! ## A sample deployment

One token, one employer and one employee; the runs that show a behaviour on
concrete calls start here. -/

namespace Sample

def self : Address := ⟨100⟩
def token : Address := ⟨50⟩
def employer : Address := ⟨1⟩
def employee : Address := ⟨2⟩
def admin : Address := ⟨3⟩
def treasury : Address := ⟨4⟩

def host : Host where
  self := self
  tokens := fun address => if address = token then some sep41 else none
  rateLimit := fun _ _ state => .ok state

/-- The employer holds all tokens there are. -/
def start : World :=
  World.deployed fun _ account => if account = employer then 1000000 else 0

/-- A call with one signer. -/
def invoke (now : Nat) (signer : Address) (call : Call)
    (now_le : now ≤ u64Max := by decide)
    (inRange : call.inRange = true := by decide) : Invocation where
  now := now
  auth := [signer]
  call := call
  now_le := now_le
  inRange := inRange

/-- The employer opens a stream without cooldown. -/
def openStream (now : Nat) (deposit ratePerSecond : Int) (stopTime : Nat)
    (now_le : now ≤ u64Max := by decide)
    (inRange : (Call.create (.createStream employer employee token deposit
      ratePerSecond stopTime 0 0)).inRange = true := by decide) : Invocation :=
  invoke now employer (.create (.createStream employer employee token deposit
    ratePerSecond stopTime 0 0)) now_le inRange

/-- A call of the employer on the first stream. -/
def manage (now : Nat) (call : StreamCall) (now_le : now ≤ u64Max := by decide)
    (inRange : (Call.onStream 1 call).inRange = true := by decide) :
    Invocation :=
  invoke now employer (.onStream 1 call) now_le inRange

/-- The run of a list of invocations from the deployment on. -/
def play (invocations : List Invocation) : History × World :=
  (system host).replay [] start invocations

theorem host_honest : AllTokens host.tokens TokenLaw.Honest := by
  intro address law hlaw
  simp only [host] at hlaw
  split at hlaw
  · cases hlaw
    exact sep41_honest
  · cases hlaw

theorem start_initial : (system host).initial start := by
  refine ⟨_, ?_, rfl⟩
  intro _ account
  by_cases haccount : account = employer
  · simp [haccount]
  · simp [haccount]

theorem play_reaches (invocations : List Invocation)
    (horder : (system host).InOrder 0 invocations = true) :
    Reaches host (play invocations).1 (play invocations).2 :=
  ⟨start, start_initial, System.Path.stay.replay horder⟩

theorem input_mem_of_play {invocations : List Invocation}
    {entry : Entry World Invocation} (h : entry ∈ (play invocations).1) :
    entry.input ∈ invocations :=
  System.input_mem_of_replay_nil h

end Sample

end Contract
end Paystream
