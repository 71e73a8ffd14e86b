import Paystream.Semantics.StreamView

/-!
# The rules of creation

`validate_create_stream` checks nine rules.  Eight of them it checks as they are
meant.  The ninth bounds the seconds the deposit lasts, and the code narrows that
quotient to `u64` before it compares: a quotient of `2 ^ 64` and a little more
comes out as the little.

`creation_exact_iff` says for which arguments the code decides by the rules, and
what follows for the streams of a run: where every creation was asked for with
such arguments, every stream was born with a deposit that its rate uses up within
`MAX_STREAM_DURATION`.
-/

namespace Paystream
namespace Properties

open Library
open Contract
open Semantics

/-! ## The rules -/

/-- The rules that do not speak of the duration the deposit gives. -/
structure PlainRules (deposit minDeposit rate : Int) (stopTime cliffTime now : Nat)
    (employer employee : Address) : Prop where
  deposit_pos : 0 < deposit
  enough : minDeposit ≤ deposit
  rate_pos : 0 < rate
  rate_le : rate ≤ maxRatePerSecond
  minute : 60 * rate ≤ deposit
  stop : stopTime = 0 ∨ now < stopTime ∧ stopTime ≤ now + maxStreamDuration
  cliff : cliffTime = 0 ∨ stopTime = 0 ∨ cliffTime ≤ stopTime
  parties : employer ≠ employee

/-- All the rules, over mathematical integers. -/
structure CreationRules (deposit minDeposit rate : Int)
    (stopTime cliffTime now : Nat) (employer employee : Address) : Prop
    extends PlainRules deposit minDeposit rate stopTime cliffTime now employer
      employee where
  duration : deposit / rate ≤ maxStreamDuration

/-- The rate uses up the deposit within the longest duration allowed. -/
def StreamsInTime (deposit rate : Int) : Prop :=
  deposit ≤ rate * maxStreamDuration

instance (deposit rate : Int) : Decidable (StreamsInTime deposit rate) :=
  inferInstanceAs (Decidable (deposit ≤ rate * maxStreamDuration))

/-- The validation accepts by the rules, and what it accepts is streamed in
time. -/
structure ValidationExact (deposit minDeposit rate : Int)
    (stopTime cliffTime now : Nat) (employer employee : Address) : Prop where
  accepts : validateCreateStream deposit minDeposit rate stopTime cliffTime now
      employer employee = .ok () ↔
    CreationRules deposit minDeposit rate stopTime cliffTime now employer employee
  inTime : validateCreateStream deposit minDeposit rate stopTime cliffTime now
      employer employee = .ok () → StreamsInTime deposit rate

/-- Where the plain rules hold, the deposit is streamed in time or lasts so many
seconds that they exceed the bound even modulo `2 ^ 64`. -/
def DurationDecided (deposit minDeposit rate : Int)
    (stopTime cliffTime now : Nat) (employer employee : Address) : Prop :=
  PlainRules deposit minDeposit rate stopTime cliffTime now employer employee →
    StreamsInTime deposit rate ∨
      (maxStreamDuration : Int) < deposit / rate % 2 ^ 64

/-! ## What the code decides -/

theorem saturatingMul_sixty {rate : Int} (hpos : 0 < rate)
    (hle : rate ≤ maxRatePerSecond) : saturatingMul rate 60 = 60 * rate := by
  unfold maxRatePerSecond at hle
  unfold saturatingMul saturate i128Max i128Min
  omega

theorem castU64_le_iff (seconds : Int) (bound : Nat) :
    castU64 seconds ≤ bound ↔ seconds % 2 ^ 64 ≤ (bound : Int) := by
  unfold castU64
  omega

/-- The code checks the plain rules as they are, and the duration modulo
`2 ^ 64`. -/
theorem validateCreateStream_eq_ok_iff (deposit minDeposit rate : Int)
    (stopTime cliffTime now : Nat) (employer employee : Address) :
    validateCreateStream deposit minDeposit rate stopTime cliffTime now employer
        employee = .ok () ↔
      PlainRules deposit minDeposit rate stopTime cliffTime now employer
          employee ∧
        deposit / rate % 2 ^ 64 ≤ (maxStreamDuration : Int) := by
  simp only [validateCreateStream, bind_eq_ok_iff, ensure_eq_ok_iff,
    decide_eq_true_eq, castU64_le_iff]
  constructor
  · rintro ⟨_, hdeposit, _, hmin, _, hrate, _, hmax, _, hminute, _, hseconds, _,
      hafter, _, hstop, _, hcliff, hparties⟩
    rw [saturatingMul_sixty hrate hmax] at hminute
    rw [Int.tdiv_eq_ediv_of_nonneg hdeposit.le] at hseconds
    refine ⟨⟨hdeposit, hmin, hrate, hmax, hminute, ?_, ?_, hparties⟩, hseconds⟩
    · omega
    · omega
  · rintro ⟨⟨hdeposit, hmin, hrate, hmax, hminute, hstop, hcliff, hparties⟩,
      hseconds⟩
    rw [← saturatingMul_sixty hrate hmax] at hminute
    rw [← Int.tdiv_eq_ediv_of_nonneg hdeposit.le] at hseconds
    refine ⟨(), hdeposit, (), hmin, (), hrate, (), hmax, (), hminute, (),
      hseconds, (), ?_, (), ?_, (), ?_, hparties⟩
    · omega
    · omega
    · omega

/-- A deposit that is streamed in time lasts at most the duration allowed. -/
theorem duration_le_of_streamsInTime {deposit rate : Int} (hrate : 0 < rate)
    (h : StreamsInTime deposit rate) : deposit / rate ≤ maxStreamDuration :=
  Int.ediv_le_of_le_mul hrate (by rw [mul_comm]; exact h)

theorem validationExact_iff (deposit minDeposit rate : Int)
    (stopTime cliffTime now : Nat) (employer employee : Address) :
    ValidationExact deposit minDeposit rate stopTime cliffTime now employer
        employee ↔
      DurationDecided deposit minDeposit rate stopTime cliffTime now employer
        employee := by
  have haccepts := validateCreateStream_eq_ok_iff deposit minDeposit rate
    stopTime cliffTime now employer employee
  constructor
  · intro h hplain
    by_cases hwrapped : deposit / rate % 2 ^ 64 ≤ (maxStreamDuration : Int)
    · exact Or.inl (h.inTime (haccepts.mpr ⟨hplain, hwrapped⟩))
    · exact Or.inr (not_le.mp hwrapped)
  · intro h
    -- both sides need the plain rules; under them the condition applies
    have hkept : ∀ hplain : PlainRules deposit minDeposit rate stopTime cliffTime
        now employer employee, deposit / rate % 2 ^ 64 ≤ (maxStreamDuration : Int) →
        StreamsInTime deposit rate := by
      intro hplain hwrapped
      rcases h hplain with htime | hover
      · exact htime
      · exact absurd hwrapped (not_le.mpr hover)
    refine ⟨?_, ?_⟩
    · rw [haccepts]
      constructor
      · rintro ⟨hplain, hwrapped⟩
        exact ⟨hplain, duration_le_of_streamsInTime hplain.rate_pos
          (hkept hplain hwrapped)⟩
      · intro hrules
        have hseconds : 0 ≤ deposit / rate :=
          Int.ediv_nonneg hrules.deposit_pos.le hrules.rate_pos.le
        have hduration := hrules.duration
        refine ⟨hrules.toPlainRules, ?_⟩
        omega
    · intro haccepted
      obtain ⟨hplain, hwrapped⟩ := haccepts.mp haccepted
      exact hkept hplain hwrapped

/-! ## The streams of a run -/

/-- Every stream the creation calls of the entry ask for has arguments on which
the duration is decided. -/
def DecidesRequests (entry : Entry World Invocation) : Prop :=
  ∀ call, entry.input.call = .create call → ∀ p ∈ CreateCall.requests call,
    DurationDecided p.deposit entry.before.config.minDeposit p.ratePerSecond
      p.stopTime p.cliffTime entry.input.now (CreateCall.employer call) p.employee

/-- The entry created this stream. -/
def CreatedBy (entry : Entry World Invocation) (id : Nat) (s : Stream) : Prop :=
  entry.before.streams id = none ∧ entry.after.streams id = some s

/-- A fee only lowers the deposit a stream is born with. -/
theorem streamsInTime_of_birth {host : Host} {ctx : Context} {w w' : World}
    {call : CreateCall} {id : Nat} {s : Stream} {p : StreamParams}
    (h : Birth host ctx w w' call id s p)
    (htime : StreamsInTime p.deposit p.ratePerSecond) :
    StreamsInTime s.deposit s.ratePerSecond := by
  have hfee := creationFee_nonneg (creationSetup w) h.deposit_pos.le
  have hdeposit : s.deposit = p.deposit - creationFee (creationSetup w) p.deposit := by
    rw [h.record]
    rfl
  have hrate : s.ratePerSecond = p.ratePerSecond := by
    rw [h.record]
    rfl
  unfold StreamsInTime at htime ⊢
  rw [hdeposit, hrate]
  omega

theorem streamsInTime_of_createdBy {host : Host} {history : History} {w : World}
    (hrun : Reaches host history w)
    (hdecided : ∀ entry ∈ history, DecidesRequests entry) :
    ∀ entry ∈ history, ∀ id s, CreatedBy entry id s →
      StreamsInTime s.deposit s.ratePerSecond := by
  rintro entry hentry id s ⟨hnone, hs⟩
  obtain ⟨later, earlier, rfl⟩ := List.append_of_mem hentry
  obtain ⟨hbefore, ⟨_, value, hsucceeds⟩ | ⟨_, hsame⟩⟩ := hrun.entry_cases
  · cases streamChange_of_succeeds hbefore hsucceeds id with
    | same hstream _ =>
        rw [hstream, hnone] at hs
        cases hs
    | born new log hcall _ _ _ _ _ _ _ =>
        obtain ⟨call, hcall⟩ := hcall
        obtain ⟨p, hbirth⟩ := birth_of_succeeds hsucceeds hcall hnone hs
        have hp := List.mem_of_getElem? hbirth.request
        have hexact := (validationExact_iff _ _ _ _ _ _ _ _).mpr
          (hdecided entry hentry call hcall p hp)
        exact streamsInTime_of_birth hbirth
          (hexact.inTime (requests_validated hsucceeds hcall p hp))
    | updated old op log _ _ hold _ _ _ _ =>
        rw [hnone] at hold
        cases hold
  · rw [hsame, hnone] at hs
    cases hs

/-- The validation is exact on precisely the arguments on which the duration is
decided, and a run whose creations have such arguments creates only streams that
are streamed in time. -/
theorem creation_exact_iff {host : Host} {history : History} {w : World}
    (hrun : Reaches host history w) :
    (∀ (deposit minDeposit rate : Int) (stopTime cliffTime now : Nat)
      (employer employee : Address),
      ValidationExact deposit minDeposit rate stopTime cliffTime now employer
          employee ↔
        DurationDecided deposit minDeposit rate stopTime cliffTime now employer
          employee) ∧
    ((∀ entry ∈ history, DecidesRequests entry) →
      ∀ entry ∈ history, ∀ id s, CreatedBy entry id s →
        StreamsInTime s.deposit s.ratePerSecond) :=
  ⟨validationExact_iff, fun hdecided => streamsInTime_of_createdBy hrun hdecided⟩

/-- A thousand tokens at ten a second. -/
theorem creation_exact_of_everyday :
    ValidationExact 1000 0 10 0 0 10 Sample.employer Sample.employee ∧
      ∃ history w s, Reaches Sample.host history w ∧ w.streams 1 = some s ∧
        StreamsInTime s.deposit s.ratePerSecond := by
  have hdecided : DurationDecided 1000 0 10 0 0 10 Sample.employer
      Sample.employee := fun _ => Or.inl (by decide)
  have hrun := Sample.play_reaches [Sample.openStream 10 1000 10 0] (by decide)
  obtain ⟨hexact, hcreated⟩ := creation_exact_iff hrun
  refine ⟨(hexact _ _ _ _ _ _ _ _).mpr hdecided, _, _, _, hrun, rfl, ?_⟩
  refine hcreated ?_ _ List.mem_cons_self 1 _ ⟨rfl, rfl⟩
  intro entry hentry call hcall p hp
  obtain rfl := List.mem_singleton.mp hentry
  cases hcall
  obtain rfl := List.mem_singleton.mp hp
  exact hdecided

/-- A deposit for `2 ^ 64 + 100` seconds is taken for one of a hundred, and the
stream is created. -/
theorem creation_accepts_wrapped_duration :
    validateCreateStream (2 ^ 64 + 100) 0 1 0 0 10 Sample.employer
        Sample.employee = .ok () ∧
      ¬ ValidationExact (2 ^ 64 + 100) 0 1 0 0 10 Sample.employer
        Sample.employee ∧
      ∃ history w s, Reaches Sample.host history w ∧ w.streams 1 = some s ∧
        ¬ StreamsInTime s.deposit s.ratePerSecond := by
  have haccepted : validateCreateStream (2 ^ 64 + 100) 0 1 0 0 10 Sample.employer
      Sample.employee = .ok () := by
    decide
  refine ⟨haccepted, fun h => absurd (h.inTime haccepted) (by decide), ?_⟩
  have hrich : (system Sample.host).initial
      (World.deployed fun _ _ => 2 ^ 70) :=
    ⟨_, fun _ _ => by norm_num, rfl⟩
  exact ⟨_, _, _, (System.Run.start hrich).next
    (Sample.openStream 10 (2 ^ 64 + 100) 1 0) (by decide), rfl, by decide⟩

end Properties
end Paystream
