import Paystream.Properties.Indexer

/-!
# What the indexer reads from an event

* `streamId_eq_stream_iff`: the stream number of a row is the stream of the event,
  and absent when there is none, unless the second topic is the number of a
  proposal or of an admin action, or the number is not a double.
* `decodeScVal_i128_at`: an `i128` is decoded to its decimal text wherever it
  stands in nested vectors.
-/

namespace Paystream
namespace Properties

open Library
open Contract
open Services
open Services.Indexer

/-! ## The stream of an event -/

/-- The stream the event is about, if it is about one. -/
def concernedStream : Published → Option Nat
  | .ofContract event =>
      match event with
      | .streamCreated id _ _ _ _ => some id
      | .streamTransferred id _ _ => some id
      | .withdrawn id _ _ => some id
      | .protocolFeeCollected id _ _ => some id
      | .protocolFeesWithdrawn _ _ _ => none
      | .streamCancelled id _ _ _ _ => some id
      | .streamPaused id _ _ _ => some id
      | .streamResumed id _ _ _ => some id
      | .toppedUp id _ _ => some id
      | .contractPaused _ => none
      | .employerTransferProposed id _ _ => some id
      | .employerTransferAccepted id _ _ => some id
      | .nearExhaustion id _ _ => some id
      | .rateChanged id _ _ => some id
      | .delegateSet id _ => some id
      | .proposalCreated _ => none
      | .proposalExecuted _ => none
  | .streamStatusChanged id _ => some id
  | .adminActionProposed _ => none
  | .adminActionExecuted _ => none
  | .globalPaused _ => none
  | .upgradeScheduled _ _ => none
  | .upgradeExecuted _ => none

/-- The event is about a proposal of the governance or of the multisig. -/
def IsProposal : Published → Prop
  | .ofContract (.proposalCreated _) => True
  | .ofContract (.proposalExecuted _) => True
  | .adminActionProposed _ => True
  | .adminActionExecuted _ => True
  | _ => False

/-- The number is a double: it has at most 53 significant bits. -/
def IsDouble (n : Nat) : Prop := 2 ^ (n.log2 - 52) ∣ n

instance (n : Nat) : Decidable (IsDouble n) :=
  inferInstanceAs (Decidable (2 ^ (n.log2 - 52) ∣ n))

/-- Rounding keeps a number exactly when it is a double. -/
theorem toDouble_eq_self_iff (n : Nat) : toDouble n = n ↔ IsDouble n := by
  unfold toDouble IsDouble
  split
  · rename_i hsmall
    have hunit : n.log2 - 52 = 0 := by
      rcases Nat.eq_zero_or_pos n with rfl | hpos
      · simp
      · have := (Nat.log2_lt (by omega)).mpr hsmall
        omega
    simp [hunit]
  · have hsplit := Nat.div_add_mod n (2 ^ (n.log2 - 52))
    have hpos : 0 < 2 ^ (n.log2 - 52) := Nat.two_pow_pos _
    have hrest := Nat.mod_lt n hpos
    rw [Nat.dvd_iff_mod_eq_zero]
    generalize 2 ^ (n.log2 - 52) = unit at *
    rw [Nat.mul_comm] at hsplit
    dsimp only
    split
    · constructor <;> intro h <;> omega
    · rename_i hround
      rw [Nat.succ_mul]
      constructor
      · intro h
        omega
      · intro h
        -- nothing is left over, so the number was not rounded up
        exact absurd (Or.inl (by omega)) hround

/-- The number of the row. -/
theorem streamId_jobOf (encoding : Encoding) (ledger : Nat) (txHash : Text)
    (event : Published) :
    (jobOf encoding (.of ledger txHash event)).streamId = event.number.map toDouble := by
  unfold jobOf RawEvent.of Published.topic
  cases event.number with
  | none => rfl
  | some n => simp [decodeScVal, numberOf_toDigits]

/-- The second topic is the number of the stream, except in the events about a
proposal, which are about no stream and have a number all the same. -/
theorem number_cases (event : Published) :
    (¬ IsProposal event ∧ event.number = concernedStream event) ∨
    (IsProposal event ∧ concernedStream event = none ∧ ∃ id, event.number = some id) := by
  cases event with
  | ofContract event =>
      cases event <;> simp [IsProposal, Published.number, concernedStream]
  | _ => simp [IsProposal, Published.number, concernedStream]

/-- The row of an event names the stream of the event, and no stream when there is
none, exactly when the event is about no proposal and the number of its stream is a
double. -/
theorem streamId_eq_stream_iff (encoding : Encoding) (ledger : Nat) (txHash : Text)
    (event : Published) :
    (∀ s, (jobOf encoding (.of ledger txHash event)).streamId = some s ↔
      concernedStream event = some s) ↔
    ¬ IsProposal event ∧ ∀ s, concernedStream event = some s → IsDouble s := by
  rw [streamId_jobOf]
  rcases number_cases event with ⟨hplain, hnumber⟩ | ⟨hproposal, hnone, id, hnumber⟩
  · rw [hnumber, and_iff_right hplain]
    cases concernedStream event with
    | none => simp
    | some n =>
        simp only [Option.map_some, Option.some.injEq, forall_eq']
        rw [← toDouble_eq_self_iff]
        constructor
        · intro h
          exact (h n).mpr rfl
        · intro h s
          rw [h]
  · rw [hnumber, hnone]
    simp [hproposal]

/-- Proposal 7 is taken for stream 7, and stream `2 ^ 53 + 1` for its neighbour. -/
theorem streamId_of_proposal :
    (jobOf PollSample.encoding (.of 1 ['t'] (.ofContract (.proposalCreated 7)))).streamId =
      some 7 ∧
    concernedStream (.ofContract (.proposalCreated 7)) = none ∧
    (jobOf PollSample.encoding (.of 1 ['t']
      (.streamStatusChanged (2 ^ 53 + 1) .active))).streamId = some (2 ^ 53) ∧
    concernedStream (.streamStatusChanged (2 ^ 53 + 1) .active) = some (2 ^ 53 + 1) := by
  simp only [streamId_jobOf]
  decide +kernel

/-! ## Wide numbers -/

/-- The low word fills the bits below the high word, also when the high word is
negative. -/
theorem lor_shiftLeft_eq (hi : Int) {lo : Nat} (hlo : lo < 2 ^ 64) :
    Int.lor (hi <<< (64 : Int)) lo = hi * 2 ^ 64 + lo := by
  have hshift : hi <<< (64 : Int) = hi * 2 ^ 64 := Int.shiftLeft_eq_mul_pow hi 64
  rw [hshift]
  cases hi with
  | ofNat hi =>
      have hcast : Int.ofNat hi * (2 : Int) ^ 64 = ((hi <<< 64 : Nat) : Int) := by
        rw [Nat.shiftLeft_eq]
        push_cast
        rfl
      rw [hcast]
      show ((hi <<< 64 ||| lo : Nat) : Int) = _
      rw [← Nat.shiftLeft_add_eq_or_of_lt hlo]
      push_cast
      rfl
  | negSucc hi =>
      have hneg : Int.negSucc hi * 2 ^ 64 =
          Int.negSucc (2 ^ 64 * hi + (2 ^ 64 - (0 + 1))) := by
        rw [Int.negSucc_eq, Int.negSucc_eq]
        push_cast
        ring
      -- the bits of the low word are cleared in the complement
      have hclear : Nat.ldiff (2 ^ 64 * hi + (2 ^ 64 - (0 + 1))) lo =
          2 ^ 64 * hi + (2 ^ 64 - (lo + 1)) := by
        apply Nat.eq_of_testBit_eq
        intro i
        rw [Nat.testBit_ldiff, Nat.testBit_two_pow_mul_add _ (by omega),
          Nat.testBit_two_pow_mul_add _ (by omega),
          Nat.testBit_two_pow_sub_succ (by decide), Nat.testBit_two_pow_sub_succ hlo]
        split
        · rename_i hi64
          simp [hi64]
        · have hhigh : lo.testBit i = false :=
            Nat.testBit_lt_two_pow (hlo.trans_le
              (Nat.pow_le_pow_right (by decide) (by omega)))
          simp [hhigh]
      rw [hneg]
      show Int.negSucc (Nat.ldiff _ lo) = _
      rw [hclear, Int.negSucc_eq, Int.negSucc_eq]
      omega

theorem intText_eq_toString (value : Int) : intText value = (toString value).toList := by
  cases value with
  | ofNat n =>
      show intText n = (Nat.repr n).toList
      rw [Nat.repr_eq_ofList_toDigits, String.toList_ofList]
      simp [intText]
  | negSucc n =>
      show intText (Int.negSucc n) = ("-" ++ Nat.repr (n + 1)).toList
      rw [String.toList_append, Nat.repr_eq_ofList_toDigits, String.toList_ofList]
      simp [intText]

/-- The value at a path into nested vectors: the indices to take, from the outside
on. -/
def valueAt : ScVal → List Nat → Option ScVal
  | value, [] => some value
  | .vec items, i :: path => items[i]?.bind fun item => valueAt item path
  | _, _ :: _ => none

/-- The same in the decoded value. -/
def jsonAt : Json → List Nat → Option Json
  | value, [] => some value
  | .arr items, i :: path => items[i]?.bind fun item => jsonAt item path
  | _, _ :: _ => none

theorem decodeScVals_eq_map (encoding : Encoding) (items : List ScVal) :
    decodeScVals encoding items = items.map (decodeScVal encoding) := by
  induction items with
  | nil => rfl
  | cons item items ih => rw [decodeScVals, ih, List.map_cons]

/-- Vectors are decoded in place. -/
theorem jsonAt_decodeScVal (encoding : Encoding) {value part : ScVal} {path : List Nat}
    (h : valueAt value path = some part) :
    jsonAt (decodeScVal encoding value) path = some (decodeScVal encoding part) := by
  induction path generalizing value with
  | nil =>
      rw [valueAt, Option.some.injEq] at h
      rw [jsonAt, h]
  | cons i path ih =>
      cases value with
      | vec items =>
          rw [valueAt, Option.bind_eq_some_iff] at h
          obtain ⟨item, hitem, hpart⟩ := h
          rw [decodeScVal, decodeScVals_eq_map, jsonAt, List.getElem?_map, hitem]
          exact ih hpart
      | _ => simp [valueAt] at h

/-- Wherever the two words of an `i128` stand in nested vectors, the decoded value
has its decimal text in the same place. -/
theorem decodeScVal_i128_at (encoding : Encoding) (value : ScVal) (path : List Nat)
    (hi : Int) (lo : Nat) (v : Int) (hlo : lo < 2 ^ 64) (hv : v = hi * 2 ^ 64 + lo)
    (hpath : valueAt value path = some (.i128 hi lo)) :
    jsonAt (decodeScVal encoding value) path = some (.str (toString v).toList) := by
  rw [jsonAt_decodeScVal encoding hpath, decodeScVal, lor_shiftLeft_eq hi hlo, ← hv,
    intText_eq_toString]

/-- The least `i128` and minus one, in a vector within a vector. -/
def nestedNumbers : ScVal :=
  .vec [.bool true, .vec [.i128 (-2 ^ 63) 0, .i128 (-1) (2 ^ 64 - 1)]]

theorem decodeScVal_i128_at_depth :
    jsonAt (decodeScVal PollSample.encoding nestedNumbers) [1, 0] =
      some (.str (toString (-2 ^ 127 : Int)).toList) ∧
    jsonAt (decodeScVal PollSample.encoding nestedNumbers) [1, 1] =
      some (.str (toString (-1 : Int)).toList) := by
  constructor
  · exact decodeScVal_i128_at PollSample.encoding nestedNumbers [1, 0] (-2 ^ 63) 0
      (-2 ^ 127) (by decide) (by decide) rfl
  · exact decodeScVal_i128_at PollSample.encoding nestedNumbers [1, 1] (-1) (2 ^ 64 - 1)
      (-1) (by decide) (by decide) rfl

end Properties
end Paystream
