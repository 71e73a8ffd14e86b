import Paystream.Services.Idempotency

/-!
# Idempotency keys

Two questions about the middleware, over every interleaving of any requests.

* Does the handler succeed at most once for a key?  `handler_at_most_once`: it
  does in the runs in which no request looks its key up while another one with
  the same key is between its own lookup and the row it writes.
* Is a retry answered with the stored response?  `retry_answered_iff`: exactly
  for the bodies that come back from the JSONB column with their keys in the
  order in which they were sent.

`stepEffect` says once what a step can do; both invariants are read off it.
-/

namespace Paystream
namespace Properties

open Library
open Services
open Services.Idempotency

section Requests

variable {Digest : Type} [DecidableEq Digest] {sha256 : Text → Digest}
  {requests : Nat → Request}

/-! ## One step -/

/-- What a step does to the table and to the request that takes it. -/
inductive StepEffect (sha256 : Text → Digest) (requests : Nat → Request)
    (s : State) : Action → State → Prop
  | idle (action : Action) : StepEffect sha256 requests s action s
  | replayed (i : Nat) (slot : Slot) (row : Row) (hphase : s.phase i = .arrived)
      (hslot : (requests i).slot = some slot) (hrow : s.table slot = some row) :
      StepEffect sha256 requests s (.select i)
        (s.setPhase i (.replayed (answerFrom sha256 row (requests i).body.val)))
  | started (i : Nat) (hphase : s.phase i = .arrived)
      (hmiss : ∀ slot, (requests i).slot = some slot → s.table slot = none) :
      StepEffect sha256 requests s (.select i) (s.setPhase i .handling)
  | answered (i : Nat) (response : Response) (phase : Phase)
      (hphase : s.phase i = .handling)
      (hafter : phase = .storing response ∨ phase = .unrecorded response) :
      StepEffect sha256 requests s (.respond i response) (s.setPhase i phase)
  | recorded (i : Nat) (slot : Slot) (response : Response)
      (hphase : s.phase i = .storing response)
      (hslot : (requests i).slot = some slot) (hfree : s.table slot = none) :
      StepEffect sha256 requests s (.insert i)
        { (s.setPhase i (.recorded response)) with
          table := Function.update s.table slot
            (some ⟨(requests i).body.val, response.status, response.body⟩) }
  | dropped (i : Nat) (response : Response)
      (hphase : s.phase i = .storing response) :
      StepEffect sha256 requests s (.insert i)
        (s.setPhase i (.unrecorded response))

theorem stepEffect (s : State) (action : Action) :
    StepEffect sha256 requests s action (step sha256 requests s action) := by
  cases action with
  | select i =>
      cases hphase : s.phase i with
      | arrived =>
          simp only [step, hphase, select]
          cases hslot : (requests i).slot with
          | none => exact .started i hphase (by simp [hslot])
          | some slot =>
              cases hrow : s.table slot with
              | none =>
                  simp only [hrow]
                  refine .started i hphase ?_
                  intro other hother
                  rw [hslot] at hother
                  cases hother
                  exact hrow
              | some row =>
                  simp only [hrow]
                  exact .replayed i slot row hphase hslot hrow
      | _ =>
          simp only [step, hphase]
          exact .idle _
  | respond i response =>
      cases hphase : s.phase i with
      | handling =>
          simp only [step, hphase, respond]
          split
          · exact .answered i response _ hphase (Or.inl rfl)
          · exact .answered i response _ hphase (Or.inr rfl)
      | _ =>
          simp only [step, hphase]
          exact .idle _
  | insert i =>
      cases hphase : s.phase i with
      | storing response =>
          simp only [step, hphase, Idempotency.insert]
          cases hslot : (requests i).slot with
          | none => exact .idle _
          | some slot =>
              simp only
              split
              · rename_i hstored
                exact .recorded i slot response hphase hslot hstored.1
              · exact .dropped i response hphase
      | _ =>
          simp only [step, hphase]
          exact .idle _

@[simp] theorem setPhase_phase_self (s : State) (i : Nat) (phase : Phase) :
    (s.setPhase i phase).phase i = phase :=
  Function.update_self ..

theorem setPhase_phase_of_ne (s : State) {i j : Nat} (h : j ≠ i) (phase : Phase) :
    (s.setPhase i phase).phase j = s.phase j :=
  Function.update_of_ne h ..

end Requests

/-! ## Sample requests -/

namespace RetrySample

/-- A client that sends the same request again and again. -/
def requests (body : Json.EngineValue) : Nat → Request := fun _ =>
  { method := .post
    idempotencyKey := some ['k']
    stellarAddress := some ['G']
    body := body }

def start : State := ⟨fun _ => none, fun _ => .arrived⟩

/-- Texts that stand for their own digest. -/
def digest (text : Text) : Text := text

def play (body : Json.EngineValue) (actions : List Action) :
    List (Entry State Action) × State :=
  (Idempotency.system digest (requests body)).replay [] start actions

theorem play_run (body : Json.EngineValue) (actions : List Action)
    (horder : (Idempotency.system digest (requests body)).InOrder 0 actions = true) :
    (Idempotency.system digest (requests body)).Run (play body actions).1
      (play body actions).2 :=
  ⟨start, fun _ => rfl, System.Path.stay.replay horder⟩

/-- A body with the keys `a` and `bc`, in the order of the column. -/
def ordered : Json.EngineValue :=
  ⟨.obj [(['a'], .bool true), (['b', 'c'], .null)], by decide⟩

/-- The same members, in the other order. -/
def unordered : Json.EngineValue :=
  ⟨.obj [(['b', 'c'], .null), (['a'], .bool true)], by decide⟩

def created : Response := ⟨200, .obj [(['i', 'd'], .str ['7'])]⟩

end RetrySample

section Requests

variable {Digest : Type} [DecidableEq Digest] {sha256 : Text → Digest}
  {requests : Nat → Request}

/-! ## At most one success -/

/-- The handler of request `i` ran to a response below 500. -/
def Succeeded (s : State) (i : Nat) : Prop :=
  ∃ response, (s.phase i).handlerResponse = some response ∧ response.status < 500

/-- The handler of request `i` runs, or ran to a response below 500. -/
def Engaged (s : State) (i : Nat) : Prop :=
  s.phase i = .handling ∨ Succeeded s i

/-- A lookup that cannot overlap another one: the row is there, or every other
request with this key has not looked yet or failed with a status from 500 on. -/
def LooksAlone (requests : Nat → Request) (s : State) : Action → Prop
  | .select i => ∀ slot, (requests i).slot = some slot → s.table slot ≠ none ∨
      ∀ j, j ≠ i → (requests j).slot = some slot → s.phase j = .arrived ∨
        ∃ response, s.phase j = .unrecorded response ∧ 500 ≤ response.status
  | _ => True

/-- No two requests with one key are engaged. -/
def Exclusive (requests : Nat → Request) (s : State) : Prop :=
  ∀ slot i j, (requests i).slot = some slot → (requests j).slot = some slot →
    Engaged s i → Engaged s j → i = j

theorem engaged_of_arrived {s : State} {i : Nat} (h : s.phase i = .arrived) :
    ¬ Engaged s i := by
  rintro (hhandling | ⟨response, hresponse, _⟩)
  · rw [h] at hhandling
    cases hhandling
  · rw [h] at hresponse
    cases hresponse

theorem engaged_of_failed {s : State} {i : Nat} {response : Response}
    (h : s.phase i = .unrecorded response) (hstatus : 500 ≤ response.status) :
    ¬ Engaged s i := by
  rintro (hhandling | ⟨found, hfound, hbelow⟩)
  · rw [h] at hhandling
    cases hhandling
  · rw [h] at hfound
    obtain rfl : response = found := Option.some.inj hfound
    omega

/-- A step after which every request that is engaged was engaged before. -/
theorem Exclusive.of_engaged {s s' : State} (h : Exclusive requests s)
    (hback : ∀ i, Engaged s' i → Engaged s i) : Exclusive requests s' := by
  intro slot i j hi hj hengaged hengaged'
  exact h slot i j hi hj (hback i hengaged) (hback j hengaged')

/-- If only request `i` changes its phase, the others are engaged as before. -/
theorem engaged_of_ne {s s' : State} {i j : Nat} (hne : j ≠ i)
    (hphase : ∀ k, k ≠ i → s'.phase k = s.phase k) (h : Engaged s' j) :
    Engaged s j := by
  unfold Engaged Succeeded at h ⊢
  rw [hphase j hne] at h
  exact h

/-- One request changes its phase, and does not become engaged by it. -/
theorem Exclusive.of_one {s s' : State} (h : Exclusive requests s) {i : Nat}
    (hothers : ∀ k, k ≠ i → s'.phase k = s.phase k)
    (hback : Engaged s' i → Engaged s i) : Exclusive requests s' := by
  refine h.of_engaged ?_
  intro j hj
  by_cases hji : j = i
  · subst hji
    exact hback hj
  · exact engaged_of_ne hji hothers hj

/-- Without a new response, and not being handled, a request is engaged only if
it was. -/
theorem engaged_of_response {s s' : State} {i : Nat}
    (hresponse : (s'.phase i).handlerResponse = (s.phase i).handlerResponse)
    (hidle : s'.phase i ≠ .handling) (h : Engaged s' i) : Engaged s i := by
  rcases h with hhandling | ⟨response, hfound, hstatus⟩
  · exact absurd hhandling hidle
  · rw [hresponse] at hfound
    exact Or.inr ⟨response, hfound, hstatus⟩

/-- A request starts while no other one with its key is engaged. -/
theorem Exclusive.handling {s : State} (h : Exclusive requests s) {i : Nat}
    (halone : ∀ slot j, (requests i).slot = some slot →
      (requests j).slot = some slot → j ≠ i → ¬ Engaged s j) :
    Exclusive requests (s.setPhase i .handling) := by
  intro slot j k hj hk hengaged hengaged'
  have hothers : ∀ k, k ≠ i → (s.setPhase i .handling).phase k = s.phase k :=
    fun k hk => setPhase_phase_of_ne s hk _
  by_cases hji : j = i
  · subst hji
    by_contra hne
    exact halone slot k hj hk (Ne.symm hne)
      (engaged_of_ne (Ne.symm hne) hothers hengaged')
  · by_cases hki : k = i
    · subst hki
      exact absurd (engaged_of_ne hji hothers hengaged) (halone slot j hk hj hji)
    · exact h slot j k hj hk (engaged_of_ne hji hothers hengaged)
        (engaged_of_ne hki hothers hengaged')

theorem Exclusive.step {s : State} (h : Exclusive requests s) {action : Action}
    (hsafe : LooksAlone requests s action) :
    Exclusive requests (Idempotency.step sha256 requests s action) := by
  have heffect : StepEffect sha256 requests s action _ := stepEffect s action
  generalize Idempotency.step sha256 requests s action = s' at heffect
  cases heffect with
  | idle action => exact h
  | replayed i slot row hphase hslot hrow =>
      refine h.of_one (fun k hk => setPhase_phase_of_ne s hk _)
        (engaged_of_response ?_ ?_)
      · rw [setPhase_phase_self, hphase]
        rfl
      · rw [setPhase_phase_self]
        simp
  | started i hphase hmiss =>
      apply h.handling
      intro slot j hi hj hji
      -- the lookup was alone, so no other request with the key is engaged
      rcases hsafe slot hi with hrow | hothers
      · exact absurd (hmiss slot hi) hrow
      · rcases hothers j hji hj with harrived | ⟨response, hfailed, hstatus⟩
        · exact engaged_of_arrived harrived
        · exact engaged_of_failed hfailed hstatus
  | answered i response phase hphase hafter =>
      refine h.of_one (fun k hk => setPhase_phase_of_ne s hk _) ?_
      intro _
      exact Or.inl hphase
  | recorded i slot response hphase hslot hfree =>
      refine h.of_one (fun k hk => setPhase_phase_of_ne s hk _)
        (engaged_of_response ?_ ?_)
      · rw [setPhase_phase_self, hphase]
        rfl
      · rw [setPhase_phase_self]
        simp
  | dropped i response hphase =>
      refine h.of_one (fun k hk => setPhase_phase_of_ne s hk _)
        (engaged_of_response ?_ ?_)
      · rw [setPhase_phase_self, hphase]
        rfl
      · rw [setPhase_phase_self]
        simp

theorem exclusive_of_run {history : List (Entry State Action)} {s : State}
    (hrun : (Idempotency.system sha256 requests).Run history s)
    (hsafe : ∀ entry ∈ history, LooksAlone requests entry.before entry.input) :
    Exclusive requests s := by
  induction hrun using System.Run.induction with
  | start state hinitial =>
      intro slot i j _ _ hengaged _
      exact absurd hengaged (engaged_of_arrived (hinitial i))
  | next history state action _ _ ih =>
      have hbefore := ih fun entry hentry => hsafe entry (by simp [hentry])
      exact hbefore.step (hsafe _ List.mem_cons_self)

/-- In every interleaving in which each lookup is alone, at most one request with
a given key and address has its handler run to a response below 500. -/
theorem handler_at_most_once {history : List (Entry State Action)} {s : State}
    (hrun : (Idempotency.system sha256 requests).Run history s)
    (hsafe : ∀ entry ∈ history, LooksAlone requests entry.before entry.input)
    {slot : Slot} {i j : Nat} (hi : (requests i).slot = some slot)
    (hj : (requests j).slot = some slot) (hsucceeded : Succeeded s i)
    (hsucceeded' : Succeeded s j) : i = j := by
  have hexclusive := exclusive_of_run hrun hsafe
  exact hexclusive slot i j hi hj (Or.inr hsucceeded) (Or.inr hsucceeded')

/-! ## The answer to a retry -/

/-- A request that was recorded has its row in the table. -/
def RowsKept (requests : Nat → Request) (s : State) : Prop :=
  ∀ i slot response, (requests i).slot = some slot →
    s.phase i = .recorded response → s.table slot =
      some ⟨(requests i).body.val, response.status, response.body⟩

/-- A step that leaves the table and records nobody. -/
theorem RowsKept.of_setPhase {s : State} (h : RowsKept requests s) (i : Nat)
    {phase : Phase} (hphase : ∀ response, phase ≠ .recorded response) :
    RowsKept requests (s.setPhase i phase) := by
  intro j slot response hslot hrecorded
  by_cases hji : j = i
  · subst hji
    rw [setPhase_phase_self] at hrecorded
    exact absurd hrecorded (hphase response)
  · rw [setPhase_phase_of_ne s hji] at hrecorded
    exact h j slot response hslot hrecorded

theorem RowsKept.step {s : State} (h : RowsKept requests s) (action : Action) :
    RowsKept requests (Idempotency.step sha256 requests s action) := by
  have heffect : StepEffect sha256 requests s action _ := stepEffect s action
  generalize Idempotency.step sha256 requests s action = s' at heffect
  cases heffect with
  | idle action => exact h
  | replayed i slot row hphase hslot hrow => exact h.of_setPhase i (by simp)
  | started i hphase hmiss => exact h.of_setPhase i (by simp)
  | answered i response phase hphase hafter =>
      refine h.of_setPhase i ?_
      rcases hafter with rfl | rfl
      · simp
      · simp
  | recorded i slot response hphase hslot hfree =>
      intro j other response' hother hrecorded
      by_cases hji : j = i
      · subst hji
        rw [hslot] at hother
        cases hother
        have hsame : Phase.recorded response = .recorded response' :=
          (setPhase_phase_self s j _).symm.trans hrecorded
        cases hsame
        exact Function.update_self ..
      · have hbefore : s.phase j = .recorded response' :=
          (setPhase_phase_of_ne s hji _).symm.trans hrecorded
        have hrow := h j other response' hother hbefore
        -- the slot was free, so it is not the one of an earlier record
        have hne : other ≠ slot := by
          rintro rfl
          rw [hfree] at hrow
          cases hrow
        exact (Function.update_of_ne hne ..).trans hrow
  | dropped i response hphase => exact h.of_setPhase i (by simp)

theorem rowsKept_of_run {history : List (Entry State Action)} {s : State}
    (hrun : (Idempotency.system sha256 requests).Run history s) :
    RowsKept requests s := by
  refine System.Run.invariant (P := fun _ s => RowsKept requests s) ?_ ?_ hrun
  · intro state hinitial i slot response _ hrecorded
    rw [hinitial i] at hrecorded
    cases hrecorded
  · intro history state action _ _ h
    exact h.step action

/-- The text a body is compared by, as it was sent and as it comes back. -/
theorem stringify_orEmptyObject_eq_iff (body : Json.EngineValue)
    {members : List Json.Member} (hobject : body.val = .obj members) :
    (orEmptyObject body.val).stringify =
        (orEmptyObject body.val.readBack).stringify ↔
      body.val.namesInStoreOrder = true := by
  rw [← Json.readBack_eq_self_iff body.property, hobject]
  constructor
  · intro htexts
    exact (Json.stringify_injective htexts).symm
  · intro hback
    rw [hback]

/-- Once a request has been recorded, a later one with the same key, address and
object body is answered with the stored status and body exactly when, at every
depth of the body, the keys that are no array indices are in the order of the
JSONB column: by length in bytes, then bytewise.  Otherwise it is answered 422.
SHA-256 is assumed not to collide on the two texts that are compared. -/
theorem retry_answered_iff {history : List (Entry State Action)} {s : State}
    (hrun : (Idempotency.system sha256 requests).Run history s) {slot : Slot}
    {i j : Nat} (hi : (requests i).slot = some slot)
    (hj : (requests j).slot = some slot)
    (hbody : (requests j).body = (requests i).body) {members : List Json.Member}
    (hobject : (requests i).body.val = .obj members) {response : Response}
    (hrecorded : s.phase i = .recorded response) (harrived : s.phase j = .arrived)
    (hcollision : sha256 (requests i).body.val.stringify =
        sha256 (requests i).body.val.readBack.stringify →
      (requests i).body.val.stringify =
        (requests i).body.val.readBack.stringify) :
    ((step sha256 requests s (.select j)).phase j =
        .replayed (.cached ⟨response.status, response.body.readBack⟩) ↔
      (requests i).body.val.namesInStoreOrder = true) ∧
    ((requests i).body.val.namesInStoreOrder = false →
      (step sha256 requests s (.select j)).phase j = .replayed .bodyMismatch) := by
  have hrow := rowsKept_of_run hrun i slot response hi hrecorded
  -- the body is compared with the one the database gave back
  have hsame : hashBody sha256 (requests i).body.val =
      hashBody sha256 (requests i).body.val.readBack ↔
        (requests i).body.val.namesInStoreOrder = true := by
    rw [← stringify_orEmptyObject_eq_iff (requests i).body hobject]
    constructor
    · intro hhash
      rw [hobject] at hcollision hhash ⊢
      exact hcollision hhash
    · intro htexts
      unfold hashBody
      rw [htexts]
  have hafter : (step sha256 requests s (.select j)).phase j =
      .replayed (answerFrom sha256
        ⟨(requests i).body.val, response.status, response.body⟩
        (requests i).body.val) := by
    simp only [step, harrived, select, hj, hrow, hbody, setPhase_phase_self]
  rw [hafter]
  unfold answerFrom
  cases hnames : (requests i).body.val.namesInStoreOrder with
  | true =>
      rw [if_neg (not_not.mpr (hsame.mpr hnames))]
      simp
  | false =>
      have hdiffer : hashBody sha256 (requests i).body.val ≠
          hashBody sha256 (requests i).body.val.readBack := by
        intro hhash
        rw [hsame.mp hhash] at hnames
        cases hnames
      rw [if_pos hdiffer]
      simp

end Requests

/-- Three requests one after the other: only the first one reaches the handler. -/
theorem handler_once_of_sequence :
    ∃ history s, (Idempotency.system RetrySample.digest
        (RetrySample.requests RetrySample.ordered)).Run history s ∧
      Succeeded s 0 ∧ ∀ j, Succeeded s j → j = 0 := by
  have hrun := RetrySample.play_run RetrySample.ordered
    [.select 0, .respond 0 RetrySample.created, .insert 0, .select 1, .select 2]
    (by decide)
  have hfirst : Succeeded (RetrySample.play RetrySample.ordered [.select 0,
      .respond 0 RetrySample.created, .insert 0, .select 1, .select 2]).2 0 :=
    ⟨RetrySample.created, by decide, by decide⟩
  refine ⟨_, _, hrun, hfirst, ?_⟩
  intro j hj
  refine handler_at_most_once hrun ?_ rfl rfl hj hfirst
  -- newest first: two lookups that find the row, and one before all others
  intro entry hentry
  simp only [RetrySample.play, System.replay, List.mem_cons, List.not_mem_nil,
    or_false] at hentry
  rcases hentry with rfl | rfl | rfl | rfl | rfl
  · intro slot hslot
    cases hslot
    exact Or.inl (by decide)
  · intro slot hslot
    cases hslot
    exact Or.inl (by decide)
  · trivial
  · trivial
  · intro slot _
    exact Or.inr fun j _ _ => Or.inl rfl

/-- Two requests that look before the first one is recorded both run the
handler, and both answer 200. -/
theorem handler_runs_twice :
    ∃ history s, (Idempotency.system RetrySample.digest
        (RetrySample.requests RetrySample.ordered)).Run history s ∧
      Succeeded s 0 ∧ Succeeded s 1 := by
  have hrun := RetrySample.play_run RetrySample.ordered
    [.select 0, .select 1, .respond 0 RetrySample.created, .insert 0,
      .respond 1 RetrySample.created, .insert 1] (by decide)
  exact ⟨_, _, hrun, ⟨RetrySample.created, by decide, by decide⟩,
    ⟨RetrySample.created, by decide, by decide⟩⟩

/-- A body in the order of the column: the retry gets the stored answer. -/
theorem retry_answered_of_ordered :
    ∃ history s, (Idempotency.system RetrySample.digest
        (RetrySample.requests RetrySample.ordered)).Run history s ∧
      s.phase 0 = .recorded RetrySample.created ∧
      (step RetrySample.digest (RetrySample.requests RetrySample.ordered) s
        (.select 1)).phase 1 = .replayed (.cached ⟨200, RetrySample.created.body⟩) := by
  have hrun := RetrySample.play_run RetrySample.ordered
    [.select 0, .respond 0 RetrySample.created, .insert 0] (by decide)
  have hrecorded : (RetrySample.play RetrySample.ordered [.select 0,
      .respond 0 RetrySample.created, .insert 0]).2.phase 0 =
        .recorded RetrySample.created := by decide
  have hretry := retry_answered_iff hrun (i := 0) (j := 1) rfl rfl rfl rfl
    hrecorded (by decide) (fun h => h)
  exact ⟨_, _, hrun, hrecorded, hretry.1.mpr (by decide)⟩

/-- The same members in the other order: the retry, identical to the first
request, is refused with 422. -/
theorem retry_refused_of_unordered :
    ∃ history s, (Idempotency.system RetrySample.digest
        (RetrySample.requests RetrySample.unordered)).Run history s ∧
      s.phase 0 = .recorded RetrySample.created ∧ s.phase 1 = .arrived ∧
      (step RetrySample.digest (RetrySample.requests RetrySample.unordered) s
        (.select 1)).phase 1 = .replayed .bodyMismatch ∧
      Answer.bodyMismatch.response.status = 422 := by
  have hrun := RetrySample.play_run RetrySample.unordered
    [.select 0, .respond 0 RetrySample.created, .insert 0] (by decide)
  exact ⟨_, _, hrun, by decide, by decide, by decide, by decide⟩

end Properties
end Paystream
