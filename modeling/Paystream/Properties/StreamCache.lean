import Paystream.Services.StreamCache

/-!
# Reads after writes

Does a read that starts after the response of a write see that write?  Over every
interleaving of reads, withdrawals and top-ups, with entries expiring at any time.

`read_sees_write`: it does in the runs in which no read fills the cache with a
state older than a write that has already deleted its entry, and no write, when it
deletes its entry, leaves an older state under another spelling of the id.  Two
sample runs break one of the two conditions each, and answer a read with an old
state.

`cacheEffect` says once what a step can do; the invariants are read off it.
-/

namespace Paystream
namespace Properties

open Library
open Services
open Services.StreamCache

/-! ## What a phase says -/

/-- The version that the transaction of a write has made. -/
def written : Phase → Option Nat
  | .submitted version => some version
  | .invalidated version => some version
  | .responded version => some version
  | _ => none

/-- The version of a write that has deleted its entry. -/
def dropped : Phase → Option Nat
  | .invalidated version => some version
  | .responded version => some version
  | _ => none

/-- The state that a read has got. -/
def obtained : Phase → Option Reading
  | .fetched reading => some reading
  | .ready reading => some reading
  | .answered reading => some reading
  | _ => none

theorem written_of_dropped {phase : Phase} {version : Nat}
    (h : dropped phase = some version) : written phase = some version := by
  cases phase with
  | invalidated _ => exact h
  | responded _ => exact h
  | _ => cases h

section Routes

variable {streamId : Text → Option Nat} {requests : Nat → Request}

/-! ## One step -/

/-- What a step does. -/
inductive CacheEffect (streamId : Text → Option Nat) (requests : Nat → Request)
    (s : State) : Action → State → Prop
  | idle (action : Action) : CacheEffect streamId requests s action s
  | moved (action : Action) (i : Nat) (phase : Phase)
      (hbefore : written (s.phase i) = none) (hwritten : written phase = none)
      (hobtained : obtained phase = none) :
      CacheEffect streamId requests s action (s.setPhase i phase)
  | hit (i : Nat) (reading : Reading) (hphase : s.phase i = .arrived)
      (hentry : s.cache (keyOf requests i) = some reading) :
      CacheEffect streamId requests s (.lookup i) (s.setPhase i (.ready reading))
  | fetched (i id : Nat) (hstream : streamOf streamId requests i = some id)
      (hphase : s.phase i = .missed) :
      CacheEffect streamId requests s (.read i)
        (s.setPhase i (.fetched (s.chain id)))
  | filled (i : Nat) (reading : Reading) (hphase : s.phase i = .fetched reading) :
      CacheEffect streamId requests s (.fill i)
        ((s.setCache (keyOf requests i) (some reading)).setPhase i
          (.ready reading))
  | submitted (i id : Nat) (value : Json)
      (hstream : streamOf streamId requests i = some id)
      (hphase : s.phase i = .arrived ∨ s.phase i = .checked) :
      CacheEffect streamId requests s (.submit i value)
        ((s.changed id value).setPhase i (.submitted ((s.chain id).version + 1)))
  | invalidated (i version : Nat) (hphase : s.phase i = .submitted version) :
      CacheEffect streamId requests s (.invalidate i)
        ((s.setCache (keyOf requests i) none).setPhase i (.invalidated version))
  | answered (i : Nat) (reading : Reading) (hphase : s.phase i = .ready reading) :
      CacheEffect streamId requests s (.respond i)
        (s.setPhase i (.answered reading))
  | responded (i version : Nat) (hphase : s.phase i = .invalidated version) :
      CacheEffect streamId requests s (.respond i)
        (s.setPhase i (.responded version))
  | expired (key : Text) :
      CacheEffect streamId requests s (.expire key) (s.setCache key none)
  | changed (id : Nat) (value : Json) :
      CacheEffect streamId requests s (.change id value) (s.changed id value)

/-- A step to a phase without a version or a state. -/
theorem CacheEffect.of_phase {s : State} {i : Nat} {before phase : Phase}
    (action : Action) (hphase : s.phase i = before)
    (hbefore : written before = none) (hwritten : written phase = none)
    (hobtained : obtained phase = none) :
    CacheEffect streamId requests s action (s.setPhase i phase) :=
  .moved action i phase (by rw [hphase, hbefore]) hwritten hobtained

theorem start_effect (s : State) (i : Nat) :
    CacheEffect streamId requests s (.start i)
      (step streamId requests s (.start i)) := by
  cases hphase : s.phase i with
  | idle =>
      simp only [step, hphase, start]
      split
      · exact .of_phase _ hphase rfl rfl rfl
      · exact .of_phase _ hphase rfl rfl rfl
  | _ =>
      simp only [step, hphase]
      exact .idle _

theorem lookup_effect (s : State) (i : Nat) :
    CacheEffect streamId requests s (.lookup i)
      (step streamId requests s (.lookup i)) := by
  cases hrequest : requests i with
  | get path =>
      cases hphase : s.phase i with
      | arrived =>
          simp only [step, hrequest, hphase, lookup]
          cases hentry : s.cache (keyOf requests i) with
          | none => exact .of_phase _ hphase rfl rfl rfl
          | some reading =>
              dsimp only
              split
              · exact .hit i reading hphase hentry
              · exact .of_phase _ hphase rfl rfl rfl
      | _ =>
          simp only [step, hrequest, hphase]
          exact .idle _
  | _ =>
      simp only [step, hrequest]
      exact .idle _

theorem read_effect (s : State) (i : Nat) :
    CacheEffect streamId requests s (.read i)
      (step streamId requests s (.read i)) := by
  cases hstream : streamOf streamId requests i with
  | none =>
      simp only [step, hstream]
      exact .idle _
  | some id =>
      simp only [step, hstream, StreamCache.read]
      split
      · rename_i hphase
        exact .fetched i id hstream hphase
      · rename_i hphase
        unfold check
        split
        · exact .of_phase _ hphase rfl rfl rfl
        · exact .of_phase _ hphase rfl rfl rfl
      · exact .idle _

theorem submit_effect (s : State) (i : Nat) (value : Json) :
    CacheEffect streamId requests s (.submit i value)
      (step streamId requests s (.submit i value)) := by
  cases hstream : streamOf streamId requests i with
  | none =>
      simp only [step, hstream]
      exact .idle _
  | some id =>
      simp only [step, hstream, submit]
      split
      · rename_i hphase
        exact .submitted i id value hstream (Or.inl hphase)
      · rename_i hphase
        exact .submitted i id value hstream (Or.inr hphase)
      · exact .idle _

theorem throw_effect (s : State) (i : Nat) :
    CacheEffect streamId requests s (.throw i)
      (step streamId requests s (.throw i)) := by
  simp only [step, StreamCache.throw]
  split
  · rename_i hphase
    exact .of_phase _ hphase rfl rfl rfl
  · rename_i hphase
    exact .of_phase _ hphase rfl rfl rfl
  · rename_i hphase
    exact .of_phase _ hphase rfl rfl rfl
  · rename_i hphase
    exact .of_phase _ hphase rfl rfl rfl
  · exact .idle _

theorem cacheEffect (s : State) (action : Action) :
    CacheEffect streamId requests s action (step streamId requests s action) := by
  cases action with
  | start i => exact start_effect s i
  | lookup i => exact lookup_effect s i
  | read i => exact read_effect s i
  | submit i value => exact submit_effect s i value
  | throw i => exact throw_effect s i
  | expire key => exact .expired key
  | change id value => exact .changed id value
  | fill i =>
      cases hphase : s.phase i with
      | fetched reading =>
          simp only [step, hphase]
          exact .filled i reading hphase
      | _ =>
          simp only [step, hphase]
          exact .idle _
  | invalidate i =>
      cases hphase : s.phase i with
      | submitted version =>
          simp only [step, hphase]
          exact .invalidated i version hphase
      | _ =>
          simp only [step, hphase]
          exact .idle _
  | respond i =>
      cases hphase : s.phase i with
      | ready reading =>
          simp only [step, hphase]
          exact .answered i reading hphase
      | invalidated version =>
          simp only [step, hphase]
          exact .responded i version hphase
      | _ =>
          simp only [step, hphase]
          exact .idle _

/-! ## The two conditions -/

/-- A fill is not older than a write of the stream that has already deleted its
entry. -/
def FillsCurrent (streamId : Text → Option Nat) (requests : Nat → Request)
    (s : State) (action : Action) : Prop :=
  ∀ i reading, action = .fill i → s.phase i = .fetched reading →
    ∀ j id version, streamOf streamId requests i = some id →
      streamOf streamId requests j = some id →
      dropped (s.phase j) = some version → version ≤ reading.version

/-- A write that deletes its entry leaves no older state under another
spelling. -/
def DropsEverySpelling (streamId : Text → Option Nat) (requests : Nat → Request)
    (s : State) (action : Action) : Prop :=
  ∀ i version, action = .invalidate i → s.phase i = .submitted version →
    ∀ id path reading, streamOf streamId requests i = some id →
      streamId path = some id → path ≠ (requests i).path →
      s.cache (streamKey path) = some reading → version ≤ reading.version

/-! ## The invariants -/

/-- The chain has every version that was written. -/
def ChainCurrent (streamId : Text → Option Nat) (requests : Nat → Request)
    (s : State) : Prop :=
  ∀ j id version, streamOf streamId requests j = some id →
    written (s.phase j) = some version → version ≤ (s.chain id).version

/-- No entry of the cache is older than a write that has deleted its own. -/
def CacheCurrent (streamId : Text → Option Nat) (requests : Nat → Request)
    (s : State) : Prop :=
  ∀ j id version path reading, streamOf streamId requests j = some id →
    dropped (s.phase j) = some version → streamId path = some id →
    s.cache (streamKey path) = some reading → version ≤ reading.version

theorem streamKey_injective {path path' : Text}
    (h : streamKey path = streamKey path') : path = path' :=
  List.append_cancel_left h

/-- The phases after one of them was set. -/
theorem phase_setPhase {s : State} {i j : Nat} {phase : Phase} :
    (s.setPhase i phase).phase j = if j = i then phase else s.phase j := by
  show Function.update s.phase i phase j = _
  rw [Function.update_apply]

/-- What a function says of the phases, after one was set that it says nothing
new of. -/
theorem of_setPhase {α : Type} {f : Phase → Option α} {s : State} {i j : Nat}
    {phase : Phase} {x : α} (hphase : ∀ y, f phase = some y → f (s.phase i) = some y)
    (h : f ((s.setPhase i phase).phase j) = some x) : f (s.phase j) = some x := by
  rw [phase_setPhase] at h
  split at h
  · rename_i hj
    rw [hj]
    exact hphase x h
  · exact h

theorem ChainCurrent.setPhase {s : State} (h : ChainCurrent streamId requests s)
    {i : Nat} {phase : Phase}
    (hphase : ∀ version, written phase = some version →
      written (s.phase i) = some version) :
    ChainCurrent streamId requests (s.setPhase i phase) :=
  fun j id version hj hwritten =>
    h j id version hj (of_setPhase hphase hwritten)

/-- The chain only moves on. -/
theorem version_changed (s : State) (id id' : Nat) (value : Json) :
    (s.chain id').version ≤ ((s.changed id value).chain id').version := by
  show _ ≤ (Function.update s.chain id _ id').version
  rw [Function.update_apply]
  split
  · rename_i hid
    rw [hid]
    exact Nat.le_succ _
  · exact le_rfl

theorem ChainCurrent.step {s : State} (h : ChainCurrent streamId requests s)
    (action : Action) :
    ChainCurrent streamId requests (step streamId requests s action) := by
  have heffect : CacheEffect streamId requests s action _ := cacheEffect s action
  generalize StreamCache.step streamId requests s action = s' at heffect
  cases heffect with
  | idle _ => exact h
  | moved _ i phase hbefore hwritten hobtained =>
      exact h.setPhase (by simp [hwritten])
  | hit i reading hphase hentry => exact h.setPhase (by simp [written])
  | fetched i id hstream hphase => exact h.setPhase (by simp [written])
  | filled i reading hphase => exact h.setPhase (by simp [written])
  | answered i reading hphase => exact h.setPhase (by simp [written])
  | responded i version hphase =>
      exact h.setPhase (by simp [hphase, written])
  | invalidated i version hphase =>
      refine ChainCurrent.setPhase (s := s.setCache _ none) h ?_
      intro other hother
      show written (s.phase i) = some other
      rw [hphase]
      exact hother
  | submitted i id value hstream hphase =>
      intro j id' version hj hwritten
      rw [phase_setPhase] at hwritten
      split at hwritten
      · rename_i hji
        subst hji
        rw [hstream] at hj
        cases hj
        cases hwritten
        show _ ≤ (Function.update s.chain id _ id).version
        rw [Function.update_self]
      · exact (h j id' version hj hwritten).trans (version_changed s id id' value)
  | expired key => exact h
  | changed id value =>
      intro j id' version hj hwritten
      exact (h j id' version hj hwritten).trans (version_changed s id id' value)

theorem CacheCurrent.setPhase {s : State} (h : CacheCurrent streamId requests s)
    {i : Nat} {phase : Phase}
    (hphase : ∀ version, dropped phase = some version →
      dropped (s.phase i) = some version) :
    CacheCurrent streamId requests (s.setPhase i phase) :=
  fun j id version path reading hj hdropped =>
    h j id version path reading hj (of_setPhase hphase hdropped)

/-- Removing an entry. -/
theorem CacheCurrent.remove {s : State} (h : CacheCurrent streamId requests s)
    (key : Text) : CacheCurrent streamId requests (s.setCache key none) := by
  intro j id version path reading hj hdropped hpath hentry
  change Function.update s.cache key none (streamKey path) = some reading at hentry
  rw [Function.update_apply] at hentry
  split at hentry
  · cases hentry
  · exact h j id version path reading hj hdropped hpath hentry

theorem CacheCurrent.step {s : State} (h : CacheCurrent streamId requests s)
    (action : Action)
    (hfills : FillsCurrent streamId requests s action)
    (hdrops : DropsEverySpelling streamId requests s action) :
    CacheCurrent streamId requests (step streamId requests s action) := by
  have heffect : CacheEffect streamId requests s action _ := cacheEffect s action
  generalize StreamCache.step streamId requests s action = s' at heffect
  cases heffect with
  | idle _ => exact h
  | moved _ i phase hbefore hwritten hobtained =>
      refine h.setPhase ?_
      intro version hdropped
      rw [written_of_dropped hdropped] at hwritten
      cases hwritten
  | hit i reading hphase hentry => exact h.setPhase (by simp [dropped])
  | fetched i id hstream hphase => exact h.setPhase (by simp [dropped])
  | answered i reading hphase => exact h.setPhase (by simp [dropped])
  | responded i version hphase => exact h.setPhase (by simp [hphase, dropped])
  | submitted i id value hstream hphase =>
      exact CacheCurrent.setPhase (s := s.changed id value) h (by simp [dropped])
  | expired key => exact h.remove key
  | changed id value => exact h
  | filled i reading hphase =>
      refine CacheCurrent.setPhase ?_ (by simp [dropped])
      intro j id version path reading' hj hdropped hpath hentry
      change Function.update s.cache (keyOf requests i) (some reading)
        (streamKey path) = some reading' at hentry
      rw [Function.update_apply] at hentry
      split at hentry
      · rename_i hkey
        cases hentry
        have hi : streamOf streamId requests i = some id := by
          unfold streamOf
          rw [← streamKey_injective hkey]
          exact hpath
        exact hfills i reading rfl hphase j id version hi hj hdropped
      · exact h j id version path reading' hj hdropped hpath hentry
  | invalidated i version hphase =>
      intro j id version' path reading hj hdropped hpath hentry
      rw [phase_setPhase] at hdropped
      split at hdropped
      · rename_i hji
        subst hji
        cases hdropped
        change Function.update s.cache (keyOf requests j) none (streamKey path) =
          some reading at hentry
        rw [Function.update_apply] at hentry
        split at hentry
        · cases hentry
        · rename_i hkey
          refine hdrops j version rfl hphase id path reading hj hpath ?_ hentry
          intro hsame
          exact hkey (by rw [hsame]; rfl)
      · exact h.remove (keyOf requests i) j id version' path reading hj hdropped
          hpath hentry

theorem chainCurrent_of_run {history : List (Entry State Action)} {s : State}
    (hrun : (StreamCache.system streamId requests).Run history s) :
    ChainCurrent streamId requests s := by
  refine System.Run.invariant (P := fun _ s => ChainCurrent streamId requests s)
    ?_ ?_ hrun
  · intro s hinitial j id version _ hwritten
    rw [hinitial j] at hwritten
    cases hwritten
  · intro _ s action _ _ h
    exact h.step action

/-- A fill with what the chain still has is current. -/
theorem fillsCurrent_of_unchanged {history : List (Entry State Action)} {s : State}
    (hrun : (StreamCache.system streamId requests).Run history s) {i id : Nat}
    (hi : streamOf streamId requests i = some id)
    (hphase : s.phase i = .fetched (s.chain id)) :
    FillsCurrent streamId requests s (.fill i) := by
  intro k reading hfill hfetched j id' version hk hj hdropped
  cases hfill
  rw [hphase] at hfetched
  cases hfetched
  rw [hi] at hk
  cases hk
  exact chainCurrent_of_run hrun j id version hj (written_of_dropped hdropped)

theorem cacheCurrent_of_run {history : List (Entry State Action)} {s : State}
    (hrun : (StreamCache.system streamId requests).Run history s)
    (hfills : ∀ entry ∈ history,
      FillsCurrent streamId requests entry.before entry.input)
    (hdrops : ∀ entry ∈ history,
      DropsEverySpelling streamId requests entry.before entry.input) :
    CacheCurrent streamId requests s := by
  induction hrun using System.Run.induction with
  | start s hinitial =>
      intro j id version path reading _ hdropped
      rw [hinitial j] at hdropped
      cases hdropped
  | next history s action hrun htime ih =>
      obtain ⟨hfill, hfills⟩ := List.forall_mem_cons.mp hfills
      obtain ⟨hdrop, hdrops⟩ := List.forall_mem_cons.mp hdrops
      exact (ih hfills hdrops).step action hfill hdrop

/-! ## A read after a response -/

/-- A write that has responded stays where it is. -/
theorem responded_step {s : State} {j version : Nat}
    (h : s.phase j = .responded version) (action : Action) :
    (step streamId requests s action).phase j = .responded version := by
  have heffect : CacheEffect streamId requests s action _ := cacheEffect s action
  generalize StreamCache.step streamId requests s action = s' at heffect
  -- whoever moves is in another phase
  have hother : ∀ (s' : State) (i : Nat) (phase : Phase), s'.phase = s.phase →
      s.phase i ≠ .responded version →
      (s'.setPhase i phase).phase j = .responded version := by
    intro s' i phase hsame hi
    have hji : j ≠ i := by
      rintro rfl
      exact hi h
    rw [phase_setPhase, if_neg hji, hsame]
    exact h
  cases heffect with
  | idle _ => exact h
  | moved _ i phase hbefore hwritten hobtained =>
      refine hother s i _ rfl ?_
      intro hi
      rw [hi] at hbefore
      cases hbefore
  | hit i reading hphase hentry => exact hother s i _ rfl (by simp [hphase])
  | fetched i id hstream hphase => exact hother s i _ rfl (by simp [hphase])
  | filled i reading hphase => exact hother _ i _ rfl (by simp [hphase])
  | submitted i id value hstream hphase =>
      refine hother _ i _ rfl ?_
      rcases hphase with hphase | hphase
      · simp [hphase]
      · simp [hphase]
  | invalidated i version' hphase => exact hother _ i _ rfl (by simp [hphase])
  | answered i reading hphase => exact hother s i _ rfl (by simp [hphase])
  | responded i version' hphase => exact hother s i _ rfl (by simp [hphase])
  | expired key => exact h
  | changed id value => exact h

/-- Write `j` has responded, and read `i` of the same stream has got no state
older than it. -/
structure SeesWrite (streamId : Text → Option Nat) (requests : Nat → Request)
    (i j version : Nat) (s : State) : Prop where
  chain : ChainCurrent streamId requests s
  cache : CacheCurrent streamId requests s
  write : s.phase j = .responded version
  read : ∀ reading, obtained (s.phase i) = some reading → version ≤ reading.version

/-- After a phase was set, the read has what that phase brings, or what it had
before. -/
theorem SeesWrite.obtained_setPhase {s : State} {i j version : Nat}
    (h : SeesWrite streamId requests i j version s) (s' : State) (k : Nat)
    (phase : Phase) (hsame : s'.phase = s.phase) {reading : Reading}
    (hafter : obtained ((s'.setPhase k phase).phase i) = some reading) :
    (k = i ∧ obtained phase = some reading) ∨ version ≤ reading.version := by
  rw [phase_setPhase] at hafter
  split at hafter
  · rename_i hik
    exact Or.inl ⟨hik.symm, hafter⟩
  · rw [hsame] at hafter
    exact Or.inr (h.read reading hafter)

/-- A state that the read gets is not older than the write. -/
theorem SeesWrite.obtained_step {s : State} {i j id version : Nat}
    (h : SeesWrite streamId requests i j version s)
    (hi : streamOf streamId requests i = some id)
    (hj : streamOf streamId requests j = some id) (action : Action)
    {reading : Reading}
    (hreading : obtained ((step streamId requests s action).phase i) =
      some reading) : version ≤ reading.version := by
  have heffect : CacheEffect streamId requests s action _ := cacheEffect s action
  generalize StreamCache.step streamId requests s action = s' at heffect hreading
  cases heffect with
  | idle _ => exact h.read reading hreading
  | moved _ k phase hbefore hwritten hobtained =>
      rcases h.obtained_setPhase s k _ rfl hreading with ⟨_, hnew⟩ | hold
      · rw [hobtained] at hnew
        cases hnew
      · exact hold
  | hit k found hphase hentry =>
      rcases h.obtained_setPhase s k _ rfl hreading with ⟨rfl, hnew⟩ | hold
      · cases hnew
        exact h.cache j id version _ reading hj (by rw [h.write]; rfl) hi hentry
      · exact hold
  | fetched k id' hstream hphase =>
      rcases h.obtained_setPhase s k _ rfl hreading with ⟨rfl, hnew⟩ | hold
      · cases hnew
        rw [hi] at hstream
        cases hstream
        exact h.chain j id version hj (by rw [h.write]; rfl)
      · exact hold
  | filled k found hphase =>
      rcases h.obtained_setPhase _ k _ rfl hreading with ⟨rfl, hnew⟩ | hold
      · exact h.read reading (by rw [hphase]; exact hnew)
      · exact hold
  | submitted k id' value hstream hphase =>
      rcases h.obtained_setPhase _ k _ rfl hreading with ⟨_, hnew⟩ | hold
      · cases hnew
      · exact hold
  | invalidated k version' hphase =>
      rcases h.obtained_setPhase _ k _ rfl hreading with ⟨_, hnew⟩ | hold
      · cases hnew
      · exact hold
  | answered k found hphase =>
      rcases h.obtained_setPhase s k _ rfl hreading with ⟨rfl, hnew⟩ | hold
      · exact h.read reading (by rw [hphase]; exact hnew)
      · exact hold
  | responded k version' hphase =>
      rcases h.obtained_setPhase s k _ rfl hreading with ⟨_, hnew⟩ | hold
      · cases hnew
      · exact hold
  | expired key => exact h.read reading hreading
  | changed id' value => exact h.read reading hreading

theorem SeesWrite.step {s : State} {i j id version : Nat}
    (h : SeesWrite streamId requests i j version s)
    (hi : streamOf streamId requests i = some id)
    (hj : streamOf streamId requests j = some id) (action : Action)
    (hfills : FillsCurrent streamId requests s action)
    (hdrops : DropsEverySpelling streamId requests s action) :
    SeesWrite streamId requests i j version (step streamId requests s action) where
  chain := h.chain.step action
  cache := h.cache.step action hfills hdrops
  write := responded_step h.write action
  read := fun _ hreading => h.obtained_step hi hj action hreading

/-- In a run in which every fill is current and every deletion reaches all
spellings: a read that has not started when a write of its stream has responded is
never answered with a state older than that write. -/
theorem read_sees_write {later earlier : List (Entry State Action)}
    {entry : Entry State Action} {s : State}
    (hrun : (StreamCache.system streamId requests).Run
      (later ++ entry :: earlier) s)
    (hfills : ∀ step ∈ later ++ entry :: earlier,
      FillsCurrent streamId requests step.before step.input)
    (hdrops : ∀ step ∈ later ++ entry :: earlier,
      DropsEverySpelling streamId requests step.before step.input)
    {i j id version : Nat} (hi : streamOf streamId requests i = some id)
    (hj : streamOf streamId requests j = some id)
    (hidle : entry.before.phase i = .idle)
    (hresponded : entry.before.phase j = .responded version) {reading : Reading}
    (hanswered : s.phase i = .answered reading) :
    version ≤ reading.version := by
  obtain ⟨hbefore, hafter, _⟩ := hrun.of_split
  have hmem : ∀ step ∈ entry :: earlier, step ∈ later ++ entry :: earlier :=
    fun step hstep => List.mem_append_right later hstep
  have hcache := cacheCurrent_of_run hbefore
    (fun step hstep => hfills step (hmem step (List.mem_cons_of_mem _ hstep)))
    (fun step hstep => hdrops step (hmem step (List.mem_cons_of_mem _ hstep)))
  have hfirst : SeesWrite streamId requests i j version entry.before := by
    refine ⟨chainCurrent_of_run hbefore, hcache, hresponded, ?_⟩
    intro reading hreading
    rw [hidle] at hreading
    cases hreading
  have hentry : SeesWrite streamId requests i j version entry.after := by
    rw [hafter]
    exact hfirst.step hi hj entry.input
      (hfills entry (hmem entry List.mem_cons_self))
      (hdrops entry (hmem entry List.mem_cons_self))
  have hlast : SeesWrite streamId requests i j version s := by
    refine System.Run.persists (Q := fun s action =>
      FillsCurrent streamId requests s action ∧
        DropsEverySpelling streamId requests s action) ?_ hrun ?_ hentry
    · intro _ s action _ _ hsafe hsees
      exact hsees.step hi hj action hsafe.1 hsafe.2
    · intro step hstep
      have hin : step ∈ later ++ entry :: earlier := List.mem_append_left _ hstep
      exact ⟨hfills step hin, hdrops step hin⟩
  exact hlast.read reading (by rw [hanswered]; rfl)

end Routes

/-! ## Sample runs -/

namespace CacheSample

/-- A path is accepted if it is a decimal number from 1 on, with any leading zeros
and possibly a plus sign. -/
def streamId (path : Text) : Option Nat :=
  let digits := if path.head? = some '+' then path.tail else path
  let value := Nat.ofDigitChars 10 digits 0
  if digits ≠ [] ∧ digits.all Char.isDigit = true ∧ 1 ≤ value then some value
  else none

def employee : Json := .str ('G' :: List.replicate 55 'A')

/-- The state of the stream after so many withdrawals. -/
def stream (withdrawals : Nat) : Json :=
  .obj [("status".toList, .str "Active".toList),
    ("withdrawn".toList, .str (Nat.toDigits 10 withdrawals))]

/-- A read of the stream under a spelling, a withdrawal, and a second read under
the first spelling. -/
def requests (path : Text) : Nat → Request
  | 1 => .withdraw ['1'] employee
  | _ => .get path

/-- The stream before anything, nothing in the cache. -/
def begin : State := ⟨fun _ => ⟨0, stream 0⟩, fun _ => none, fun _ => .idle⟩

def play (path : Text) (actions : List Action) :
    List (Entry State Action) × State :=
  (StreamCache.system streamId (requests path)).replay [] begin actions

theorem play_run (path : Text) (actions : List Action)
    (horder : (StreamCache.system streamId (requests path)).InOrder 0 actions =
      true) :
    (StreamCache.system streamId (requests path)).Run (play path actions).1
      (play path actions).2 :=
  ⟨begin, fun _ => rfl, System.Path.stay.replay horder⟩

/-- The withdrawal, from its start to its response. -/
def withdrawal : List Action :=
  [.start 1, .submit 1 (stream 1), .invalidate 1, .respond 1]

/-- A read that misses the cache. -/
def miss (i : Nat) : List Action :=
  [.start i, .lookup i, .read i, .fill i, .respond i]

/-- A read that hits the cache. -/
def hit (i : Nat) : List Action := [.start i, .lookup i, .respond i]

/-- A read that fills the cache only after the withdrawal. -/
def lateFill : List Action :=
  [.start 0, .lookup 0, .read 0] ++ withdrawal ++ [.fill 0, .respond 0]

/-- The withdrawal, and then a read up to its fill. -/
def beforeFill : List Action :=
  withdrawal ++ [.start 2, .lookup 2, .read 2]

/-- The read fills the cache with what the chain has. -/
theorem fills_after_withdrawal :
    ∀ entry ∈ (play ['1'] (withdrawal ++ miss 2)).1,
      FillsCurrent streamId (requests ['1']) entry.before entry.input := by
  have hrun := play_run ['1'] beforeFill (by decide)
  have hfill : FillsCurrent streamId (requests ['1']) (play ['1'] beforeFill).2
      (.fill 2) := fillsCurrent_of_unchanged hrun rfl rfl
  have hbefore : ∀ entry ∈ (play ['1'] beforeFill).1,
      FillsCurrent streamId (requests ['1']) entry.before entry.input := by
    intro entry hentry i reading hinput
    have hmem := System.input_mem_of_replay_nil hentry
    rw [hinput] at hmem
    simp [beforeFill, withdrawal] at hmem
  refine List.forall_mem_cons.mpr ⟨?_, List.forall_mem_cons.mpr ⟨hfill, hbefore⟩⟩
  intro i reading hinput
  cases hinput

/-- Nothing is cached when the withdrawal deletes its entry. -/
theorem drops_after_withdrawal :
    ∀ entry ∈ (play ['1'] (withdrawal ++ miss 2)).1,
      DropsEverySpelling streamId (requests ['1']) entry.before entry.input := by
  iterate 6 refine List.forall_mem_cons.mpr ⟨(fun _ _ hinput => by cases hinput), ?_⟩
  refine List.forall_mem_cons.mpr ⟨?_, ?_⟩
  · intro i version _ _ id path reading _ _ _ hcached
    cases hcached
  iterate 2 refine List.forall_mem_cons.mpr ⟨(fun _ _ hinput => by cases hinput), ?_⟩
  exact List.forall_mem_nil _

/-- In a run the second read starts after the withdrawal of the same stream has
responded, and is answered with an older state. -/
def StaleRead (path : Text) : Prop :=
  ∃ later entry earlier s reading,
    (StreamCache.system streamId (requests path)).Run (later ++ entry :: earlier) s ∧
    streamOf streamId (requests path) 2 = streamOf streamId (requests path) 1 ∧
    entry.input = .start 2 ∧ entry.before.phase 2 = .idle ∧
    entry.before.phase 1 = .responded 1 ∧ s.phase 2 = .answered reading ∧
    reading.version < 1

end CacheSample

open CacheSample

/-- A withdrawal and then a read: the read is answered with the state the
withdrawal made. -/
theorem read_sees_write_of_sequence :
    ∃ later entry earlier s reading,
      (StreamCache.system streamId (requests ['1'])).Run
        (later ++ entry :: earlier) s ∧
      entry.before.phase 2 = .idle ∧ entry.before.phase 1 = .responded 1 ∧
      s.phase 2 = .answered reading ∧ 1 ≤ reading.version := by
  have hrun : (StreamCache.system streamId (requests ['1'])).Run
      ((play ['1'] (withdrawal ++ miss 2)).1.take 4 ++
        (StreamCache.system streamId (requests ['1'])).entryOf
          (play ['1'] withdrawal).2 (.start 2) :: (play ['1'] withdrawal).1)
      (play ['1'] (withdrawal ++ miss 2)).2 :=
    play_run ['1'] (withdrawal ++ miss 2) (by decide)
  exact ⟨_, _, _, _, ⟨1, stream 1⟩, hrun, rfl, rfl, rfl,
    read_sees_write hrun fills_after_withdrawal drops_after_withdrawal
      (i := 2) (j := 1) rfl rfl rfl rfl rfl⟩

/-- A read that starts after the response of a withdrawal is answered with the
state before it: because an earlier read filled the cache late, or because the
entry under another spelling of the id was left. -/
theorem read_misses_write : StaleRead ['1'] ∧ StaleRead ['0', '1'] := by
  constructor
  · -- the first read gets the old state, and fills the cache after the deletion
    have hrun : (StreamCache.system streamId (requests ['1'])).Run
        ((play ['1'] (lateFill ++ hit 2)).1.take 2 ++
          (StreamCache.system streamId (requests ['1'])).entryOf
            (play ['1'] lateFill).2 (.start 2) :: (play ['1'] lateFill).1)
        (play ['1'] (lateFill ++ hit 2)).2 :=
      play_run ['1'] (lateFill ++ hit 2) (by decide)
    exact ⟨_, _, _, _, ⟨0, stream 0⟩, hrun, rfl, rfl, rfl, rfl, rfl, by decide⟩
  · -- the first read fills the cache under the other spelling
    have hrun : (StreamCache.system streamId (requests ['0', '1'])).Run
        ((play ['0', '1'] (miss 0 ++ withdrawal ++ hit 2)).1.take 2 ++
          (StreamCache.system streamId (requests ['0', '1'])).entryOf
            (play ['0', '1'] (miss 0 ++ withdrawal)).2 (.start 2) ::
              (play ['0', '1'] (miss 0 ++ withdrawal)).1)
        (play ['0', '1'] (miss 0 ++ withdrawal ++ hit 2)).2 :=
      play_run ['0', '1'] (miss 0 ++ withdrawal ++ hit 2) (by decide)
    exact ⟨_, _, _, _, ⟨0, stream 0⟩, hrun, rfl, rfl, rfl, rfl, rfl, by decide⟩

end Properties
end Paystream
