import Mathlib.Data.Set.Card
import Paystream.Properties.Indexes
import Paystream.Semantics.Announcements
import Paystream.Services.Analytics

/-!
# Analytics against the chain

The service rebuilds the status of a stream from events of type `status`.  Their
publisher, `stream_status_changed`, is called by no entry point, so the replay
leaves every stream as it was created: active.  Both numbers it reports are the
number of streams ever created (`replay_of_log`), and the active ones are
counted right exactly when all of them are (`analytics_agrees_iff`).
-/

namespace Paystream
namespace Properties

open Library
open Contract
open Semantics
open Services
open Services.Analytics

/-! ## Pages -/

/-- Where the pages are cut does not matter. -/
theorem walkPages_eq_foldlM (rendering : Rendering) (replay : Replay)
    (records : List Record) :
    walkPages rendering replay records =
      records.foldlM (readRecord rendering) replay := by
  fun_induction walkPages rendering replay records with
  | case1 replay records page hpage =>
      rw [← List.take_append_drop pageLimit records, List.foldlM_append, hpage]
      rfl
  | case2 replay records page next hpage hlast =>
      -- a page that is not full is the last one
      have hlength : min pageLimit records.length = page.length :=
        List.length_take.symm
      have hwhole : page = records := List.take_of_length_le (by omega)
      rw [← hwhole, hpage]
  | case3 replay records page next hpage hfull ih =>
      rw [ih]
      conv_rhs => rw [← List.take_append_drop pageLimit records, List.foldlM_append]
      rw [hpage]
      rfl

/-! ## The map of the replay -/

/-- Replacing the value of a key by one that looks the same changes no look. -/
theorem kreplace_map {K V T : Type} [DecidableEq K] (look : V → T) {key : K}
    {old new : V} (hlook : look new = look old)
    (entries : List (Sigma fun _ : K => V))
    (hfound : entries.dlookup key = some old) :
    (entries.kreplace key new).map (fun entry => (entry.1, look entry.2)) =
      entries.map fun entry => (entry.1, look entry.2) := by
  induction entries with
  | nil => cases hfound
  | cons entry rest ih =>
      obtain ⟨first, value⟩ := entry
      unfold List.kreplace at ih ⊢
      by_cases hkey : key = first
      · subst hkey
        rw [List.dlookup_cons_eq] at hfound
        cases hfound
        rw [List.lookmap_cons_some _ rest (if_pos rfl), List.map_cons, hlook,
          List.map_cons]
      · rw [List.dlookup_cons_ne _ _ hkey] at hfound
        rw [List.lookmap_cons_none _ rest (if_neg hkey), List.map_cons, ih hfound,
          List.map_cons]

/-- The replay has seen the creation of these streams, the latest first, and
takes all of them to be active. -/
structure Tracks (replay : Replay) (ids : List Nat) : Prop where
  total : replay.totalStreams = ids.length
  entries : replay.streams.entries.map (fun entry => (entry.1, entry.2.status)) =
    ids.map fun id => (Nat.toDigits 10 id, "Active".toList)

theorem Tracks.keys {replay : Replay} {ids : List Nat} (h : Tracks replay ids) :
    replay.streams.keys = ids.map (Nat.toDigits 10) := by
  have hfirst := congrArg (List.map Prod.fst) h.entries
  rw [List.map_map, List.map_map] at hfirst
  exact hfirst

theorem toDigits_injective : Function.Injective (Nat.toDigits 10) := by
  intro a b h
  have hread := congrArg (fun digits => Nat.ofDigitChars 10 digits 0) h
  simp only [Nat.ofDigitChars_toDigits (show 1 < 10 by decide)
    (show 10 ≤ 10 by decide)] at hread
  exact hread

theorem Tracks.created {replay : Replay} {ids : List Nat} (h : Tracks replay ids)
    {id : Nat} (hid : id ∉ ids) (deposit : Int) :
    Tracks { replay with
      totalStreams := replay.totalStreams + 1
      streams := replay.streams.insert (Nat.toDigits 10 id)
        ⟨deposit, 0, "Active".toList⟩ } (id :: ids) where
  total := by
    show replay.totalStreams + 1 = ids.length + 1
    rw [h.total]
  entries := by
    have habsent : Nat.toDigits 10 id ∉ replay.streams := by
      rw [AList.mem_keys, h.keys, List.mem_map_of_injective toDigits_injective]
      exact hid
    show (AList.insert _ _ _).entries.map _ = _
    rw [AList.entries_insert_of_notMem habsent, List.map_cons, h.entries,
      List.map_cons]

/-- Amounts do not matter. -/
theorem Tracks.change {replay : Replay} {ids : List Nat} (h : Tracks replay ids)
    (streamId : Text) {f : Tracked → Tracked}
    (hf : ∀ tracked, (f tracked).status = tracked.status) :
    Tracks (replay.change streamId f) ids := by
  unfold Replay.change
  cases hfound : replay.streams.lookup streamId with
  | none => exact h
  | some tracked =>
      refine ⟨h.total, ?_⟩
      show ((replay.streams.entries.kreplace streamId (f tracked)).map
        fun entry => (entry.1, entry.2.status)) = _
      rw [kreplace_map Tracked.status (hf tracked) _ hfound]
      exact h.entries

/-! ## The log -/

/-- The events of a run as the service gets them, oldest first. -/
def eventLog (events : List Event) : List Record :=
  events.reverse.map fun event => Record.of (.ofContract event)

/-- An amount is read back as it was published. -/
theorem bigInt_ofI128 (value : Int) :
    bigInt (some (.ofI128 value)) = some value := by
  unfold ScVal.ofI128 bigInt ofHalves
  simp only [Option.some.injEq]
  omega

section Records

variable {rendering : Rendering} {replay : Replay} {event : Event}

theorem textOf_name : textOf rendering
    ((Record.of (.ofContract event)).topic[0]?.getD .void) =
      (contractEventName event).toList := by
  rfl

theorem readRecord_created {id : Nat} {deposit : Int}
    (hname : contractEventName event = "created")
    (hnumber : (Published.ofContract event).number = some id)
    (hdeposit : bigInt (item 2 (Published.ofContract event).value) =
      some deposit) :
    readRecord rendering replay (.of (.ofContract event)) = some { replay with
      totalStreams := replay.totalStreams + 1
      streams := replay.streams.insert (Nat.toDigits 10 id)
        ⟨deposit, 0, "Active".toList⟩ } := by
  unfold readRecord
  simp only [textOf_name, hname, if_true]
  simp only [Record.of, Published.topic, hnumber, hdeposit]
  rfl

theorem readRecord_withdraw {id : Nat} {amount : Int}
    (hname : contractEventName event = "withdraw")
    (hnumber : (Published.ofContract event).number = some id)
    (hamount : bigInt (item 1 (Published.ofContract event).value) =
      some amount) :
    readRecord rendering replay (.of (.ofContract event)) =
      some ({ replay with
        totalWithdrawn := replay.totalWithdrawn + amount }.change
          (Nat.toDigits 10 id) fun tracked =>
            { tracked with withdrawn := tracked.withdrawn + amount }) := by
  have hcreated : "withdraw".toList ≠ "created".toList := by decide
  unfold readRecord
  simp only [textOf_name, hname, if_neg hcreated, if_true]
  simp only [Record.of, Published.topic, hnumber, hamount]
  rfl

theorem readRecord_topup {id : Nat} {amount : Int}
    (hname : contractEventName event = "topup")
    (hnumber : (Published.ofContract event).number = some id)
    (hamount : bigInt (item 1 (Published.ofContract event).value) =
      some amount) :
    readRecord rendering replay (.of (.ofContract event)) =
      some (replay.change (Nat.toDigits 10 id) fun tracked =>
        { tracked with deposit := tracked.deposit + amount }) := by
  have hcreated : "topup".toList ≠ "created".toList := by decide
  have hwithdraw : "topup".toList ≠ "withdraw".toList := by decide
  unfold readRecord
  simp only [textOf_name, hname, if_neg hcreated, if_neg hwithdraw, if_true]
  simp only [Record.of, Published.topic, hnumber, hamount]
  rfl

/-- Records of other types are passed over. -/
theorem readRecord_other
    (hname : contractEventName event ∉ ["created", "withdraw", "topup", "status"]) :
    readRecord rendering replay (.of (.ofContract event)) = some replay := by
  simp only [List.mem_cons, List.not_mem_nil, or_false, not_or,
    ← String.toList_inj] at hname
  obtain ⟨hcreated, hwithdraw, htopup, hstatus⟩ := hname
  unfold readRecord
  simp only [textOf_name, if_neg hcreated, if_neg hwithdraw, if_neg htopup,
    if_neg hstatus]
  rfl

end Records

/-- The replay reads every event of the contract, and keeps track. -/
theorem Tracks.readRecord {replay : Replay} {ids : List Nat}
    (h : Tracks replay ids) (rendering : Rendering) (event : Event)
    (hnew : ∀ id, createdStream? event = some id → id ∉ ids) :
    ∃ next, readRecord rendering replay (.of (.ofContract event)) = some next ∧
      Tracks next ((createdStream? event).toList ++ ids) := by
  cases event with
  | streamCreated id employer employee rate feeBps =>
      exact ⟨_, readRecord_created rfl rfl (bigInt_ofI128 rate),
        h.created (hnew id rfl) rate⟩
  | withdrawn id employee amount =>
      refine ⟨_, readRecord_withdraw rfl rfl (bigInt_ofI128 amount), ?_⟩
      have hsum : Tracks { replay with
          totalWithdrawn := replay.totalWithdrawn + amount } ids :=
        ⟨h.total, h.entries⟩
      exact hsum.change _ fun _ => rfl
  | toppedUp id employer amount =>
      exact ⟨_, readRecord_topup rfl rfl (bigInt_ofI128 amount),
        h.change _ fun _ => rfl⟩
  | _ => exact ⟨replay, readRecord_other (by simp [contractEventName]), h⟩

/-- The replay of a whole log. -/
theorem replay_of_log (rendering : Rendering) (events : List Event)
    (hnodup : (events.filterMap createdStream?).Nodup) :
    ∃ replay, walkPages rendering .start (eventLog events) = some replay ∧
      Tracks replay (events.filterMap createdStream?) := by
  rw [walkPages_eq_foldlM]
  -- the newest event is the head of `events` and the last record of the log
  induction events with
  | nil => exact ⟨.start, rfl, rfl, rfl⟩
  | cons event events ih =>
      have hcons : (event :: events).filterMap createdStream? =
          (createdStream? event).toList ++ events.filterMap createdStream? := by
        cases hcreated : createdStream? event with
        | none => rw [List.filterMap_cons_none hcreated]; rfl
        | some id => rw [List.filterMap_cons_some hcreated]; rfl
      rw [hcons] at hnodup ⊢
      obtain ⟨_, hearlier, hdisjoint⟩ := List.nodup_append.mp hnodup
      obtain ⟨replay, hreplay, htracks⟩ := ih hearlier
      obtain ⟨next, hnext, htracksNext⟩ := htracks.readRecord rendering event (by
        intro id hid hmem
        exact hdisjoint id (by rw [hid]; simp) id hmem rfl)
      refine ⟨next, ?_, htracksNext⟩
      unfold eventLog at hreplay ⊢
      rw [List.reverse_cons, List.map_append, List.foldlM_append, hreplay]
      simp only [Option.bind_eq_bind, Option.bind_some, List.map_cons, List.map_nil,
        List.foldlM_cons, List.foldlM_nil, hnext, Option.pure_def]

/-! ## The statistics -/

theorem Tracks.active {replay : Replay} {ids : List Nat} (h : Tracks replay ids) :
    replay.stats.activeStreamCount = ids.length := by
  have hlength : replay.streams.entries.length = ids.length := by
    have hmap := congrArg List.length h.entries
    rw [List.length_map, List.length_map] at hmap
    exact hmap
  have hactive : ∀ tracked ∈ replay.streams.entries.map Sigma.snd,
      tracked.status = "Active".toList := by
    intro tracked htracked
    obtain ⟨entry, hentry, rfl⟩ := List.mem_map.mp htracked
    have hmem : (entry.1, entry.2.status) ∈
        ids.map fun id => (Nat.toDigits 10 id, "Active".toList) := by
      rw [← h.entries]
      exact List.mem_map_of_mem hentry
    obtain ⟨id, _, heq⟩ := List.mem_map.mp hmem
    exact (Prod.mk.inj heq).2.symm
  show ((replay.streams.entries.map Sigma.snd).filter _).length = ids.length
  rw [List.filter_eq_self.mpr]
  · rw [List.length_map, hlength]
  · intro tracked htracked
    exact decide_eq_true (hactive tracked htracked)

/-! ## The chain -/

theorem announces_of_reaches {host : Host} {history : History} {w : World}
    (hrun : Reaches host history w) : Announces w := by
  refine Reaches.invariant (P := fun _ w => Announces w) ?_ ?_ ?_ hrun
  · intro balances _
    rfl
  · intro history w inv value w' _ _ ih hsucceeds
    by_cases hcreate : ∃ call, inv.call = .create call
    · obtain ⟨call, hcall⟩ := hcreate
      unfold Succeeds at hsucceeds
      rw [hcall] at hsucceeds
      exact ih.execCreate hsucceeds
    · have hcall : ∀ call, inv.call ≠ .create call := not_exists.mp hcreate
      exact ih.of_views (announced_of_succeeds hsucceeds hcall)
        (indexes_of_succeeds hsucceeds hcall).1
  · intro history w inv _ _ ih _
    exact ih

/-- The number of stored streams that are active. -/
noncomputable def activeStreams (w : World) : Nat :=
  {id | ∃ s, w.streams id = some s ∧ s.status = .active}.ncard

theorem activeStreams_eq_iff {host : Host} {history : History} {w : World}
    (hrun : Reaches host history w) :
    w.streamCount = activeStreams w ↔
      ∀ id s, w.streams id = some s → s.status = .active := by
  have hlaw := registryLaw_of_reaches hrun
  have hcard : (Set.Icc 1 w.streamCount).ncard = w.streamCount := by
    rw [Set.ncard_eq_toFinset_card']
    simp
  have hsubset : {id | ∃ s, w.streams id = some s ∧ s.status = .active} ⊆
      Set.Icc 1 w.streamCount := by
    rintro id ⟨s, hs, _⟩
    exact (hlaw.stored_iff id).mp ⟨s, hs⟩
  constructor
  · intro hcount id s hs
    -- as many active streams as numbers in use: every number is that of one
    have hall := Set.eq_of_subset_of_ncard_le hsubset
      (by rw [hcard]; exact hcount.le) (Set.finite_Icc 1 w.streamCount)
    have hmem : id ∈ Set.Icc 1 w.streamCount := (hlaw.stored_iff id).mp ⟨s, hs⟩
    rw [← hall] at hmem
    obtain ⟨s', hs', hactive⟩ := hmem
    rw [hs] at hs'
    cases hs'
    exact hactive
  · intro hall
    have hevery : {id | ∃ s, w.streams id = some s ∧ s.status = .active} =
        Set.Icc 1 w.streamCount := by
      apply hsubset.antisymm
      intro id hid
      obtain ⟨s, hs⟩ := (hlaw.stored_iff id).mpr hid
      exact ⟨s, hs, hall id s hs⟩
    unfold activeStreams
    rw [hevery, hcard]

/-- The statistics of the log are computed, and are those of the chain. -/
def AnalyticsAgree (rendering : Rendering) (w : World) : Prop :=
  ∃ stats, computeStats rendering (eventLog w.events) = some stats ∧
    stats.totalStreams = w.streamCount ∧
    stats.activeStreamCount = activeStreams w

/-- On the log of a run, the service agrees with the chain exactly when every
stored stream is active. -/
theorem analytics_agrees_iff {host : Host} {history : History} {w : World}
    (hrun : Reaches host history w) (rendering : Rendering) :
    AnalyticsAgree rendering w ↔
      ∀ id s, w.streams id = some s → s.status = .active := by
  have hannounces := announces_of_reaches hrun
  have hnodup : (w.events.filterMap createdStream?).Nodup := by
    show (announced w).Nodup
    rw [hannounces, List.nodup_reverse]
    exact List.nodup_range'
  obtain ⟨replay, hreplay, htracks⟩ := replay_of_log rendering w.events hnodup
  have hlength : (w.events.filterMap createdStream?).length = w.streamCount := by
    show (announced w).length = _
    rw [hannounces, List.length_reverse, List.length_range']
  have hstats : computeStats rendering (eventLog w.events) = some replay.stats := by
    unfold computeStats
    rw [hreplay]
    rfl
  have htotal : replay.stats.totalStreams = w.streamCount :=
    htracks.total.trans hlength
  have hactive : replay.stats.activeStreamCount = w.streamCount :=
    htracks.active.trans hlength
  rw [← activeStreams_eq_iff hrun]
  constructor
  · rintro ⟨stats, hcomputed, _, hcount⟩
    rw [hstats] at hcomputed
    cases hcomputed
    rw [← hactive]
    exact hcount
  · intro hcount
    exact ⟨replay.stats, hstats, htotal, hactive.trans hcount⟩

/-- Addresses and byte strings written in a simple way. -/
def plainRendering : Rendering where
  strkey := fun address => 'G' :: Nat.toDigits 10 address.key
  utf8 := fun bytes => Nat.toDigits 10 bytes.toNat

/-- In a run with one stream, its status is that of every stored stream. -/
theorem status_of_only {host : Host} {history : History} {w : World}
    (hrun : Reaches host history w) (hcount : w.streamCount = 1)
    {status : StreamStatus}
    (hstatus : (w.streams 1).map Stream.status = some status) {id : Nat}
    {s : Stream} (hs : w.streams id = some s) : s.status = status := by
  have hid := ((registryLaw_of_reaches hrun).stored_iff id).mp ⟨s, hs⟩
  have hone : id = 1 := by omega
  rw [hone] at hs
  rw [hs] at hstatus
  exact Option.some.inj hstatus

/-- Paused, resumed, topped up and withdrawn from: the stream is active again. -/
theorem analytics_agrees_of_resume :
    ∃ history w, Reaches Sample.host history w ∧ w.streamCount = 1 ∧
      w.events.length = 6 ∧ AnalyticsAgree plainRendering w := by
  have hrun := Sample.play_reaches [Sample.openStream 10 1000 10 0,
    Sample.manage 20 (.pauseStream Sample.employer),
    Sample.manage 30 (.resumeStream Sample.employer),
    Sample.manage 40 (.topUp Sample.employer 500),
    Sample.invoke 50 Sample.employee (.onStream 1 (.withdraw Sample.employee))]
    (by decide)
  refine ⟨_, _, hrun, by decide, by decide,
    (analytics_agrees_iff hrun plainRendering).mpr ?_⟩
  intro id s hs
  exact status_of_only hrun (by decide) (by decide) hs

/-- A paused stream is still counted as active. -/
theorem analytics_counts_paused :
    ∃ history w, Reaches Sample.host history w ∧ w.streamCount = 1 ∧
      computeStats plainRendering (eventLog w.events) = some ⟨1, 10, 0, 1⟩ ∧
      activeStreams w = 0 ∧ ¬ AnalyticsAgree plainRendering w := by
  obtain ⟨history, w, hrun, hcount, hstatus, hevents⟩ : ∃ history w,
      Reaches Sample.host history w ∧ w.streamCount = 1 ∧
        (w.streams 1).map Stream.status = some .paused ∧
        w.events = [.streamPaused 1 Sample.employer Sample.employee 20,
          .streamCreated 1 Sample.employer Sample.employee 10 0] := by
    have hrun := Sample.play_reaches [Sample.openStream 10 1000 10 0,
      Sample.manage 20 (.pauseStream Sample.employer)] (by decide)
    exact ⟨_, _, hrun, by decide, by decide, by decide⟩
  have hstats : computeStats plainRendering (eventLog w.events) =
      some ⟨1, 10, 0, 1⟩ := by
    unfold computeStats
    rw [walkPages_eq_foldlM, hevents]
    decide
  have hnone : activeStreams w = 0 := by
    have hempty : {id | ∃ s, w.streams id = some s ∧ s.status = .active} = ∅ := by
      ext id
      simp only [Set.mem_ofPred_eq, Set.mem_empty_iff_false, iff_false]
      rintro ⟨s, hs, hactive⟩
      have hpaused := status_of_only hrun hcount hstatus hs
      rw [hactive] at hpaused
      cases hpaused
    unfold activeStreams
    rw [hempty, Set.ncard_empty]
  refine ⟨history, w, hrun, hcount, hstats, hnone, ?_⟩
  rintro ⟨stats, hcomputed, _, hactive⟩
  rw [hstats] at hcomputed
  cases hcomputed
  rw [hnone] at hactive
  cases hactive

end Properties
end Paystream
