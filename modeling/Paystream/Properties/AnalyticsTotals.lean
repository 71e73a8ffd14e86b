import Paystream.Properties.Analytics
import Paystream.Properties.EventLog

/-!
# What the analytics service adds up

The amounts that `computeStats` reports, in terms of the tokens that moved
(`analytics_totals`).  As withdrawn it counts every salary but the ones that a
cancellation or a reclaim paid out.  What it calls locked is no deposit: of each
stream it takes the rate at its creation and the top-ups, less what the service has
counted as withdrawn, and nothing where that is negative.
-/

namespace Paystream
namespace Properties

open Library
open Contract
open Semantics
open Services
open Services.Analytics

/-! ## Amounts in the log -/

def rateAs : Event → Int
  | .streamCreated _ _ _ rate _ => rate
  | _ => 0

def topUpAs : Event → Int
  | .toppedUp _ _ amount => amount
  | _ => 0

def withdrawnAs : Event → Int
  | .withdrawn _ _ amount => amount
  | _ => 0

/-- What the settlement of a stream paid to the employee. -/
def settledAs : Event → Int
  | .streamCancelled _ _ _ _ employeePayout => employeePayout
  | _ => 0

/-- The sum over the events about a stream. -/
def bookedFor (id : Nat) (amount : Event → Int) (events : List Event) : Int :=
  (events.map fun event =>
    if Event.subject event = some id then amount event else 0).sum

@[simp] theorem bookedFor_nil (id : Nat) (amount : Event → Int) :
    bookedFor id amount [] = 0 := rfl

@[simp] theorem bookedFor_cons (id : Nat) (amount : Event → Int) (event : Event)
    (events : List Event) : bookedFor id amount (event :: events) =
      (if Event.subject event = some id then amount event else 0) +
        bookedFor id amount events := by
  simp [bookedFor]

theorem bookedFor_topUpAs (id : Nat) (events : List Event) :
    bookedFor id topUpAs events = reportedFor (.topUp id) events := by
  induction events with
  | nil => rfl
  | cons event events ih =>
      rw [bookedFor_cons, reported_cons, ih]
      congr 1
      cases event <;> simp [topUpAs, reportedAs, Event.subject, eq_comm]

theorem bookedFor_salary (id : Nat) (events : List Event) :
    bookedFor id withdrawnAs events + bookedFor id settledAs events =
      reportedFor (.salary id) events := by
  induction events with
  | nil => rfl
  | cons event events ih =>
      rw [bookedFor_cons, bookedFor_cons, reported_cons, ← ih]
      have hevent : (if Event.subject event = some id then withdrawnAs event else 0) +
          (if Event.subject event = some id then settledAs event else 0) =
            reportedAs (.salary id) event := by
        cases event <;> simp [withdrawnAs, settledAs, reportedAs, Event.subject, eq_comm]
      rw [← hevent]
      ring

/-! ## Streams that the log knows -/

def createdIn (events : List Event) : List Nat :=
  events.filterMap createdStream?

theorem createdIn_cons (event : Event) (events : List Event) :
    createdIn (event :: events) =
      (createdStream? event).toList ++ createdIn events := by
  cases hcreated : createdStream? event with
  | none => exact List.filterMap_cons_none hcreated
  | some id => exact List.filterMap_cons_some hcreated

theorem created_of_viewAt {id : Nat} {view : PublicView} {events : List Event}
    (h : publicLog.viewAt id events = some view) : id ∈ createdIn events := by
  induction events generalizing view with
  | nil => cases h
  | cons event events ih =>
      rw [createdIn_cons, List.mem_append]
      by_cases hcreated : createdStream? event = some id
      · exact Or.inl (by simp [hcreated])
      · right
        -- no other event makes an entity
        cases hview : publicLog.viewAt id events with
        | some earlier => exact ih hview
        | none =>
            simp only [EventSource.viewAt, hview] at h
            cases event with
            | streamCreated other employer employee rate feeBps =>
                have hother : other ≠ id := fun hsame => hcreated (congrArg some hsame)
                simp [publicLog, hother] at h
            | _ => simp [publicLog] at h

/-- The subject of an event is a stream of the log, or created by it. -/
theorem created_of_subject {id : Nat} {event : Event} {events : List Event}
    (hfits : publicLog.fits (fun id => publicLog.viewAt id events) event)
    (hsubject : Event.subject event = some id) : id ∈ createdIn (event :: events) := by
  rw [createdIn_cons, List.mem_append]
  cases event with
  | streamCreated other employer employee rate feeBps =>
      cases hsubject
      exact Or.inl (List.mem_singleton_self _)
  | _ =>
      obtain ⟨view, hview, _⟩ := hfits id hsubject
      exact Or.inr (created_of_viewAt hview)

theorem bookedFor_eq_zero {id : Nat} {events : List Event}
    (hconsistent : publicLog.Consistent events) (hid : id ∉ createdIn events)
    (amount : Event → Int) : bookedFor id amount events = 0 := by
  induction events with
  | nil => rfl
  | cons event events ih =>
      have hsubject : Event.subject event ≠ some id :=
        fun hsubject => hid (created_of_subject hconsistent.1 hsubject)
      rw [createdIn_cons, List.mem_append, not_or] at hid
      rw [bookedFor_cons, if_neg hsubject, zero_add, ih hconsistent.2 hid.2]

/-! ## The map of the replay -/

/-- The entries of the map, by the ids of the streams. -/
def mapEntries (look : Nat → Tracked) (ids : List Nat) :
    List (Sigma fun _ : Text => Tracked) :=
  ids.map fun id => ⟨Nat.toDigits 10 id, look id⟩

theorem dlookup_mapEntries (look : Nat → Tracked) {ids : List Nat} {id : Nat}
    (hid : id ∈ ids) :
    (mapEntries look ids).dlookup (Nat.toDigits 10 id) = some (look id) := by
  induction ids with
  | nil => cases hid
  | cons first ids ih =>
      by_cases hfirst : id = first
      · subst hfirst
        exact List.dlookup_cons_eq _ _ _
      · have hne : Nat.toDigits 10 id ≠ Nat.toDigits 10 first :=
          fun heq => hfirst (toDigits_injective heq)
        exact (List.dlookup_cons_ne _ _ hne).trans
          (ih ((List.mem_cons.mp hid).resolve_left hfirst))

theorem mapEntries_congr {look look' : Nat → Tracked} {ids : List Nat}
    (h : ∀ id ∈ ids, look id = look' id) : mapEntries look ids = mapEntries look' ids :=
  List.map_congr_left fun id hid => by rw [h id hid]

theorem kreplace_cons_self {K V : Type} [DecidableEq K] (key : K) (old new : V)
    (rest : List (Sigma fun _ : K => V)) :
    (⟨key, old⟩ :: rest).kreplace key new = ⟨key, new⟩ :: rest :=
  List.lookmap_cons_some _ rest (if_pos rfl)

theorem kreplace_cons_ne {K V : Type} [DecidableEq K] {key first : K}
    (hne : key ≠ first) (old new : V) (rest : List (Sigma fun _ : K => V)) :
    (⟨first, old⟩ :: rest).kreplace key new = ⟨first, old⟩ :: rest.kreplace key new :=
  List.lookmap_cons_none _ rest (if_neg hne)

theorem kreplace_mapEntries (look : Nat → Tracked) {ids : List Nat} (hnodup : ids.Nodup)
    (id : Nat) (tracked : Tracked) :
    (mapEntries look ids).kreplace (Nat.toDigits 10 id) tracked =
      mapEntries (Function.update look id tracked) ids := by
  induction ids with
  | nil => rfl
  | cons first ids ih =>
      obtain ⟨hfirst, hrest⟩ := List.nodup_cons.mp hnodup
      by_cases hid : id = first
      · subst hid
        have hothers : mapEntries look ids =
            mapEntries (Function.update look id tracked) ids := by
          refine mapEntries_congr fun other hother => ?_
          rw [Function.update_of_ne]
          rintro rfl
          exact hfirst hother
        refine (kreplace_cons_self _ _ _ _).trans ?_
        show _ :: mapEntries look ids = ⟨_, Function.update look id tracked id⟩ :: _
        rw [Function.update_self, hothers]
        rfl
      · have hne : Nat.toDigits 10 id ≠ Nat.toDigits 10 first :=
          fun heq => hid (toDigits_injective heq)
        refine (kreplace_cons_ne hne _ _ _).trans ?_
        show _ :: (mapEntries look ids).kreplace _ _ =
          ⟨_, Function.update look id tracked first⟩ :: _
        rw [Function.update_of_ne (Ne.symm hid), ih hrest]
        rfl

theorem change_mapEntries {replay : Replay} {look : Nat → Tracked} {ids : List Nat}
    (hentries : replay.streams.entries = mapEntries look ids) (hnodup : ids.Nodup)
    {id : Nat} (hid : id ∈ ids) (f : Tracked → Tracked) :
    (replay.change (Nat.toDigits 10 id) f).streams.entries =
      mapEntries (Function.update look id (f (look id))) ids := by
  have hfound : replay.streams.lookup (Nat.toDigits 10 id) = some (look id) := by
    unfold AList.lookup
    rw [hentries]
    exact dlookup_mapEntries look hid
  unfold Replay.change
  rw [hfound]
  show replay.streams.entries.kreplace _ _ = _
  rw [hentries, kreplace_mapEntries look hnodup]

/-! ## The replay -/

/-- What is tracked of a stream after the events. -/
def trackedFrom (events : List Event) (id : Nat) : Tracked where
  deposit := bookedFor id rateAs events + bookedFor id topUpAs events
  withdrawn := bookedFor id withdrawnAs events
  status := "Active".toList

theorem trackedFrom_other {event : Event} {id : Nat}
    (h : Event.subject event ≠ some id) (events : List Event) :
    trackedFrom (event :: events) id = trackedFrom events id := by
  simp [trackedFrom, h]

theorem trackedFrom_about {event : Event} {id : Nat}
    (h : Event.subject event = some id) (events : List Event) :
    trackedFrom (event :: events) id =
      ⟨(trackedFrom events id).deposit + (rateAs event + topUpAs event),
        (trackedFrom events id).withdrawn + withdrawnAs event,
        "Active".toList⟩ := by
  simp only [trackedFrom, bookedFor_cons, if_pos h, Tracked.mk.injEq, and_true]
  constructor <;> ring

/-- The replay has read the events. -/
structure Booked (replay : Replay) (events : List Event) : Prop where
  total : replay.totalStreams = (createdIn events).length
  withdrawn : replay.totalWithdrawn =
    ∑ id ∈ (createdIn events).toFinset, bookedFor id withdrawnAs events
  entries : replay.streams.entries = mapEntries (trackedFrom events) (createdIn events)

theorem change_totals (replay : Replay) (streamId : Text) (f : Tracked → Tracked) :
    (replay.change streamId f).totalStreams = replay.totalStreams ∧
      (replay.change streamId f).totalWithdrawn = replay.totalWithdrawn := by
  unfold Replay.change
  split
  · exact ⟨rfl, rfl⟩
  · exact ⟨rfl, rfl⟩

/-- The sum over the streams grows by what was withdrawn from one of them. -/
theorem sum_bookedFor_about {ids : Finset Nat} {event : Event} {id : Nat}
    (hsubject : Event.subject event = some id) (hid : id ∈ ids) (amount : Event → Int)
    (events : List Event) :
    ∑ other ∈ ids, bookedFor other amount (event :: events) =
      amount event + ∑ other ∈ ids, bookedFor other amount events := by
  have hone : ∀ other, (Event.subject event = some other) ↔ id = other := by
    intro other
    rw [hsubject, Option.some.injEq]
  simp only [bookedFor_cons, hone, Finset.sum_add_distrib, Finset.sum_ite_eq, if_pos hid]

theorem sum_bookedFor_zero {ids : Finset Nat} {event : Event} {amount : Event → Int}
    (hzero : amount event = 0) (events : List Event) :
    ∑ other ∈ ids, bookedFor other amount (event :: events) =
      ∑ other ∈ ids, bookedFor other amount events := by
  simp [hzero]

/-- A record about a stream of the map, which changes what is tracked of it. -/
theorem Booked.change {replay : Replay} {events : List Event} {event : Event}
    {id : Nat} {f : Tracked → Tracked} (h : Booked replay events)
    (hnodup : (createdIn events).Nodup) (hcreated : createdStream? event = none)
    (hsubject : Event.subject event = some id) (hid : id ∈ createdIn events)
    (hf : f (trackedFrom events id) = trackedFrom (event :: events) id) :
    Booked ({ replay with
      totalWithdrawn := replay.totalWithdrawn + withdrawnAs event }.change
        (Nat.toDigits 10 id) f) (event :: events) := by
  have hsame : createdIn (event :: events) = createdIn events := by
    rw [createdIn_cons, hcreated]
    rfl
  have htotals := change_totals { replay with
    totalWithdrawn := replay.totalWithdrawn + withdrawnAs event } (Nat.toDigits 10 id) f
  refine ⟨?_, ?_, ?_⟩
  · rw [htotals.1, hsame]
    exact h.total
  · rw [htotals.2, hsame, sum_bookedFor_about hsubject (List.mem_toFinset.mpr hid)]
    show replay.totalWithdrawn + _ = _
    rw [h.withdrawn, add_comm]
  · rw [hsame]
    have hentries : { replay with
        totalWithdrawn := replay.totalWithdrawn + withdrawnAs event }.streams.entries =
          mapEntries (trackedFrom events) (createdIn events) := h.entries
    refine (change_mapEntries hentries hnodup hid f).trans (mapEntries_congr fun other _ => ?_)
    by_cases hother : other = id
    · subst hother
      rw [Function.update_self, hf]
    · have hnot : Event.subject event ≠ some other := by
        rw [hsubject]
        exact fun heq => hother (Option.some.inj heq).symm
      rw [Function.update_of_ne hother, trackedFrom_other hnot]

/-- A record that is passed over. -/
theorem Booked.pass {replay : Replay} {events : List Event} {event : Event}
    (h : Booked replay events) (hcreated : createdStream? event = none)
    (hrate : rateAs event = 0) (htopUp : topUpAs event = 0)
    (hwithdrawn : withdrawnAs event = 0) : Booked replay (event :: events) := by
  have hsame : createdIn (event :: events) = createdIn events := by
    rw [createdIn_cons, hcreated]
    rfl
  have htracked : trackedFrom (event :: events) = trackedFrom events := by
    funext id
    simp [trackedFrom, hrate, htopUp, hwithdrawn]
  refine ⟨?_, ?_, ?_⟩
  · rw [hsame]
    exact h.total
  · rw [hsame, sum_bookedFor_zero hwithdrawn]
    exact h.withdrawn
  · rw [hsame, htracked]
    exact h.entries

theorem Booked.created {replay : Replay} {events : List Event} (h : Booked replay events)
    {id : Nat} {employer employee : Address} {rate : Int} {feeBps : Nat}
    (hconsistent : publicLog.Consistent events) (hid : id ∉ createdIn events) :
    Booked { replay with
      totalStreams := replay.totalStreams + 1
      streams := replay.streams.insert (Nat.toDigits 10 id)
        ⟨rate, 0, "Active".toList⟩ }
      (.streamCreated id employer employee rate feeBps :: events) := by
  have hids : createdIn (.streamCreated id employer employee rate feeBps :: events) =
      id :: createdIn events := rfl
  have hfresh : trackedFrom (.streamCreated id employer employee rate feeBps :: events)
      id = ⟨rate, 0, "Active".toList⟩ := by
    rw [trackedFrom_about rfl]
    simp [trackedFrom, bookedFor_eq_zero hconsistent hid, rateAs, topUpAs, withdrawnAs]
  refine ⟨?_, ?_, ?_⟩
  · rw [hids, List.length_cons, ← h.total]
  · rw [hids, List.toFinset_cons, Finset.sum_insert (by simpa using hid),
      sum_bookedFor_zero rfl, ← h.withdrawn, bookedFor_cons,
      bookedFor_eq_zero hconsistent hid]
    simp [withdrawnAs]
  · have habsent : Nat.toDigits 10 id ∉ replay.streams := by
      rw [AList.mem_keys]
      unfold AList.keys
      rw [h.entries]
      simp only [mapEntries, List.keys, List.map_map, List.mem_map, Function.comp_apply,
        not_exists, not_and]
      rintro other hother heq
      rw [toDigits_injective heq] at hother
      exact hid hother
    show (AList.insert _ _ _).entries = _
    rw [AList.entries_insert_of_notMem habsent, h.entries, hids]
    show _ = ⟨_, trackedFrom _ id⟩ :: mapEntries _ (createdIn events)
    rw [hfresh]
    congr 1
    refine mapEntries_congr fun other hother => (trackedFrom_other ?_ events).symm
    intro hsubject
    cases hsubject
    exact hid hother

theorem Booked.next {replay : Replay} {events : List Event} {event : Event}
    (h : Booked replay events) (rendering : Rendering)
    (hnodup : (createdIn (event :: events)).Nodup)
    (hconsistent : publicLog.Consistent (event :: events)) :
    ∃ next, readRecord rendering replay (.of (.ofContract event)) = some next ∧
      Booked next (event :: events) := by
  cases event with
  | streamCreated id employer employee rate feeBps =>
      exact ⟨_, readRecord_created rfl rfl (bigInt_ofI128 rate),
        h.created hconsistent.2 (List.nodup_cons.mp hnodup).1⟩
  | withdrawn id employee amount =>
      refine ⟨_, readRecord_withdraw rfl rfl (bigInt_ofI128 amount), ?_⟩
      refine @Booked.change _ _ (.withdrawn id employee amount) _ _ h hnodup rfl rfl
        (created_of_subject hconsistent.1 rfl) ?_
      rw [trackedFrom_about rfl]
      simp [trackedFrom, rateAs, topUpAs, withdrawnAs]
  | toppedUp id employer amount =>
      refine ⟨_, readRecord_topup rfl rfl (bigInt_ofI128 amount), ?_⟩
      have hwithdrawn : replay = { replay with
          totalWithdrawn := replay.totalWithdrawn +
            withdrawnAs (.toppedUp id employer amount) } := by
        simp [withdrawnAs]
      rw [hwithdrawn]
      refine h.change hnodup rfl rfl (created_of_subject hconsistent.1 rfl) ?_
      rw [trackedFrom_about rfl]
      simp [trackedFrom, rateAs, topUpAs, withdrawnAs]
  | _ =>
      exact ⟨replay, readRecord_other (by simp [contractEventName]),
        h.pass rfl rfl rfl rfl⟩

theorem booked_of_log (rendering : Rendering) {events : List Event}
    (hnodup : (createdIn events).Nodup) (hconsistent : publicLog.Consistent events) :
    ∃ replay, walkPages rendering .start (eventLog events) = some replay ∧
      Booked replay events := by
  rw [walkPages_eq_foldlM]
  induction events with
  | nil => exact ⟨.start, rfl, rfl, rfl, rfl⟩
  | cons event events ih =>
      have hearlier : (createdIn events).Nodup := by
        rw [createdIn_cons] at hnodup
        exact (List.nodup_append.mp hnodup).2.1
      obtain ⟨replay, hreplay, hbooked⟩ := ih hearlier hconsistent.2
      obtain ⟨next, hnext, hbookedNext⟩ :=
        hbooked.next rendering hnodup hconsistent
      refine ⟨next, ?_, hbookedNext⟩
      unfold eventLog at hreplay ⊢
      rw [List.reverse_cons, List.map_append, List.foldlM_append, hreplay]
      simp only [Option.bind_eq_bind, Option.bind_some, List.map_cons, List.map_nil,
        List.foldlM_cons, List.foldlM_nil, hnext, Option.pure_def]

/-! ## The statistics -/

theorem Booked.locked {replay : Replay} {events : List Event}
    (h : Booked replay events) (hnodup : (createdIn events).Nodup) :
    replay.stats.totalValueLocked =
      ∑ id ∈ (createdIn events).toFinset, (trackedFrom events id).locked := by
  have hvalues : replay.streams.entries.map Sigma.snd =
      (createdIn events).map (trackedFrom events) := by
    rw [h.entries, mapEntries, List.map_map]
    rfl
  show ((List.filter _ (replay.streams.entries.map Sigma.snd)).map _).sum = _
  rw [hvalues, List.filter_eq_self.mpr, List.map_map, List.sum_toFinset _ hnodup]
  · rfl
  · intro tracked hmem
    obtain ⟨id, _, rfl⟩ := List.mem_map.mp hmem
    exact decide_eq_true rfl

/-- In every state of every run the statistics are computed, and these are the
amounts in them. -/
theorem analytics_totals {host : Host} {history : History} {w : World}
    (hrun : Reaches host history w) (rendering : Rendering) :
    ∃ stats, computeStats rendering (eventLog w.events) = some stats ∧
      stats.totalWithdrawn + ∑ id ∈ Finset.Icc 1 w.streamCount,
          bookedFor id settledAs w.events =
        ∑ id ∈ Finset.Icc 1 w.streamCount, movedFor (.salary id) w.transfers ∧
      stats.totalValueLocked = ∑ id ∈ Finset.Icc 1 w.streamCount,
        max 0 (bookedFor id rateAs w.events + movedFor (.topUp id) w.transfers -
          (movedFor (.salary id) w.transfers - bookedFor id settledAs w.events)) := by
  have hcreated : createdIn w.events = (List.range' 1 w.streamCount).reverse :=
    announces_of_reaches hrun
  have hnodup : (createdIn w.events).Nodup := by
    rw [hcreated, List.nodup_reverse]
    exact List.nodup_range'
  have hids : (createdIn w.events).toFinset = Finset.Icc 1 w.streamCount := by
    ext id
    simp [hcreated, List.mem_range'_1]
    omega
  obtain ⟨replay, hreplay, hbooked⟩ :=
    booked_of_log rendering hnodup (tells_of_reaches hrun).consistent
  have hsalary : ∀ id, bookedFor id withdrawnAs w.events +
      bookedFor id settledAs w.events = movedFor (.salary id) w.transfers :=
    fun id => (bookedFor_salary id w.events).trans (reportedFor_of_reaches hrun rfl)
  have htopUp : ∀ id, bookedFor id topUpAs w.events = movedFor (.topUp id) w.transfers :=
    fun id => (bookedFor_topUpAs id w.events).trans (reportedFor_of_reaches hrun rfl)
  refine ⟨replay.stats, ?_, ?_, ?_⟩
  · unfold computeStats
    rw [hreplay]
    rfl
  · show replay.totalWithdrawn + _ = _
    rw [hbooked.withdrawn, hids, ← Finset.sum_add_distrib]
    exact Finset.sum_congr rfl fun id _ => hsalary id
  · rw [hbooked.locked hnodup, hids]
    refine Finset.sum_congr rfl fun id _ => ?_
    have hwithdrawn := hsalary id
    simp only [Tracked.locked, trackedFrom, htopUp id]
    congr 2
    omega

/-- Five hundred withdrawn; the two hundred that the cancellation paid out are not
counted. -/
theorem analytics_totals_of_cancelled :
    ∃ history w stats, Reaches Sample.host history w ∧
      computeStats plainRendering (eventLog w.events) = some stats ∧
      stats.totalWithdrawn = 500 ∧ movedFor (.salary 1) w.transfers = 700 := by
  have hrun := Sample.play_reaches [Sample.openStream 10 1000 10 0,
    Sample.invoke 60 Sample.employee (.onStream 1 (.withdraw Sample.employee)),
    Sample.manage 80 (.cancelStream Sample.employer)] (by decide)
  obtain ⟨stats, hstats, hwithdrawn, _⟩ := analytics_totals hrun plainRendering
  refine ⟨_, _, stats, hrun, hstats, ?_, by decide⟩
  have hsettled : stats.totalWithdrawn + 200 = 700 := hwithdrawn
  omega

end Properties
end Paystream
