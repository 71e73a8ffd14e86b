import Paystream.Library.Unwinding
import Paystream.Services.Templates

/-!
# Templates that are not shared stay private

An owner sees its own templates, those that are shared, and the default ones.
Of owners who share nothing the others learn nothing: every answer they get is the
answer of a store to which these owners never spoke
(`quiet_owners_unnoticed`).  This covers lists, lookups by id, and the answers to
changes that were turned down.

The part of the store that the others can see is again a store (`openPart`), and the
handlers answer them from this part alone.
-/

namespace Paystream
namespace Properties

open Library
open Services
open Services.Templates

/-! ## What a request brings -/

/-- The `shared` mark that a request sets counts as true. -/
def shares (req : Templates.Request) : Bool :=
  match req.operation with
  | .create _ _ shared _ _ => shared.any truthy
  | .update _ patch _ => patch.shared.any truthy
  | .share _ shared _ => truthy shared
  | _ => false

/-- The id that a request has drawn. -/
def drawnId (req : Templates.Request) : Option Text :=
  match req.operation with
  | .create _ _ _ id _ => some id
  | .fromStream _ _ id _ => some id
  | _ => none

/-- The requests draw ids that are not in the store, none of them twice. -/
def DrawsFresh (requests : List Templates.Request) (s : Templates.State) : Prop :=
  (requests.filterMap drawnId).Nodup ∧
    ∀ id ∈ requests.filterMap drawnId, OrderedMap.get s id = none

section Privacy

variable (quiet : Text → Bool)

/-- The entry is not a private template of a quiet owner. -/
def inOpenPart (entry : Text × Template) : Bool :=
  !quiet entry.2.ownerId || entry.2.isDefault

def openPart (s : Templates.State) : Templates.State := s.restrict (inOpenPart quiet)

/-- The templates of quiet owners are not shared, the default ones apart. -/
def PrivateUnshared (s : Templates.State) : Prop :=
  ∀ id t, OrderedMap.get s id = some t → inOpenPart quiet (id, t) = false →
    truthy t.shared = false

variable {quiet}

/-! ## The service on the open part -/

theorem not_visible_of_closed {s : Templates.State} (hprivate : PrivateUnshared quiet s)
    {id ownerId : Text} (howner : quiet ownerId = false) {t : Template}
    (ht : OrderedMap.get s id = some t) (hclosed : inOpenPart quiet (id, t) = false) :
    t.visibleTo ownerId = false := by
  have hunshared := hprivate id t ht hclosed
  have hne : t.ownerId ≠ ownerId := by
    rintro rfl
    simp [inOpenPart, howner] at hclosed
  simp [Template.visibleTo, hne, hunshared]

theorem get_openPart {s : Templates.State} (hprivate : PrivateUnshared quiet s)
    (id : Text) {ownerId : Text} (howner : quiet ownerId = false) :
    Templates.get (openPart quiet s) id ownerId = Templates.get s id ownerId := by
  unfold Templates.get openPart
  rw [OrderedMap.get_restrict]
  cases ht : OrderedMap.get s id with
  | none => rfl
  | some t =>
      rw [Option.filter_some]
      cases hopen : inOpenPart quiet (id, t) with
      | true => rfl
      | false =>
          have hhidden := not_visible_of_closed hprivate howner ht hopen
          rw [if_neg (by decide), Option.filter_some, if_neg (by simp [hhidden])]
          rfl

theorem list_openPart {s : Templates.State} (hprivate : PrivateUnshared quiet s)
    {ownerId : Text} (howner : quiet ownerId = false) :
    Templates.list (openPart quiet s) ownerId = Templates.list s ownerId := by
  unfold Templates.list openPart
  show ((s.entries.filter (inOpenPart quiet)).map Prod.snd).filter _ = _
  rw [List.filter_map, List.filter_map, List.filter_filter]
  congr 1
  apply List.filter_congr
  rintro ⟨id, t⟩ hmem
  cases hopen : inOpenPart quiet (id, t) with
  | true => exact Bool.and_true _
  | false =>
      have hhidden := not_visible_of_closed hprivate howner
        (OrderedMap.get_of_mem hmem) hopen
      simp [hhidden]

theorem editable_openPart (s : Templates.State) (id : Text) {ownerId : Text}
    (howner : quiet ownerId = false) :
    editable (openPart quiet s) id ownerId = editable s id ownerId := by
  unfold editable openPart
  rw [OrderedMap.get_restrict]
  cases ht : OrderedMap.get s id with
  | none => rfl
  | some t =>
      rw [Option.filter_some]
      split
      · rfl
      · rename_i hclosed
        have hne : t.ownerId ≠ ownerId := by
          rintro rfl
          simp [inOpenPart, howner] at hclosed
        rw [Option.filter_some, if_neg (by simp [hne])]
        rfl

theorem create_openPart {s : Templates.State} {id : Text}
    (hfresh : OrderedMap.get s id = none) {ownerId : Text}
    (howner : quiet ownerId = false) (name params : Json) (shared : Option Json)
    (now : Nat) :
    create (openPart quiet s) ownerId name params shared id now =
      (openPart quiet (create s ownerId name params shared id now).1,
        (create s ownerId name params shared id now).2) := by
  unfold create openPart
  rw [OrderedMap.restrict_set_of_kept hfresh (by simp [inOpenPart, howner])]

theorem update_openPart (s : Templates.State) (id : Text) {ownerId : Text}
    (howner : quiet ownerId = false) (patch : Patch) (now : Nat) :
    update (openPart quiet s) id ownerId patch now =
      (openPart quiet (update s id ownerId patch now).1,
        (update s id ownerId patch now).2) := by
  unfold update
  rw [editable_openPart s id howner]
  cases editable s id ownerId with
  | none => rfl
  | some t =>
      have hmodify := @OrderedMap.restrict_modify_of_same _ _ _ s (inOpenPart quiet) id
        (fun t => t.patched patch now) fun _ _ => rfl
      exact congrArg (fun part => (part, _)) hmodify.symm

theorem remove_openPart (s : Templates.State) (id : Text) {ownerId : Text}
    (howner : quiet ownerId = false) :
    remove (openPart quiet s) id ownerId =
      (openPart quiet (remove s id ownerId).1, (remove s id ownerId).2) := by
  unfold remove
  rw [editable_openPart s id howner]
  cases editable s id ownerId with
  | none => rfl
  | some t =>
      exact congrArg (fun part => (part, _)) (OrderedMap.restrict_erase s _ id).symm

/-- An owner who is not quiet is answered from the open part, and works on it. -/
theorem handle_openPart {s : Templates.State} (hprivate : PrivateUnshared quiet s)
    {req : Templates.Request}
    (hfresh : ∀ id, drawnId req = some id → OrderedMap.get s id = none)
    (howner : quiet req.ownerId = false) :
    handle (openPart quiet s) req =
      (openPart quiet (handle s req).1, (handle s req).2) := by
  obtain ⟨ownerId, operation⟩ := req
  cases operation with
  | create name params shared id now =>
      simp only [handle, create_openPart (hfresh id rfl) howner]
  | fromStream name params id now =>
      simp only [handle, createFromStream, create_openPart (hfresh id rfl) howner]
  | list => simp only [handle, list_openPart hprivate howner]
  | get id => simp only [handle, get_openPart hprivate id howner]
  | update id patch now => simp only [handle, update_openPart s id howner]
  | delete id => simp only [handle, remove_openPart s id howner]
  | share id shared now => simp only [handle, share, update_openPart s id howner]

/-! ## Quiet owners -/

/-- The template that an owner may change is its own, and no default one. -/
theorem editable_cases {s : Templates.State} {id ownerId : Text} {t : Template}
    (h : editable s id ownerId = some t) :
    OrderedMap.get s id = some t ∧ t.ownerId = ownerId ∧ t.isDefault = false := by
  obtain ⟨hget, hallowed⟩ := Option.filter_eq_some_iff.mp h
  simpa using And.intro hget hallowed

theorem closed_of_editable {s : Templates.State} {id ownerId : Text} {t : Template}
    (h : editable s id ownerId = some t) (howner : quiet ownerId = true) :
    ∀ found, OrderedMap.get s id = some found → inOpenPart quiet (id, found) = false := by
  obtain ⟨hget, rfl, hdefault⟩ := editable_cases h
  intro found hfound
  obtain rfl := Option.some.inj (hget.symm.trans hfound)
  simp [inOpenPart, howner, hdefault]

theorem openPart_update_of_quiet (s : Templates.State) (id : Text) {ownerId : Text}
    (howner : quiet ownerId = true) (patch : Patch) (now : Nat) :
    openPart quiet (update s id ownerId patch now).1 = openPart quiet s := by
  unfold update
  cases h : editable s id ownerId with
  | none => rfl
  | some t =>
      refine OrderedMap.restrict_modify_of_hidden fun found hfound => ?_
      have hclosed := closed_of_editable h howner found hfound
      exact ⟨hclosed, hclosed⟩

/-- A quiet owner does nothing to the open part. -/
theorem openPart_of_quiet {s : Templates.State} {req : Templates.Request}
    (hfresh : ∀ id, drawnId req = some id → OrderedMap.get s id = none)
    (howner : quiet req.ownerId = true) :
    openPart quiet (handle s req).1 = openPart quiet s := by
  obtain ⟨ownerId, operation⟩ := req
  cases operation with
  | create name params shared id now =>
      exact OrderedMap.restrict_set_of_hidden (hfresh id rfl)
        (by simp [inOpenPart, show quiet ownerId = true from howner])
  | fromStream name params id now =>
      exact OrderedMap.restrict_set_of_hidden (hfresh id rfl)
        (by simp [inOpenPart, show quiet ownerId = true from howner])
  | list => rfl
  | get id => rfl
  | update id patch now => exact openPart_update_of_quiet s id howner patch now
  | delete id =>
      show openPart quiet (remove s id ownerId).1 = openPart quiet s
      unfold remove
      cases h : editable s id ownerId with
      | none => rfl
      | some t => exact OrderedMap.restrict_erase_of_hidden (closed_of_editable h howner)
  | share id shared now => exact openPart_update_of_quiet s id howner _ now

/-! ## What is stored after a request -/

/-- Where a template found after a request comes from. -/
inductive Origin (s : Templates.State) (req : Templates.Request) (id : Text)
    (t : Template) : Prop
  | kept (h : OrderedMap.get s id = some t)
  | changed (old : Template) (patch : Patch) (now : Nat)
      (hold : editable s id req.ownerId = some old) (ht : t = old.patched patch now)
      (hshares : patch.shared.any truthy = true → shares req = true)
  | drawn (hdrawn : drawnId req = some id) (howner : t.ownerId = req.ownerId)
      (hshares : truthy t.shared = true → shares req = true)

theorem origin_of_update {s : Templates.State} {req : Templates.Request} {id id' : Text}
    {patch : Patch} {now : Nat} {t : Template}
    (hshares : patch.shared.any truthy = true → shares req = true)
    (h : OrderedMap.get (update s id req.ownerId patch now).1 id' = some t) :
    Origin s req id' t := by
  unfold update at h
  cases hold : editable s id req.ownerId with
  | none =>
      rw [hold] at h
      exact .kept h
  | some old =>
      simp only [hold] at h
      rw [OrderedMap.get_modify_of_get (editable_cases hold).1,
        Function.update_apply] at h
      split at h
      · rename_i hid
        subst hid
        exact .changed old patch now hold (Option.some.inj h).symm hshares
      · exact .kept h

theorem origin_of_create {s : Templates.State} {req : Templates.Request} {id id' : Text}
    {name params : Json} {shared : Option Json} {now : Nat} {t : Template}
    (hdrawn : drawnId req = some id)
    (hshares : truthy (shared.getD (.bool false)) = true → shares req = true)
    (h : OrderedMap.get (create s req.ownerId name params shared id now).1 id' = some t) :
    Origin s req id' t := by
  unfold create at h
  rw [OrderedMap.get_set, Function.update_apply] at h
  split at h
  · rename_i hid
    subst hid
    obtain rfl := Option.some.inj h
    exact .drawn hdrawn rfl hshares
  · exact .kept h

theorem origin_of_handle {s : Templates.State} {req : Templates.Request} {id : Text}
    {t : Template} (h : OrderedMap.get (handle s req).1 id = some t) :
    Origin s req id t := by
  obtain ⟨ownerId, operation⟩ := req
  cases operation with
  | create name params shared id' now =>
      refine origin_of_create rfl (fun hshared => ?_) h
      cases shared with
      | none => cases hshared
      | some shared => exact hshared
  | fromStream name params id' now =>
      exact origin_of_create rfl (fun hshared => by cases hshared) h
  | list => exact .kept h
  | get id' => exact .kept h
  | update id' patch now => exact origin_of_update (fun hshared => hshared) h
  | delete id' =>
      have hremove : OrderedMap.get (remove s id' ownerId).1 id = some t := h
      unfold remove at hremove
      split at hremove
      · exact .kept hremove
      · rw [OrderedMap.erase, OrderedMap.get_restrict] at hremove
        exact .kept (Option.filter_eq_some_iff.mp hremove).1
  | share id' shared now =>
      exact @origin_of_update s ⟨ownerId, .share id' shared now⟩ id' id
        ⟨none, none, some shared⟩ now t (fun hshared => hshared) h

theorem PrivateUnshared.next {s : Templates.State} (h : PrivateUnshared quiet s)
    {req : Templates.Request} (hquiet : quiet req.ownerId = true → shares req = false) :
    PrivateUnshared quiet (handle s req).1 := by
  intro id t ht hclosed
  have hquietOwner : quiet t.ownerId = true := by
    simp only [inOpenPart, Bool.or_eq_false_iff, Bool.not_eq_false'] at hclosed
    exact hclosed.1
  cases origin_of_handle ht with
  | kept hkept => exact h id t hkept hclosed
  | changed old patch now hold heq hshares =>
      subst heq
      obtain ⟨hget, howner, _⟩ := editable_cases hold
      have hnot : patch.shared.any truthy = false := by
        have hreq := hquiet (howner ▸ hquietOwner)
        rw [hreq] at hshares
        exact Bool.eq_false_of_not_eq_true fun hshared => by cases hshares hshared
      show truthy (patch.shared.getD old.shared) = false
      cases hshared : patch.shared with
      | none => exact h id old hget hclosed
      | some shared =>
          rw [hshared] at hnot
          exact hnot
  | drawn _ howner hshares =>
      have hreq := hquiet (howner ▸ hquietOwner)
      rw [hreq] at hshares
      exact Bool.eq_false_of_not_eq_true fun hshared => by cases hshares hshared

theorem DrawsFresh.next {s : Templates.State} {req : Templates.Request}
    {later : List Templates.Request} (h : DrawsFresh (req :: later) s) :
    (∀ id, drawnId req = some id → OrderedMap.get s id = none) ∧
      DrawsFresh later (handle s req).1 := by
  obtain ⟨hnodup, hfree⟩ := h
  have hsub : ∀ id ∈ later.filterMap drawnId,
      id ∈ (req :: later).filterMap drawnId :=
    fun id hid => ((List.sublist_cons_self req later).filterMap _).subset hid
  refine ⟨?_, hnodup.sublist ((List.sublist_cons_self req later).filterMap _), ?_⟩
  · intro id hdrawn
    exact hfree id (List.mem_filterMap.mpr ⟨req, List.mem_cons_self, hdrawn⟩)
  · intro id hid
    cases hget : OrderedMap.get (handle s req).1 id with
    | none => rfl
    | some t =>
        have hbefore := hfree id (hsub id hid)
        cases origin_of_handle hget with
        | kept hkept =>
            rw [hbefore] at hkept
            cases hkept
        | changed old patch now hold _ _ =>
            have hstored := (editable_cases hold).1
            rw [hbefore] at hstored
            cases hstored
        | drawn hdrawn _ _ =>
            rw [List.filterMap_cons_some hdrawn] at hnodup
            exact absurd hid (List.nodup_cons.mp hnodup).1

/-! ## Nothing is noticed -/

variable (quiet)

/-- The store of all owners and the store of those who are not quiet. -/
structure SameOpenPart (requests : List Templates.Request)
    (s s' : Templates.State) : Prop where
  eq : s' = openPart quiet s
  hidden : PrivateUnshared quiet s
  fresh : DrawsFresh requests s
  silent : ∀ req ∈ requests, quiet req.ownerId = true → shares req = false

variable {quiet}

theorem SameOpenPart.next {req : Templates.Request} {later : List Templates.Request}
    {s s' s'' : Templates.State} (h : SameOpenPart quiet (req :: later) s s')
    (heq : s'' = openPart quiet (handle s req).1) :
    SameOpenPart quiet later (handle s req).1 s'' where
  eq := heq
  hidden := h.hidden.next (h.silent req List.mem_cons_self)
  fresh := h.fresh.next.2
  silent := fun other hother => h.silent other (List.mem_cons_of_mem req hother)

/-- The requests of quiet owners cannot be noticed. -/
theorem unwinding (observer : Text) (hobserver : quiet observer = false) :
    Unwinding handle (fun req => quiet req.ownerId)
      (fun req => decide (req.ownerId = observer)) (SameOpenPart quiet) where
  unwatched := by
    intro req hquiet
    refine decide_eq_false ?_
    intro howner
    rw [howner, hobserver] at hquiet
    cases hquiet
  silent := by
    intro req later s s' hquiet h
    have hsame := openPart_of_quiet h.fresh.next.1 hquiet
    exact h.next (h.eq.trans hsame.symm)
  same := by
    intro req later s s' howner h
    have hhandle := handle_openPart h.hidden h.fresh.next.1 howner
    refine h.next ?_
    rw [h.eq, hhandle]
  answer := by
    intro req later s s' hwatched h
    have howner : quiet req.ownerId = false := by
      rw [of_decide_eq_true hwatched]
      exact hobserver
    rw [h.eq, handle_openPart h.hidden h.fresh.next.1 howner]

end Privacy

theorem isDefault_of_seeded (pairs : List ((Json × Json) × Text × Nat × Nat))
    {s : Templates.State} (h : ∀ id t, OrderedMap.get s id = some t → t.isDefault = true) :
    ∀ id t, OrderedMap.get (pairs.foldl (fun s pair => seed s pair.1 pair.2) s) id =
      some t → t.isDefault = true := by
  induction pairs generalizing s with
  | nil => exact h
  | cons pair later ih =>
      refine ih fun id t ht => ?_
      change OrderedMap.get (seed s pair.1 pair.2) id = some t at ht
      unfold seed at ht
      rw [OrderedMap.get_set, Function.update_apply] at ht
      split at ht
      · obtain rfl := Option.some.inj ht
        rfl
      · exact h id t ht

/-- Every template of the loaded store is a default one. -/
theorem isDefault_of_loaded {draws : List (Text × Nat × Nat)} {id : Text} {t : Template}
    (h : OrderedMap.get (loaded draws) id = some t) : t.isDefault = true :=
  isDefault_of_seeded (defaults.zip draws) (s := .empty) nofun id t h

/-- In every sequence of requests that draw distinct new ids: if some owners never
share a template, every other owner gets the answers it would get if these owners
had never sent a request. -/
theorem quiet_owners_unnoticed (quiet : Text → Bool) (draws : List (Text × Nat × Nat))
    {requests : List Templates.Request} (hfresh : DrawsFresh requests (loaded draws))
    (hsilent : ∀ req ∈ requests, quiet req.ownerId = true → shares req = false)
    {observer : Text} (hobserver : quiet observer = false) :
    answers handle (fun req => decide (req.ownerId = observer)) (loaded draws) requests =
      answers handle (fun req => decide (req.ownerId = observer)) (loaded draws)
        (requests.filter fun req => !quiet req.ownerId) := by
  have hopen : ∀ id t, OrderedMap.get (loaded draws) id = some t →
      inOpenPart quiet (id, t) = true := by
    intro id t ht
    simp [inOpenPart, isDefault_of_loaded ht]
  refine (unwinding observer hobserver).answers_eq ⟨?_, ?_, hfresh, hsilent⟩
  · apply OrderedMap.ext
    symm
    apply List.filter_eq_self.mpr
    rintro ⟨id, t⟩ hmem
    exact hopen id t (OrderedMap.get_of_mem hmem)
  · intro id t ht hclosed
    rw [hopen id t ht] at hclosed
    cases hclosed

/-! ## An owner who keeps to itself -/

namespace TemplateSample

def draws : List (Text × Nat × Nat) := [(['1'], 0, 0), (['2'], 0, 0)]

/-- One owner stores a template and renames it; the other one lists, and asks for
this template by its id. -/
def requests : List Templates.Request :=
  [⟨['a'], .create (.str ['x']) .null none ['3'] 10⟩,
    ⟨['b'], .list⟩,
    ⟨['a'], .update ['3'] ⟨some (.str ['y']), none, none⟩ 20⟩,
    ⟨['b'], .get ['3']⟩,
    ⟨['b'], .delete ['3']⟩]

end TemplateSample

open TemplateSample

theorem quiet_owners_unnoticed_of_two :
    answers handle (fun req => decide (req.ownerId = ['b'])) (loaded draws) requests =
      answers handle (fun req => decide (req.ownerId = ['b'])) (loaded draws)
        [⟨['b'], .list⟩, ⟨['b'], .get ['3']⟩, ⟨['b'], .delete ['3']⟩] := by
  have hfresh : DrawsFresh requests (loaded draws) := by
    refine ⟨by decide, ?_⟩
    intro id hid
    obtain rfl : id = ['3'] := List.mem_singleton.mp hid
    rfl
  refine quiet_owners_unnoticed (fun ownerId => decide (ownerId = ['a'])) draws hfresh
    ?_ (by decide)
  intro req hreq _
  simp only [requests, List.mem_cons, List.not_mem_nil, or_false] at hreq
  rcases hreq with rfl | rfl | rfl | rfl | rfl <;> rfl

end Properties
end Paystream
