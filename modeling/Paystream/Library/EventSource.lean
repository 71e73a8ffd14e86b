import Mathlib.Data.List.Basic

/-!
# Event sourcing

A system publishes events, newest first.  `EventSource` says what an event says
about the entity under a key, and which events fit the entities as they are when
they are published; `viewAt` reads the entity off the log.

`Tells` is the invariant of such a log: every event fitted what the earlier ones
said, and the log says of each entity what it is.  One rule covers every step of
the system, `Tells.publish`; `Tells.fits_of_split` reads a fitting log at one of
its events.
-/

namespace Paystream
namespace Library

/-- What events say about the entities of a system. -/
structure EventSource (Key View Event : Type) where
  /-- the entity after the event; `none` is no entity -/
  apply : Key → Event → Option View → Option View
  /-- the event is true of the entities as they are -/
  fits : (Key → Option View) → Event → Prop

namespace EventSource

variable {Key View Event : Type} (source : EventSource Key View Event)

/-- The entity under a key, read off the log. -/
def viewAt (key : Key) : List Event → Option View
  | [] => none
  | event :: earlier => source.apply key event (viewAt key earlier)

/-- Every event fitted what the earlier ones said. -/
def Consistent : List Event → Prop
  | [] => True
  | event :: earlier =>
      source.fits (fun key => source.viewAt key earlier) event ∧
        Consistent earlier

/-- The log is consistent, and says of each entity what it is. -/
structure Tells (events : List Event) (entities : Key → Option View) : Prop where
  consistent : source.Consistent events
  views : ∀ key, source.viewAt key events = entities key

variable {source} {events : List Event} {entities next : Key → Option View}

theorem Tells.start : source.Tells [] (fun _ => none) :=
  ⟨trivial, fun _ => rfl⟩

/-- A fitting event that says of each entity what becomes of it. -/
theorem Tells.publish (h : source.Tells events entities) {event : Event}
    (hfits : source.fits entities event)
    (hnext : ∀ key, source.apply key event (entities key) = next key) :
    source.Tells (event :: events) next where
  consistent := by
    have hviews : (fun key => source.viewAt key events) = entities :=
      funext h.views
    exact ⟨hviews ▸ hfits, h.consistent⟩
  views := by
    intro key
    show source.apply key event (source.viewAt key events) = next key
    rw [h.views key, hnext key]

theorem Tells.of_eq (h : source.Tells events entities)
    (hsame : ∀ key, next key = entities key) : source.Tells events next where
  consistent := h.consistent
  views key := (h.views key).trans (hsame key).symm

/-- Events that say nothing about any entity. -/
theorem Tells.publish_silent (h : source.Tells events entities)
    {later : List Event}
    (hlater : ∀ event ∈ later, source.fits entities event ∧
      ∀ key, source.apply key event (entities key) = entities key) :
    source.Tells (later ++ events) entities := by
  induction later with
  | nil => exact h
  | cons event later ih =>
      obtain ⟨⟨hfits, hsame⟩, hrest⟩ := List.forall_mem_cons.mp hlater
      exact (ih hrest).publish hfits hsame

/-- An event of the log fitted the entities its predecessors tell. -/
theorem Tells.fits_of_split (h : source.Tells events entities)
    {later earlier : List Event} {event : Event}
    (hsplit : events = later ++ event :: earlier) :
    source.fits (fun key => source.viewAt key earlier) event := by
  have hconsistent := h.consistent
  subst hsplit
  clear h
  induction later with
  | nil => exact hconsistent.1
  | cons newer later ih => exact ih hconsistent.2

end EventSource

end Library
end Paystream
