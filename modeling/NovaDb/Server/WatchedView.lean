import NovaDb.Foundation.SelectiveMirror
import NovaDb.Server.Delivery
import NovaDb.Server.Lives

namespace NovaDb
namespace Server

open Core Foundation Index Protocol Query Storage DatabaseEngine

/-!
# What a watcher knows

A client that knows the documents its filter selects, and applies the events that its
subscription is sent, has a view of the collection.  The server evaluates the filter on
the document behind a change, or on the one in front of a removal; so the view has every
document that the filter accepts, as it is stored, and all it has was accepted once.  It
keeps a document that an UPDATE took out of the filter, until an event about that id is
sent again.
-/

/-- A document is one that the subscription is about. -/
def Watcher.selects (P : Platform) (watcher : Watcher) (place : Place) (doc : Document) : Bool :=
  decide (place.1.2 = watcher.collection) && accepts P watcher.filter doc

section Frames

variable {P : Platform} {json : PayloadJson} {watcher : Watcher} {event : DataEvent}

/-- An event about a document: the one behind it, or the one in front. -/
theorem DataEvent.Lawful.about (lawful : event.Lawful P) :
    Exists fun doc => event.after.or event.before = some doc := by
  cases lawful with
  | create doc _ before after _ => exact ⟨doc, by rw [after]; rfl⟩
  | update doc next _ before after _ _ _ => exact ⟨next, by rw [after]; rfl⟩
  | delete doc _ before after => exact ⟨doc, by rw [before, after]; rfl⟩

end Frames

end Server
end NovaDb
