import Mathlib.Tactic.Common

/-! An event bus over any monad. Subscriptions are kept in the order they were
made; a second handler of the same class for the same event type is ignored. -/
namespace LibraryApi.EventBus

structure Handler (C Event : Type) (m : Type → Type 1) where
  cls : C
  handle : Event → m Unit

structure Bus (T C Event : Type) (m : Type → Type 1) where
  handlers : List (T × Handler C Event m)

variable {T C Event : Type} [DecidableEq T] [DecidableEq C] {m : Type → Type 1} [Monad m]

def empty : Bus T C Event m := ⟨[]⟩

def subscribe (bus : Bus T C Event m) (eventType : T) (handler : Handler C Event m) :
    Bus T C Event m :=
  if bus.handlers.any (fun h => h.1 == eventType && h.2.cls == handler.cls) then bus
  else ⟨bus.handlers ++ [(eventType,handler)]⟩

def deliver : List (T × Handler C Event m) → Event → m Unit
  | [], _ => pure ()
  | h :: rest, event => do
    h.2.handle event
    deliver rest event

def publish (bus : Bus T C Event m) (typeOf : Event → T) (event : Event) : m Unit :=
  deliver (bus.handlers.filter (fun h => h.1 == typeOf event)) event

end LibraryApi.EventBus
