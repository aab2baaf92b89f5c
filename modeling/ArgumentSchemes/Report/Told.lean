import ArgumentSchemes.Report.Event

/-!
# Computations that tell events

A `Told ε α` is the outcome of a computation that tells events on its way and ends in a value or a
fault. The events are kept in both cases, in the order in which they were told.
-/

namespace ArgumentSchemes.Report

/-- What a computation told, and how it ended. -/
structure Told (ε α : Type) where
  events : List Event
  result : Except ε α

namespace Told

variable {ε δ α β : Type}

/-- Goes on with the value of a computation. -/
def andThen (x : Told ε α) (f : α → Told ε β) : Told ε β :=
  match x.result with
  | .error fault => ⟨x.events, .error fault⟩
  | .ok a => ⟨x.events ++ (f a).events, (f a).result⟩

instance : Monad (Told ε) where
  pure a := ⟨[], .ok a⟩
  bind := andThen

@[simp] theorem pure_eq (a : α) : (pure a : Told ε α) = ⟨[], .ok a⟩ := rfl

@[simp] theorem ok_bind (events : List Event) (a : α) (f : α → Told ε β) :
    ((⟨events, .ok a⟩ : Told ε α) >>= f) = ⟨events ++ (f a).events, (f a).result⟩ := rfl

@[simp] theorem error_bind (events : List Event) (fault : ε) (f : α → Told ε β) :
    ((⟨events, .error fault⟩ : Told ε α) >>= f) = ⟨events, .error fault⟩ := rfl

/-- Tells one event. -/
def tell (event : Event) : Told ε Unit := ⟨[event], .ok ()⟩

/-- Tells events one after the other. -/
def tellAll (events : List Event) : Told ε Unit := ⟨events, .ok ()⟩

/-- Writes a note to the log. -/
def note (level : Level) (text : String) : Told ε Unit := tell (.note level text)

/-- Ends in a fault. -/
def fail (fault : ε) : Told ε α := ⟨[], .error fault⟩

/-- An outcome that tells nothing, with its fault seen as a fault of another kind. -/
def lift (wrap : δ → ε) (x : Except δ α) : Told ε α := ⟨[], x.mapError wrap⟩

/-- The same outcome with its fault seen as a fault of another kind. -/
def mapFault (wrap : δ → ε) (x : Told δ α) : Told ε α := ⟨x.events, x.result.mapError wrap⟩

end Told

end ArgumentSchemes.Report
