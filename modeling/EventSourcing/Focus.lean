/-!
# Focusing on part of a state

Members of an application usually own only part of the application's state: a ledger, a
warehouse, a log. A focus names that part: how to read it and how to change it.
-/

namespace EventSourcing

/-- A part `S` of a state `W`: how to read it and how to change it. -/
structure Focus (W S : Type) where
  get : W → S
  modify : (S → S) → W → W

namespace Focus

/-- A state focused on as a whole. -/
def whole {S : Type} : Focus S S := ⟨id, id⟩

end Focus

end EventSourcing
