import ClassText.Fault
import ClassText.Rule.Rewrite

/-!
# Reports

What happens in a run is told as it happens, event by event, and counted at the
end.
-/

namespace ClassText

structure MethodPlace where
  className : String
  method : String
  descriptor : String
deriving DecidableEq, Repr

def MethodPlace.text (place : MethodPlace) : String :=
  place.className ++ "." ++ place.method ++ place.descriptor

inductive Event where
  | substituted (place : MethodPlace) (replacement : Replacement)
  /-- A method keeps its code. -/
  | methodFailed (place : MethodPlace) (error : ClassError)
  /-- The class in an entry is kept as it is. -/
  | classFailed (entry : String) (error : ClassError)
deriving DecidableEq, Repr

inductive LogLevel where
  | info | warning | error
deriving DecidableEq, Repr

def LogLevel.name : LogLevel → String
  | info => "INFO"
  | warning => "WARN"
  | error => "ERROR"

structure LogLine where
  level : LogLevel
  text : String
deriving DecidableEq, Repr

namespace Event

def logLine : Event → LogLine
  | substituted place replacement =>
    ⟨.info, "Replaced " ++ replacement.key ++ " in " ++ place.text ++ " with " ++
      replacement.text⟩
  | methodFailed place error =>
    ⟨.warning, "Keeping original code of " ++ place.text ++ ": " ++ error.message⟩
  | classFailed entry error =>
    ⟨.warning, "Failed to rewrite " ++ entry ++ ", copying it unchanged: " ++ error.message⟩

end Event

structure ClassReport where
  /-- Occurrences that were replaced, also by what they were before. -/
  substitutions : Nat := 0
  /-- Methods that keep their code because the new one could not be finished. -/
  failedMethods : Nat := 0
  /-- Does an instruction load another constant than before? -/
  changed : Bool := false
deriving DecidableEq, Repr, Inhabited

structure Summary where
  entries : Nat
  rewrittenClasses : Nat
  passthroughEntries : Nat
  failedClasses : Nat
  failedMethods : Nat
  substitutions : Nat
deriving DecidableEq, Repr

def Summary.text (s : Summary) : String :=
  toString s.entries ++ " entries: " ++ toString s.rewrittenClasses ++ " classes rewritten, " ++
    toString s.passthroughEntries ++ " passed through, " ++ toString s.failedClasses ++
    " classes failed, " ++ toString s.failedMethods ++ " methods failed, " ++
    toString s.substitutions ++ " substitutions"

end ClassText
