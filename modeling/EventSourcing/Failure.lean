/-!
# Failures

A failure is a chain of messages, the outermost first: each message says what was being done
when the next one went wrong. It is written either as its outermost message or as the whole
chain joined by `": "`.
-/

namespace EventSourcing

/-- A chain of messages, outermost first. -/
structure Failure where
  messages : List String
  deriving DecidableEq, Repr, Inhabited

namespace Failure

/-- A failure of one message. -/
def plain (message : String) : Failure := ⟨[message]⟩

/-- A failure in the context of what was being done. -/
def within (f : Failure) (context : String) : Failure := ⟨context :: f.messages⟩

/-- The whole chain, joined by colons. -/
def render (f : Failure) : String := ": ".intercalate f.messages

/-- The outermost message. -/
def headline (f : Failure) : String := f.messages.headD ""

end Failure

/-- How running a member's code ends early: with a failure it returned, or by a panic, which
carries its message when it has one. -/
inductive Halt where
  | failed (f : Failure)
  | panicked (message : Option String)
  deriving DecidableEq, Repr

end EventSourcing
