import EventSourcing.Text.Debug

/-!
# Chains of members

Processors, appliers, outputs and inputs are composed into chains from the application's
members and the extensions' members. The application goes first or last, depending on the
kind of member; members that do nothing are left out, and their names are kept as skipped.
-/

namespace EventSourcing

/-- Where the application's members go in a chain. -/
inductive ChainOrder where
  | applicationFirst
  | applicationLast
  deriving DecidableEq, Repr

/-- What a chain needs to know of its members. -/
class Member (α : Type) where
  /-- The member's name. -/
  name : α → String
  /-- Whether the member does nothing, and so is left out. -/
  isNoop : α → Bool

/-- The members of a chain in calling order, and the names of those left out. -/
structure Chain (α : Type) where
  members : List α := []
  skipped : List String := []

namespace Chain

variable {α : Type} [Member α]

/-- Composes the application's members with the extensions' members. -/
def compose (application extensions : List α) (order : ChainOrder) : Chain α :=
  let ordered := match order with
    | .applicationFirst => application ++ extensions
    | .applicationLast => extensions ++ application
  { members := ordered.filter (fun m => !Member.isNoop m)
    skipped := (ordered.filter Member.isNoop).map Member.name }

/-- The names of the members, in calling order. -/
def names (c : Chain α) : List String := c.members.map Member.name

/-- Whether the chain has no members. -/
def isEmpty (c : Chain α) : Bool := c.members.isEmpty

/-- The chain's members and skipped names, as dumps write them. -/
def dump (c : Chain α) : String :=
  "Chain \x7b members: " ++ Text.nameList c.names ++ ", skipped: " ++
    Text.nameList c.skipped ++ " \x7d"

theorem members_compose (application extensions : List α) (order : ChainOrder) :
    (compose application extensions order).members =
      (match order with
        | .applicationFirst => application ++ extensions
        | .applicationLast => extensions ++ application).filter (fun m => !Member.isNoop m) := rfl

end Chain

end EventSourcing
