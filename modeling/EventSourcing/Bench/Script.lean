import EventSourcing.Processing
import EventSourcing.Text.Decimal

/-!
# Scripted processors

A scripted processor reads its command's payload as a small program: directives separated by
`;`, run from left to right against the command's transaction. A directive may be addressed to
one processor by a prefix `NAME>`; a prefix counts as one only when the text before the first
`>` holds no `=`, and a directive addressed to another processor is passed over.

The first character of a directive is its action; routing actions take `<type>=<text>`:

* `r` routes, and a refusal ends the script with it; `i` routes and ignores a refusal;
* `w` routes through an encoder that writes the text; `W` through one that writes it and then
  gives up, ending the script; `x` the same, ignoring the refusal;
* `a` aborts the transaction; `e` fails with the rest of the directive; `p` panics with it;
  `P` panics without a message;
* `c` routes a census of the transaction and the base state as type 99; `n` does nothing.

A directive that cannot be read ends the script with a failure when it is reached, so the
directives before it have run.
-/

namespace EventSourcing.Bench

/-- One directive of a script. -/
inductive Directive where
  /-- Routes the text; `strict` ends the script on a refusal. -/
  | route (payloadType : PayloadType) (text : String) (strict : Bool)
  /-- Routes through an encoder that writes the text and, if `givesUp`, then fails. -/
  | encode (payloadType : PayloadType) (text : String) (givesUp strict : Bool)
  | abort
  | fail (message : String)
  | panic (message : Option String)
  | census
  | nothing
  deriving DecidableEq, Repr

/-- The payload type of a census. -/
def censusType : PayloadType := 99

/-- Splits a text at the first occurrence of a character. -/
def splitFirst (c : Char) (s : String) : Option (String × String) :=
  let (before, after) := s.toList.span (· != c)
  match after with
  | [] => none
  | _ :: rest => some (String.ofList before, String.ofList rest)

/-- Reads `<type>=<text>` of a directive `d`. -/
def typedText (d arg : String) : Except String (PayloadType × String) :=
  match splitFirst '=' arg with
  | none => .error s!"bad directive '{d}'"
  | some (pt, text) =>
    match Text.parseInt32 pt with
    | .ok n => .ok (n, text)
    | .error _ => .error s!"bad payload type in '{d}'"

/-- Reads a directive. The empty directive does nothing. -/
def Directive.read (d : String) : Except String Directive :=
  match d.toList with
  | [] => .ok .nothing
  | a :: rest =>
    let arg := String.ofList rest
    match a with
    | 'r' => (fun (pt, t) => route pt t true) <$> typedText d arg
    | 'i' => (fun (pt, t) => route pt t false) <$> typedText d arg
    | 'w' => (fun (pt, t) => encode pt t false true) <$> typedText d arg
    | 'W' => (fun (pt, t) => encode pt t true true) <$> typedText d arg
    | 'x' => (fun (pt, t) => encode pt t true false) <$> typedText d arg
    | 'a' => .ok abort
    | 'e' => .ok (fail arg)
    | 'p' => .ok (panic (some arg))
    | 'P' => .ok (panic none)
    | 'c' => .ok census
    | 'n' => .ok nothing
    | _ => .error s!"unknown directive '{d}'"

/-- The directive a processor named `name` runs for a piece of script, or `none` when the
piece is addressed to another processor. -/
def addressed (name piece : String) : Option String :=
  match splitFirst '>' piece with
  | some (target, rest) =>
    if target.contains '=' then some piece
    else if target == name then some rest
    else none
  | none => some piece

/-- The census line of a transaction: processor, command, routed count, abort flag and the
base state's watermarks. -/
def censusText (name : String) (c : Command) (base : BaseState) (r : Router) : String :=
  s!"{name}|{c.source}:{c.sequence}|n={r.eventCount}|ab={r.aborted}|" ++
    s!"last={base.lastCommand c.source}|ev={base.lastEvent}"

/-- Ends with a refusal when `strict`, else goes on unchanged. -/
def settle (strict : Bool) (r : Router) : Except RouteError (Nat × Router) → Except Halt Router
  | .ok (_, r') => .ok r'
  | .error e => if strict then .error (.failed e.failure) else .ok r

/-- Runs one directive. -/
def Directive.run (name : String) (c : Command) (base : BaseState) (r : Router) :
    Directive → Except Halt Router
  | route pt text strict => settle strict r (r.route pt (Bytes.ofString text))
  | encode pt text givesUp strict =>
    let encoded : Except Failure Bytes :=
      if givesUp then .error (.plain "encoder gave up") else .ok (Bytes.ofString text)
    settle strict r (r.routeWith pt encoded)
  | abort => .ok r.abort
  | fail message => .error (.failed (.plain message))
  | panic message => .error (.panicked message)
  | census => settle true r (r.route censusType (Bytes.ofString (censusText name c base r)))
  | nothing => .ok r

/-- Runs the pieces of a script in order. -/
def runPieces (name : String) (c : Command) (base : BaseState) :
    List String → Router → Except Halt Router
  | [], r => .ok r
  | piece :: rest, r =>
    match addressed name piece with
    | none => runPieces name c base rest r
    | some d =>
      match Directive.read d with
      | .error m => .error (.failed (.plain m))
      | .ok directive =>
        match directive.run name c base r with
        | .ok r' => runPieces name c base rest r'
        | .error h => .error h

theorem settle_extends {strict : Bool} {r r' : Router} {x : Except RouteError (Nat × Router)}
    (hx : ∀ i r'', x = .ok (i, r'') → r.Extends r'') (h : settle strict r x = .ok r') :
    r.Extends r' := by
  unfold settle at h
  split at h
  · cases h
    exact hx _ _ rfl
  · split at h
    · cases h
    · cases h; rfl

theorem Directive.run_extends {name : String} {c : Command} {base : BaseState} {r r' : Router}
    (d : Directive) (h : d.run name c base r = .ok r') : r.Extends r' := by
  cases d with
  | route pt text strict =>
    exact settle_extends (fun _ _ hx => Router.extends_of_route hx) h
  | encode pt text givesUp strict =>
    exact settle_extends (fun _ _ hx => Router.extends_of_routeWith hx) h
  | abort => cases h; exact Router.extends_abort r
  | fail message => cases h
  | panic message => cases h
  | census => exact settle_extends (fun _ _ hx => Router.extends_of_route hx) h
  | nothing => cases h; rfl

theorem runPieces_extends {name : String} {c : Command} {base : BaseState} (pieces : List String)
    {r r' : Router} (h : runPieces name c base pieces r = .ok r') : r.Extends r' := by
  induction pieces generalizing r with
  | nil => cases h; rfl
  | cons piece rest ih =>
    unfold runPieces at h
    split at h
    · exact ih h
    · split at h
      · cases h
      · split at h
        · exact (Directive.run_extends _ ‹_›).trans (ih h)
        · cases h

/-- The scripted processor named `name`. -/
def scriptProcessor {W : Type} (name : String) : Processor W where
  name := name
  process c base w r :=
    match Bytes.utf8? c.payload with
    | none => (.error (.failed (.plain "script payload is not UTF-8")), w, r)
    | some text =>
      match runPieces name c base (text.splitOn ";") r with
      | .ok r' => (.ok (), w, r')
      | .error h => (.error h, w, r)
  process_extends c base w r := by
    split
    · rfl
    · split
      · exact runPieces_extends _ ‹_›
      · rfl

end EventSourcing.Bench
