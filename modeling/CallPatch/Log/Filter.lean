import CallPatch.Log.Field
import CallPatch.Log.Level
import CallPatch.Text.Order
/-!
# Log filters

What a program logs is set by a text of directives with commas between them.
A directive is a level, a target, or a target with a level behind an equals
sign; a target may be followed, or replaced, by a span in brackets, and the
span may name a field in braces. A message goes by the most specific of the
directives that speak of it: its target has to open with that of the
directive, and it has to have the field; a longer target is more specific than
a shorter one, then a field is more specific than none, and of two that are
equally specific the later one counts. Messages are logged outside of spans
here, so a directive for a span, or for a value of a field, speaks of none.

The parts of a directive are found without the blank characters around it, and
their places are counted in bytes. They are then cut at these places from the
directive as it stands, where a place may fall inside a character; there is no
filter then.
-/

namespace CallPatch.Log

/-- What is known of a message before it is written. -/
structure Message where
  level : Level
  /-- Where in the program the message comes from. -/
  target : String
  fields : List String
  deriving DecidableEq, Repr

/-- Why a text is no filter. -/
inductive FilterError where
  /-- A directive cannot be read. -/
  | unreadable
  /-- A part of a directive begins or ends inside a character. -/
  | insideCharacter
  deriving DecidableEq, Repr

/-! ## Cutting -/

/-- A directive as it stands, and what is seen of it: the same without the blank characters around
it. -/
structure Source where
  text : List Char
  seen : List Char
  deriving DecidableEq, Repr

namespace Source

/-- The source of a directive. -/
def ofText (text : List Char) : Source :=
  { text, seen := Text.trimChars text }

/-- The number of bytes of the characters. -/
def size (cs : List Char) : Nat :=
  (String.ofList cs).utf8ByteSize

/-- The place where an end of what is seen begins. -/
def place (s : Source) (rest : List Char) : Nat :=
  size s.seen - size rest

/-- The characters before a place and those behind it, unless it falls inside one. -/
def split? : Nat → List Char → Option (List Char × List Char)
  | 0, cs => some ([], cs)
  | _ + 1, [] => none
  | n + 1, c :: cs =>
    if c.utf8Size ≤ n + 1 then
      (split? (n + 1 - c.utf8Size) cs).map fun (front, rest) => (c :: front, rest)
    else none

/-- The directive as it stands, from a place on. -/
def behind (s : Source) (low : Nat) : Except FilterError (List Char) :=
  match split? low s.text with
  | some (_, rest) => .ok rest
  | none => .error .insideCharacter

/-- The directive as it stands, between two places. -/
def cut (s : Source) (low high : Nat) : Except FilterError (List Char) := do
  match split? (high - low) (← s.behind low) with
  | some (part, _) => .ok part
  | none => .error .insideCharacter

end Source

/-! ## Directives -/

/-- One part of a filter. -/
structure Directive where
  level : Level
  target : Option (List Char)
  span : Option (List Char)
  field : Option Field
  deriving DecidableEq, Repr

namespace Directive

/-- Everything is logged. -/
def everything : Directive :=
  { level := .trace, target := none, span := none, field := none }

/-- What a target may open with. -/
def opensTarget (c : Char) : Bool :=
  ['-', ':', '_'].contains c || Text.isLetterOrNumeral c

/-- The directive with the level of that text; where there is none, everything is logged. -/
def withLevel (d : Directive) (text : List Char) : Except FilterError Directive :=
  if text = [] then .ok { d with level := .trace }
  else
    match Level.ofText? text with
    | some level => .ok { d with level }
    | none => .error .unreadable

/-- The end of a directive, of which `rest` is seen behind its span: an equals sign with a level, or
nothing. -/
def behindSpan (d : Directive) (s : Source) : (rest : List Char) → Except FilterError Directive
  | [] => .ok d
  | '=' :: level => do d.withLevel (← s.behind (s.place level))
  | _ => .error .unreadable

/-- The end of a directive from a field on, of which `rest` is seen behind the brace. -/
def inField (d : Directive) (s : Source) (rest : List Char) : Except FilterError Directive :=
  match rest.dropWhile (· ≠ '}') with
  | [] => .error .unreadable
  | brace :: more => do
    match Field.ofText? (← s.cut (s.place rest) (s.place (brace :: more))), more with
    | some field, ']' :: more => behindSpan { d with field := some field } s more
    | _, _ => .error .unreadable

/-- The end of a directive from its span on, of which `rest` is seen behind the bracket. Before a
field, the span may be empty. -/
def inSpan (d : Directive) (s : Source) (rest : List Char) : Except FilterError Directive :=
  match rest.dropWhile fun c => c ≠ ']' && c ≠ '{' with
  | [] => .error .unreadable
  | stop :: more => do
    let span ← s.cut (s.place rest) (s.place (stop :: more))
    if stop = ']' then behindSpan { d with span := some span } s more
    else inField { d with span := if span = [] then none else some span } s more

/-- The directive of a text without commas. -/
def ofText (text : List Char) : Except FilterError Directive :=
  let s := Source.ofText text
  match s.seen with
  | [] => .error .unreadable
  | '[' :: rest => inSpan everything s rest
  | c :: rest =>
    if opensTarget c then
      match (c :: rest).dropWhile fun c => c ≠ '=' && c ≠ '[' with
      | [] =>
        match Level.ofText? text with
        | some level => .ok { everything with level }
        | none => .ok { everything with target := some text }
      | stop :: more => do
        let d := { everything with target := some (← s.cut 0 (s.place (stop :: more))) }
        if stop = '=' then d.withLevel (← s.behind (s.place more)) else inSpan d s more
    else .error .unreadable

/-- Whether the directive speaks of a message. -/
def speaksOf (d : Directive) (m : Message) : Bool :=
  d.span.isNone && (d.target.getD []).isPrefixOf m.target.toList
    && d.field.all fun field =>
      field.value.isNone && m.fields.contains (String.ofList field.name)

/-- How specific a directive is among those that speak of one message. -/
def weight (d : Directive) : Nat × String :=
  ((d.target.map fun t => t.length + 1).getD 0,
    String.ofList ((d.field.map Field.name).getD []))

/-- Whether the second directive gives way to the first, which comes later. -/
def outweighs (d e : Directive) : Bool :=
  e.weight.1 < d.weight.1 || (e.weight.1 = d.weight.1 && Text.le e.weight.2 d.weight.2)

end Directive

/-- A list of directives, in the order given. -/
abbrev Filter := List Directive

namespace Filter

/-- Logs what is of that level at least, wherever it comes from. -/
def ofLevel (level : Level) : Filter :=
  [{ Directive.everything with level }]

/-- The filter a text describes; empty directives are passed over, and the first error counts. -/
def ofText (text : String) : Except FilterError Filter :=
  ((text.toList.splitOn ',').filter (· ≠ [])).mapM Directive.ofText

/-- The filter of a setting: `info` where there is none or it cannot be read. -/
def ofSetting? : Option String → Option Filter
  | none => some (ofLevel .info)
  | some text =>
    match ofText text with
    | .ok filter => some filter
    | .error .unreadable => some (ofLevel .info)
    | .error .insideCharacter => none

/-- The directive that a message goes by. -/
def directiveFor? (f : Filter) (m : Message) : Option Directive :=
  (f.filter (·.speaksOf m)).foldl
    (fun best d => match best with
      | none => some d
      | some e => if d.outweighs e then some d else some e) none

/-- Whether a message is logged. -/
def shows (f : Filter) (m : Message) : Bool :=
  (f.directiveFor? m).any fun d => d.level.shows m.level

end Filter

end CallPatch.Log
