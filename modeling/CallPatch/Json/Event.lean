import CallPatch.Json.Token
/-!
# JSON — the events of a document

A document is read as the sequence of its events: what opens, what closes,
the keys and the values without parts. What is still open is held as a list,
so that the depth of a document costs no recursion. A comma may follow the
last item of an array or the last field of an object, once and not without
an item before it. The events end with the outermost value: what follows it
is not looked at.

Events are handed on in batches of 512, the last one shorter. A document that
goes on as none can spoils the batch it does so in: of its events only those
of the whole batches before are there to be read.
-/

namespace CallPatch.Json

/-- A step of a document. -/
inductive Event where
  | openArray
  | closeArray
  | openObject
  | closeObject
  | key (name : String)
  | scalar (value : Scalar)
  deriving DecidableEq, Repr

/-- What a value can stand in. -/
inductive Container where
  | array
  | object
  deriving DecidableEq, Repr

/-- What may come next. Each place holds the containers around it, the innermost first; at the
places inside an array or an object, that one goes without saying. -/
inductive Place where
  /-- A value. -/
  | value (outer : List Container)
  /-- An item, or the end of the array. -/
  | item (outer : List Container)
  /-- A comma, or the end of the array. -/
  | itemEnd (outer : List Container)
  /-- A key, or the end of the object. -/
  | key (outer : List Container)
  /-- The colon behind a key. -/
  | colon (key : String) (outer : List Container)
  /-- A comma, or the end of the object. -/
  | fieldEnd (outer : List Container)
  /-- Nothing more. -/
  | done
  deriving DecidableEq, Repr

namespace Place

/-- The place behind a complete value. -/
def behind : List Container → Place
  | [] => .done
  | .array :: outer => .itemEnd outer
  | .object :: outer => .fieldEnd outer

/-- A token where a value has to begin. -/
def enter (outer : List Container) : Token → Option (Place × Option Event)
  | .scalar v => some (behind outer, some (.scalar v))
  | .openArray => some (.item outer, some .openArray)
  | .openObject => some (.key outer, some .openObject)
  | _ => none

/-- The next place, and the event on the way if the token makes one. -/
def step : Place → Token → Option (Place × Option Event)
  | .value outer, t => enter outer t
  | .item outer, .closeArray => some (behind outer, some .closeArray)
  | .item outer, t => enter (.array :: outer) t
  | .itemEnd outer, .comma => some (.item outer, none)
  | .itemEnd outer, .closeArray => some (behind outer, some .closeArray)
  | .key outer, .closeObject => some (behind outer, some .closeObject)
  | .key outer, .scalar (.string k) => some (.colon k outer, none)
  | .colon k outer, .colon => some (.value (.object :: outer), some (.key k))
  | .fieldEnd outer, .comma => some (.key outer, none)
  | .fieldEnd outer, .closeObject => some (behind outer, some .closeObject)
  | _, _ => none

end Place

/-- The events from a place on to the end of the document, behind the events `seen`, the last of
them first. Of a document that goes on as none can, they are the error: those before it does. -/
def scanOnto (seen : List Event) (place : Place) (cs : List Char) :
    Except (List Event) (List Event) :=
  match place with
  | .done => .ok seen.reverse
  | place =>
    match _h : Token.next? cs with
    | none => .error seen.reverse
    | some (t, rest) =>
      match place.step t with
      | none => .error seen.reverse
      | some (next, event) => scanOnto (event.toList ++ seen) next rest
termination_by cs.length
decreasing_by exact length_lt_of_next? _h

/-- The number of events that are handed on together. -/
def batchSize : Nat := 512

/-- The events of the whole batches. -/
def wholeBatches (es : List Event) : List Event :=
  es.take (es.length / batchSize * batchSize)

/-- The events to be read of the document that opens the characters. -/
def events (cs : List Char) : List Event :=
  match scanOnto [] (.value []) cs with
  | .ok es => es
  | .error es => wholeBatches es

end CallPatch.Json
