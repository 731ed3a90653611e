import RecordQuery.Failure
import RecordQuery.Log

/-!
Flows: items that come one at a time when asked for, with what happens on the way. What follows an
item is only reached by asking for the next one, so a consumer that stops early leaves the rest of
its sources alone; which sources were touched can be read off the events.
-/

namespace RecordQuery

-- What happens while a flow is asked for items. A source is pulled for each of its items, and has
-- ended once it is asked for one more than it has.
inductive Event
  | opened (source : Text)
  | pulled (source : Text)
  | ended (source : Text)
  | logged (entry : LogEntry)

inductive Flow (α : Type)
  | done
  | failed (e : Failure)
  | event (e : Event) (rest : Unit → Flow α)
  | item (a : α) (rest : Unit → Flow α)

namespace Flow

variable {α β σ : Type}

-- The items up to the end or the failure.
def items : Flow α → List α
  | .done => []
  | .failed _ => []
  | .event _ rest => (rest ()).items
  | .item a rest => a :: (rest ()).items

-- The failure that ends the flow, if one does.
def failure? : Flow α → Option Failure
  | .done => none
  | .failed e => some e
  | .event _ rest => (rest ()).failure?
  | .item _ rest => (rest ()).failure?

-- All that happens when the flow is asked for items until it ends.
def events : Flow α → List Event
  | .done => []
  | .failed _ => []
  | .event e rest => e :: (rest ()).events
  | .item _ rest => (rest ()).events

-- The items and the failure that comes after them.
def outcome (flow : Flow α) : List α × Option Failure := (flow.items, flow.failure?)

-- The log entries among the events.
def log (flow : Flow α) : List LogEntry :=
  flow.events.filterMap fun e => match e with
    | .logged entry => some entry
    | _ => none

-- Items at hand, without events.
def ofList : List α → Flow α
  | [] => .done
  | a :: rest => .item a fun _ => ofList rest

-- Items of a source that reports when it is asked for one.
def ofSource (source : Text) : List α → Flow α
  | [] => .event (.ended source) fun _ => .done
  | a :: rest => .event (.pulled source) fun _ => .item a fun _ => ofSource source rest

-- One flow and then, unless it fails, another.
def append (first : Flow α) (second : Unit → Flow α) : Flow α :=
  match first with
  | .done => second ()
  | .failed e => .failed e
  | .event e rest => .event e fun _ => append (rest ()) second
  | .item a rest => .item a fun _ => append (rest ()) second

-- What a step makes of each item in turn, from a state that it hands on.
def expand (step : σ → α → σ × Flow β) (state : σ) : Flow α → Flow β
  | .done => .done
  | .failed e => .failed e
  | .event e rest => .event e fun _ => expand step state (rest ())
  | .item a rest =>
    let next := step state a
    next.2.append fun _ => expand step next.1 (rest ())

-- All items taken into a state before anything is given. The first item that cannot be taken, like
-- a failure of the flow itself, leaves nothing but that failure.
def gather (step : σ → α → Except Failure σ) (finish : σ → Flow β) (state : σ) : Flow α → Flow β
  | .done => finish state
  | .failed e => .failed e
  | .event e rest => .event e fun _ => gather step finish state (rest ())
  | .item a rest =>
    match step state a with
    | .ok state => gather step finish state (rest ())
    | .error e => .failed e

-- At most `count` items. After the last of them nothing more is asked for.
def take : Nat → Flow α → Flow α
  | 0, _ => .done
  | _ + 1, .done => .done
  | _ + 1, .failed e => .failed e
  | count + 1, .event e rest => .event e fun _ => take (count + 1) (rest ())
  | count + 1, .item a rest => .item a fun _ => take count (rest ())

end Flow

end RecordQuery
