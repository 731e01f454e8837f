import CallPatch.Demo.CommandLine
import CallPatch.Log.Filter
import CallPatch.Snapshot.Document
import CallPatch.Snapshot.Text
/-!
# What a demonstration shows

The snapshot of the agent, as text or as one line of JSON, and a closing line
that a log filter may hide.
-/

namespace CallPatch.Demo

namespace Closing

/-- The closing line. -/
def text : Closing → String
  | .reports count => s!"scenario finished reports={count}"
  | .entries count => s!"store populated entries={count}"

/-- The part of the program that logs closing lines. -/
def targetStem : String := "voidput_examples::scenarios::"

/-- What a log filter sees of the closing line. -/
def message : Closing → Log.Message
  | .reports _ =>
    { level := .info, target := targetStem ++ "concurrent_reporters",
      fields := ["message", "reports", "fresh", "installed"] }
  | .entries _ =>
    { level := .info, target := targetStem ++ "instrumented_store",
      fields := ["message", "entries"] }

end Closing

namespace Outcome

/-- The closing figure, unless the filter hides it. -/
def shownClosing? (o : Outcome) (filter : Log.Filter) : Option Closing :=
  o.closing.filter fun c => filter.shows c.message

/-- The snapshot, in the form asked for. -/
def shown (o : Outcome) (json : Bool) : String :=
  if json then o.stats.toJson.text ++ "\n" else o.stats.text

end Outcome

end CallPatch.Demo
