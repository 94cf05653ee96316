import GumTVM.Script.HookedLoads

/-!
# Sessions under the script

A process with the script attached does what the system does, with the calls of
`gum_trace` at the loads that are hooked. Until such a call nothing is traced;
after a single one the session protocol and the trace file are as after a call
by hand.
-/

namespace GumTVM

open Foundation

variable {cs : Capstone} {settings : ScriptSettings}

def Event.call : Event → Option GumTraceCall
  | .gumTrace call => some call
  | _ => none

/-- The events of the system. -/
def ScriptReport.events : ScriptReport → List Event
  | .loading _ _ => []
  | .loaded _ _ _ call => (call.map Event.gumTrace).toList
  | .process event _ => [event]

/-- What they report, with the records they write. -/
def ScriptReport.outputs : ScriptReport → List (Report × Option RecordSummary)
  | .loading _ _ => []
  | .loaded _ _ _ call => (call.map fun _ => (Report.silent, none)).toList
  | .process _ output => [output]

end GumTVM
