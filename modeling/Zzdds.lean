import Zzdds.Rtps.Message.RoundTrip
import Zzdds.Rtps.HeldRefusals
import Zzdds.Rtps.Reader.Missing
import Zzdds.Rtps.Reader.FailedDelivery
import Zzdds.Rtps.Reader.Losses
import Zzdds.Rtps.Writer.AckNackArithmetic
import Zzdds.Rtps.Writer.CoherentTags
import Zzdds.Rtps.Writer.Suspension
import Zzdds.Rtps.Writer.MarkersKept
import Zzdds.Rtps.Writer.FailedWrite
import Zzdds.Rtps.Writer.FragmentResume
import Zzdds.Rtps.Counts
import Zzdds.Dcps.NothingLost
import Zzdds.Discovery.EndToEnd
import Zzdds.Discovery.LocalAnnouncements
import Zzdds.Discovery.LeaseTimer
import Zzdds.Discovery.AnnouncementSlots
import Zzdds.Discovery.Verdict
import Zzdds.Dcps.Filter.Print
import Zzdds.Util.EntityQuiesce
import Zzdds.Util.Time
import Zzdds.Discovery.PartitionNames
import Zzdds.Runtime.Stopping
import Zzdds.Runtime.Firing
import Zzdds.Dcps.HistoryLimits
import Zzdds.Dcps.WriterLimits
import Zzdds.Dcps.Ownership
import Zzdds.Util.DrainQueue
import Zzdds.Util.IdentitySharing
import Zzdds.Transport.UdpFailures
import Zzdds.Transport.IngressBudget
import Zzdds.Trace.Lines
import Zzdds.Transport.ParticipantId
import Zzdds.Rtps.ReceivedRanges
import Zzdds.Dcps.FanoutBatches
import Zzdds.Runtime.LinkedHeap
import Zzdds.Resources.IncrementalClean
