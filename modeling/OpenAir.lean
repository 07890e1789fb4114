import OpenAir.Ds.IqChannel
import OpenAir.Ds.IqWait
import OpenAir.Ds.Queue
import OpenAir.Ds.Seqlock
import OpenAir.Ds.SpscQueue
import OpenAir.Ds.SymbolReorder
import OpenAir.Ds.WorkQueue
import OpenAir.Fronthaul.Timer
import OpenAir.Gtpu.ErrorReport
import OpenAir.Mac.Beams
import OpenAir.Mac.BsrEstimate
import OpenAir.Mac.DciSizeLaws
import OpenAir.Mac.DlHarq
import OpenAir.Mac.DlschSafety
import OpenAir.Mac.NrList
import OpenAir.Mac.RbAlloc
import OpenAir.Mac.Riv
import OpenAir.Mac.TbsLaws
import OpenAir.Mac.UlHarq
import OpenAir.Mac.UlRing
import OpenAir.Mac.UlschPadding
import OpenAir.Nas.Authenticity
import OpenAir.Nas.UplinkCounts
import OpenAir.Nrup.RoundTrip
import OpenAir.Oru.CplaneCut
import OpenAir.Oru.EarlyRelease
import OpenAir.Oru.Timing
import OpenAir.Oru.Ulaw
import OpenAir.Pdcp.Keystream
import OpenAir.Pdcp.ReorderingTimer
import OpenAir.Pdcp.UmBearer
import OpenAir.Phy.Crc
import OpenAir.Phy.Gold
import OpenAir.Phy.InterleavingLaws
import OpenAir.Phy.Polar
import OpenAir.Phy.PolarLength
import OpenAir.Phy.PolarRateMatching
import OpenAir.Phy.SegmentLengths
import OpenAir.Rlc.Am.ControlValidation
import OpenAir.Rlc.Am.ReceiverSize
import OpenAir.Rlc.Am.ReceiverTermination
import OpenAir.Rlc.Am.ReceiverWindow
import OpenAir.Rlc.Am.StatusExact
import OpenAir.Rlc.Am.StatusSize
import OpenAir.Rlc.Um.ReceiverTimer
import OpenAir.Sdap.EndMarkers
import OpenAir.Sdap.QosRules
