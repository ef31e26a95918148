import PhotonCount.Client.Frames
import PhotonCount.Client.Unpack
import PhotonCount.Dcfifo.Queue
import PhotonCount.FifoPls.Events
import PhotonCount.FifoPls.Readout
import PhotonCount.Ghrd.Defs
import PhotonCount.Ghrd.HpsReset
import PhotonCount.Ghrd.Laws
import PhotonCount.Ghrd.Order
import PhotonCount.Ghrd.Transfer
import PhotonCount.Hps.Server
import PhotonCount.Machine.Drive
import PhotonCount.Machine.Stream
import PhotonCount.Meter.Frames
import PhotonCount.PlsCnt.Counts
import PhotonCount.PlsCnt.Cycle
import PhotonCount.PlsCnt.Detector
import PhotonCount.PlsCnt.Flag
import PhotonCount.PlsCnt.LongRuns
import PhotonCount.PlsCnt.Repeat
import PhotonCount.PlsCnt.Reset
import PhotonCount.Reset.Controller
import PhotonCount.Reset.EdgeDetector
import PhotonCount.System.Defs
import PhotonCount.System.Delivery
import PhotonCount.System.Fitted
import PhotonCount.System.Laws
import PhotonCount.System.PowerUp
import PhotonCount.System.Returns
import PhotonCount.System.Settings
import PhotonCount.TriGen.Overrun
import PhotonCount.TriGen.Period
import PhotonCount.Wiring.Frames
import PhotonCount.Wiring.SelfTest
