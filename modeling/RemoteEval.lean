import RemoteEval.Client.SideChannel
import RemoteEval.Client.Console
import RemoteEval.Main
import RemoteEval.Proofs.Registry
import RemoteEval.Proofs.Worker.Acts
import RemoteEval.Proofs.Worker.Conduct
import RemoteEval.Proofs.Session.Run
import RemoteEval.Proofs.Session.Answers
import RemoteEval.Proofs.Session.Protocol
import RemoteEval.Proofs.Session.Prompts
import RemoteEval.Proofs.Session.Departures
import RemoteEval.Proofs.Exchange.Basic
import RemoteEval.Proofs.Exchange.Flow
import RemoteEval.Proofs.Exchange.Channel
import RemoteEval.Proofs.Client.Messages
import RemoteEval.Proofs.Exchange.Run
import RemoteEval.Proofs.Exchange.Levels
import RemoteEval.Proofs.Exchange.Link
import RemoteEval.Proofs.Exchange.Places
import RemoteEval.Proofs.Exchange.Desync
import RemoteEval.Proofs.Wire.RoundTrip
import RemoteEval.Proofs.Session.Transmission
import RemoteEval.Proofs.Exchange.Delivery
import RemoteEval.Proofs.Wire.Stream
import RemoteEval.Proofs.Client.Transcript
import RemoteEval.Proofs.Client.Unsent
import RemoteEval.Proofs.Session.Unwinding
import RemoteEval.Proofs.Session.Teardown
import RemoteEval.Proofs.Client.Interleaving
import RemoteEval.Proofs.Worker.Settling
import RemoteEval.Proofs.Session.Independence
import RemoteEval.Proofs.Session.Sequence
import RemoteEval.Proofs.Session.Inspection
import RemoteEval.Proofs.Session.Interrupts
import RemoteEval.Proofs.Session.Reads
import RemoteEval.Proofs.Client.Commands
import RemoteEval.Proofs.Calc.Safepoints
import RemoteEval.Proofs.Calc.Frames
import RemoteEval.Proofs.Calc.Arithmetic
import RemoteEval.Proofs.Client.SideChannel
