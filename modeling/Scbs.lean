import Scbs.CLib.Bytes
import Scbs.CLib.Numeral
import Scbs.CLib.Float
import Scbs.CLib.Decimal
import Scbs.CLib.Fixed
import Scbs.CLib.Buffer
import Scbs.Comms.Packets
import Scbs.Comms.Frame
import Scbs.Comms.Tokens
import Scbs.Comms.RoundTrip
import Scbs.Comms.MultiRead
import Scbs.Comms.Corruption
import Scbs.Comms.Grammar
import Scbs.Comms.Reencoding
import Scbs.Comms.Lookup
import Scbs.Comms.Host
import Scbs.Device
import Scbs.Link.Framing
import Scbs.Link.Clock
import Scbs.Receiver
import Scbs.Handlers
import Scbs.MultiReadHop
import Scbs.Link.Pipeline
import Scbs.Link.Machine
import Scbs.Link.Client
import Scbs.Link.Liveness
import Scbs.Protocol
import Scbs.Network
import Scbs.Runs
import Scbs.Replies
import Scbs.Calibration
import Scbs.ReceiveBuffer
import Scbs.StatusLed
import Scbs.Enumeration
import Scbs.Writes
import Scbs.Chain
import Scbs.Pipelining
import Scbs.MultiReadChain
import Scbs.Meaning
import Scbs.Recovery
import Scbs.CellMachine
import Scbs.Safety
import Scbs.Pack
import Scbs.PackChain
import Scbs.Noise
import Scbs.Termination
import Scbs.Master
import Scbs.Session
import Scbs.Memory
import Scbs.Store
import Scbs.Ranges
import Scbs.Outputs
import Scbs.Arrays
import Scbs.Agreement
import Scbs.ArrayParsers
import Scbs.ArrayHandlers
import Scbs.ArrayRuns
