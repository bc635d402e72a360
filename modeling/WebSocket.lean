import WebSocket.Accumulator
import WebSocket.Connection.Receive
import WebSocket.Console.Arguments
import WebSocket.Console.Command
import WebSocket.Console.Operator
import WebSocket.Digest
import WebSocket.Framing
import WebSocket.Handshake.Response
import WebSocket.Json
import WebSocket.Main
import WebSocket.Proofs.ByteStrings
import WebSocket.Proofs.ChunkIndependence
import WebSocket.Proofs.ConnectionActs
import WebSocket.Proofs.ConnectionBounds
import WebSocket.Proofs.ConnectionIntake
import WebSocket.Proofs.ConnectionItems
import WebSocket.Proofs.ConnectionLedger
import WebSocket.Proofs.ConnectionSilence
import WebSocket.Proofs.ConnectionSurroundings
import WebSocket.Proofs.EventDiscipline
import WebSocket.Proofs.FrameRoundTrip
import WebSocket.Proofs.FrameReading
import WebSocket.Proofs.FrameStability
import WebSocket.Proofs.FrameStream
import WebSocket.Proofs.Masking
import WebSocket.Proofs.MessageDelivery
import WebSocket.Proofs.NegotiationStability
import WebSocket.Proofs.OutboundStream
import WebSocket.Proofs.TextBytes
import WebSocket.Registry.Basic
import WebSocket.Server.Loopback
import WebSocket.Proofs.FrameLayout
import WebSocket.Proofs.ConnectionLifecycle
import WebSocket.Proofs.FrameDraining
import WebSocket.Proofs.FailureNotice
import WebSocket.Proofs.FrameChunks
import WebSocket.Proofs.RequestLayout
import WebSocket.Proofs.ResponseLines
import WebSocket.Proofs.TextRoundTrip
import WebSocket.Proofs.SchemeAgreement
import WebSocket.Proofs.RegistryQueues
import WebSocket.Proofs.TaskQueues
import WebSocket.Proofs.ServerSteps
import WebSocket.Proofs.DeliveryOrder
import WebSocket.Proofs.QueueAccounting
import WebSocket.Proofs.CloseRequests
import WebSocket.Proofs.TaskTurns
import WebSocket.Proofs.ApplicationCalls
import WebSocket.Proofs.Departure
import WebSocket.Proofs.ReadBuffer
import WebSocket.Proofs.AcceptedRequest
import WebSocket.Proofs.Backpressure
import WebSocket.Proofs.TaskCalls
import WebSocket.Proofs.TextSending
import WebSocket.Proofs.RegistryMirror
import WebSocket.Proofs.Deadlines
import WebSocket.Proofs.OutputBounds
import WebSocket.Proofs.TextValidity
import WebSocket.Proofs.LegacyStream
import WebSocket.Proofs.DecoderFaults
import WebSocket.Proofs.PeerClose
import WebSocket.Proofs.ByteSearch
import WebSocket.Proofs.Splitting
import WebSocket.Proofs.HeaderLookup
import WebSocket.Proofs.VersionGate
import WebSocket.Proofs.RequestLine
import WebSocket.Proofs.DecimalReading
import WebSocket.Proofs.KeyNumbers
import WebSocket.Proofs.CommandReading
import WebSocket.Proofs.LineComments
import WebSocket.Proofs.CommandRoundTrip
import WebSocket.Proofs.BoundedBuffer
import WebSocket.Proofs.ReceiveTermination
