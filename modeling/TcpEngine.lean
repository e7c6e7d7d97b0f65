import TcpEngine.Link
import TcpEngine.Ring.Lemmas
import TcpEngine.Proofs.Act
import TcpEngine.Proofs.Circle
import TcpEngine.Proofs.Connection.Move
import TcpEngine.Proofs.Connection.Handlers
import TcpEngine.Proofs.Stack.Calls
import TcpEngine.Proofs.Stack.Events
import TcpEngine.Proofs.Connection.Coherence
import TcpEngine.Proofs.Stack.History
import TcpEngine.Proofs.Completion
import TcpEngine.Proofs.Connection.Limits
import TcpEngine.Proofs.Connection.Window
import TcpEngine.Proofs.Acknowledgment
import TcpEngine.Proofs.Stack.Among
import TcpEngine.Proofs.Wire
import TcpEngine.Proofs.Stream
import TcpEngine.Proofs.Connection.Hearing
import TcpEngine.Proofs.Connection.Telling
import TcpEngine.Proofs.Connection.Speaking
import TcpEngine.Proofs.Connection.Settling
import TcpEngine.Proofs.Connection.Course
import TcpEngine.Proofs.Connection.Outcome
import TcpEngine.Proofs.Connection.Closing
import TcpEngine.Proofs.Stack.Offering
import TcpEngine.Proofs.Stack.Life
import TcpEngine.Proofs.Emission
import TcpEngine.Proofs.Reception
import TcpEngine.Proofs.SendOrder
import TcpEngine.Proofs.Phases
import TcpEngine.Proofs.Attendance
import TcpEngine.Proofs.Handshake
import TcpEngine.Proofs.Duplicates
import TcpEngine.Proofs.Stack.Settings
import TcpEngine.Proofs.Connection.Reviewing
import TcpEngine.Proofs.Connection.Passing
import TcpEngine.Proofs.Announcement
import TcpEngine.Proofs.FlowControl
import TcpEngine.Proofs.Quiescence
import TcpEngine.Proofs.Stack.Single
import TcpEngine.Proofs.Exchange.Standing
import TcpEngine.Proofs.Exchange.Arrivals
import TcpEngine.Proofs.Exchange.Calls
import TcpEngine.Proofs.Exchange.Basic
import TcpEngine.Proofs.Exchange.Invariant
import TcpEngine.Proofs.Exchange.Integrity
import TcpEngine.Proofs.Exchange.Records
import TcpEngine.Proofs.Exchange.Agreement
import TcpEngine.Proofs.Link.Unrest
import TcpEngine.Proofs.CallOrder
import TcpEngine.Proofs.Connection.Estimate
import TcpEngine.Proofs.Retransmission
import TcpEngine.Proofs.Scaling
import TcpEngine.Proofs.Checksum
import TcpEngine.Proofs.Legibility
import TcpEngine.Proofs.Connection.Success
import TcpEngine.Proofs.Faultless
import TcpEngine.Proofs.Answering
import TcpEngine.Proofs.Connection.Equipped
import TcpEngine.Proofs.Stack.Utterance
import TcpEngine.Proofs.HalfOpen
import TcpEngine.Proofs.Connection.Gaining
import TcpEngine.Proofs.Connection.Counting
import TcpEngine.Proofs.RightEdge
import TcpEngine.Proofs.Codec
import TcpEngine.Proofs.Refusal
import TcpEngine.Proofs.Finality
import TcpEngine.Proofs.Detection
import TcpEngine.Proofs.Admission
import TcpEngine.Proofs.Connection.Overtaking
import TcpEngine.Proofs.Reordering
import TcpEngine.Proofs.Connection.Twins
import TcpEngine.Proofs.Renewal
import TcpEngine.Proofs.Ring.Copying
import TcpEngine.Proofs.Ring.Fifo
import TcpEngine.Proofs.Undoing
import TcpEngine.Proofs.Connection.Diagram
import TcpEngine.Proofs.Transitions
import TcpEngine.Proofs.Stack.Locality
import TcpEngine.Proofs.Isolation
import TcpEngine.Proofs.Expiry
import TcpEngine.Proofs.Coincidence
import TcpEngine.Proofs.Intake
import TcpEngine.Proofs.Urgency
import TcpEngine.Proofs.Acceptance
import TcpEngine.Proofs.OnesComplement
import TcpEngine.Proofs.SipHash
import TcpEngine.Proofs.InitialSeq
import TcpEngine.Proofs.Fitting
import TcpEngine.Proofs.Assurance
