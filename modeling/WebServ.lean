import WebServ.Http.SizeLine
import WebServ.Http.Head
import WebServ.Lib.ChunkedReaders
import WebServ.Http.Framing
import WebServ.Http.BodyLimit
import WebServ.Client.ChunkDecoder
import WebServ.Client.DecoderAgreement
import WebServ.Http.Response
import WebServ.Lib.KeyedList
import WebServ.Lib.OffsetBuffer
import WebServ.Config.Route
import WebServ.Http.CgiResponse
import WebServ.Client.Client
import WebServ.Client.PendingQueues
import WebServ.Http.Handler
import WebServ.Server.Handlers
import WebServ.Server.Loop
import WebServ.Server.Frames
import WebServ.Lib.Runs
import WebServ.Lib.Fifo
import WebServ.Server.Connection
import WebServ.Server.Effects
import WebServ.Server.Moves
import WebServ.Server.Steps
import WebServ.Server.ScriptOutput
import WebServ.Server.ScriptInput
import WebServ.Server.OneResponse
import WebServ.Client.HandOver
import WebServ.Client.DecoderRun
import WebServ.Server.BodyTurns
import WebServ.Server.HandOver
import WebServ.Registry.Records
import WebServ.Server.Registration
import WebServ.Server.Ownership
import WebServ.Server.Children
import WebServ.Http.Grammar
import WebServ.Lib.Sweep
import WebServ.Server.Turns
import WebServ.Server.Accesses
import WebServ.Server.EventPass
import WebServ.Server.HeaderGate
import WebServ.Server.LengthHeader
import WebServ.Lib.Paths
import WebServ.Server.ScriptGate
import WebServ.Server.ScriptPath
import WebServ.Http.Uploads
import WebServ.Server.Entries
import WebServ.Server.Wakeups
import WebServ.Server.Removal
import WebServ.Server.BodyBound
import WebServ.Server.CountedBody
import WebServ.Config.Matching
import WebServ.Http.RequestPath
import WebServ.Http.HeadLines
import WebServ.Http.CgiFields
import WebServ.Server.CgiResponses
import WebServ.Config.Parser
import WebServ.Config.Accepted
import WebServ.Client.SizeValues
import WebServ.Config.SizeValues
import WebServ.Http.FormDecoding
import WebServ.Http.FileAnswers
import WebServ.Server.HeadAnswers
import WebServ.Server.ScriptCall
import WebServ.Server.FailedDispatch
import WebServ.Http.StoredParts
import WebServ.Config.TokenReads
import WebServ.Client.Refusals
import WebServ.Server.Requests
import WebServ.Server.FramingErrors
import WebServ.Lib.Progress
import WebServ.Server.PassEnds
import WebServ.Registry.Order
import WebServ.Server.Positions
import WebServ.Server.Timeouts
import WebServ.Server.BlockingRun
import WebServ.Lib.Fronted
import WebServ.Server.Listening
import WebServ.Server.Lifecycle
import WebServ.Server.Decisions
import WebServ.Server.InputStream
import WebServ.Server.Isolation
import WebServ.Config.Grammar
import WebServ.Config.Rendering
import WebServ.Config.Image
import WebServ.Server.Outgoing
import WebServ.Server.Delivery
import WebServ.Server.Attention
import WebServ.Server.Exchange
