import SocketRpc.Binary64.Basic
import SocketRpc.Binary64.Literal
import SocketRpc.Binary64.Shortest
import SocketRpc.Client.Error
import SocketRpc.Client.Network
import SocketRpc.Client.Session
import SocketRpc.Client.Settings
import SocketRpc.CommandLine.Options
import SocketRpc.CommandLine.Parse
import SocketRpc.CommandLine.Run
import SocketRpc.CommandLine.Value
import SocketRpc.Decoder.Basic
import SocketRpc.Decoder.Record
import SocketRpc.Duration
import SocketRpc.Framing.Boundary
import SocketRpc.Framing.Reply
import SocketRpc.Framing.Scan
import SocketRpc.Framing.Stream
import SocketRpc.IoError
import SocketRpc.Json.Basic
import SocketRpc.Json.Document
import SocketRpc.Json.Error
import SocketRpc.Json.Numeral
import SocketRpc.Json.Quoted
import SocketRpc.Json.Reader
import SocketRpc.Json.Writer
import SocketRpc.Main
import SocketRpc.Rpc.Error
import SocketRpc.Rpc.Id
import SocketRpc.Rpc.Params
import SocketRpc.Rpc.Request
import SocketRpc.Rpc.Response
import SocketRpc.Rpc.Version
import SocketRpc.Text.Ascii
import SocketRpc.Text.Blank
import SocketRpc.Text.Integer
import SocketRpc.Text.Plain
import SocketRpc.Text.Printable
import SocketRpc.Text.Quoted
import SocketRpc.Text.Utf8
import SocketRpc.Proofs.Json.Reading
import SocketRpc.Proofs.Framing.Verdict
import SocketRpc.Proofs.Framing.Gate
import SocketRpc.Proofs.Framing.Delimited
import SocketRpc.Proofs.Framing.Literal
import SocketRpc.Proofs.Framing.Chunking
import SocketRpc.Proofs.Framing.Whole
import SocketRpc.Proofs.Json.Spelling
import SocketRpc.Proofs.Json.Writing
import SocketRpc.Proofs.Rpc.Response
import SocketRpc.Proofs.Client.Reply
import SocketRpc.Proofs.Json.Places
import SocketRpc.Proofs.Framing.Splitting
import SocketRpc.Proofs.Client.Correlation
import SocketRpc.Proofs.Json.Nesting
import SocketRpc.Proofs.Json.Canonical
import SocketRpc.Proofs.Decoding.Agreement
import SocketRpc.Proofs.Decoding.Records
import SocketRpc.Proofs.Rpc.Params
import SocketRpc.Proofs.Rpc.Paths
import SocketRpc.Proofs.Rpc.Request
import SocketRpc.Proofs.Rpc.Exclusion
import SocketRpc.Proofs.Rpc.RoundTrip
import SocketRpc.Proofs.Client.Echo
import SocketRpc.Proofs.Client.Refusal
import SocketRpc.Proofs.Decoding.Depth
import SocketRpc.Proofs.Json.OneLine
import SocketRpc.Proofs.CommandLine.Output
import SocketRpc.Proofs.Binary64.Order
import SocketRpc.Proofs.Json.Scaling
import SocketRpc.Proofs.Json.Range
import SocketRpc.Proofs.Framing.Finality
import SocketRpc.Proofs.Framing.Promptness
import SocketRpc.Proofs.CommandLine.Legibility
import SocketRpc.Proofs.Framing.Documents
import SocketRpc.Proofs.Framing.Exits
import SocketRpc.Proofs.Json.Short
import SocketRpc.Proofs.Framing.Scalar
import SocketRpc.Proofs.Decoding.Lookup
import SocketRpc.Proofs.Rpc.Members
import SocketRpc.Proofs.Rpc.Forms
import SocketRpc.Proofs.Json.Grammar
import SocketRpc.Proofs.Framing.Closing
import SocketRpc.Proofs.CommandLine.Arguments
import SocketRpc.Proofs.CommandLine.Parameters
import SocketRpc.Proofs.CommandLine.Timeouts
