import ParamSync.Address
import ParamSync.Alike
import ParamSync.Bytes
import ParamSync.Client
import ParamSync.Code
import ParamSync.Color
import ParamSync.Decimal.Shortest
import ParamSync.Field
import ParamSync.Ident
import ParamSync.Json.Basic
import ParamSync.Json.Client
import ParamSync.Json.Code
import ParamSync.Json.Hierarchy
import ParamSync.Json.Packet
import ParamSync.Json.Parameter
import ParamSync.Json.TypeDef
import ParamSync.Json.Value
import ParamSync.Localized
import ParamSync.Network.Basic
import ParamSync.Network.Queue
import ParamSync.Network.Transport
import ParamSync.Number.Basic
import ParamSync.Number.Binary
import ParamSync.Number.Single
import ParamSync.Oscillator
import ParamSync.Packet.Basic
import ParamSync.Packet.Info
import ParamSync.Packet.ValueUpdate
import ParamSync.Parameter.Basic
import ParamSync.Parameter.Codec
import ParamSync.Parameter.Inspect
import ParamSync.Proofs.Codec.Accepted
import ParamSync.Proofs.Codec.Announced
import ParamSync.Proofs.Codec.Bare
import ParamSync.Proofs.Codec.Cutting
import ParamSync.Proofs.Codec.Definition
import ParamSync.Proofs.Codec.Delimited
import ParamSync.Proofs.Codec.Delta
import ParamSync.Proofs.Codec.Envelope
import ParamSync.Proofs.Codec.Flags
import ParamSync.Proofs.Codec.Gaining
import ParamSync.Proofs.Codec.Incoming
import ParamSync.Proofs.Codec.Kinds
import ParamSync.Proofs.Codec.Lossless
import ParamSync.Proofs.Codec.Options
import ParamSync.Proofs.Codec.Overlong
import ParamSync.Proofs.Codec.Packet
import ParamSync.Proofs.Codec.Parameter
import ParamSync.Proofs.Codec.RoundTrip
import ParamSync.Proofs.Codec.Settled
import ParamSync.Proofs.Codec.ShortForm
import ParamSync.Proofs.Codec.Text
import ParamSync.Proofs.Codec.Translations
import ParamSync.Proofs.Codec.Unsupported
import ParamSync.Proofs.Codec.ValueAlone
import ParamSync.Proofs.Codec.Writes
import ParamSync.Proofs.Peers.Afresh
import ParamSync.Proofs.Peers.Announcement
import ParamSync.Proofs.Peers.Broadcast
import ParamSync.Proofs.Peers.Calls
import ParamSync.Proofs.Peers.Closed
import ParamSync.Proofs.Peers.Concurrent
import ParamSync.Proofs.Peers.Copies
import ParamSync.Proofs.Peers.Echo
import ParamSync.Proofs.Peers.Exchange
import ParamSync.Proofs.Peers.Handshake
import ParamSync.Proofs.Peers.Link
import ParamSync.Proofs.Peers.Listening
import ParamSync.Proofs.Peers.Moves
import ParamSync.Proofs.Peers.Opening
import ParamSync.Proofs.Peers.Outbox
import ParamSync.Proofs.Peers.Ports
import ParamSync.Proofs.Peers.Receive
import ParamSync.Proofs.Peers.Reception
import ParamSync.Proofs.Peers.Records
import ParamSync.Proofs.Peers.Relay
import ParamSync.Proofs.Peers.Removal
import ParamSync.Proofs.Peers.Replies
import ParamSync.Proofs.Peers.Runs
import ParamSync.Proofs.Peers.Session
import ParamSync.Proofs.Peers.Translations
import ParamSync.Proofs.Peers.Values
import ParamSync.Proofs.Peers.Views
import ParamSync.Proofs.Peers.Wires
import ParamSync.Proofs.Peers.Withdrawal
import ParamSync.Proofs.Registry.Allocation
import ParamSync.Proofs.Registry.Backlog
import ParamSync.Proofs.Registry.Changes
import ParamSync.Proofs.Registry.Dump
import ParamSync.Proofs.Registry.Eviction
import ParamSync.Proofs.Registry.Fitting
import ParamSync.Proofs.Registry.Forest
import ParamSync.Proofs.Registry.Ledger
import ParamSync.Proofs.Registry.Likeness
import ParamSync.Proofs.Registry.Links
import ParamSync.Proofs.Registry.Loops
import ParamSync.Proofs.Registry.Merging
import ParamSync.Proofs.Registry.Moving
import ParamSync.Proofs.Registry.Order
import ParamSync.Proofs.Registry.Orderly
import ParamSync.Proofs.Registry.Pending
import ParamSync.Proofs.Registry.Removal
import ParamSync.Proofs.Registry.Reports
import ParamSync.Proofs.Registry.Root
import ParamSync.Proofs.Registry.Run
import ParamSync.Proofs.Registry.Schemas
import ParamSync.Proofs.Registry.Silent
import ParamSync.Proofs.Registry.Snapshot
import ParamSync.Proofs.Registry.Steps
import ParamSync.Proofs.Registry.Subtree
import ParamSync.Proofs.Registry.Tick
import ParamSync.Proofs.Registry.Traversal
import ParamSync.Proofs.Registry.Unsent
import ParamSync.Registry.Basic
import ParamSync.Registry.Hierarchy
import ParamSync.Registry.Local
import ParamSync.Registry.Remote
import ParamSync.Registry.Sync
import ParamSync.Server.Basic
import ParamSync.Server.Config
import ParamSync.Text.Blank
import ParamSync.Text.Hex
import ParamSync.Text.Printable
import ParamSync.Text.Quoted
import ParamSync.Text.Utf8
import ParamSync.TypeDef.Basic
import ParamSync.TypeDef.Codec
import ParamSync.TypeDef.Custom
import ParamSync.TypeDef.Edit
import ParamSync.TypeDef.Number
import ParamSync.TypeDef.Scalar
import ParamSync.TypeDef.Text
import ParamSync.Value
import ParamSync.Wire.Codec
import ParamSync.Wire.Error
import ParamSync.Wire.Reader
