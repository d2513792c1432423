import Capnproto.Stream.Lossless
import Capnproto.Frame.Init
import Capnproto.Pointer.Chain
import Capnproto.Frame.RoundTrip
import Capnproto.Frame.Streaming
import Capnproto.Object.Build
import Capnproto.Frame.Alike
import Capnproto.Graph.Sound
import Capnproto.Rpc.World
import Capnproto.Rpc.Step
import Capnproto.Rpc.Pipeline
import Capnproto.Rpc.Sends
import Capnproto.Rpc.Returns
import Capnproto.Rpc.Embargo
import Capnproto.Rpc.Joins
import Capnproto.Rpc.Refs
import Capnproto.Object.Access
import Capnproto.Object.Lazy
import Capnproto.Object.Alloc
import Capnproto.Object.Atomic
import Capnproto.Object.Complete
import Capnproto.Graph.Tour
import Capnproto.Canonical.Canonicalize
import Capnproto.Object.Errors
import Capnproto.Rpc.JoinSets
import Capnproto.Rpc.Answers
import Capnproto.Rpc.Client
import Capnproto.Rpc.Questions
import Capnproto.Rpc.Streams
import Capnproto.Rpc.Exchange
import Capnproto.Rpc.Provisions
import Capnproto.Rpc.Wire
import Capnproto.Rpc.ThirdParty
import Capnproto.Rpc.Introductions
import Capnproto.Object.ReadBack
import Capnproto.Object.Clone
import Capnproto.Object.Content
import Capnproto.Object.Entries
import Capnproto.Object.CopyPtr
import Capnproto.Object.Copying
import Capnproto.Object.CopySlot
import Capnproto.Object.DeepCopy
import Capnproto.Object.CopyCall
import Capnproto.Object.Limits
import Capnproto.Graph.Ending
import Capnproto.Frame.Sources
import Capnproto.Frame.Readers
import Capnproto.Frame.Reencode
import Capnproto.Frame.Refill
import Capnproto.Frame.ReadAlike
import Capnproto.Frame.Truncate
import Capnproto.Frame.Sequence
import Capnproto.Rpc.CapReturn
import Capnproto.Rpc.Handoff
import Capnproto.Object.Bulk
import Capnproto.Object.Bits
import Capnproto.Compiler.Generate
import Capnproto.Compiler.Members
import Capnproto.Compiler.Emission
import Capnproto.Compiler.Complete
import Capnproto.Object.Confined
import Capnproto.Object.Shortcut
import Capnproto.Compiler.Request
import Capnproto.Compiler.Files
import Capnproto.Compiler.Alone
import Capnproto.Object.Segtree
import Capnproto.Object.Reserve
import Capnproto.Object.Storage
import Capnproto.Object.PtrWords
import Capnproto.Stream.Finish
import Capnproto.Stream.Rechunk
import Capnproto.Object.Lookup
import Capnproto.Object.Regrow
import Capnproto.Compiler.Accessors
import Capnproto.Object.Text
import Capnproto.Rpc.Received
import Capnproto.Rpc.Exceptions
import Capnproto.Compiler.Codec
import Capnproto.Compiler.Agree
import Capnproto.Compiler.Calls
import Capnproto.Stream.InPlace
import Capnproto.Frame.PackTable
import Capnproto.Framework.RedBlack
import Capnproto.Object.Balance
import Capnproto.Object.TreeHeap
import Capnproto.Object.TreeIndex
import Capnproto.Object.TreeUsers
import Capnproto.Canonical.Measured
import Capnproto.Object.Transfer
import Capnproto.Object.Picture
import Capnproto.Frame.Delivery
