import LuaMumble.Lib.Machine
import LuaMumble.Lib.LittleEndian
import LuaMumble.Lib.ReplayWindow
import LuaMumble.Ocb.Block
import LuaMumble.Ocb.Cipher
import LuaMumble.Ocb.RoundTrip
import LuaMumble.Crypt.State
import LuaMumble.Crypt.IvGuess
import LuaMumble.Crypt.Receive
import LuaMumble.Crypt.Session
import LuaMumble.Crypt.Delivery
import LuaMumble.Crypt.Replay
import LuaMumble.Ocb.Doubling
import LuaMumble.Crypt.Acceptance
import LuaMumble.Crypt.Accounting
import LuaMumble.Crypt.Rekey
import LuaMumble.Tcp.Framing
import LuaMumble.Hook.Call
import LuaMumble.Hook.Traversal
import LuaMumble.Hook.Balance
import LuaMumble.Hook.Results
import LuaMumble.Lib.TracedRead
import LuaMumble.Voice.Varint
import LuaMumble.Voice.Speaking
import LuaMumble.Voice.Bounds
import LuaMumble.Tcp.Boundaries
import LuaMumble.Tcp.Sender
import LuaMumble.Buffer.State
import LuaMumble.Lib.RewindQueue
import LuaMumble.Buffer.Commands
import LuaMumble.Buffer.VarInt
import LuaMumble.Buffer.Heads
import LuaMumble.Buffer.TypedStream
import LuaMumble.Lib.Precision
import LuaMumble.Voice.Decoding
import LuaMumble.Audio.Ring
import LuaMumble.Audio.Playback
import LuaMumble.Audio.Progress
import LuaMumble.Audio.Lossless
import LuaMumble.Audio.Restart
import LuaMumble.Audio.Reclaim
import LuaMumble.Audio.StreamView
import LuaMumble.Audio.Reclamation
import LuaMumble.Audio.RingSteps
import LuaMumble.Audio.RingInterleaving
import LuaMumble.Client.Objects
import LuaMumble.Client.Announced
import LuaMumble.Client.VoicePackets
import LuaMumble.Lib.LinkedQueue
import LuaMumble.Thread.Controller
import LuaMumble.Voice.UdpPing
import LuaMumble.Thread.Lifetime
import LuaMumble.Thread.Payload
import LuaMumble.Client.Lifecycle
import LuaMumble.Audio.Encode
import LuaMumble.Audio.Mixer
import LuaMumble.Crypt.Speculation
import LuaMumble.Voice.Utterances
import LuaMumble.Audio.Pipeline
import LuaMumble.Audio.Registry
import LuaMumble.Lib.LoopTimer
import LuaMumble.Timer.State
import LuaMumble.Timer.Outlive
import LuaMumble.Client.Connection
import LuaMumble.Client.Recording
import LuaMumble.Lib.BinaryFraction
import LuaMumble.Voice.Timeline
import LuaMumble.Userdata.State
import LuaMumble.Userdata.Contents
import LuaMumble.Userdata.Said
import LuaMumble.Buffer.Decode
import LuaMumble.Buffer.Agreement
import LuaMumble.Buffer.VarIntStream
import LuaMumble.Buffer.ReadLimits
import LuaMumble.Buffer.Transfer
import LuaMumble.Lib.LocalArray
import LuaMumble.Transmit.PacketBuilder
import LuaMumble.Lib.Protobuf
import LuaMumble.Transmit.AudioMessage
import LuaMumble.Transmit.ClientTransmit
import LuaMumble.Transmit.LegacyRoundTrip
import LuaMumble.Transmit.Bounded
import LuaMumble.Audio.Control
import LuaMumble.Audio.EndHook
import LuaMumble.Audio.Fade
import LuaMumble.Lib.Bag
import LuaMumble.User.State
import LuaMumble.Userdata.PermissionCache
import LuaMumble.Userdata.Links
import LuaMumble.User.BinaryFields
import LuaMumble.User.Listens
import LuaMumble.Args.RepeatedField
import LuaMumble.Args.TableLength
import LuaMumble.Args.Varargs
import LuaMumble.Lib.Tokens
import LuaMumble.Userdata.ChannelPath
import LuaMumble.Userdata.PathString
import LuaMumble.Audio.FadeOut
import LuaMumble.Audio.Locks
import LuaMumble.Audio.Blocking
import LuaMumble.Lib.BinaryPolynomial
import LuaMumble.Ocb.Field
import LuaMumble.Lib.CellHeap
import LuaMumble.Util.LinkNode
import LuaMumble.Buffer.Index
import LuaMumble.Client.Version
import LuaMumble.Client.Address
import LuaMumble.Client.PingStatistics
import LuaMumble.Audio.Conversion
import LuaMumble.Audio.ProcessAudio
import LuaMumble.Audio.Bandwidth
import LuaMumble.Audio.MixBuffer
import LuaMumble.Audio.MixCondition
import LuaMumble.Lib.RefTable
import LuaMumble.Registry.State
import LuaMumble.Registry.Economy
import LuaMumble.Registry.Clients
import LuaMumble.Registry.ScriptData
import LuaMumble.Hook.Registration
import LuaMumble.Pipe.Life
import LuaMumble.Audio.Shutdown
import LuaMumble.Crypt.Resync
import LuaMumble.User.Presence
import LuaMumble.Audio.Pacing
import LuaMumble.Thread.Ending
import LuaMumble.Lib.TableBuilder
import LuaMumble.Packet.Handlers
import LuaMumble.Packet.Events
import LuaMumble.Packet.Told
