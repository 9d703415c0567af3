import EmbeddedAudio.Results
import EmbeddedAudio.Storage
import EmbeddedAudio.WsReceiver
import EmbeddedAudio.WsFeed
import EmbeddedAudio.WsFrames
import EmbeddedAudio.WsPrompt
import EmbeddedAudio.WsIdle
import EmbeddedAudio.JsonReader
import EmbeddedAudio.JsonBound
import EmbeddedAudio.ServerMessages
import EmbeddedAudio.JsonText
import EmbeddedAudio.JsonSkip
import EmbeddedAudio.JsonLookup
import EmbeddedAudio.JsonWhitespace
import EmbeddedAudio.ClientMessages
import EmbeddedAudio.SendspinClient
import EmbeddedAudio.SendspinLog
import EmbeddedAudio.SendspinReconnect
import EmbeddedAudio.SendspinUpgrade
import EmbeddedAudio.SendspinDisconnect
import EmbeddedAudio.SendspinCodecs
import EmbeddedAudio.JsonView
import EmbeddedAudio.ServerNumbers
import EmbeddedAudio.WsShown
import EmbeddedAudio.SendspinStream
import EmbeddedAudio.SendspinTuned
import EmbeddedAudio.SendspinAudio
import EmbeddedAudio.RingCursor
import EmbeddedAudio.Reservoir
import EmbeddedAudio.Spsc
import EmbeddedAudio.SpscFifo
import EmbeddedAudio.SpscCalls
import EmbeddedAudio.SpscPulls
import EmbeddedAudio.SpscDrain
import EmbeddedAudio.SpscGate
import EmbeddedAudio.Pipeline
import EmbeddedAudio.PipelineLifecycle
import EmbeddedAudio.PipelineContainment
import EmbeddedAudio.BtIngress
import EmbeddedAudio.LogLaw
import EmbeddedAudio.BtQueue
import EmbeddedAudio.BtLoss
import EmbeddedAudio.LmsProtocol
import EmbeddedAudio.LmsClient
import EmbeddedAudio.LmsLimits
import EmbeddedAudio.LmsStream
import EmbeddedAudio.LmsMoves
import EmbeddedAudio.LmsCommands
import EmbeddedAudio.LmsHttp
import EmbeddedAudio.LmsPump
import EmbeddedAudio.LmsCalls
import EmbeddedAudio.Groups
import EmbeddedAudio.LmsCourse
import EmbeddedAudio.LmsSamples
import EmbeddedAudio.LmsTracked
import EmbeddedAudio.LmsLaws
import EmbeddedAudio.LmsBody
import EmbeddedAudio.LmsWire
import EmbeddedAudio.WsReassembly
import EmbeddedAudio.WsRoundTrip
import EmbeddedAudio.WsBounds
import EmbeddedAudio.SendspinWire
import EmbeddedAudio.BtReceipts
import EmbeddedAudio.BtDecoder
import EmbeddedAudio.DecodeWorker
import EmbeddedAudio.I2sSink
import EmbeddedAudio.PipelineSizes
import EmbeddedAudio.Player
import EmbeddedAudio.PlayerMoves
import EmbeddedAudio.PlayerControl
import EmbeddedAudio.PlayerStream
import EmbeddedAudio.PlayerStalls
import EmbeddedAudio.PlayerPrefill
import EmbeddedAudio.BoardVolume
import EmbeddedAudio.Q31
import EmbeddedAudio.SendspinPlayer
import EmbeddedAudio.SendspinDrops
import EmbeddedAudio.SendspinFeed
import EmbeddedAudio.LittleEndian
import EmbeddedAudio.Samples
import EmbeddedAudio.BlockRing
import EmbeddedAudio.PcmAdapter
import EmbeddedAudio.WavFile
import EmbeddedAudio.WavReads
import EmbeddedAudio.Converters
import EmbeddedAudio.Board
import EmbeddedAudio.BoardPause
import EmbeddedAudio.BoardLifecycle
import EmbeddedAudio.JsonUnescape
import EmbeddedAudio.JsonTree
import EmbeddedAudio.MessageWriter
import EmbeddedAudio.MessageText
import EmbeddedAudio.MessageReads
import EmbeddedAudio.SignedRange
import EmbeddedAudio.Biquad
import EmbeddedAudio.Mealy
import EmbeddedAudio.Lanes
import EmbeddedAudio.DspNodes
import EmbeddedAudio.DspSplit
import EmbeddedAudio.LmsFeed
import EmbeddedAudio.RiffChunks
import EmbeddedAudio.WavFrames
import EmbeddedAudio.TimeExchange
import EmbeddedAudio.Resample
import EmbeddedAudio.ResampleIndex
import EmbeddedAudio.Ramp
import EmbeddedAudio.BtVolume
import EmbeddedAudio.SpscFade
import EmbeddedAudio.OpusAdapter
import EmbeddedAudio.ControlQueue
import EmbeddedAudio.DecAwait
import EmbeddedAudio.NumberClamp
import EmbeddedAudio.LmsLines
import EmbeddedAudio.LmsHeaders
import EmbeddedAudio.JsonRaw
import EmbeddedAudio.FieldLookups
import EmbeddedAudio.Lockstep
import EmbeddedAudio.JsonPointers
import EmbeddedAudio.JsonLoads
import EmbeddedAudio.MessageLoads
import EmbeddedAudio.JsonPacked
import EmbeddedAudio.StreamRoles
import EmbeddedAudio.SlotPool
import EmbeddedAudio.Speaker
import EmbeddedAudio.SpeakerTasks
import EmbeddedAudio.SpeakerPolicy
import EmbeddedAudio.SpeakerMemory
import EmbeddedAudio.SpeakerVolume
import EmbeddedAudio.SpeakerTexts
import EmbeddedAudio.SpeakerTrack
import EmbeddedAudio.Reads
import EmbeddedAudio.StreamDecoder
import EmbeddedAudio.FlacAdapter
import EmbeddedAudio.Mp3Adapter
import EmbeddedAudio.VorbisAdapter
import EmbeddedAudio.FirstMatch
import EmbeddedAudio.OtaUpload
import EmbeddedAudio.OtaLines
import EmbeddedAudio.OtaImages
import EmbeddedAudio.LastRing
import EmbeddedAudio.BoardLog
import EmbeddedAudio.BoardLogTurns
import EmbeddedAudio.WavPlayback
import EmbeddedAudio.BtSound
import EmbeddedAudio.BtSoundKept
import EmbeddedAudio.BtSoundSeen
import EmbeddedAudio.BtSoundWakes
