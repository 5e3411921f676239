import NodeMcu.CompMsg.Encryption
import NodeMcu.CompMsg.Identify
import NodeMcu.Lib.Run
import NodeMcu.CompMsg.Reception
import NodeMcu.CompMsg.Recovery
import NodeMcu.CompMsg.BufferSafety
import NodeMcu.CompMsg.Chunking
import NodeMcu.CompMsg.Request
import NodeMcu.CompMsg.Reassembly
import NodeMcu.CompMsg.LifeCycle
import NodeMcu.Lib.Table
import NodeMcu.CompMsg.TypesAndNames
import NodeMcu.CompMsg.NameTable
import NodeMcu.CompMsg.RefCounts
import NodeMcu.CompMsg.NameIds
import NodeMcu.CompMsg.LayoutAgreement
import NodeMcu.CompMsg.MsgDesc
import NodeMcu.CompMsg.HeaderLength
import NodeMcu.CompMsg.FieldSequence
import NodeMcu.CompMsg.DescLines
import NodeMcu.CompMsg.DescriptionLookup
import NodeMcu.CompMsg.DataValues
import NodeMcu.CompMsg.UniqueFields
import NodeMcu.Lib.OnceMap
import NodeMcu.CompMsg.ValueMap
import NodeMcu.CompMsg.Deletion
import NodeMcu.CompMsg.HeaderChecks
import NodeMcu.CompMsg.Selection
import NodeMcu.CompMsg.CrcWidths
import NodeMcu.CompMsg.Answers
import NodeMcu.Lib.Reading
import NodeMcu.Mqtt.Msg
import NodeMcu.Mqtt.Publication
import NodeMcu.Mqtt.Client
import NodeMcu.Mqtt.SegmentSafety
import NodeMcu.Mqtt.ServerPackets
import NodeMcu.Mqtt.Segments
import NodeMcu.Mqtt.Handlers
import NodeMcu.Mqtt.Runs
import NodeMcu.Mqtt.Sending
import NodeMcu.Mqtt.Acknowledgements
import NodeMcu.Lib.Ring
import NodeMcu.Rtc.Fifo
import NodeMcu.Rtc.Slots
import NodeMcu.Rtc.Contents
import NodeMcu.Rtc.Location
import NodeMcu.Rtc.Prepared
import NodeMcu.Rtc.Rings
import NodeMcu.Socket.SendMsg
import NodeMcu.Socket.Sending
import NodeMcu.Socket.Delivery
import NodeMcu.Socket.ParseSafety
import NodeMcu.Lib.Search
import NodeMcu.Lib.Text
import NodeMcu.Ota.Upgrade
import NodeMcu.Ota.HttpHeader
import NodeMcu.Ota.Download
import NodeMcu.Rtc.Clock
import NodeMcu.Rtc.UnitCycles
import NodeMcu.Rtc.Sources
import NodeMcu.Rtc.Alignment
import NodeMcu.Rtc.TimeOfDay
import NodeMcu.Rtc.Setting
import NodeMcu.Coap.Codec
import NodeMcu.Coap.Fidelity
import NodeMcu.Coap.OutputSafety
import NodeMcu.Coap.RoundTrip
import NodeMcu.Mqtt.MessageIds
import NodeMcu.Mqtt.TotalLength
import NodeMcu.Mqtt.Builders
import NodeMcu.Lib.Delays
import NodeMcu.Coap.Retransmission
import NodeMcu.Coap.Deadlines
import NodeMcu.Coap.DeltaQueue
import NodeMcu.Coap.Endpoints
import NodeMcu.Coap.Answering
import NodeMcu.Coap.WellKnown
import NodeMcu.Coap.Schedule
import NodeMcu.Coap.Pointers
import NodeMcu.Coap.SplitUri
import NodeMcu.Coap.MakeRequest
import NodeMcu.Coap.Segments
import NodeMcu.Coap.RequestOptions
import NodeMcu.Http.Request
import NodeMcu.Http.Response
import NodeMcu.Http.Chunked
import NodeMcu.Http.Accumulation
import NodeMcu.CompMsg.Accessors
import NodeMcu.CompMsg.Vectors
import NodeMcu.CompMsg.FieldValues
import NodeMcu.CompMsg.CrcDetection
import NodeMcu.Socket.FrameRoundTrip
import NodeMcu.Lib.Slots
import NodeMcu.CompMsg.Handles
import NodeMcu.CompMsg.ValueChange
import NodeMcu.CompMsg.Callbacks
import NodeMcu.CompMsg.DataFields
import NodeMcu.CompMsg.FieldFrames
import NodeMcu.CompMsg.HttpParse
import NodeMcu.CompMsg.HttpLines
import NodeMcu.CompMsg.HttpWalk
import NodeMcu.CompMsg.HttpSafety
import NodeMcu.CompMsg.HttpMessages
import NodeMcu.CompMsg.RequestSlots
import NodeMcu.Lib.Lines
import NodeMcu.CompMsg.LineReader
import NodeMcu.Lib.Sextets
import NodeMcu.Encoder.Base64
import NodeMcu.Encoder.RoundTrip
import NodeMcu.Lib.Window
import NodeMcu.Rotary.Driver
import NodeMcu.Rotary.Queue
import NodeMcu.CompMsg.WifiScan
import NodeMcu.CompMsg.DescFiles
import NodeMcu.CompMsg.DescAcceptance
import NodeMcu.Mdns.Names
import NodeMcu.Mdns.Comparison
import NodeMcu.Mdns.Receive
import NodeMcu.Mdns.Questions
import NodeMcu.Mdns.ServiceAnswer
import NodeMcu.Lib.Block
import NodeMcu.Lib.Printing
import NodeMcu.EnduserSetup.Page
import NodeMcu.EnduserSetup.Credentials
import NodeMcu.Lib.Json
import NodeMcu.EnduserSetup.ScanList
import NodeMcu.Crypto.Mech
import NodeMcu.Lib.Covering
import NodeMcu.Platform.Flash
import NodeMcu.Sntp.Correction
import NodeMcu.Sntp.Sync
import NodeMcu.Tmr.Uptime
import NodeMcu.Tmr.Slots
import NodeMcu.Ws2812.Buffer
import NodeMcu.Lib.Packed
import NodeMcu.Task.Handles
import NodeMcu.Lib.Descent
import NodeMcu.OneWire.Devices
import NodeMcu.OneWire.Search
import NodeMcu.Lib.Crc
import NodeMcu.OneWire.Crc
import NodeMcu.OneWire.Family
import NodeMcu.Http.LifeCycle
import NodeMcu.EnduserSetup.Dns
import NodeMcu.Uart.Receive
import NodeMcu.Uart.Console
import NodeMcu.Uart.Data
import NodeMcu.Uart.Lines
import NodeMcu.Lib.Masks
import NodeMcu.Gpio.Hooks
import NodeMcu.Lua.References
import NodeMcu.Gpio.Trig
import NodeMcu.Lib.Absorb
import NodeMcu.Lib.Endian
import NodeMcu.Crypto.Sha2
import NodeMcu.Crypto.Standard
import NodeMcu.Crypto.Streaming
import NodeMcu.Crypto.Digests
import NodeMcu.EnduserSetup.ScanListeners
