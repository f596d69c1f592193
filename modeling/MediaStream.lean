import MediaStream.Lib.Machine
import MediaStream.Lib.SharedLog
import MediaStream.Lib.KeySort
import MediaStream.Lib.Insertion
import MediaStream.Lib.Collector
import MediaStream.TCPS.ClientList
import MediaStream.TCPS.Broadcast
import MediaStream.TCPS.Server
import MediaStream.OnlineAV.Packets
import MediaStream.OnlineAV.VideoSend
import MediaStream.OnlineAV.VideoPlayback
import MediaStream.OnlineAV.SentFrame
import MediaStream.OnlineAV.RoundTrip
import MediaStream.OnlineAV.Bounds
import MediaStream.OnlineAV.Duplicates
import MediaStream.OnlineAV.Senders
import MediaStream.OnlineAV.Traffic
import MediaStream.OnlineAV.AudioPlayback
import MediaStream.TCPMeasure.Progress
import MediaStream.TCPMeasure.Matching
import MediaStream.Lib.Framing
import MediaStream.TCPS.Survival
import MediaStream.TCPS.Backpressure
import MediaStream.TCPS.Alignment
import MediaStream.TCPMeasure.Audio.Integrity
import MediaStream.OnlineTracks.Shutdown
import MediaStream.OnlineTracks.Audio
import MediaStream.OnlineAV.Shutdown
import MediaStream.TCPS.Client.Descriptors
import MediaStream.OnlineAV.Partition
import MediaStream.OnlineAV.Discovery
import MediaStream.OnlineAV.Numbering
import MediaStream.OnlineAV.LateJoin
import MediaStream.OnlineAV.Leftovers
import MediaStream.StopStreaming
import MediaStream.TCPS.Measure
import MediaStream.TCPS.Client.Playback
import MediaStream.WebRTC.SignalingClient
import MediaStream.WebRTC.SignalingServer
import MediaStream.WebRTC.SignalingRun
import MediaStream.WebRTC.Ws.Handshake
import MediaStream.UDPaudio.Measurements
import MediaStream.CaptureSend
import MediaStream.TCPS.Client.Retry
import MediaStream.TCPS.Client.Optional
import MediaStream.TCPS.Network
import MediaStream.TCPS.Startup
import MediaStream.TCPattempt.Descriptors
import MediaStream.TCPattempt.Shutdown
import MediaStream.TCPattempt.Views
import MediaStream.IPcheck.Conversation
import MediaStream.OnlineAV.Measure
import MediaStream.TCPMeasure.Reports
import MediaStream.TCPMeasure.Audio.Total
import MediaStream.Sigchld
import MediaStream.OnlineAV.Accounts
import MediaStream.OnlineAV.Network
