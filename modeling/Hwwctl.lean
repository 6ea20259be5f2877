import Hwwctl.Library.Machine
import Hwwctl.Library.Loop
import Hwwctl.Library.Ring
import Hwwctl.Library.StableSort
import Hwwctl.Library.Lines
import Hwwctl.Library.Links
import Hwwctl.Library.Names
import Hwwctl.Library.Hex
import Hwwctl.Library.Words
import Hwwctl.Library.Calendar
import Hwwctl.Library.Decimal
import Hwwctl.Library.Protobuf
import Hwwctl.Library.Serde
import Hwwctl.Library.Walk
import Hwwctl.Protocol.Framing
import Hwwctl.Protocol.Varint
import Hwwctl.Protocol.Records
import Hwwctl.Protocol.Decode
import Hwwctl.Protocol.Fields
import Hwwctl.Protocol.WireClient
import Hwwctl.Protocol.Layout
import Hwwctl.Protocol.Proofs.FramingProofs
import Hwwctl.Protocol.Proofs.ScanProofs
import Hwwctl.Protocol.Proofs.SessionProofs
import Hwwctl.Protocol.Proofs.DecodeProofs
import Hwwctl.Protocol.Proofs.ReassemblyProofs
import Hwwctl.Protocol.Proofs.WireClientProofs
import Hwwctl.Protocol.Proofs.VarintProofs
import Hwwctl.Protocol.Proofs.CodecProofs
import Hwwctl.Protocol.Proofs.MessageProofs
import Hwwctl.Protocol.Proofs.FieldsProofs
import Hwwctl.Protocol.Proofs.TruncationProofs
import Hwwctl.Protocol.Proofs.LayoutProofs
import Hwwctl.Protocol.Proofs.ScreenProofs
import Hwwctl.Protocol.Proofs.AnswersProofs
import Hwwctl.Protocol.Proofs.RequestsProofs
import Hwwctl.Control.Types
import Hwwctl.Control.Framing
import Hwwctl.Control.Wire
import Hwwctl.Control.Proofs.FramingProofs
import Hwwctl.Control.Proofs.MnemonicProofs
import Hwwctl.Control.Proofs.WireProofs
import Hwwctl.Daemon.Events
import Hwwctl.Daemon.Instance
import Hwwctl.Daemon.Spawn
import Hwwctl.Daemon.LogDrain
import Hwwctl.Daemon.Run
import Hwwctl.Daemon.Connection
import Hwwctl.Daemon.Observed
import Hwwctl.Daemon.HidrawScan
import Hwwctl.Daemon.Proofs.LogDrainProofs
import Hwwctl.Daemon.Proofs.SpawnProofs
import Hwwctl.Daemon.Proofs.StatusProofs
import Hwwctl.Daemon.Proofs.RegistryProofs
import Hwwctl.Daemon.Proofs.RunProofs
import Hwwctl.Daemon.Proofs.NotifyProofs
import Hwwctl.Daemon.Proofs.DrainProofs
import Hwwctl.Daemon.Proofs.SocketPathProofs
import Hwwctl.Daemon.Proofs.ConnectionProofs
import Hwwctl.Daemon.Proofs.AcknowledgeProofs
import Hwwctl.Daemon.Proofs.CountersProofs
import Hwwctl.Daemon.Proofs.LogQueryProofs
import Hwwctl.Daemon.Proofs.HistoryProofs
import Hwwctl.Daemon.Proofs.LinearizableProofs
import Hwwctl.Daemon.Proofs.VisibilityProofs
import Hwwctl.Daemon.Proofs.HidrawProofs
import Hwwctl.Daemon.Proofs.ProgressProofs
import Hwwctl.Emulators.Trezor
import Hwwctl.Emulators.Output
import Hwwctl.Emulators.Attempt
import Hwwctl.Emulators.Proofs.OutputProofs
import Hwwctl.Emulators.Proofs.HonestProofs
import Hwwctl.Emulators.Proofs.OneChildProofs
import Hwwctl.Emulators.Proofs.ReadinessProofs
import Hwwctl.Emulators.Proofs.DrainedProofs
import Hwwctl.Bridge.Generic
import Hwwctl.Bridge.Device
import Hwwctl.Bridge.Tcp
import Hwwctl.Bridge.Relay
import Hwwctl.Bridge.ClientPath
import Hwwctl.Bridge.Paths
import Hwwctl.Bridge.Proofs.DeviceProofs
import Hwwctl.Bridge.Proofs.TcpProofs
import Hwwctl.Bridge.Proofs.UnixProofs
import Hwwctl.Bridge.Proofs.RelayProofs
import Hwwctl.Bridge.Proofs.StopProofs
import Hwwctl.Bridge.Proofs.SessionsProofs
import Hwwctl.Bridge.Proofs.TrezorProofs
import Hwwctl.Bridge.Proofs.ClientPathProofs
import Hwwctl.Bridge.Proofs.PathsProofs
import Hwwctl.Bridge.Proofs.AlignmentProofs
import Hwwctl.Bridge.Proofs.StartProofs
import Hwwctl.Bridge.Proofs.RunningProofs
import Hwwctl.Bridge.Proofs.DatagramProofs
import Hwwctl.Bridge.Proofs.BlocksProofs
import Hwwctl.Bridge.Proofs.UhidProofs
import Hwwctl.Bridge.Proofs.DeliveryProofs
import Hwwctl.Client.AutoSpawn
import Hwwctl.Client.Proofs.RunProofs
import Hwwctl.Client.Proofs.AutoSpawnProofs
import Hwwctl.Bundler.Disk
import Hwwctl.Bundler.Extract
import Hwwctl.Bundler.Storage
import Hwwctl.Bundler.Size
import Hwwctl.Bundler.Download
import Hwwctl.Bundler.AssetName
import Hwwctl.Bundler.Timestamp
import Hwwctl.Bundler.Members
import Hwwctl.Bundler.Contents
import Hwwctl.Bundler.Manager
import Hwwctl.Bundler.Proofs.ExtractProofs
import Hwwctl.Bundler.Proofs.AssetNameProofs
import Hwwctl.Bundler.Proofs.DiskProofs
import Hwwctl.Bundler.Proofs.DownloadProofs
import Hwwctl.Bundler.Proofs.InstallProofs
import Hwwctl.Bundler.Proofs.OverlayProofs
import Hwwctl.Bundler.Proofs.RenewalProofs
import Hwwctl.Bundler.Proofs.ReinstallProofs
import Hwwctl.Bundler.Proofs.SuccessProofs
import Hwwctl.Bundler.Proofs.TimestampProofs
import Hwwctl.Bundler.Proofs.ProgressProofs
import Hwwctl.Bundler.Proofs.CandidatesProofs
import Hwwctl.Bundler.Proofs.LaunchProofs
import Hwwctl.Bundler.Proofs.LandingProofs
import Hwwctl.Bundler.Proofs.ContentsProofs
import Hwwctl.Bundler.Proofs.ArrivalProofs
import Hwwctl.Bundler.Proofs.LossProofs
import Hwwctl.Bundler.Proofs.SizeProofs
import Hwwctl.Bundler.Proofs.RemoteProofs
import Hwwctl.Bundler.Proofs.ConfineProofs
import Hwwctl.Bundler.Proofs.RemoveProofs
import Hwwctl.Bundler.Proofs.StoreProofs
import Hwwctl.Bundler.Proofs.AtomicProofs
