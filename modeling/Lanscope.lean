import Lanscope.App.Accounting
import Lanscope.App.Classification
import Lanscope.App.Detection
import Lanscope.App.EventLog
import Lanscope.App.Export
import Lanscope.App.Growth
import Lanscope.App.Hostnames
import Lanscope.App.Monitor
import Lanscope.App.Presence
import Lanscope.App.Process
import Lanscope.App.Provenance
import Lanscope.App.Redelivery
import Lanscope.App.Sender
import Lanscope.App.Shutdown
import Lanscope.App.Traffic
import Lanscope.Anomaly.Isolation
import Lanscope.Anomaly.PortScan
import Lanscope.Anomaly.VolumeSpike
import Lanscope.Decode.Headers
import Lanscope.Decode.Losses
import Lanscope.Decode.ParameterList
import Lanscope.Ebpf.Aggregate
import Lanscope.Ebpf.Delivery
import Lanscope.Ebpf.Fragments
import Lanscope.Ebpf.Transport
import Lanscope.Features
import Lanscope.Fingerprint.Evidence
import Lanscope.Netfmt.Parse
import Lanscope.Registry.Addresses
import Lanscope.Registry.Clock
