import ForgeLink.Control.JournalRefinement
import ForgeLink.Control.QueueDepth
import ForgeLink.Control.QueueOutcome
import ForgeLink.Control.QueueCooldown
import ForgeLink.Buffer.WorkerGauges
import ForgeLink.Collector.Admission
import ForgeLink.Drivers.ModbusCodec
import ForgeLink.Drivers.S7Bits
import ForgeLink.Profile.Neighbours
import ForgeLink.Rest.LedgerTruth
import ForgeLink.Buffer.WorkerLateAcks
import ForgeLink.Buffer.WorkerReplay
import ForgeLink.Control.QueueAging
import ForgeLink.Drivers.ReadOnly
import ForgeLink.Drivers.S7Grammar
import ForgeLink.Drivers.S7Parsing
import ForgeLink.Drivers.McAttribution
import ForgeLink.Drivers.ModbusChecked
import ForgeLink.Mqtt.Inflight
import ForgeLink.Mqtt.Online
import ForgeLink.Drivers.EipMulti
import ForgeLink.Control.Params
import ForgeLink.Control.Roles
import ForgeLink.Collector.Identifiers
import ForgeLink.Poll.BatchCall
