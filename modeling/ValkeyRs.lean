import ValkeyRs.AclRoundTrip
import ValkeyRs.AofFidelity
import ValkeyRs.AofReplayLoop
import ValkeyRs.Epochs
import ValkeyRs.Errors
import ValkeyRs.Eviction
import ValkeyRs.FiniteSet
import ValkeyRs.HyperLogLog
import ValkeyRs.Identity
import ValkeyRs.IntsetRuns
import ValkeyRs.Isolation
import ValkeyRs.LazyExpiry
import ValkeyRs.ListRace
import ValkeyRs.Locks
import ValkeyRs.LogOrder
import ValkeyRs.NodesConf
import ValkeyRs.Occurrences
import ValkeyRs.RdbCursor
import ValkeyRs.RdbSnapshot
import ValkeyRs.RdbZset
import ValkeyRs.ReadOnlyScripts
import ValkeyRs.RespMachine
import ValkeyRs.Routing
import ValkeyRs.ScriptedCommands
import ValkeyRs.Sentinel
import ValkeyRs.SetAlgebra
import ValkeyRs.SlotMigration
import ValkeyRs.SlotTables
import ValkeyRs.StreamDollar
import ValkeyRs.Transactions
import ValkeyRs.TypeSafety
import ValkeyRs.Wait
import ValkeyRs.Watch
