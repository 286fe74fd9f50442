import WardenLinux.Lib.CString
import WardenLinux.Lib.Decimal
import WardenLinux.Lib.Descriptors
import WardenLinux.Lib.Dispatch
import WardenLinux.Lib.Fallible
import WardenLinux.Lib.FreeList
import WardenLinux.Lib.Json
import WardenLinux.Lib.Maps
import WardenLinux.Lib.Netfilter
import WardenLinux.Lib.Pattern
import WardenLinux.Lib.Pipes
import WardenLinux.Lib.PlainFilter
import WardenLinux.Lib.Threads
import WardenLinux.Lib.Transition
import WardenLinux.Lib.Words
import WardenLinux.IP
import WardenLinux.Network
import WardenLinux.World
import WardenLinux.NumberPools
import WardenLinux.PortRuns
import WardenLinux.PoolRanges
import WardenLinux.NetworkPool
import WardenLinux.Subnets
import WardenLinux.ProcessOutput
import WardenLinux.CompletedOutput
import WardenLinux.ProcessTracker
import WardenLinux.ProcessIDs
import WardenLinux.Container
import WardenLinux.Limits
import WardenLinux.FailedOperations
import WardenLinux.MemoryLimits
import WardenLinux.QuotaManager
import WardenLinux.BandwidthManager
import WardenLinux.CgroupStats
import WardenLinux.ContainerPool
import WardenLinux.InterfaceNames
import WardenLinux.Firewall
import WardenLinux.FirewallScripts
import WardenLinux.FirewallRuns
import WardenLinux.FirewallRecords
import WardenLinux.FirewallRestart
import WardenLinux.Rollback
import WardenLinux.Backend
import WardenLinux.ReadyRuns
import WardenLinux.Ownership
import WardenLinux.Orphans
import WardenLinux.Interleaving
import WardenLinux.ReleasedOnce
import WardenLinux.Linking
import WardenLinux.LinkToken
import WardenLinux.UnlinkAll
import WardenLinux.Tracked
import WardenLinux.Retained
import WardenLinux.Snapshots
import WardenLinux.Restart
import WardenLinux.SnapshotFiles
import WardenLinux.SavedSnapshots
import WardenLinux.Rlimits
import WardenLinux.Wsh
import WardenLinux.MsgArrays
import WardenLinux.Pwd
import WardenLinux.RootfsProviders
import WardenLinux.RepositoryFetcher
import WardenLinux.FetchedImages
import WardenLinux.PortsReturned
import WardenLinux.LimitRaces
import WardenLinux.Handshake
import WardenLinux.Wshd
import WardenLinux.PidTable
import WardenLinux.StatusPipes
import WardenLinux.StopScript
import WardenLinux.Pump
import WardenLinux.PumpOutput
import WardenLinux.Iodaemon
import WardenLinux.StdinRelay
import WardenLinux.FaninWriter
