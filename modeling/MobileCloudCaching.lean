import MobileCloudCaching.Library.Transition
import MobileCloudCaching.Library.Octets
import MobileCloudCaching.Library.Serial
import MobileCloudCaching.Library.Selection
import MobileCloudCaching.Library.Traced
import MobileCloudCaching.Library.FirstMatch
import MobileCloudCaching.Library.Linked
import MobileCloudCaching.Library.Singly
import MobileCloudCaching.Library.Cycles
import MobileCloudCaching.Kernel
import MobileCloudCaching.Timer
import MobileCloudCaching.Caching.Types
import MobileCloudCaching.Caching.CacheTable
import MobileCloudCaching.Caching.Queue
import MobileCloudCaching.TimerQueues
import MobileCloudCaching.Caching.ReqList
import MobileCloudCaching.Caching.Exchange
import MobileCloudCaching.Caching.FragReq
import MobileCloudCaching.Caching.FileRep
import MobileCloudCaching.Caching.FileReq
import MobileCloudCaching.Caching.PacketIn
import MobileCloudCaching.Caching.Thread
import MobileCloudCaching.Caching.Capacity
import MobileCloudCaching.Caching.Duplicates
import MobileCloudCaching.Caching.Retrieval
import MobileCloudCaching.Caching.Pending
import MobileCloudCaching.Caching.Bounds
import MobileCloudCaching.Caching.Olsr
import MobileCloudCaching.Caching.Codec
import MobileCloudCaching.Caching.Forwarding
import MobileCloudCaching.Caching.Flood
import MobileCloudCaching.Caching.Network
import MobileCloudCaching.Caching.Scores
import MobileCloudCaching.Caching.Rounds
import MobileCloudCaching.Caching.Trigger
import MobileCloudCaching.Caching.Provenance
import MobileCloudCaching.Caching.Handover
import MobileCloudCaching.Caching.Alarm
import MobileCloudCaching.Caching.Wakeup
import MobileCloudCaching.Aodv.Stranded
import MobileCloudCaching.Aodv.SelfRoutes
import MobileCloudCaching.Aodv.Freshness
import MobileCloudCaching.Aodv.Mirror
import MobileCloudCaching.Aodv.Heard
import MobileCloudCaching.Aodv.Attempts
import MobileCloudCaching.Aodv.Periodic
import MobileCloudCaching.Aodv.Waits
import MobileCloudCaching.Aodv.Timeouts
import MobileCloudCaching.Aodv.Relays
import MobileCloudCaching.Aodv.Unique
import MobileCloudCaching.Aodv.Table
import MobileCloudCaching.Aodv.Recall
import MobileCloudCaching.TaskQueue
import MobileCloudCaching.Aodv.Errors
import MobileCloudCaching.Aodv.Lookup
import MobileCloudCaching.Aodv.Replacement
import MobileCloudCaching.Aodv.Reliance
import MobileCloudCaching.Aodv.Offers
import MobileCloudCaching.Aodv.Mesh
import MobileCloudCaching.Aodv.Readings
import MobileCloudCaching.Aodv.Walks
import MobileCloudCaching.Aodv.Entries
import MobileCloudCaching.Aodv.Paths
import MobileCloudCaching.Aodv.Withdrawal
import MobileCloudCaching.Aodv.Wire
import MobileCloudCaching.Aodv.Sends
import MobileCloudCaching.Aodv.Ether
import MobileCloudCaching.Aodv.NeighList
import MobileCloudCaching.Aodv.Alarm
import MobileCloudCaching.FloodLists
import MobileCloudCaching.Caching.CacheMemory
import MobileCloudCaching.Caching.ExchangeMemory
import MobileCloudCaching.Caching.Directory
import MobileCloudCaching.TaskCleanup
import MobileCloudCaching.Aodv.PacketQueue
import MobileCloudCaching.Caching.TablesMemory
import MobileCloudCaching.Caching.Address
