import DnsServer.Lib.Endian
import DnsServer.Lib.Loop
import DnsServer.Lib.Runs
import DnsServer.Lib.Descent
import DnsServer.Lib.FiniteMap
import DnsServer.Lib.HashTable
import DnsServer.Lib.RingBuffer
import DnsServer.Code.Memory
import DnsServer.Code.Packet
import DnsServer.Code.Server
import DnsServer.Code.Forward
import DnsServer.Code.Cache
import DnsServer.Code.Trie
import DnsServer.Code.Loader
import DnsServer.Code.MainDns
import DnsServer.Code.Thread
import DnsServer.Spec.Wire
import DnsServer.Spec.CacheMap
import DnsServer.Spec.ZoneTable
import DnsServer.Proofs.Memory
import DnsServer.Proofs.Names
import DnsServer.Proofs.ReadName
import DnsServer.Proofs.Parse
import DnsServer.Proofs.Query
import DnsServer.Proofs.Response
import DnsServer.Proofs.ParseEnds
import DnsServer.Proofs.Truncated
import DnsServer.Proofs.Answer
import DnsServer.Proofs.Forward
import DnsServer.Proofs.Cache
import DnsServer.Proofs.Search
import DnsServer.Proofs.Agreement
import DnsServer.Proofs.Zones
import DnsServer.Proofs.ZoneTable
import DnsServer.Proofs.DeepZones
import DnsServer.Proofs.Redirects
import DnsServer.Proofs.TaskQueue
import DnsServer.Proofs.WakeUp
import DnsServer.Proofs.Shutdown
import DnsServer.Proofs.Expiry
import DnsServer.Code.Buffers
import DnsServer.Proofs.Buffers
import DnsServer.Code.Sockets
import DnsServer.Proofs.Sockets
import DnsServer.Code.SharedCache
import DnsServer.Lib.LinkedList
import DnsServer.Proofs.SharedCache
import DnsServer.Proofs.SharedRuns
import DnsServer.Lib.Split
import DnsServer.Proofs.Labels
import DnsServer.Proofs.QueryLabels
import DnsServer.Proofs.ForwardedQuestion
import DnsServer.Proofs.SectionCounts
import DnsServer.Proofs.AddressFound
import DnsServer.Code.Strtok
import DnsServer.Proofs.Strtok
import DnsServer.Code.Cleanup
import DnsServer.Proofs.Cleanup
import DnsServer.Code.SocketLife
import DnsServer.Proofs.SocketLife
import DnsServer.Proofs.TrieLookup
import DnsServer.Code.Scripts
import DnsServer.Proofs.Scripts
import DnsServer.Proofs.LocalAnswers
import DnsServer.Proofs.OwnRecords
import DnsServer.Proofs.AskedName
import DnsServer.Proofs.Decompress
import DnsServer.Proofs.LegalNames
import DnsServer.Proofs.QuestionCount
import DnsServer.Proofs.FirstMatch
import DnsServer.Proofs.FullAddress
import DnsServer.Proofs.FailedForward
import DnsServer.Code.CleanUpHeap
import DnsServer.Proofs.FreshInsert
import DnsServer.Proofs.CleanUpHeap
import DnsServer.Proofs.Spellings
import DnsServer.Proofs.NameBuffer
import DnsServer.Proofs.NameMeasure
import DnsServer.Code.Commands
import DnsServer.Proofs.Commands
import DnsServer.Code.Arrays
import DnsServer.Proofs.ZoneSizes
import DnsServer.Code.ConfScripts
import DnsServer.Proofs.ConfLines
import DnsServer.Proofs.OwnFiles
import DnsServer.Proofs.HeardNames
import DnsServer.Proofs.StartUp
import DnsServer.Lib.Ledger
import DnsServer.Lib.Heap
import DnsServer.Lib.Calls
import DnsServer.Code.CacheMemory
import DnsServer.Proofs.CacheChains
import DnsServer.Proofs.CacheMemory
import DnsServer.Proofs.CacheRuns
import DnsServer.Code.ServerMemory
import DnsServer.Proofs.ServerMemory
import DnsServer.Code.Listen
import DnsServer.Proofs.Listen
import DnsServer.Code.PacketMemory
import DnsServer.Proofs.PacketMemory
import DnsServer.Proofs.ReceiveMemory
import DnsServer.Lib.DescriptorTable
import DnsServer.Code.Connections
import DnsServer.Spec.Connections
import DnsServer.Proofs.Connections
import DnsServer.Proofs.ConnectionRuns
import DnsServer.Code.Logger
import DnsServer.Proofs.Logger
import DnsServer.Code.HandleTrail
import DnsServer.Proofs.HandleTrail
import DnsServer.Lib.Forest
import DnsServer.Code.Drawing
import DnsServer.Spec.Drawing
import DnsServer.Proofs.Listing
import DnsServer.Proofs.Drawing
import DnsServer.Code.Client
import DnsServer.Proofs.Client
import DnsServer.Proofs.Resolver
