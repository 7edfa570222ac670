import LinuxLearn.Heap
import LinuxLearn.Chain
import LinuxLearn.NodeList
import LinuxLearn.Simulation
import LinuxLearn.Exchange
import LinuxLearn.KvsString
import LinuxLearn.KvsEngine
import LinuxLearn.KvsArray
import LinuxLearn.KvsHash
import LinuxLearn.KvsHashInv
import LinuxLearn.RedBlack
import LinuxLearn.KvsRbtree
import LinuxLearn.KvsRbtreeRep
import LinuxLearn.KvsRbtreeInsert
import LinuxLearn.KvsRbtreeDelete
import LinuxLearn.KvsRbtreeInv
import LinuxLearn.KvsSkiptable
import LinuxLearn.KvsSkiptableInv
import LinuxLearn.KvsCopies
import LinuxLearn.Strtok
import LinuxLearn.KvsProtocol
import LinuxLearn.KvsReceive
import LinuxLearn.KvsServer
import LinuxLearn.KvsGrammar
import LinuxLearn.KvsReactor
import LinuxLearn.KvsProactor
import LinuxLearn.KvsDelivery
import LinuxLearn.UstackFd
import LinuxLearn.UstackEpoll
import LinuxLearn.UstackStream
import LinuxLearn.UstackStack
import LinuxLearn.UstackSocket
import LinuxLearn.UstackReady
import LinuxLearn.UstackServer
import LinuxLearn.UstackServerInv
import LinuxLearn.DList
import LinuxLearn.Threadpool
import LinuxLearn.Websocket
import LinuxLearn.WebsocketReactor
import LinuxLearn.UstackTcp
import LinuxLearn.UstackHistory
import LinuxLearn.UstackSequence
import LinuxLearn.UstackDelivery
import LinuxLearn.UstackHandshake
import LinuxLearn.UstackConnection
import LinuxLearn.Bytes
import LinuxLearn.UstackFrame
import LinuxLearn.UstackUdp
import LinuxLearn.UstackEncode
import LinuxLearn.UstackArp
import LinuxLearn.UstackBurst
import LinuxLearn.UstackOrder
import LinuxLearn.IoUring
import LinuxLearn.Coroutine
import LinuxLearn.Contacts
import LinuxLearn.KvsFailure
import LinuxLearn.KvsRbtreeDestroy
import LinuxLearn.UstackFailure
import LinuxLearn.UstackLengths
import LinuxLearn.Framing
import LinuxLearn.WebsocketFrames
import LinuxLearn.Base64
import LinuxLearn.WebsocketHandshake
import LinuxLearn.WebsocketBounds
import LinuxLearn.Dns
import LinuxLearn.DnsQuestion
import LinuxLearn.Acyclic
import LinuxLearn.DnsPointers
import LinuxLearn.DnsResponse
import LinuxLearn.DnsRecords
import LinuxLearn.ContactsScan
import LinuxLearn.Lanes
import LinuxLearn.UstackCountBit
import LinuxLearn.ListMacros
import LinuxLearn.KvsSkiptableSearch
import LinuxLearn.ContactsList
import LinuxLearn.HttpClient
import LinuxLearn.KcpChat
import LinuxLearn.SlidingWindow
import LinuxLearn.KcpSegment
import LinuxLearn.Kcp
import LinuxLearn.KcpWindow
import LinuxLearn.KcpCalls
import LinuxLearn.KcpFlush
import LinuxLearn.KcpRefine
import LinuxLearn.KcpMessages
import LinuxLearn.KcpLink
import LinuxLearn.KcpBounds
import LinuxLearn.KcpTimer
import LinuxLearn.KcpProgress
import LinuxLearn.HeapContents
import LinuxLearn.LinkedTree
import LinuxLearn.NtyTree
import LinuxLearn.NtyTreeInsert
import LinuxLearn.NtyTreeWalk
import LinuxLearn.NtyTreeRemove
import LinuxLearn.NtyTreeRuns
import LinuxLearn.UstackRbr
import LinuxLearn.UstackPing
