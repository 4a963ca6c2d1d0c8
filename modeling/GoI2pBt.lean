import GoI2pBt.Bencode.Raw
import GoI2pBt.Bencode.EncodeCanonical
import GoI2pBt.Downloader.Delivery
import GoI2pBt.Tracker.Http
import GoI2pBt.Rpc.BandwidthLimiter
import GoI2pBt.Rpc.Duplicates
import GoI2pBt.Bencode.Buffers
import GoI2pBt.Integers
import GoI2pBt.Metainfo.Merge
import GoI2pBt.PeerProtocol.Server
import GoI2pBt.PeerProtocol.Availability
import GoI2pBt.PeerProtocol.ExtHandshake
import GoI2pBt.PeerProtocol.FastSet
import GoI2pBt.PeerProtocol.HandshakePair
import GoI2pBt.PeerProtocol.PexHandler
import GoI2pBt.Rpc.Containment
import GoI2pBt.Dht.Announce
import GoI2pBt.Dht.Blocks
import GoI2pBt.Dht.PutReplies
import GoI2pBt.Dht.SearchTree
import GoI2pBt.Dht.TokenSchedule
import GoI2pBt.Krpc.CompactAddresses
import GoI2pBt.Tracker.UdpClient
import GoI2pBt.Rpc.QueueOrder
import GoI2pBt.Tracker.GetPeers
import GoI2pBt.Rpc.TorrentStatus
import GoI2pBt.Rpc.BlocklistUpdates
