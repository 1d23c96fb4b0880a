import Xpf.Loop
import Xpf.OnesComplement
import Xpf.Ipv6Text
import Xpf.Nptv6
import Xpf.Nptv6Order
import Xpf.Nptv6Neutral
import Xpf.PrefixSets
import Xpf.GoStrings
import Xpf.ConfigLexer
import Xpf.ConfigAst
import Xpf.ConfigParser
import Xpf.ConfigGrammar
import Xpf.ConfigLexing
import Xpf.ConfigFormat
import Xpf.ConfigReparse
import Xpf.ConfigBudget
import Xpf.ConfigKeyPath
import Xpf.ConfigAccepted
import Xpf.ConfigCanonical
import Xpf.ConfigStatement
import Xpf.ConfigRoundTrip
import Xpf.ConfigComment
import Xpf.ConfigTokens
import Xpf.ConfigCompare
import Xpf.ConfigContent
import Xpf.ConfigAlign
import Xpf.ConfigDiff
import Xpf.ConfigDiffOrder
import Xpf.ConfigObjects
import Xpf.ConfigMoves
import Xpf.LoadContent
import Xpf.LoadTokens
import Xpf.DeterministicNat
import Xpf.FifoRing
import Xpf.Runs
import Xpf.HeartbeatAuth
import Xpf.HeartbeatReplay
import Xpf.MonitorDebt
import Xpf.Election
import Xpf.LittleEndian
import Xpf.HeartbeatWire
import Xpf.Bitmap
import Xpf.PortOccupancy
import Xpf.PortHistory
import Xpf.FragmentOverlap
import Xpf.FragmentHistory
import Xpf.FragmentQuotas
import Xpf.FragmentTiling
import Xpf.GenGuard
import Xpf.GenBookkeeping
import Xpf.GenEviction
import Xpf.GenOrdering
import Xpf.ChunkAssembly
import Xpf.ChunkCodec
import Xpf.ChunkedSync
import Xpf.SessionCodec
import Xpf.SessionRoundTrip
import Xpf.SessionTruncation
import Xpf.HandleIndex
import Xpf.SessionKeys
import Xpf.SessionCompanion
import Xpf.SessionTable
import Xpf.SessionOps
import Xpf.SessionExpiry
import Xpf.SessionIndexes
import Xpf.SessionHints
import Xpf.SessionWheel
import Xpf.WgReplay
import Xpf.ThreeColorPolicer
import Xpf.Accrual
import Xpf.AllowedIps
import Xpf.PolicerRuns
import Xpf.TokenRefill
import Xpf.SynCookie
import Xpf.AliasIndex
import Xpf.Pptp
import Xpf.ScreenRate
import Xpf.FilterTerms
import Xpf.FilterEval
import Xpf.FilterReplay
import Xpf.RingBuffer
import Xpf.Roster
import Xpf.CosQueue
import Xpf.CosBuckets
import Xpf.CosQueueOps
import Xpf.CosTimes
import Xpf.CosQueueRuns
import Xpf.CosFairness
import Xpf.CosRollback
import Xpf.Tables
import Xpf.Edits
import Xpf.ByteBuffer
import Xpf.WordSums
import Xpf.FrameInspect
import Xpf.FrameWalk
import Xpf.FrameChecksum
import Xpf.FrameUpdates
import Xpf.FrameNat
import Xpf.FrameNatForm
import Xpf.FrameSums
import Xpf.FrameRewrite
import Xpf.FrameCommit
import Xpf.FrameSettles
import Xpf.FrameTransaction
import Xpf.FrameNatSums
import Xpf.FrameNatExact
import Xpf.FrameNatUndo
import Xpf.PolicyTerms
import Xpf.PolicyRules
import Xpf.PolicyParse
import Xpf.PolicyFragments
import Xpf.PolicySentinel
import Xpf.PolicySides
import Xpf.PolicySpec
import Xpf.PolicyFirstMatch
import Xpf.MergeStreams
import Xpf.ZonePairs
import Xpf.Scheduler
import Xpf.SlotRing
import Xpf.ScanTracker
import Xpf.ScanRuns
import Xpf.ScanDetection
import Xpf.SipHash
import Xpf.ConfigSetText
import Xpf.Positional
import Xpf.SnmpBer
import Xpf.Bisect
import Xpf.SnmpMib
import Xpf.SnmpBulk
import Xpf.FlowExport
import Xpf.ConfigOrder
import Xpf.ConfigReread
import Xpf.ConfigSettled
import Xpf.FrameForwarded
import Xpf.Nat64Inspect
import Xpf.Nat64Icmp
import Xpf.Nat64Translate
import Xpf.Nat64Sums
import Xpf.Nat64Length
import Xpf.Nat64Return
import Xpf.Nat64Drops
import Xpf.Nat64Quotes
import Xpf.TcpSegmentation
import Xpf.TcpSegmentEmit
import Xpf.TcpSegmentBuild
import Xpf.TcpSegmentFields
import Xpf.TcpSegmentRuns
import Xpf.TcpSegmentPrepared
