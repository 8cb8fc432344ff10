import Bmv2.Lib.Runs
import Bmv2.Lib.FreeSlots
import Bmv2.Lib.LinkedSlots
import Bmv2.Lib.Bytes
import Bmv2.Lib.FirstMin
import Bmv2.Lib.PrefixMap
import Bmv2.Lib.Blocks
import Bmv2.Lib.RefCounts
import Bmv2.Lib.TokenBucket
import Bmv2.Lib.BitFields
import Bmv2.Lib.Faults
import Bmv2.Handles
import Bmv2.Phv
import Bmv2.Extract
import Bmv2.Headers
import Bmv2.HeaderSpec
import Bmv2.HeaderRewrite
import Bmv2.ParseVSets
import Bmv2.Parser
import Bmv2.ParserSafety
import Bmv2.Deparser
import Bmv2.ParseDeparse
import Bmv2.Meters
import Bmv2.MeterSpec
import Bmv2.MeterThreads
import Bmv2.CopyIds
import Bmv2.MatchKey
import Bmv2.MatchKeySpec
import Bmv2.EntryList
import Bmv2.LpmTrie
import Bmv2.LpmTrieSpec
import Bmv2.LookupStructures
import Bmv2.ListKeySpec
import Bmv2.LookupSpec
import Bmv2.MatchUnits
import Bmv2.MatchUnitSpec
import Bmv2.MatchUnitInv
import Bmv2.UniqueEntries
import Bmv2.PriorityLookup
import Bmv2.LiveHandles
import Bmv2.MatchTables
import Bmv2.IndirectTables
import Bmv2.TableSpec
import Bmv2.IndirectSpec
import Bmv2.StaleHandles
import Bmv2.MemberRefs
import Bmv2.Expressions
import Bmv2.ExprTrees
import Bmv2.ExprEval
import Bmv2.SimplePre
import Bmv2.MulticastTrees
import Bmv2.NodeReplication
import Bmv2.LagReplication
import Bmv2.GroupSelectors
import Bmv2.Queues
import Bmv2.SwitchThreads
import Bmv2.Lib.Simulation
import Bmv2.ConfigSwap
import Bmv2.SwapSpec
import Bmv2.SwapSteps
import Bmv2.PacketLength
import Bmv2.LengthRegister
import Bmv2.Learning
import Bmv2.LearnLedger
import Bmv2.LearnSteps
import Bmv2.IngressEgress
import Bmv2.PhvLayout
import Bmv2.EgressSafety
import Bmv2.Lib.Words
import Bmv2.StateDump
import Bmv2.MeterRates
import Bmv2.Lib.TimedQueue
import Bmv2.RateQueues
import Bmv2.PriQueues
import Bmv2.PortMonitor
import Bmv2.SaiServer
import Bmv2.SaiLags
import Bmv2.SaiBridges
import Bmv2.NextNodes
import Bmv2.DebuggerReplies
import Bmv2.KeyReadBack
import Bmv2.EntryReadBack
import Bmv2.MeterDump
import Bmv2.Lib.Residues
import Bmv2.ArithFields
import Bmv2.Lib.Shifts
import Bmv2.HeaderStacks
import Bmv2.HeaderValidity
import Bmv2.BufBuilder
import Bmv2.Lib.Crc
import Bmv2.CrcTables
import Bmv2.CrcCalculations
import Bmv2.Lib.OnesComplement
import Bmv2.InternetChecksum
import Bmv2.Reparsing
import Bmv2.Checksums
import Bmv2.HeaderChecksums
import Bmv2.Ageing
import Bmv2.ExtractInPlace
import Bmv2.ParamParsing
import Bmv2.PacketCopies
import Bmv2.KeyMatching
import Bmv2.LiveLookups
import Bmv2.LiveMembers
import Bmv2.UnitDump
import Bmv2.UnitTwins
import Bmv2.TableDump
import Bmv2.TableRuns
import Bmv2.TableRestores
import Bmv2.Lib.Transactions
import Bmv2.Actions
import Bmv2.Primitives
import Bmv2.ExprFrame
import Bmv2.ActionCalls
import Bmv2.ActionLoading
import Bmv2.ActionArguments
import Bmv2.ActionThreads
import Bmv2.ActionSteps
import Bmv2.ActionLocks
import Bmv2.Lib.BlockStream
import Bmv2.Md5
import Bmv2.XxHash
