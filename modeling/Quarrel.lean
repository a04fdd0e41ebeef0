import Quarrel.Core.LTS
import Quarrel.Core.Quorum
import Quarrel.Core.Ballot
import Quarrel.Core.Bytes
import Quarrel.Core.Segment
import Quarrel.Core.Machine
import Quarrel.Core.Recency
import Quarrel.Core.Ring
import Quarrel.Core.Census
import Quarrel.Core.Agenda
import Quarrel.Core.Lock
import Quarrel.Core.Refinement
import Quarrel.Core.Serial
import Quarrel.Core.NextPerm
import Quarrel.L1Data.Config
import Quarrel.L1Data.PaxosGroup
import Quarrel.L1Data.IdGen
import Quarrel.L1Data.LruMap
import Quarrel.L1Data.IdGen64
import Quarrel.L1Data.LruTable
import Quarrel.L1Data.LockFreeQueue
import Quarrel.L1Data.QueueThreads
import Quarrel.L1Data.TimingWheel
import Quarrel.L1Data.WheelThreads
import Quarrel.L2Plog.EntryMng
import Quarrel.L2Plog.EntryRaw
import Quarrel.L2Plog.Recover
import Quarrel.L2Plog.Recount
import Quarrel.L2Network.RemoteConn
import Quarrel.L3Role.AcceptorSpec
import Quarrel.L3Role.Counters
import Quarrel.L4Acceptor.Run
import Quarrel.L4Acceptor.Workers
import Quarrel.L4Acceptor.Answers
import Quarrel.L4Acceptor.Durable
import Quarrel.L4Acceptor.FailedWrite
import Quarrel.L4Acceptor.Remember
import Quarrel.L4Acceptor.Chosen
import Quarrel.L4Acceptor.Promise
import Quarrel.L4Acceptor.Retransmit
import Quarrel.L4Acceptor.Lag
import Quarrel.L4Acceptor.LiveCounters
import Quarrel.L4Acceptor.LagCheck
import Quarrel.L4Acceptor.Ballots
import Quarrel.L3Role.ProposerSpec
import Quarrel.L4Proposer.OneReply
import Quarrel.L4Proposer.Isolation
import Quarrel.L4Proposer.Round
import Quarrel.L4Proposer.Moves
import Quarrel.L4Proposer.LastVote
import Quarrel.L4Proposer.Fields
import Quarrel.L4Proposer.OnePhase
import Quarrel.L4Proposer.Votes
import Quarrel.L4Proposer.PhaseTwo
import Quarrel.L4Proposer.IdJump
import Quarrel.L4Proposer.CatchUp
import Quarrel.L4Proposer.Node
import Quarrel.L4Proposer.Timeouts
import Quarrel.L4Network.Matching
import Quarrel.L4Network.Storm
import Quarrel.L4Network.Sizes
import Quarrel.L5Synod.System
import Quarrel.L5Synod.Requests
import Quarrel.L5Synod.Rounds
import Quarrel.L5Synod.Fields
import Quarrel.L5Synod.Tally
import Quarrel.L5Synod.ChosenSound
import Quarrel.L5Synod.Barrier
import Quarrel.L5Synod.Agreement
import Quarrel.L5Synod.Remembering
import Quarrel.L5Synod.NoHoles
import Quarrel.L5Synod.Terms
import Quarrel.L5Synod.ProposalIds
import Quarrel.L5Synod.Validity
import Quarrel.L5Synod.Log
import Quarrel.L5Synod.Solo
import Quarrel.L5Synod.Stall
import Quarrel.L5Synod.Replies
import Quarrel.L5Synod.Probe
import Quarrel.L5Synod.Reboot
