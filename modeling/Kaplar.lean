import Kaplar.Tasks.TaskDbufferDelivery
import Kaplar.Tasks.TaskRbufferWakeup
import Kaplar.Tree.Rbtree
import Kaplar.Tree.RbtreeShape
import Kaplar.Tree.RbtreeInsert
import Kaplar.Tree.RbtreeRemove
import Kaplar.Tree.RbtreeTraversal
import Kaplar.Tree.RbtreeRun
import Kaplar.Foundation.Chain
import Kaplar.Server.ConnTable
import Kaplar.Server.ConnUid
import Kaplar.Foundation.Memory
import Kaplar.Protocol.TibiaString
import Kaplar.Crypto.Xtea
import Kaplar.Crypto.Adler32
import Kaplar.Output.Outbuf
import Kaplar.Output.OutputFrame
import Kaplar.Protocol.LoginMessage
import Kaplar.Protocol.LoginParser
import Kaplar.Protocol.GameMessage
import Kaplar.Crypto.Rsa
import Kaplar.Protocol.LoginKey
import Kaplar.Foundation.BoundedQueue
import Kaplar.Tasks.TaskRbufferQueue
import Kaplar.Tasks.TaskRbufferRelay
import Kaplar.Tasks.TaskDbufferWakeup
import Kaplar.Foundation.Reader
import Kaplar.Output.OutputBounds
import Kaplar.Protocol.LoginResolve
import Kaplar.Protocol.LoginBounds
import Kaplar.Protocol.CharacterList
import Kaplar.Foundation.Mailbox
import Kaplar.Server.ServerExec
import Kaplar.Foundation.Program
import Kaplar.Server.ConnHistory
import Kaplar.Server.ConnStream
import Kaplar.Server.ConnMgr
import Kaplar.Server.ConnInvariant
import Kaplar.Server.ConnClose
import Kaplar.Server.ConnCalls
import Kaplar.Server.ConnDispatch
import Kaplar.Server.ConnHandlers
import Kaplar.Server.ConnRun
import Kaplar.Server.ConnLifecycle
import Kaplar.Server.ConnReentry
import Kaplar.Server.ConnCapacity
import Kaplar.Server.ConnFace
import Kaplar.Foundation.Effect
import Kaplar.Server.ConnService
import Kaplar.Server.SvcMgr
import Kaplar.Server.SvcDispatch
import Kaplar.Server.SvcRun
import Kaplar.Foundation.Heap
import Kaplar.Protocol.Blocks
import Kaplar.Protocol.Handlers
import Kaplar.Protocol.Ownership
import Kaplar.Protocol.OwnershipEcho
import Kaplar.Protocol.OwnershipAnswer
import Kaplar.Protocol.OwnershipScripts
import Kaplar.Protocol.OwnershipRun
import Kaplar.Protocol.OwnershipLogin
import Kaplar.Foundation.Regions
import Kaplar.Arena.MemArena
import Kaplar.Arena.MemArenaLive
import Kaplar.Arena.MemArenaRun
import Kaplar.Tasks.TaskShutdown
import Kaplar.Foundation.Congruence
import Kaplar.Crypto.RsaRoundTrip
import Kaplar.Tree.RbtreeOrder
import Kaplar.Tree.RbtreeFind
import Kaplar.Foundation.MemoryPairs
import Kaplar.Crypto.Blowfish
import Kaplar.Crypto.BlowfishModes
import Kaplar.Foundation.Sextets
import Kaplar.Foundation.CString
import Kaplar.Crypto.Base64
import Kaplar.Crypto.Bcrypt
import Kaplar.Crypto.BcryptVerify
import Kaplar.Crypto.BcryptCompare
import Kaplar.Foundation.Rounds
import Kaplar.Crypto.BlowfishPermutation
import Kaplar.Crypto.BlowfishRepeat
import Kaplar.Crypto.AdlerExact
import Kaplar.Foundation.Cursor
import Kaplar.Tree.RbtreeWalk
import Kaplar.Arena.MemArenaLimits
import Kaplar.Foundation.Probing
import Kaplar.Foundation.Window
import Kaplar.Config.Murmur2
import Kaplar.Config.Config
import Kaplar.Config.ConfigLookup
import Kaplar.Tasks.TaskDbufferIsolation
import Kaplar.Foundation.Custody
import Kaplar.Server.SvcAccept
import Kaplar.Server.SvcListening
import Kaplar.Server.ConnTimeout
import Kaplar.Server.ConnHeard
import Kaplar.Protocol.Answers
import Kaplar.Protocol.AnswersRun
import Kaplar.Protocol.LoginExchange
import Kaplar.Server.ConnShutdown
import Kaplar.Protocol.Shutdown
import Kaplar.Foundation.RedBlackDepth
import Kaplar.Tree.RbtreeDepth
import Kaplar.Foundation.WeightedSum
import Kaplar.Crypto.AdlerDistance
import Kaplar.Protocol.LoginDamage
import Kaplar.Foundation.Overriding
import Kaplar.Config.ConfigPrecedence
import Kaplar.Foundation.Requests
import Kaplar.Game.Game
import Kaplar.Game.GameFrames
import Kaplar.Game.GameRelay
import Kaplar.Foundation.Radix
import Kaplar.Protocol.BufferUtil
import Kaplar.Foundation.Cyclic
import Kaplar.Crypto.KeySchedule
import Kaplar.Crypto.BcryptKeys
import Kaplar.Game.GameInterlock
import Kaplar.Game.GameBurst
