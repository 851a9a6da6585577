import Crotalus.Framework.Stateful
import Crotalus.Framework.Run
import Crotalus.Framework.Count
import Crotalus.Framework.RefCount
import Crotalus.Framework.ByteMem
import Crotalus.Framework.Chunked
import Crotalus.Framework.Path
import Crotalus.Framework.NullArray
import Crotalus.Server.Defs
import Crotalus.Server.Util
import Crotalus.Server.State
import Crotalus.Server.Sys
import Crotalus.Server.Zlib
import Crotalus.Server.Buffer
import Crotalus.Server.Uri
import Crotalus.Server.Response
import Crotalus.Server.Range
import Crotalus.Server.MmapCache
import Crotalus.Server.Access
import Crotalus.Server.Cgi
import Crotalus.Server.Mime
import Crotalus.Server.Get
import Crotalus.Server.CgiHeader
import Crotalus.Server.Pipe
import Crotalus.Server.Alias
import Crotalus.Server.Header
import Crotalus.Server.Read
import Crotalus.Server.Select
import Crotalus.Server.Request
import Crotalus.Server.Settings
import Crotalus.Server.Config
import Crotalus.Server.CgiEnv
import Crotalus.Spec.Sys
import Crotalus.Spec.Buffer
import Crotalus.Spec.Zlib
import Crotalus.Spec.Chunked
import Crotalus.Spec.Range
import Crotalus.Spec.Response
import Crotalus.Spec.Select
import Crotalus.Spec.Output
import Crotalus.Spec.Flush
import Crotalus.Spec.Reply
import Crotalus.Spec.CgiHeader
import Crotalus.Spec.Works
import Crotalus.Spec.Cgi
import Crotalus.Spec.Handlers
import Crotalus.Spec.Uri
import Crotalus.Spec.Answer
import Crotalus.Spec.Header
import Crotalus.Spec.Turn
import Crotalus.Spec.Count
import Crotalus.Spec.Body
import Crotalus.Spec.Await
import Crotalus.Spec.Config
import Crotalus.Spec.Environment
import Crotalus.Spec.CgiEnv
import Crotalus.Properties.FreeRequest
import Crotalus.Properties.Order
import Crotalus.Properties.Responder
import Crotalus.Properties.AccessControl
import Crotalus.Properties.DocumentRoot
import Crotalus.Properties.HeaderCuts
import Crotalus.Properties.HeaderOnce
import Crotalus.Properties.Parked
import Crotalus.Properties.BodyDispatch
import Crotalus.Properties.Delivery
import Crotalus.Properties.FileBounds
import Crotalus.Properties.MmapCache
import Crotalus.Properties.RangeFixup
import Crotalus.Properties.RangeParse
import Crotalus.Properties.Announced
import Crotalus.Properties.PartHeader
import Crotalus.Properties.Reload
import Crotalus.Properties.AccessRules
import Crotalus.Properties.CgiEnv
import Crotalus.Properties.ScriptAlias
import Crotalus.Properties.Deflate
import Crotalus.Properties.ChunkWriter
import Crotalus.Properties.GzipFilter
import Crotalus.Properties.ReadBounds
import Crotalus.Properties.WorkResult
import Crotalus.Properties.PipeRelay
import Crotalus.Properties.ShuffleProgress
import Crotalus.Properties.Accounting
import Crotalus.Properties.HeaderSplit
import Crotalus.Framework.Chain
import Crotalus.Properties.AliasTable
import Crotalus.Properties.PercentDecode
import Crotalus.Properties.PrefCache
import Crotalus.Properties.ModifiedSince
import Crotalus.Properties.AnswerRoom
import Crotalus.Properties.ErrorLine
import Crotalus.Properties.CgiNames
import Crotalus.Properties.ParentIndex
import Crotalus.Framework.Ledger
import Crotalus.Server.Files
import Crotalus.Framework.Linked
import Crotalus.Server.Queue
import Crotalus.Spec.Queue
import Crotalus.Properties.Queues
import Crotalus.Properties.CleanPathname
import Crotalus.Server.Index
import Crotalus.Properties.IndexLinks
import Crotalus.Server.Argv
import Crotalus.Properties.IndexedQuery
import Crotalus.Properties.HostName
import Crotalus.Properties.AliasNames
import Crotalus.Framework.Singly
import Crotalus.Server.Hash
import Crotalus.Properties.HashMap
import Crotalus.Server.RangePool
import Crotalus.Spec.RangePool
import Crotalus.Properties.RangeNodes
import Crotalus.Properties.Lifecycle
import Crotalus.Properties.MainLoop
import Crotalus.Properties.MimeLines
import Crotalus.Properties.ConfigLines
import Crotalus.Properties.AddTypes
import Crotalus.Spec.Still
import Crotalus.Properties.Descriptors
import Crotalus.Spec.Blank
import Crotalus.Spec.Overlap
import Crotalus.Properties.Redirect
import Crotalus.Properties.Timeouts
import Crotalus.Properties.WaitSets
import Crotalus.Properties.DecimalText
import Crotalus.Properties.BufferIndices
import Crotalus.Properties.DeadAbsorbing
import Crotalus.Properties.WorkRelay
import Crotalus.Properties.ScriptAnswer
import Crotalus.Properties.ReplyFrame
import Crotalus.Properties.FileDelivery
import Crotalus.Server.Work
import Crotalus.Properties.WorkerScript
import Crotalus.Properties.RedirectBack
