import ZyxelRouter.Lib.NandKnowledge
import ZyxelRouter.Zos.SystemCommand
import ZyxelRouter.Zos.StrCatBuffer
import ZyxelRouter.Zos.AllocRecord
import ZyxelRouter.ZyUtil.MtdRoundTrip
import ZyxelRouter.ZyUtil.FwInfo
import ZyxelRouter.ZyUtil.AccountFile
import ZyxelRouter.ZyUtil.UbiWrite
import ZyxelRouter.ZyUtil.FlashRead
import ZyxelRouter.ZyUtil.FlashWrite
import ZyxelRouter.ZyUtil.CsvTerms
import ZyxelRouter.ZyUtil.DomainName
import ZyxelRouter.ZyUtil.WwanPackage
import ZyxelRouter.ZyUtil.MicroInterval
import ZyxelRouter.ZyUtil.StrReplace
import ZyxelRouter.ZyUtil.ShellEscape
import ZyxelRouter.ZyUtil.Sha256
import ZyxelRouter.ZyUtil.MacText
import ZyxelRouter.ZyUtil.SortedSearch
import ZyxelRouter.Nmbm.Creation
import ZyxelRouter.Nmbm.Persistence
import ZyxelRouter.Nmbm.SignatureSearch
import ZyxelRouter.Nmbm.Termination
import ZyxelRouter.Nmbm.HeaderBounds
import ZyxelRouter.Nmbm.MtdOob
import ZyxelRouter.Nmbm.MtdRead
import ZyxelRouter.Nmbm.BlockWalk
import ZyxelRouter.Nmbm.Contents
import ZyxelRouter.Nmbm.Knowledge
import ZyxelRouter.UiTimer.Ownership
import ZyxelRouter.UiTimer.Deadline
import ZyxelRouter.UiTimer.DelLoop
import ZyxelRouter.UiTimer.Periods
import ZyxelRouter.UiTimer.TimerNodes
import ZyxelRouter.UiTimer.Scans
import ZyxelRouter.UiTimer.Lifetimes
import ZyxelRouter.UiTimer.Cancellation
import ZyxelRouter.ZcfgMsg.Routing
import ZyxelRouter.ZcfgMsg.ObjWrite
import ZyxelRouter.ZcfgMsg.EidTable
import ZyxelRouter.FeString.ObjAlias
import ZyxelRouter.FeString.ObjName
import ZyxelRouter.FeString.ParamSet
import ZyxelRouter.FeString.TextFormats
import ZyxelRouter.FeString.ObjWalk
import ZyxelRouter.FeString.MultiObj
import ZyxelRouter.FeSchema.MultiAttrSet
import ZyxelRouter.FeSchema.DenyRuns
import ZyxelRouter.FeSchema.SubObjects
import ZyxelRouter.FeDal.RdmAcl
import ZyxelRouter.FeDal.PortMapping
import ZyxelRouter.FeDal.StaticRoute
import ZyxelRouter.FeDal.Schedule
import ZyxelRouter.FeDal.PortTriggering
import ZyxelRouter.FeDal.AddrMapping
import ZyxelRouter.FeDal.ParamLanguages
import ZyxelRouter.FeDal.StaticRouteRuns
import ZyxelRouter.FeDal.AddTraces
import ZyxelRouter.FeDal.RdmAclIids
import ZyxelRouter.FeDal.IndexToIid
import ZyxelRouter.FeDal.ParentalControl
import ZyxelRouter.FeDal.ParenService
import ZyxelRouter.FeDal.FirewallPrefixes
import ZyxelRouter.FeDal.MacFilter
import ZyxelRouter.FeTr98.PathResolve
import ZyxelRouter.FeTr98.Notify
import ZyxelRouter.FeTr98.ParmAttr
import ZyxelRouter.FeTr98.NotReply
import ZyxelRouter.FeTr98.HexOption
import ZyxelRouter.FeTr98.MapMigration
import ZyxelRouter.FeTr98.RouteOption
import ZyxelRouter.FeTr98.ParamChk
import ZyxelRouter.FeTr98.ParamGuard
import ZyxelRouter.FeTr98.SpeedObjs
import ZyxelRouter.FeTr98.SpvHandleRout
import ZyxelRouter.FeTr98.SpvObjects
import ZyxelRouter.FeTr98.NotReplyPaths
import ZyxelRouter.FeTr98.SubObjNames
import ZyxelRouter.FeTr98.DefaultGateways
import ZyxelRouter.ZcmdTool.Layout
import ZyxelRouter.ZcmdTool.RoundTrip
