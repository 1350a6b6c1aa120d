import Far2l.Hist.PosCache
import Far2l.Utils.ThreadedWorkQueueTheorems
import Far2l.Copy.FileTransferTheorems
import Far2l.Delete.ShellDeleteTheorems
import Far2l.Hist.HistoryTheorems
import Far2l.Filemask.FileMasksProcessorTheorems
import Far2l.Console.ScreenBufRuns
import Far2l.VT.VTAnsi
import Far2l.VT.EditingExact
import Far2l.VT.ToggleTheorems
import Far2l.VT.AttrStackTheorems
import Far2l.Editor.Bookmarks
import Far2l.Utils.Base64
import Far2l.VT.ClipboardAllowance
import Far2l.TTY.ClipboardTransferTheorems
import Far2l.TTY.InteractsTheorems
import Far2l.NetRocks.FileCopyLoopTheorems
import Far2l.WinPort.SizeQuery
import Far2l.NetRocks.TransferTheorems
import Far2l.NetRocks.DirectoryEnumCacheTheorems
import Far2l.NetRocks.BaseTransport
import Far2l.NetRocks.IOBuffer
import Far2l.NetRocks.ShellParseUtils
import Far2l.NetRocks.SymlinkTarget
import Far2l.Sudo.RequiredFor
import Far2l.Mix.MixToFullPath
import Far2l.Sudo.ProxyTheorems
import Far2l.Diz.FlushTheorems
import Far2l.NetRocks.FTPNavigationTheorems
import Far2l.Base.FARStringTheorems
import Far2l.Utils.StringConfig
import Far2l.Utils.WriteAll
import Far2l.Editor.ApplyColor
import Far2l.Editor.VPaste
import Far2l.File.LineSplitTheorems
import Far2l.Editor.VBlockShift
import Far2l.Utils.ArgumentSpansTheorems
import Far2l.Utils.MatchWildcard
import Far2l.Utils.SizeStrings
import Far2l.Mix.StrCellsTheorems
import Far2l.Mix.TruncateTheorems
import Far2l.Filemask.ListWalk
import Far2l.Mix.StrMix
import Far2l.Mix.ConvertWildcardsTheorems
import Far2l.Mix.CmpNameTheorems
import Far2l.Mix.SearchReverseTheorems
import Far2l.Mix.FormatBreakTheorems
import Far2l.Console.ScrollRegionTheorems
import Far2l.Editor.LimitedEdit
import Far2l.Hist.HistoryAdd
import Far2l.TTY.TTYOutput
import Far2l.File.SaveFile
