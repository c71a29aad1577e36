import Protohand.Lib.Loop
import Protohand.Lib.Text
import Protohand.CString
import Protohand.StringLib
import Protohand.NvList
import Protohand.UriParse.Def
import Protohand.UriParse.Query
import Protohand.UriParse.Scan
import Protohand.UriParse.Parts
import Protohand.UriParse.Grammar
import Protohand.CmdParser.Def
import Protohand.CmdParser.Expand
import Protohand.CmdParser.Errors
import Protohand.Getexe
import Protohand.Transform
import Protohand.Reg
import Protohand.Replace
import Protohand.UriParse.Leak
import Protohand.UriParse.Access
import Protohand.CmdParser.Capacity
import Protohand.Xor
import Protohand.Transcode
import Protohand.Config
import Protohand.Ini
import Protohand.Section
import Protohand.Lib.Quoted
import Protohand.SplitArg
import Protohand.Casing
import Protohand.Lib.While
import Protohand.LogClean
import Protohand.CmdParser.Spans
import Protohand.CmdParser.Verbatim
import Protohand.CmdParser.Conditional
import Protohand.CmdParser.Failure
import Protohand.Digits
import Protohand.RegSplit
import Protohand.StrArray
import Protohand.UriParse.QueryError
import Protohand.Lib.Printf
import Protohand.Lib.Stages
import Protohand.Messages.Def
import Protohand.Quote
import Protohand.Messages.Main
import Protohand.Messages.Room
import Protohand.Messages.Fit
import Protohand.UriParse.Positions
import Protohand.CmdParser.Lookup
import Protohand.CmdParser.Recased
import Protohand.Spelling
import Protohand.Ini.Document
import Protohand.Launch.Defined
import Protohand.Launch.Cleared
import Protohand.Launch.Interference
import Protohand.Launch.Link
import Protohand.Launch.Codes
import Protohand.Launch.Page
import Protohand.Launch.History
import Protohand.Launch.Log
import Protohand.Launch.Encoded
import Protohand.Launch.Start
import Protohand.Launch.Values
import Protohand.Launch.Upkeep
import Protohand.Launch.Programs
import Protohand.Launch.Sections
