import Hpav.Lib.CMem
import Hpav.Lib.Grouping
import Hpav.Lib.MemTrace
import Hpav.Frame
import Hpav.Defrag
import Hpav.DefragChain
import Hpav.Fragmentation
import Hpav.Decode
import Hpav.DecodeBounds
import Hpav.Encrypt
import Hpav.FileAccess
import Hpav.FileAccessAll
import Hpav.FileAccessChannel
import Hpav.FileAccessSystem
import Hpav.FileDownload
import Hpav.FileUpload
import Hpav.ConfFileWrite
import Hpav.CaptureBounds
import Hpav.ConfFileModify
import Hpav.ConfFileModifySaves
import Hpav.Encode
import Hpav.EncryptBounds
import Hpav.Exchange
import Hpav.PsdCarriers
import Hpav.PsdLines
import Hpav.PsdWords
import Hpav.SendReport
import Hpav.SetKeyExchange
import Hpav.Sniff
import Hpav.Command
import Hpav.CommandLine
import Hpav.ExitCode
import Hpav.ConfFileRead
import Hpav.Tonemap
import Hpav.TonemapBounds
import Hpav.TonemapDigits
import Hpav.FileAccessCnfBounds
import Hpav.FileChecksum
import Hpav.NvramModify
import Hpav.NvramRead
import Hpav.VariableCnf
import Hpav.AmpMap
import Hpav.ExecuteOnChannel
import Hpav.InterfaceList
import Hpav.MacText
import Hpav.ParseFileAccess
import Hpav.SetKeyText
import Hpav.ArgumentReads
import Hpav.StationList
import Hpav.EarlyExchange
import Hpav.CaptureChain
import Hpav.ConfFileParse
import Hpav.GroupList
import Hpav.Json.SerializeBuffer
import Hpav.XorChecksum
import Hpav.ConfFileDisplay
import Hpav.Json.Diff
import Hpav.ExchangeMemory
import Hpav.ConfFileEdit
import Hpav.Lib.Sha256
import Hpav.Security
import Hpav.FwUpgrade
import Hpav.NvramEdit
import Hpav.ErrorStacks
