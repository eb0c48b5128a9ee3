import Xul.Io.Amf0RoundTrip
import Xul.Io.BmfGrammar
import Xul.Io.BmfRoundTrip
import Xul.Io.Codec.BufferedMessageDecoder
import Xul.Io.Codec.MessagePacketPipe
import Xul.Io.MemoryStreams
import Xul.Io.ThreadTaskService
import Xul.Data.BigNumberDivision
import Xul.Data.BitConverter
import Xul.Data.ByteBuffer
import Xul.Data.StringTables
import Xul.Data.StringTokenizer
import Xul.Net.SessionReset
import Xul.Net.UriComponents
import Xul.Net.UriParams
import Xul.Net.UrlMessages
import Xul.Libs.AsioNameResolver
import Xul.Libs.AsioTcpSocket
import Xul.Libs.AsioTimer
import Xul.Libs.LogService
import Xul.Libs.LogConfigurationOrder
import Xul.Libs.PropertiesLogConfigurator
import Xul.Net.Http.BackgroundHttpRequester
import Xul.Net.Http.ChunkedTrailers
import Xul.Net.Http.ChunkedTransfer
import Xul.Net.Http.ConcurrentHttpRequests
import Xul.Net.Http.GzipDelivery
import Xul.Net.Http.HttpClientCallbacks
import Xul.Net.Http.HttpConnectionDelivery
import Xul.Net.Http.HttpRedirects
import Xul.Net.Http.HttpResponseExtractor
import Xul.Net.Http.HttpServerFraming
import Xul.Net.Http.HttpServerLifecycle
import Xul.Text.JsonWriter
import Xul.Text.XmlWriter
import Xul.Util.DataParser
import Xul.Util.IdGenerators
import Xul.Util.HandleMap
import Xul.Util.DynamicOptions
import Xul.Util.OptionsImpl
import Xul.Util.ProgramOptions
import Xul.Util.SimpleFlowMeter
import Xul.Io.DataEncoding
import Xul.Net.Socks4
import Xul.Xio.Net.HttpRequestDecoder
import Xul.Data.BigNumberAliasing
import Xul.Text.HexEncoding
import Xul.Data.BigNumberText
import Xul.Text.Base64Encoding
import Xul.Text.Base64Bounds
import Xul.Text.Base64Lines
import Xul.Util.ByteCounts
import Xul.Std.Splitting
import Xul.Std.Maps
import Xul.Os.Paths
import Xul.Os.PathParts
import Xul.Os.PathReplacement
import Xul.Libs.FileLogAppender
import Xul.Os.CopyFile
import Xul.Hash.Hasher
import Xul.Lang.ObjectPtr
import Xul.Os.RemoveAll
import Xul.Os.CreateDirectories
import Xul.Text.TinyxmlElement
import Xul.Xio.Net.TcpServer
