import GgLib.BufferRefinement
import GgLib.HttpParserSafety
import GgLib.HttpRequestEnd
import GgLib.HttpAnswers
import GgLib.ConnectionLoop
import GgLib.ConnectionStream
import GgLib.BackPressure
import GgLib.ConnectionClose
import GgLib.HttpDelivery
import GgLib.PriorityQueue
import GgLib.TimerQueue
import GgLib.TimerEntries
import GgLib.TimerOwnership
import GgLib.TimerBatch
import GgLib.TimerArming
import GgLib.EventLoop
import GgLib.EventLoopFunctors
import GgLib.EventLoopQuit
import GgLib.EventLoopThread
import GgLib.ConnectionFinal
import GgLib.ConnectionRecord
import GgLib.ConnectionShutdown
import GgLib.Poller
import GgLib.PollerWatch
import GgLib.ConnectionDestroy
import GgLib.ConnectionUnregistered
import GgLib.TimerThreads
import GgLib.TimerCancel
import GgLib.TcpServer
import GgLib.TcpServerLife
import GgLib.TcpServerAgree
import GgLib.HttpRequestLine
import GgLib.HttpRoundTrip
import GgLib.Acceptor
import GgLib.ConditionVariable
import GgLib.ThreadPool
import GgLib.ThreadPoolWakeups
import GgLib.AsyncLogging
import GgLib.AsyncLoggingOrder
import GgLib.AsyncLoggingStop
import GgLib.TimeZoneRoundTrip
import GgLib.ZoneFileSafety
import GgLib.LoggingZone
import GgLib.CalendarTime
import GgLib.SortedSearch
import GgLib.TimeZone
import GgLib.Logging
import GgLib.HttpParserLoop
import GgLib.PollEntries
import GgLib.Date
import GgLib.CivilDate
import GgLib.DateCalendar
import GgLib.UtcTime
import GgLib.BigEndian
import GgLib.ZoneFileRoundTrip
import GgLib.BufferIntegers
import GgLib.BufferReset
import GgLib.LogStream
import GgLib.LogStreamCut
import GgLib.ChannelTie
import GgLib.HttpResponseBuffer
import GgLib.HttpResponseReader
import GgLib.LogStreamMemory
import GgLib.FormatToN
import GgLib.Logger
import GgLib.LogFileName
import GgLib.LogFile
import GgLib.DiyFp
import GgLib.NearestPoint
import GgLib.GrisuDigits
import GgLib.Grisu
import GgLib.GrisuPrint
import GgLib.HttpConversation
import GgLib.LogPipeline
import GgLib.Any
import GgLib.LogFileErrors
import GgLib.PollRounds
import GgLib.TextOrder
import GgLib.TimeTexts
import GgLib.BufferMemory
import GgLib.HttpStream
import GgLib.HttpClosing
import GgLib.TimerSchedule
import GgLib.HttpClosing
