import StudyWebServer.Http.Response
import StudyWebServer.Http.RequestReader
import StudyWebServer.Http.ReaderRefinement
import StudyWebServer.Http.ReaderRuns
import StudyWebServer.Http.MalformedLine
import StudyWebServer.Http.BodyReads
import StudyWebServer.Http.Segmentation
import StudyWebServer.Http.BufferSafety
import StudyWebServer.Http.WebRoot
import StudyWebServer.Http.ProcessWrite
import StudyWebServer.Http.Delivery
import StudyWebServer.Http.Operations
import StudyWebServer.Http.Life
import StudyWebServer.Library.ResourcePairing
import StudyWebServer.Http.Mapping
import StudyWebServer.Http.RequestAnswer
import StudyWebServer.Http.KeepAlive
import StudyWebServer.Http.Containment
import StudyWebServer.Server.Users
import StudyWebServer.Server.EventLoop
import StudyWebServer.Server.Ownership
import StudyWebServer.Server.Handover
import StudyWebServer.Server.NoStranded
import StudyWebServer.Server.SingleOwner
import StudyWebServer.Library.LinkedList
import StudyWebServer.Noactive.TimerList
import StudyWebServer.Noactive.TimerOrder
import StudyWebServer.Noactive.TimerTick
import StudyWebServer.Noactive.TimerRuns
import StudyWebServer.Http.RequestLanguage
import StudyWebServer.Lesson05.RequestParser
import StudyWebServer.Lesson05.Termination
import StudyWebServer.Lesson05.SameParser
import StudyWebServer.Library.ThreadCount
import StudyWebServer.Server.ThreadPool
import StudyWebServer.Server.ConnectionTable
import StudyWebServer.Noactive.IdleClients
import StudyWebServer.Noactive.EdgeReports
import StudyWebServer.Homework.RunCmd
import StudyWebServer.Homework.Dispatch
import StudyWebServer.Homework.CommandLink
import StudyWebServer.Homework.Boundaries
import StudyWebServer.Http.ResponseText
import StudyWebServer.Http.Reading
import StudyWebServer.Http.RequestLine
import StudyWebServer.Http.Rounds
import StudyWebServer.Server.QueueBound
import StudyWebServer.Http.LineSplitter
import StudyWebServer.Http.ParseState
import StudyWebServer.Http.RealFile
import StudyWebServer.Http.ContentLength
import StudyWebServer.Lesson03.Semaphore
import StudyWebServer.Lesson03.NodeBounds
import StudyWebServer.Lesson04.ThreadServer
import StudyWebServer.Lesson04.PollServer
import StudyWebServer.Lesson04.EpollEcho
import StudyWebServer.Library.BinaryHeap
import StudyWebServer.Library.CondVar
import StudyWebServer.WebServer.Buffer
import StudyWebServer.WebServer.BufferRuns
import StudyWebServer.WebServer.ConnWrite
import StudyWebServer.WebServer.HeapTimer
import StudyWebServer.WebServer.LogLine
import StudyWebServer.WebServer.PoolRuns
import StudyWebServer.WebServer.TimerHeap
import StudyWebServer.WebServer.TimerRuns
import StudyWebServer.Library.Cutting
import StudyWebServer.WebServer.BlockDeque
import StudyWebServer.WebServer.DequeRuns
import StudyWebServer.WebServer.FormFields
import StudyWebServer.WebServer.LogRuns
import StudyWebServer.WebServer.RequestText
import StudyWebServer.WebServer.SqlConnPool
import StudyWebServer.WebServer.SqlPoolRuns
import StudyWebServer.WebServer.HttpServer
