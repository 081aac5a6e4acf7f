import Webserv.ForStd.CString
import Webserv.ForStd.Except
import Webserv.ForStd.Heap
import Webserv.ForStd.Incremental
import Webserv.ForStd.List
import Webserv.ForStd.Multiset
import Webserv.ForStd.OrderedMap
import Webserv.ForStd.Simulation
import Webserv.ForStd.Stream
import Webserv.ForStd.Transition
import Webserv.Native.AsyncMain
import Webserv.Native.Bytes
import Webserv.Native.CgiEnv
import Webserv.Native.Combinators
import Webserv.Native.Config
import Webserv.Native.Connection
import Webserv.Native.Descriptors
import Webserv.Native.EventListener
import Webserv.Native.ExecutionContext
import Webserv.Native.ForwardList
import Webserv.Native.FutIo
import Webserv.Native.Future
import Webserv.Native.HostedTasks
import Webserv.Native.HttpMessage
import Webserv.Native.HttpParser
import Webserv.Native.HttpSerializer
import Webserv.Native.LinkedQueue
import Webserv.Native.MpmcQueue
import Webserv.Native.Routing
import Webserv.Native.ServConf
import Webserv.Native.Server
import Webserv.Native.ServerPipeline
import Webserv.Native.SharedState
import Webserv.Native.StaticThreadPool
import Webserv.Native.Task
import Webserv.Spec.BodyLength
import Webserv.Spec.CgiEnvCorrect
import Webserv.Spec.CombinatorsCorrect
import Webserv.Spec.ConfGrammar
import Webserv.Spec.ConfLayout
import Webserv.Spec.ConfParser
import Webserv.Spec.ConfTokens
import Webserv.Spec.ConfWords
import Webserv.Spec.ConfigCorrect
import Webserv.Spec.ConfigLocations
import Webserv.Spec.ConnectionCorrect
import Webserv.Spec.ConnectionTraces
import Webserv.Spec.DecimalCorrect
import Webserv.Spec.DescriptorsCorrect
import Webserv.Spec.EndOfStream
import Webserv.Spec.EventListenerCorrect
import Webserv.Spec.EventLoopCorrect
import Webserv.Spec.EventPacking
import Webserv.Spec.FieldParsing
import Webserv.Spec.ForwardListCorrect
import Webserv.Spec.ForwardListValues
import Webserv.Spec.FutReadCorrect
import Webserv.Spec.FutWriteCorrect
import Webserv.Spec.FutureChain
import Webserv.Spec.FutureEmbedding
import Webserv.Spec.FutureExecution
import Webserv.Spec.FutureLogic
import Webserv.Spec.FutureMeaning
import Webserv.Spec.FutureRuns
import Webserv.Spec.FutureWorld
import Webserv.Spec.HeaderBlock
import Webserv.Spec.HeaderSpacing
import Webserv.Spec.HostPort
import Webserv.Spec.HostedTasksCorrect
import Webserv.Spec.HostedTasksLoop
import Webserv.Spec.HostedTasksRuns
import Webserv.Spec.HostedTasksTurns
import Webserv.Spec.LineEnds
import Webserv.Spec.LineFraming
import Webserv.Spec.LinkedQueueCorrect
import Webserv.Spec.MessageStreams
import Webserv.Spec.MpmcCorrect
import Webserv.Spec.ParserChunking
import Webserv.Spec.ParserComplete
import Webserv.Spec.ParserFaults
import Webserv.Spec.ReadFaults
import Webserv.Spec.ReadUntilCorrect
import Webserv.Spec.ReencodeCorrect
import Webserv.Spec.RelayCorrect
import Webserv.Spec.RoutingCorrect
import Webserv.Spec.SerializerCorrect
import Webserv.Spec.ServerCorrect
import Webserv.Spec.ServerPipelineCorrect
import Webserv.Spec.ServerResponses
import Webserv.Spec.ServerRuns
import Webserv.Spec.ServerTasks
import Webserv.Spec.ServerTurns
import Webserv.Spec.TaskMeaning
import Webserv.Spec.ThreadPoolCorrect
import Webserv.Spec.ThreadPoolShutdown
