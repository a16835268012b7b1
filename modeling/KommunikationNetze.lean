import KommunikationNetze.Library.Transition
import KommunikationNetze.Chat.Broadcast
import KommunikationNetze.Chat.OutputStream
import KommunikationNetze.Chat.OutputHistory
import KommunikationNetze.Chat.BufferArithmetic
import KommunikationNetze.Chat.NicknamePointer
import KommunikationNetze.Net.PointerArray
import KommunikationNetze.Utils.Tokenising
import KommunikationNetze.Utils.StrTrim
import KommunikationNetze.Echo.Readline
import KommunikationNetze.Echo.ReceiveLoop
import KommunikationNetze.Utils.DictionaryIterator
import KommunikationNetze.Utils.StrHelper
import KommunikationNetze.Chat.Framing
import KommunikationNetze.Webserver.Dictionary
import KommunikationNetze.Webserver.HTTP
import KommunikationNetze.Webserver.HTTPRequest
import KommunikationNetze.Webserver.HTTPResponse
import KommunikationNetze.Webserver.RequestRoundTrip
import KommunikationNetze.Webserver.ResponseStream
import KommunikationNetze.Library.Paths
import KommunikationNetze.Webserver.ResolvePath
import KommunikationNetze.Library.SwapRemove
import KommunikationNetze.Library.Tokens
import KommunikationNetze.Webserver.Poll
import KommunikationNetze.Webserver.PollSafety
import KommunikationNetze.Webserver.HTTPConnection
import KommunikationNetze.Webserver.ConnectionProtocol
import KommunikationNetze.Library.Interleaving
import KommunikationNetze.Utils.Queue
import KommunikationNetze.Utils.QueueOrder
import KommunikationNetze.Utils.QueueLinearizable
import KommunikationNetze.Utils.QueueReclamation
import KommunikationNetze.Utils.DispatchOnce
import KommunikationNetze.Library.SlotArray
import KommunikationNetze.Webserver.PollTable
import KommunikationNetze.Library.KeyedList
import KommunikationNetze.Webserver.PollTableMap
import KommunikationNetze.Webserver.PollReferences
import KommunikationNetze.Net.PollWakeup
import KommunikationNetze.Echo.EchoServer
import KommunikationNetze.Echo.EchoStream
import KommunikationNetze.ChatClient.Client
import KommunikationNetze.ChatClient.Relay
import KommunikationNetze.Chat.PollTable
import KommunikationNetze.Chat.PollThread
import KommunikationNetze.Chat.Notifications
import KommunikationNetze.Chat.PollHandlers
import KommunikationNetze.Chat.PollInvariant
import KommunikationNetze.Chat.PollRuns
import KommunikationNetze.Utils.DictionaryEnumeration
import KommunikationNetze.Utils.StackBounds
import KommunikationNetze.Library.Pieces
import KommunikationNetze.Webserver.HeaderBlock
import KommunikationNetze.Webserver.RequestPointers
import KommunikationNetze.Webserver.RequestRecognition
import KommunikationNetze.Webserver.FileBody
import KommunikationNetze.Webserver.ProcessRequest
import KommunikationNetze.Webserver.ReadRequest
import KommunikationNetze.Webserver.PathBuffer
import KommunikationNetze.Chat.PollPass
import KommunikationNetze.Net.PollPass
import KommunikationNetze.Chat.PollArrays
import KommunikationNetze.Chat.NicknameRuns
import KommunikationNetze.Chat.Renaming
import KommunikationNetze.Chat.ListCommand
import KommunikationNetze.Chat.PrivateMessage
import KommunikationNetze.Chat.ClientsLock
import KommunikationNetze.Utils.DispatchShutdown
import KommunikationNetze.Utils.ShutdownCompletion
import KommunikationNetze.Echo.ReadMessage
import KommunikationNetze.Echo.RunLoop
import KommunikationNetze.Library.Slots
import KommunikationNetze.Echo.SlotTable
import KommunikationNetze.ChatClient.StartUp
import KommunikationNetze.ChatClient.StartUpOrder
import KommunikationNetze.Chat.PollDemand
import KommunikationNetze.ChatClient.RelayHandlers
import KommunikationNetze.ChatClient.RelayInterest
import KommunikationNetze.Library.LinkedTree
import KommunikationNetze.Utils.EntryHeap
import KommunikationNetze.Utils.EntryCounts
import KommunikationNetze.Utils.EntryLayout
import KommunikationNetze.Utils.EntryReferences
import KommunikationNetze.Library.Retries
import KommunikationNetze.Library.Simulation
import KommunikationNetze.Utils.QueueProgress
import KommunikationNetze.Utils.QueueDestruction
import KommunikationNetze.Utils.QueuedDispatch
import KommunikationNetze.Utils.DispatchRefinement
import KommunikationNetze.Utils.DictionaryDestruction
import KommunikationNetze.Utils.IteratorStack
import KommunikationNetze.Chat.Channel
import KommunikationNetze.Chat.ChannelAnswers
import KommunikationNetze.Chat.ChannelRefinement
import KommunikationNetze.Chat.Conversation
import KommunikationNetze.Chat.ServedChannel
import KommunikationNetze.Chat.ClientMemory
import KommunikationNetze.Chat.ClientLifetime
import KommunikationNetze.Webserver.FileResponse
import KommunikationNetze.Webserver.Transaction
import KommunikationNetze.Webserver.Service
import KommunikationNetze.Webserver.Phases
import KommunikationNetze.Webserver.ServedAlone
import KommunikationNetze.Webserver.WebServer
import KommunikationNetze.Echo.Dialogue
import KommunikationNetze.Echo.EchoDialogue
import KommunikationNetze.Echo.DialogueSteps
import KommunikationNetze.ChatClient.ChatSystem
