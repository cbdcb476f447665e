import MessengerClient.AutoDownload.Load
import MessengerClient.Backend.MessageService
import MessengerClient.Backend.Sequential
import MessengerClient.Backend.WebSocket.Rooms
import MessengerClient.ChatFilters.Order
import MessengerClient.Credits.Stored
import MessengerClient.CustomNetwork.CustomApi
import MessengerClient.CustomNetwork.WebSocketClient
import MessengerClient.DcOptions.Difference
import MessengerClient.DeliveryReports.Once
import MessengerClient.DialogsList.Sorted
import MessengerClient.DownloadManagerMtproto.Queue
import MessengerClient.DraftKey
import MessengerClient.ExportData.ParseText
import MessengerClient.FileLoader.Complete
import MessengerClient.Groups
import MessengerClient.Histories.Runs
import MessengerClient.HtmlWriter.Links
import MessengerClient.HtmlWriter.Strings
import MessengerClient.ImageLocation.CacheKeys
import MessengerClient.ImageLocation.RoundTrip
import MessengerClient.IndexedList.Search
import MessengerClient.JsonWriter.Strings
import MessengerClient.JsonWriter.WellFormed
import MessengerClient.MainList.Totals
import MessengerClient.Markdown.Math
import MessengerClient.MessageReactions.Consistent
import MessengerClient.MessageReactions.Paid
import MessengerClient.MessagesList.RemoveLessThan
import MessengerClient.ReceivedIdsManager
import MessengerClient.RepliesList.Counters
import MessengerClient.RepliesList.Unread
import MessengerClient.RepliesList.Viewer
import MessengerClient.SparseIdsSliceBuilder.Window
import MessengerClient.MosaicLayout.Incremental
import MessengerClient.TcpConnection.Packets
import MessengerClient.TcpConnection.Reassembly
import MessengerClient.TlsSocket.ClientHello.Writes
import MessengerClient.TlsSocket.Stream
import MessengerClient.Passport.Encryption
import MessengerClient.Peers.Kept
import MessengerClient.Peers.Usernames
import MessengerClient.PinnedList
import MessengerClient.ProxyData
import MessengerClient.PtsWaiter.Duplicates
import MessengerClient.PtsWaiter.Gap
import MessengerClient.PtsWaiter.Order
import MessengerClient.Statistic.SegmentTree.Scan
import MessengerClient.Storage.ReadBack
import MessengerClient.Storage.StreamedFileDownloader
import MessengerClient.Streaming.RoundTrip
import MessengerClient.Streaming.Reading
import MessengerClient.Updates.Seq
import MessengerClient.Uploader.Accounts
import MessengerClient.Uploader.Once
import MessengerClient.WorkingIntervals.Extract
import MessengerClient.WorkingIntervals.Remove
import MessengerClient.TopPeers
import MessengerClient.Markdown.Validate
import MessengerClient.Markdown.InlineObject
import MessengerClient.RichPage
import MessengerClient.Markdown.Links
import MessengerClient.Editor.TextEntities
import MessengerClient.Editor.RoundTrip
import MessengerClient.Lib.RoseTrees
import MessengerClient.Lib.Ordinals
import MessengerClient.Markdown.Document
import MessengerClient.Markdown.Anchors
import MessengerClient.Markdown.DisplayMath
import MessengerClient.Markdown.DisplayMath.Shown
import MessengerClient.Lib.Drops
import MessengerClient.Streaming.Downloader
import MessengerClient.Lib.Newest
import MessengerClient.Backend.Messages.Paging
import MessengerClient.Backend.Register
import MessengerClient.DomainResolver
import MessengerClient.Backend.Files
import MessengerClient.CustomNetwork.SessionManager
import MessengerClient.RichMessageSerializer.Result
