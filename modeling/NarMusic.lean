import NarMusic.Lib.Bytes
import NarMusic.Lib.OrdMap
import NarMusic.Lib.Run
import NarMusic.Lib.Slots
import NarMusic.Lib.Sql
import NarMusic.Lib.Path
import NarMusic.Lib.Except
import NarMusic.Lib.FileTree
import NarMusic.Lib.Binary
import NarMusic.Lib.Utf8
import NarMusic.Lib.Hex
import NarMusic.Lib.Assignments
import NarMusic.Lib.Inodes
import NarMusic.Lib.Shared
import NarMusic.Lib.Fresh
import NarMusic.Lib.Tokens
import NarMusic.Lib.Lines
import NarMusic.Lib.Overlap
import NarMusic.Lib.Base64
import NarMusic.Lib.Marks
import NarMusic.Lib.JsonValue
import NarMusic.Lib.Pool
import NarMusic.Lib.Fields
import NarMusic.Lib.JsonText
import NarMusic.Http.Request
import NarMusic.Http.Block
import NarMusic.Http.Canonical
import NarMusic.Http.Readers
import NarMusic.Http.Json
import NarMusic.Http.Response
import NarMusic.Http.StaticFile
import NarMusic.Server.Connection
import NarMusic.Server.Exchange
import NarMusic.Server.Output
import NarMusic.Server.FileStream
import NarMusic.Server.StreamSender
import NarMusic.Server.Descriptors
import NarMusic.Server.Release
import NarMusic.Server.Idle
import NarMusic.Server.Ownership
import NarMusic.Bilibili.Search
import NarMusic.Core.RateLimiter
import NarMusic.Core.RateWindows
import NarMusic.Http.Router
import NarMusic.Http.Precedence
import NarMusic.Http.Paths
import NarMusic.Http.Spelling
import NarMusic.Http.UrlDecode
import NarMusic.Core.ProtectionService
import NarMusic.Core.Base64
import NarMusic.Main.Routes
import NarMusic.Main.Config
import NarMusic.Core.Smtp
import NarMusic.Download.Queue
import NarMusic.Download.Naming
import NarMusic.Download.Cleanup
import NarMusic.Download.Observe
import NarMusic.Download.Library
import NarMusic.Download.TaskStore
import NarMusic.Download.LibraryStore
import NarMusic.Download.Replace
import NarMusic.Download.Outcome
import NarMusic.Download.Dedup
import NarMusic.Download.Expiry
import NarMusic.Download.Directory
import NarMusic.Download.Deletion
import NarMusic.Zip.Writer
import NarMusic.Zip.Reader
import NarMusic.Zip.RoundTrip
import NarMusic.Zip.Narrowing
import NarMusic.Zip.BatchDownload
import NarMusic.Zip.EntryNames
import NarMusic.Bilibili.Keys
import NarMusic.Bilibili.BatchSearch
import NarMusic.Web.Text
import NarMusic.Web.FileName
import NarMusic.Web.Playlist
import NarMusic.Web.Json
import NarMusic.Web.Api
import NarMusic.Web.Submit
import NarMusic.Web.Batch
import NarMusic.Web.Selection
import NarMusic.Web.Lyrics
import NarMusic.Download.BatchCreate
import NarMusic.Lyrics.Lrc
import NarMusic.Lyrics.Tags
import NarMusic.Lyrics.Clean
import NarMusic.Lyrics.Merge
import NarMusic.Lyrics.Reading
import NarMusic.Lyrics.Krc
import NarMusic.Lyrics.Aggregator
import NarMusic.Lyrics.FetchBest
import NarMusic.Lyrics.Similarity
import NarMusic.Lyrics.SharePage
import NarMusic.Core.Logger
import NarMusic.Bilibili.Audio
import NarMusic.Client.CurlClient
import NarMusic.Download.LibraryController
import NarMusic.Download.Requests
import NarMusic.Main.Api
import NarMusic.Bilibili.Choice
import NarMusic.Lib.Attempt
import NarMusic.Lyrics.KugouKrc
import NarMusic.Lyrics.Providers
import NarMusic.Http.Replies
import NarMusic.Main.Replies
import NarMusic.Server.Delivery
