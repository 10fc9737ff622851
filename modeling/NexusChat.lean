import NexusChat.Lib.Dict
import NexusChat.Lib.Coro
import NexusChat.Lib.Machine
import NexusChat.Schemas.Ws
import NexusChat.Messaging.ConnectionManager
import NexusChat.Messaging.ManagerFacts
import NexusChat.Messaging.IndexAgreement
import NexusChat.Messaging.ManagerRuns
import NexusChat.Messaging.RedisBroker
import NexusChat.Messaging.BrokerRuns
import NexusChat.Messaging.Reconnection
import NexusChat.Lib.Table
import NexusChat.Env
import NexusChat.Db.Database
import NexusChat.Services.MessageService
import NexusChat.Services.RoomService
import NexusChat.Lib.Paging
import NexusChat.Services.MessageHistory
import NexusChat.App.World
import NexusChat.Services.PresenceService
import NexusChat.Api.Chat
import NexusChat.App.System
import NexusChat.Lib.Stream
import NexusChat.Api.Idempotency
import NexusChat.Lib.KeyedLog
import NexusChat.Api.KeyedMessages
import NexusChat.App.Discipline
import NexusChat.Messaging.SendQueue
import NexusChat.Messaging.Backpressure
import NexusChat.App.LiveOrder
import NexusChat.Api.Backing
import NexusChat.Api.LiveHistory
import NexusChat.Api.Frames
import NexusChat.Messaging.SingleSession
import NexusChat.App.Cleanup
import NexusChat.Lib.SortedSet
import NexusChat.Lib.Window
import NexusChat.Core.RateLimiter
import NexusChat.Core.SlidingWindow
import NexusChat.Api.Retries
import NexusChat.Core.Security
import NexusChat.Services.AuthService
import NexusChat.Services.Registration
import NexusChat.Lib.Utf8
import NexusChat.Core.Passwords
import NexusChat.Lib.Placement
import NexusChat.Client.Chronology
import NexusChat.Lib.Timers
import NexusChat.Client.Connection
import NexusChat.Client.LoggedOut
import NexusChat.Client.SignedOut
import NexusChat.Client.Reconnecting
import NexusChat.Client.Typing
import NexusChat.Api.Authentication
import NexusChat.Services.PresenceEntries
import NexusChat.Lib.Expiry
import NexusChat.Services.PresenceQueries
import NexusChat.App.Moves
import NexusChat.App.Clock
import NexusChat.Api.Online
import NexusChat.App.Ownership
import NexusChat.Lib.Promise
import NexusChat.Api.GhostPresence
import NexusChat.Api.Registered
import NexusChat.Api.Subscriptions
import NexusChat.Api.DeadLetters
import NexusChat.Messaging.Draining
import NexusChat.Client.App
import NexusChat.Client.Rendering
import NexusChat.Client.JoinedRoom
import NexusChat.Client.Payloads
import NexusChat.Client.Opening
import NexusChat.Api.Routes
import NexusChat.Api.Privacy
import NexusChat.Api.Requests
import NexusChat.Api.Atomicity
import NexusChat.Api.Memberships
import NexusChat.Api.Spelling
import NexusChat.Lib.Protocol
import NexusChat.Lib.Replica
import NexusChat.Api.Attendance
import NexusChat.Api.OnlineView
import NexusChat.Api.OnlineList
import NexusChat.Messaging.FanOut
import NexusChat.Lib.Isolation
import NexusChat.Messaging.Listening
import NexusChat.Lib.Cursors
import NexusChat.Services.GrowingHistory
import NexusChat.Api.RoomCalls
import NexusChat.Api.MembershipViews
import NexusChat.Lib.Gate
import NexusChat.App.Parts
import NexusChat.App.Membership
import NexusChat.Api.Gates
import NexusChat.Api.Confidentiality
import NexusChat.Api.WriteAccess
import NexusChat.Messaging.NewestConnection
import NexusChat.Messaging.PrunedRooms
import NexusChat.App.SessionIsolation
import NexusChat.Lib.Rest
import NexusChat.App.Places
import NexusChat.App.Holding
import NexusChat.App.AtRest
import NexusChat.App.Sending
import NexusChat.App.EndToEnd
import NexusChat.App.Authorship
import NexusChat.App.Once
import NexusChat.App.Throttle
import NexusChat.Lib.Conduit
import NexusChat.App.Gapless
import NexusChat.Lib.Transactions
import NexusChat.App.Integrity
import NexusChat.App.Founders
import NexusChat.Api.Signups
import NexusChat.Api.Accounts
