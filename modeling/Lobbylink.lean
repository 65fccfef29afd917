import Lobbylink.Lib.Runs
import Lobbylink.Client.Interleaving
import Lobbylink.Client.Offers
import Lobbylink.Client.Roster
import Lobbylink.Client.TokenStore
import Lobbylink.Java.Sends
import Lobbylink.Server.Atomicity
import Lobbylink.Server.Cascade
import Lobbylink.Server.Handovers
import Lobbylink.Server.Isolation
import Lobbylink.Server.Lifetime
import Lobbylink.Server.Seats
import Lobbylink.Server.Signals
import Lobbylink.Server.Started
import Lobbylink.System.Agreement
import Lobbylink.System.Answers
import Lobbylink.System.Clients
import Lobbylink.Client.Codec
import Lobbylink.Client.Url
import Lobbylink.Java.SignalingUrl
import Lobbylink.Java.Json
import Lobbylink.System.Urls
import Lobbylink.Java.Acceptance
import Lobbylink.Server.Outbound
import Lobbylink.Wasm.Inner
import Lobbylink.Wasm.Sends
import Lobbylink.Client.Candidates
import Lobbylink.Config.Toml
import Lobbylink.Config.Arrays
import Lobbylink.Config.Documents
import Lobbylink.Config.Reading
import Lobbylink.Config.Grammar
import Lobbylink.Config.Soundness
import Lobbylink.Config.Load
import Lobbylink.Config.Orders
import Lobbylink.Client.Watches
import Lobbylink.Client.Maps
import Lobbylink.System.Tellings
import Lobbylink.Java.Telling
import Lobbylink.Client.Past
import Lobbylink.Java.Discipline
import Lobbylink.Java.Signals
import Lobbylink.Java.Trickle
import Lobbylink.Ts.Game
import Lobbylink.Ts.Telling
import Lobbylink.Ts.Storage
import Lobbylink.System.Rooms
import Lobbylink.System.Browsers
import Lobbylink.Ts.Chains
import Lobbylink.Ts.Closing
import Lobbylink.System.Deliveries
import Lobbylink.Config.Validate
import Lobbylink.System.Startup
import Lobbylink.Ts.Listeners
