import MqttClient.Client.Api
import MqttClient.Shadow.Script
import MqttClient.Shadow.Versions
import MqttClient.Shadow.Statuses
import MqttClient.Shadow.Deliveries
import MqttClient.Shadow.Provenance
import MqttClient.Shadow.Tallies
import MqttClient.Shadow.Balance
import MqttClient.Effect.Threads
import MqttClient.Session.Acknowledgements
import MqttClient.Session.Filters
import MqttClient.Session.Handshake
import MqttClient.Session.Callbacks
import MqttClient.Session.Ledger
import MqttClient.Session.ReadBounds
import MqttClient.Session.Runs
import MqttClient.Session.Transport
import MqttClient.Session.Connected
import MqttClient.Session.Subscriptions
import MqttClient.Session.Resubscription
import MqttClient.Session.Reconnecting
import MqttClient.Session.Codes
import MqttClient.Session.Settling
import MqttClient.Session.Outcomes
import MqttClient.Wire.Publications
import MqttClient.Session.Streams
import MqttClient.Client.TopicFilters
import MqttClient.Wire.ConnectPackets
import MqttClient.Session.Parameters
import MqttClient.Session.Handling
import MqttClient.Session.Pubacks
import MqttClient.Session.Selections
import MqttClient.Text.JsonRecords
import MqttClient.Measurement.Strings
import MqttClient.Measurement.Results
import MqttClient.Measurement.Deltas
import MqttClient.Text.Decimals
import MqttClient.Text.JsonScalars
import MqttClient.Shadow.Builder
import MqttClient.Wire.RoundTrips
import MqttClient.Wire.Writers
import MqttClient.Wire.Sizes
import MqttClient.Session.Refusals
import MqttClient.Effect.Logging
import MqttClient.Wire.Accesses
import MqttClient.Wire.Subacks
import MqttClient.Session.Sending
import MqttClient.Session.Verdicts
import MqttClient.Session.Undisturbed
import MqttClient.Session.Pings
import MqttClient.Session.KeepAlive
import MqttClient.Session.Claims
import MqttClient.Database.Mysql
import MqttClient.Text.Escapes
import MqttClient.Measurement.Configuration
import MqttClient.Shadow.Integers
import MqttClient.Shadow.Buffers
import MqttClient.Shadow.Names
import MqttClient.Effect.Observing
import MqttClient.Shadow.DeltaSubscription
import MqttClient.Shadow.Link
import MqttClient.Shadow.Trees
import MqttClient.Shadow.Outlines
import MqttClient.Shadow.OwnVersions
import MqttClient.Shadow.ClientTokens
import MqttClient.Shadow.Printing
import MqttClient.Text.Sql
import MqttClient.Wire.LengthCodec
import MqttClient.Measurement.Replacing
import MqttClient.Network.Writing
import MqttClient.Session.Waits
import MqttClient.Database.Statements
import MqttClient.Shadow.Completions
import MqttClient.Effect.Ending
import MqttClient.Session.Holding
import MqttClient.Session.Exclusion
import MqttClient.Session.Exchange
import MqttClient.Session.Loopback
import MqttClient.Shadow.Recognition
import MqttClient.Shadow.Truncation
import MqttClient.Shadow.Decoding
import MqttClient.Network.Stack
