import StateResolution.CommandLine.Arguments
import StateResolution.CommandLine.Basic
import StateResolution.CommandLine.Folder
import StateResolution.Configuration
import StateResolution.Decimal.Binary64
import StateResolution.Decimal.Numeral
import StateResolution.Decimal.Shortest
import StateResolution.Digest.Fingerprint
import StateResolution.Digest.Sha256
import StateResolution.Error
import StateResolution.Event.Basic
import StateResolution.Event.StateKey
import StateResolution.Event.Wire
import StateResolution.Fixture
import StateResolution.Graph.Acyclic
import StateResolution.Graph.Basic
import StateResolution.Graph.Chain
import StateResolution.Identifier.Address
import StateResolution.Identifier.Basic
import StateResolution.Identifier.ServerName
import StateResolution.Json.Document
import StateResolution.Json.Embedded
import StateResolution.Json.Printer
import StateResolution.Json.Reader
import StateResolution.Json.Value
import StateResolution.Main
import StateResolution.Proofs.Digest.Fingerprint
import StateResolution.Proofs.Fallible
import StateResolution.Proofs.Fixture.Versions
import StateResolution.Proofs.Graph.Acyclic
import StateResolution.Proofs.Graph.Descent
import StateResolution.Proofs.Graph.Explore
import StateResolution.Proofs.Graph.Reach
import StateResolution.Proofs.Resolution.Account
import StateResolution.Proofs.Resolution.Ancestry
import StateResolution.Proofs.Resolution.AuthDifference
import StateResolution.Proofs.Resolution.Completeness
import StateResolution.Proofs.Resolution.Conflicts
import StateResolution.Proofs.Resolution.Convergence
import StateResolution.Proofs.Resolution.Countdown
import StateResolution.Proofs.Resolution.Evaluation
import StateResolution.Proofs.Resolution.LeastFirst
import StateResolution.Proofs.Resolution.Mainline
import StateResolution.Proofs.Resolution.MainlineOrder
import StateResolution.Proofs.Resolution.PowerOrder
import StateResolution.Proofs.Resolution.Precedence
import StateResolution.Proofs.Resolution.Protection
import StateResolution.Proofs.Resolution.Replay
import StateResolution.Proofs.Resolution.SenderLevel
import StateResolution.Proofs.Resolution.Stability
import StateResolution.Proofs.Resolution.Survivors
import StateResolution.Proofs.Resolution.TopologicalSort
import StateResolution.Proofs.Resolver.SingleCheck
import StateResolution.Proofs.Resolver.Sufficiency
import StateResolution.Proofs.Resolver.Transparency
import StateResolution.Proofs.Room.Freshness
import StateResolution.Proofs.Room.Recovery
import StateResolution.Proofs.Room.Sections
import StateResolution.Proofs.Room.SingleFlight
import StateResolution.Proofs.Rules.AuthPlaces
import StateResolution.Proofs.Rules.Authority
import StateResolution.Proofs.Rules.Authorization
import StateResolution.Proofs.Rules.Citations
import StateResolution.Proofs.Rules.LevelChange
import StateResolution.Proofs.Rules.Membership
import StateResolution.Proofs.Rules.PowerLevels
import StateResolution.Proofs.StateMap.Entries
import StateResolution.Proofs.Store.Closure
import StateResolution.Proofs.Store.DepthBound
import StateResolution.Proofs.Store.Levels
import StateResolution.Proofs.Store.Part
import StateResolution.Proofs.Text.ByteOrder
import StateResolution.Resolution.Basic
import StateResolution.Resolution.Conflicts
import StateResolution.Resolution.Mainline
import StateResolution.Resolution.PowerOrder
import StateResolution.Resolution.Replay
import StateResolution.Resolution.TopologicalSort
import StateResolution.Resolver.Basic
import StateResolution.Resolver.Cache
import StateResolution.Resolver.RecencyMap
import StateResolution.Resolver.SingleCheck
import StateResolution.Room.Interleaving
import StateResolution.Room.Service
import StateResolution.Room.Slot
import StateResolution.Rules.AuthEvents
import StateResolution.Rules.Authorization
import StateResolution.Rules.Citations
import StateResolution.Rules.LevelChange
import StateResolution.Rules.Membership
import StateResolution.Rules.PowerLevels
import StateResolution.Rules.Rejection
import StateResolution.Rules.RoomVersion
import StateResolution.Settings.Basic
import StateResolution.Settings.Environment
import StateResolution.Settings.Layer
import StateResolution.Settings.Toml
import StateResolution.SortedMap
import StateResolution.SortedSet
import StateResolution.StateMap.Basic
import StateResolution.StateMap.Wire
import StateResolution.Store.Basic
import StateResolution.Store.Closure
import StateResolution.Text.BasicString
import StateResolution.Text.Blank
import StateResolution.Text.Duration
import StateResolution.Text.Integer
import StateResolution.Text.Quoted
