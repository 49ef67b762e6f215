import TreeRemoval.Json.Reader
import TreeRemoval.Main
import TreeRemoval.Trace
import TreeRemoval.Proofs.Computation
import TreeRemoval.Proofs.FileSystem.Contents
import TreeRemoval.Proofs.FileSystem.Resolution
import TreeRemoval.Proofs.FileSystem.Locate
import TreeRemoval.Proofs.World.Calls
import TreeRemoval.Proofs.World.Answers
import TreeRemoval.Proofs.Deletion.Steps
import TreeRemoval.Proofs.Deletion.Walk
import TreeRemoval.Proofs.Deletion.Scan
import TreeRemoval.Proofs.Deletion.Tree
import TreeRemoval.Proofs.Confinement
import TreeRemoval.Proofs.FileSystem.Trail
import TreeRemoval.Proofs.World.Making
import TreeRemoval.Proofs.Emptying
import TreeRemoval.Proofs.Outcomes
import TreeRemoval.Proofs.FileSystem.Losses
import TreeRemoval.Proofs.FileSystem.Wear
import TreeRemoval.Proofs.World.Refusals
import TreeRemoval.Proofs.Deletion.Survey
import TreeRemoval.Proofs.Deletion.Refused
import TreeRemoval.Proofs.Deletion.Surveyed
import TreeRemoval.Proofs.Removal
import TreeRemoval.Proofs.FileSystem.Unwinding
import TreeRemoval.Proofs.World.RealPath
import TreeRemoval.Proofs.Protection
import TreeRemoval.Proofs.Deletion.Looking
import TreeRemoval.Proofs.Deletion.Tour
import TreeRemoval.Proofs.Truth
import TreeRemoval.Proofs.Reach
import TreeRemoval.Proofs.Wiping
import TreeRemoval.Proofs.FileSystem.Drift
import TreeRemoval.Proofs.World.Drift
import TreeRemoval.Proofs.Race
import TreeRemoval.Proofs.Reports
import TreeRemoval.Proofs.World.Chronicle
import TreeRemoval.Proofs.World.Amid
import TreeRemoval.Proofs.Deletion.Amid
import TreeRemoval.Proofs.Following
import TreeRemoval.Proofs.Attrition
import TreeRemoval.Proofs.Replacement
import TreeRemoval.Proofs.Deletion.Turns
import TreeRemoval.Proofs.Resumption
import TreeRemoval.Proofs.NewPaths
import TreeRemoval.Proofs.Matching
import TreeRemoval.Proofs.Deletion.Likeness
import TreeRemoval.Proofs.Deletion.Parallel
import TreeRemoval.Proofs.World.Setbacks
import TreeRemoval.Proofs.Deletion.Enduring
import TreeRemoval.Proofs.Cancellation
import TreeRemoval.Proofs.FileSystem.Passage
import TreeRemoval.Proofs.Retention
import TreeRemoval.Proofs.Linked
import TreeRemoval.Proofs.FileSystem.Rearrangement
import TreeRemoval.Proofs.World.Rearrangement
import TreeRemoval.Proofs.Order
import TreeRemoval.Proofs.FileSystem.Ground
import TreeRemoval.Proofs.World.Founding
import TreeRemoval.Proofs.Keeping
import TreeRemoval.Proofs.Recreation
import TreeRemoval.Proofs.Deletion.Rests
import TreeRemoval.Proofs.Deletion.Efforts
import TreeRemoval.Proofs.Attempts
import TreeRemoval.Proofs.Deletion.Accounts
import TreeRemoval.Proofs.Tracing
import TreeRemoval.Proofs.FileSystem.Size
import TreeRemoval.Proofs.Counters
import TreeRemoval.Proofs.Pending
import TreeRemoval.Proofs.FileSystem.Enumeration
import TreeRemoval.Proofs.World.Idle
import TreeRemoval.Proofs.Scanning
import TreeRemoval.Proofs.Rendering
import TreeRemoval.Proofs.Json.Strings
import TreeRemoval.Proofs.Json.Reading
import TreeRemoval.Proofs.Lossless
import TreeRemoval.Proofs.Single
import TreeRemoval.Proofs.Guards
import TreeRemoval.Proofs.Alterations
import TreeRemoval.Proofs.Expressible
import TreeRemoval.Proofs.Loggers
