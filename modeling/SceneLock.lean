import SceneLock.Host.Volume
import SceneLock.Main
import SceneLock.Proofs.Acquisition
import SceneLock.Proofs.Admission
import SceneLock.Proofs.Ancestry
import SceneLock.Proofs.Answers
import SceneLock.Proofs.Appends
import SceneLock.Proofs.Assertions
import SceneLock.Proofs.Audit
import SceneLock.Proofs.Dates
import SceneLock.Proofs.EventLines
import SceneLock.Proofs.Exclusion
import SceneLock.Proofs.Extensionality
import SceneLock.Proofs.Failures
import SceneLock.Proofs.GraphFiles
import SceneLock.Proofs.Guards
import SceneLock.Proofs.Hierarchy
import SceneLock.Proofs.Interference
import SceneLock.Proofs.Isolation
import SceneLock.Proofs.Leaks
import SceneLock.Proofs.Leases
import SceneLock.Proofs.Ledger
import SceneLock.Proofs.LogFiles
import SceneLock.Proofs.Orders
import SceneLock.Proofs.Preorder
import SceneLock.Proofs.Reaping
import SceneLock.Proofs.Refusals
import SceneLock.Proofs.Releases
import SceneLock.Proofs.Requests
import SceneLock.Proofs.Scopes
import SceneLock.Proofs.Subtrees
import SceneLock.Proofs.Totals
import SceneLock.Proofs.Turns
import SceneLock.Session
import SceneLock.Proofs.Monotony
import SceneLock.Proofs.Listings
import SceneLock.Proofs.Removals
import SceneLock.Proofs.Nesting
import SceneLock.Proofs.Outlines
import SceneLock.Proofs.Readings
import SceneLock.Proofs.Names
import SceneLock.Proofs.Retries
import SceneLock.Proofs.LineNumbers
import SceneLock.Proofs.Settings
