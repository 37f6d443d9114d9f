import BlockText.Main
import BlockText.Proofs.Name.Agreement
import BlockText.Proofs.Name.Balance
import BlockText.Proofs.Reading.Builder
import BlockText.Proofs.Reading.Composition
import BlockText.Proofs.Reading.Nesting
import BlockText.Proofs.Reading.Spacing
import BlockText.Proofs.Reading.Strict
import BlockText.Proofs.Number.Rank
import BlockText.Proofs.Number.Shortest
import BlockText.Proofs.Number.Write
import BlockText.Proofs.Print.Roundtrip
import BlockText.Proofs.Name.Fault
import BlockText.Proofs.Name.Viable
import BlockText.Proofs.Reading.Escape
import BlockText.Proofs.Reading.Fault
import BlockText.Proofs.Reading.Online
import BlockText.Proofs.Reading.Position
import BlockText.Proofs.Json.Document
import BlockText.Proofs.Reading.Conservation
import BlockText.Proofs.Reading.Inert
import BlockText.Proofs.Reading.Kinds
import BlockText.Proofs.Reading.Slots
import BlockText.Proofs.CommandLine.Check
import BlockText.Proofs.CommandLine.FixtureRun
import BlockText.Proofs.Name.Factor
import BlockText.Proofs.Name.Reference
import BlockText.Proofs.Name.Squeeze
import BlockText.Proofs.Reading.Closing
import BlockText.Proofs.Reading.BlockComment
import BlockText.Proofs.Reading.StepBody
import BlockText.Proofs.Reading.Verbatim
import BlockText.Proofs.Reading.Cascade
import BlockText.Proofs.Reading.LibraryOpening
import BlockText.Proofs.Reading.Offset
import BlockText.Proofs.Reading.ClausePlace
import BlockText.Proofs.Fixture.Split
import BlockText.Proofs.Text.Layout
