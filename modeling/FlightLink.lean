import FlightLink.Main
import FlightLink.Receiver.Description
import FlightLink.Receiver.Lemmas
import FlightLink.Receiver.Session
import FlightLink.Proofs.Items
import FlightLink.Proofs.Scan
import FlightLink.Proofs.Partway
import FlightLink.Proofs.Steps
import FlightLink.Proofs.Runs
import FlightLink.Proofs.Verdicts
import FlightLink.Proofs.Reference
import FlightLink.Proofs.Fragments
import FlightLink.Proofs.MixedStreams
import FlightLink.Proofs.Provenance
import FlightLink.Proofs.Bits
import FlightLink.Proofs.Remainders
import FlightLink.Proofs.Corruption
import FlightLink.Proofs.Representation
import FlightLink.Proofs.Histories
import FlightLink.Proofs.Codebooks
import FlightLink.Proofs.Segmentation
import FlightLink.Proofs.PrefixCodes
import FlightLink.Proofs.Captures
import FlightLink.Proofs.Accounting
import FlightLink.Proofs.Resynchronisation
import FlightLink.Proofs.Records
import FlightLink.Proofs.CommandLine
import FlightLink.Proofs.CompleteCodes
import FlightLink.Proofs.Deeds
import FlightLink.Proofs.Limits
import FlightLink.Proofs.Oversized
import FlightLink.Proofs.LongDivision
import FlightLink.Proofs.Observation
import FlightLink.Proofs.HighWater
import FlightLink.Proofs.ReadingOn
import FlightLink.Proofs.Stamps
import FlightLink.Proofs.BoundedSinks
import FlightLink.Proofs.JsonReading
import FlightLink.Proofs.LosslessRecords
import FlightLink.Proofs.FlippedBits
import FlightLink.Proofs.UniqueSplitting
import FlightLink.Proofs.InflateCommand
import FlightLink.Proofs.SettingsTexts
