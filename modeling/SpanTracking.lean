import SpanTracking.EventParser
import SpanTracking.Machine.Script
import SpanTracking.Text.Listing
import SpanTracking.Proofs.Effects
import SpanTracking.Proofs.Store
import SpanTracking.Proofs.Coloring
import SpanTracking.Proofs.Storage
import SpanTracking.Proofs.Code
import SpanTracking.Proofs.Fragments
import SpanTracking.Proofs.Run
import SpanTracking.Proofs.Events
import SpanTracking.Proofs.Buffers
import SpanTracking.Proofs.Functions
import SpanTracking.Proofs.Generated
import SpanTracking.Proofs.Representation
import SpanTracking.Proofs.Simulation
import SpanTracking.Proofs.Construction
import SpanTracking.Proofs.Observation
import SpanTracking.Proofs.Refinement
import SpanTracking.Proofs.Ledger
import SpanTracking.Proofs.Delivery
import SpanTracking.Proofs.Sharing
import SpanTracking.Proofs.Independence
import SpanTracking.Proofs.Drafts
import SpanTracking.Proofs.Moments
import SpanTracking.Proofs.Outline
import SpanTracking.Proofs.Passage
import SpanTracking.Proofs.Authors
import SpanTracking.Proofs.Slots
import SpanTracking.Proofs.Safety
import SpanTracking.Proofs.Editing
import SpanTracking.Proofs.Jumps
import SpanTracking.Proofs.Termination
import SpanTracking.Proofs.Totality
import SpanTracking.Proofs.Agreement
import SpanTracking.Proofs.Parallel
import SpanTracking.Proofs.Stability
import SpanTracking.Proofs.Contexts
import SpanTracking.Proofs.Planning
import SpanTracking.Proofs.Rebasing
import SpanTracking.Proofs.Grafts
import SpanTracking.Proofs.Emissions
import SpanTracking.Proofs.LooseEnds
import SpanTracking.Proofs.Partitions
import SpanTracking.Proofs.Repetition
import SpanTracking.Proofs.Acceptance
import SpanTracking.Proofs.Labels
import SpanTracking.Proofs.TypeTexts
import SpanTracking.Proofs.Rearrangement
import SpanTracking.Proofs.Registers
import SpanTracking.Proofs.Costs
import SpanTracking.Proofs.Literals
import SpanTracking.Proofs.Fields
