import ChordSequencer.Text.Numeral
import ChordSequencer.Text.LetterCase
import ChordSequencer.Text.Quoted
import ChordSequencer.Number.Decimal
import ChordSequencer.Scale.Catalog
import ChordSequencer.Key
import ChordSequencer.PlayMode
import ChordSequencer.NoteValue
import ChordSequencer.Wheel
import ChordSequencer.Setting
import ChordSequencer.Orchestra
import ChordSequencer.Song
import ChordSequencer.Conductor.Time
import ChordSequencer.Midi.Device
import ChordSequencer.Midi.Recording
import ChordSequencer.Json.Reader
import ChordSequencer.Main
import ChordSequencer.Proofs.Stretch
import ChordSequencer.Conductor.Operation
import ChordSequencer.Conductor.Scene
import ChordSequencer.Proofs.Sounding
import ChordSequencer.Proofs.Ending
import ChordSequencer.Proofs.Flattening
import ChordSequencer.Proofs.Doubles
import ChordSequencer.Proofs.NoteValues
import ChordSequencer.Proofs.Commands
import ChordSequencer.Proofs.Steps
import ChordSequencer.Proofs.Endurance
import ChordSequencer.Proofs.Grammar
import ChordSequencer.Proofs.Acceptance
import ChordSequencer.Proofs.Lexemes
import ChordSequencer.Proofs.Printing
import ChordSequencer.Proofs.CompactForm
import ChordSequencer.Proofs.Alone
import ChordSequencer.Proofs.Meaning
import ChordSequencer.Proofs.Cut
import ChordSequencer.Proofs.Restating
import ChordSequencer.Proofs.Places
import ChordSequencer.Proofs.Sustains
import ChordSequencer.Proofs.Pace
import ChordSequencer.Proofs.Rounds
import ChordSequencer.Proofs.Range
import ChordSequencer.Proofs.Order
import ChordSequencer.Proofs.Registering
import ChordSequencer.Proofs.Handling
import ChordSequencer.Proofs.Thirds
import ChordSequencer.Proofs.Strategies
import ChordSequencer.Proofs.Stepping
import ChordSequencer.Proofs.WheelTones
import ChordSequencer.Proofs.Balance
import ChordSequencer.Proofs.Degrees
import ChordSequencer.Proofs.Arranging
import ChordSequencer.Proofs.CommaTails
import ChordSequencer.Proofs.Layout
import ChordSequencer.Proofs.Reporting
import ChordSequencer.Proofs.Isolation
import ChordSequencer.Proofs.Releasing
import ChordSequencer.Proofs.Locality
import ChordSequencer.Proofs.Respelling
import ChordSequencer.Proofs.Selectors
import ChordSequencer.Proofs.Attributes
import ChordSequencer.Proofs.WheelChords
import ChordSequencer.Proofs.Framing
import ChordSequencer.Proofs.Bases
import ChordSequencer.Proofs.Configuring
import ChordSequencer.Proofs.Arpeggios
import ChordSequencer.Proofs.Voicing
import ChordSequencer.Proofs.Monophony
import ChordSequencer.Proofs.Afresh
import ChordSequencer.Proofs.Tiling
import ChordSequencer.Proofs.Outputs
import ChordSequencer.Proofs.Timing
import ChordSequencer.Proofs.Saving
import ChordSequencer.Proofs.Lines
import ChordSequencer.Proofs.Pulses
