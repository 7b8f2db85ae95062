import Chip8.Machine.Operation
import Chip8.Main
import Chip8.Proofs.Arithmetic
import Chip8.Proofs.Assembly
import Chip8.Proofs.Calls
import Chip8.Proofs.ColorText
import Chip8.Proofs.Dialects
import Chip8.Proofs.Drawing
import Chip8.Proofs.Elapsed
import Chip8.Proofs.Flow
import Chip8.Proofs.Glyphs
import Chip8.Proofs.KeyMoves
import Chip8.Proofs.Lifecycle
import Chip8.Proofs.Noninterference
import Chip8.Proofs.Outcome
import Chip8.Proofs.Overlay
import Chip8.Proofs.Parity
import Chip8.Proofs.PressText
import Chip8.Proofs.Provenance
import Chip8.Proofs.Records
import Chip8.Proofs.Redraw
import Chip8.Proofs.Rendering
import Chip8.Proofs.Replay
import Chip8.Proofs.Script
import Chip8.Proofs.Tone
import Chip8.Proofs.Transfer
import Chip8.Proofs.Watching
