import Chip8.CommandLine.Headless
import Chip8.CommandLine.Playing
import Chip8.Host.Session
import Chip8.Machine.Action
import Chip8.Main
import Chip8.Proofs.CommandLine.Headless
import Chip8.Proofs.Host.Attempts
import Chip8.Proofs.Host.Frames
import Chip8.Proofs.Host.Loop
import Chip8.Proofs.Host.Ticks
import Chip8.Proofs.Host.TimerLoop
import Chip8.Proofs.Instruction.Patterns
import Chip8.Proofs.Machine.Blocks
import Chip8.Proofs.Machine.Calls
import Chip8.Proofs.Machine.Congruence
import Chip8.Proofs.Machine.ControlFlow
import Chip8.Proofs.Machine.Draws
import Chip8.Proofs.Machine.Flags
import Chip8.Proofs.Machine.Records
import Chip8.Proofs.Machine.Replay
import Chip8.Proofs.Machine.Sprites
import Chip8.Proofs.Machine.Ticking
import Chip8.Proofs.Machine.Waiting
import Chip8.Proofs.Memory.Image
import Chip8.Proofs.Screen.Text
import Chip8.Proofs.Storage.Safety
import Chip8.Proofs.Storage.Writes
import Chip8.Proofs.Terminal.Draining
import Chip8.Proofs.Terminal.HeldKeys
import Chip8.Proofs.Terminal.Painting
import Chip8.Random.Seeded
import Chip8.Screen.Frame
import Chip8.Screen.Text
import Chip8.Terminal.Console
