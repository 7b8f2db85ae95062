import Chip8.Machine.Basic
import Chip8.Machine.Operators
/-!
# Execute — what each instruction does

An instruction that faults keeps what it did before the fault: the part of a block that was moved, the rows that were
drawn, the call that was closed.  So executing gives a machine in every case, and a fault beside it.
-/
namespace Chip8

/-- A machine after an instruction, and the fault that the instruction met. -/
structure Outcome where
  machine : Machine
  fault : Option Fault := none

namespace Machine

/-- Moves the program counter on, if an instruction can stand where it gets to. -/
def advance (m : Machine) (distance : Nat) : Outcome :=
  let next := m.pc.toNat + distance
  if next < memorySize then { machine := { m with pc := UInt16.ofNat next } }
  else { machine := m, fault := some (.outOfBounds next) }

def next (m : Machine) : Outcome :=
  m.advance 2

/-- Goes on as told if the block of `n` bytes at the index lies in memory; `m` has moved the part that does. -/
def ifBlockFits (m : Machine) (n : Nat) (go : Machine → Outcome) : Outcome :=
  match firstOutside? m.index.toNat n with
  | some address => { machine := m, fault := some (.outOfBounds address) }
  | none => go m

def passBlock (m : Machine) (n : Nat) : Machine :=
  match m.config.dialect.transfer with
  | .advanced => { m with index := UInt16.ofNat (m.index.toNat + n) }
  | .restored => m

def call (m : Machine) (target : Address) : Outcome :=
  if m.stack.length < stackLimit then
    { machine := { m with stack := m.pc :: m.stack, pc := UInt16.ofNat target.val } }
  else { machine := m, fault := some .stackOverflow }

def returnFromCall (m : Machine) : Outcome :=
  match m.stack with
  | [] => { machine := m, fault := some .stackUnderflow }
  | caller :: stack => { m with pc := caller, stack }.next

/-- The flag is written last, so the flag register holds it also when it is the target. -/
def combine (m : Machine) (op : Operator) (x y : Register) : Machine :=
  match op.apply m.config.dialect.shift (m.register x) (m.register y) with
  | (value, none) => m.setRegister x value
  | (value, some flag) => (m.setRegister x value).setRegister .flag flag.toUInt8

/-- The low byte of the next random word, masked. -/
def randomize (m : Machine) (x : Register) (mask : UInt8) : Machine :=
  let (word, generator) := m.generator.next
  { m.setRegister x (word.toUInt8 &&& mask) with generator }

/-- Draws a sprite.  Its corner wraps around the screen but its rows do not; rows below the screen are not read, and the
flag tells whether a pixel was turned off. -/
def draw (m : Machine) (x y : Register) (n : Nibble) : Outcome :=
  let column := (m.register x).toNat % screenWidth
  let row := (m.register y).toNat % screenHeight
  let height := min n.val (screenHeight - row)
  let mask := Screen.sprite column row (m.memory.load m.index.toNat height)
  let erased := m.display.screen.meets mask
  { m with display := m.display.draw mask }.ifBlockFits height fun m =>
    (m.setRegister .flag erased.toUInt8).next

/-- Waits for a key: the lowest one that is down is taken, and its number is stored when it is up again.  In between the
tone plays and the sound counter is held. -/
def waitKey (m : Machine) (x : Register) : Outcome :=
  match m.keyWait with
  | .idle =>
    match m.keypad.firstDown? with
    | none => { machine := m }
    | some key => { machine := { m with keyWait := .awaiting key, timers := m.timers.start } }
  | .awaiting key =>
    if m.keypad.holds key then { machine := { m with timers := m.timers.hold } }
    else { m.setRegister x (UInt8.ofNat key.val) with keyWait := .idle, timers := m.timers.silence }.next

/-- The index becomes the address of a digit's sprite; larger values leave it. -/
def pointToGlyph (m : Machine) (x : Register) : Machine :=
  if m.register x < 16 then { m with index := UInt16.ofNat (glyphHeight * (m.register x).toNat) } else m

def storeAtIndex (m : Machine) (bytes : List UInt8) : Machine :=
  { m with memory := m.memory.store m.index.toNat bytes }

/-- Loads the first `n` registers from the index. -/
def loadFromIndex (m : Machine) (n : Nat) : Machine :=
  { m with registers := m.registers.overwrite (m.memory.load m.index.toNat n) }

def afterTransfer (m : Machine) (x : Register) : Outcome :=
  m.ifBlockFits (x.val + 1) fun m => (m.passBlock (x.val + 1)).next

def execute (m : Machine) : Instruction → Outcome
  | .machineRoutine nnn => { machine := m, fault := some (.machineRoutine (UInt16.ofNat nnn.val)) }
  | .clearScreen => { m with display := m.display.clear }.next
  | .returnFromCall => m.returnFromCall
  | .jump nnn => { machine := { m with pc := UInt16.ofNat nnn.val } }
  | .call nnn => m.call nnn
  | .jumpOffset nnn => { machine := { m with pc := UInt16.ofNat (nnn.val + (m.register .offset).toNat) } }
  | .skip condition => m.advance (if condition.holds m.registers m.keypad then 4 else 2)
  | .setByte x nn => (m.setRegister x nn).next
  | .addByte x nn => (m.setRegister x (m.register x + nn)).next
  | .combine op x y => (m.combine op x y).next
  | .setIndex nnn => { m with index := UInt16.ofNat nnn.val }.next
  | .random x nn => (m.randomize x nn).next
  | .draw x y n => m.draw x y n
  | .readDelay x => (m.setRegister x m.timers.delay).next
  | .waitKey x => m.waitKey x
  | .setDelay x => { m with timers := { m.timers with delay := m.register x } }.next
  | .setSound x => { m with timers := m.timers.setSound (m.register x) }.next
  | .addIndex x => { m with index := m.index + (m.register x).toUInt16 }.next
  | .fontGlyph x => (m.pointToGlyph x).next
  | .storeDecimal x => (m.storeAtIndex (decimalDigits (m.register x))).ifBlockFits 3 next
  | .storeRegisters x => (m.storeAtIndex (m.registers.upTo x)).afterTransfer x
  | .loadRegisters x => (m.loadFromIndex (x.val + 1)).afterTransfer x

end Machine

end Chip8
