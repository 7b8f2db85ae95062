import Mathlib
import Chip8.Machine.Operation
/-!
# Cells — a machine as numbered cells, where an access out of range has no result

`Machine` cannot be accessed out of range: its types leave no place for that, its call stack is a list, and its screen
a row of bits for each line.  A machine that is stored has none of this.  Its registers, memory, keys, pixels and
return addresses are arrays, everything in them is found by a number, and numbers are computed in words of a fixed
width.  Here such a machine executes the same instructions, and every access to a cell, every sum, product and
difference, and every cut to a narrower width is *checked* (`fit?`, `less?`, `put?`, `copy?`): one that does not fit
gives `none`, and so does the operation it is part of.

That this never happens is proved in `Cells.Total`; nothing here assumes it.
-/
namespace Chip8

/-- The values that a byte has. -/
abbrev byteLimit : Nat := 256

/-- The values that a word has. -/
abbrev wordLimit : Nat := 65536

/-- The values that an index into an array has. -/
abbrev indexLimit : Nat := 18446744073709551616

def fit? (limit n : Nat) : Option Nat :=
  if n < limit then some n else none

def less? (a b : Nat) : Option Nat :=
  if b ≤ a then some (a - b) else none

def put? {α : Type} (a : Array α) (i : Nat) (v : α) : Option (Array α) :=
  if h : i < a.size then some (a.set i v h) else none

def copy? {α : Type} (a : Array α) (start : Nat) (values : List α) : Option (Array α) :=
  if start + values.length ≤ a.size then
    some (Array.ofFn fun i : Fin a.size => if start ≤ i.val then values[i.val - start]?.getD a[i] else a[i])
  else none

/-- A machine as numbered cells. -/
structure Cells where
  config : Config
  registers : Array UInt8
  index : UInt16
  pc : UInt16
  /-- the places for return addresses; those from `depth` on hold what was there before -/
  slots : Array UInt16
  /-- how many of the places are in use -/
  depth : UInt8
  timers : Timers
  memory : Array UInt8
  /-- the pixels of the screen, row after row -/
  pixels : Array Bool
  dirty : Bool
  keys : Array Bool
  /-- the key that went down while it was waited for -/
  held : Option UInt8
  status : Status
  generator : Random.Generator

namespace Cells

structure Result where
  cells : Cells
  fault : Option Fault := none

/-! ## Cells by their number -/

def register? (r : Cells) (x : Register) : Option UInt8 :=
  r.registers[x.val]?

def setRegister? (r : Cells) (x : Register) (v : UInt8) : Option Cells := do
  let registers ← put? r.registers x.val v
  some { r with registers }

def isDown (r : Cells) (key : UInt8) : Bool :=
  r.keys[key.toNat]?.getD false

def firstDown? (r : Cells) : Option UInt8 :=
  (r.keys.toList.findIdx? id).map UInt8.ofNat

/-- The pixel in a column and a row; off the screen none is on. -/
def pixel? (r : Cells) (x y : Nat) : Option Bool :=
  if screenWidth ≤ x ∨ screenHeight ≤ y then some false else r.pixels[y * screenWidth + x]?

def toggle? (pixels : Array Bool) (x y : Nat) : Option (Array Bool × Bool) := do
  let i ← fit? indexLimit (y * screenWidth + x)
  let on ← pixels[i]?
  let pixels ← put? pixels i !on
  some (pixels, on)

/-! ## Moving on, calls and returns -/

/-- Goes on, if the next instruction starts in memory. -/
def advance? (r : Cells) (distance : Nat) : Option Result := do
  let next ← fit? indexLimit (r.pc.toNat + distance)
  if next < memorySize then
    let pc ← fit? wordLimit next
    some { cells := { r with pc := UInt16.ofNat pc } }
  else some { cells := r, fault := some (.outOfBounds next) }

def call? (r : Cells) (target : Address) : Option Result :=
  if stackLimit ≤ r.depth.toNat then some { cells := r, fault := some .stackOverflow }
  else do
    let slots ← put? r.slots r.depth.toNat r.pc
    let depth ← fit? byteLimit (r.depth.toNat + 1)
    some { cells := { r with slots, depth := UInt8.ofNat depth, pc := UInt16.ofNat target.val } }

def returnFromCall? (r : Cells) : Option Result :=
  if r.depth.toNat = 0 then some { cells := r, fault := some .stackUnderflow }
  else do
    let depth ← less? r.depth.toNat 1
    let pc ← r.slots[depth]?
    advance? { r with depth := UInt8.ofNat depth, pc } 2

/-! ## Blocks of memory -/

def writeBlock? (value? : Nat → Option UInt8) (start : Nat) (r : Cells) (offset : Nat) : Nat → Option Result
  | 0 => some { cells := r }
  | n + 1 => do
    let value ← value? offset
    let a ← fit? indexLimit (start + offset)
    if a < memorySize then
      let memory ← put? r.memory a value
      writeBlock? value? start { r with memory } (offset + 1) n
    else some { cells := r, fault := some (.outOfBounds a) }

def readBlock? (start : Nat) (r : Cells) (offset : Nat) : Nat → Option Result
  | 0 => some { cells := r }
  | n + 1 => do
    let a ← fit? indexLimit (start + offset)
    if a < memorySize then
      let value ← r.memory[a]?
      let registers ← put? r.registers offset value
      readBlock? start { r with registers } (offset + 1) n
    else some { cells := r, fault := some (.outOfBounds a) }

/-- Goes on after a block was moved, unless that met a fault. -/
def afterBlock? (result : Result) (go : Cells → Option Result) : Option Result :=
  match result.fault with
  | some _ => some result
  | none => go result.cells

def passBlock? (r : Cells) (n : Nat) : Option Result :=
  match r.config.dialect.transfer with
  | .advanced => do
    let index ← fit? wordLimit (r.index.toNat + n)
    advance? { r with index := UInt16.ofNat index } 2
  | .restored => advance? r 2

/-! ## Sprites -/

def drawRow? (data : UInt8) (x y : Nat) (pixels : Array Bool) (erased : Bool) (column : Nat) :
    Nat → Option (Array Bool × Bool)
  | 0 => some (pixels, erased)
  | n + 1 =>
    if screenWidth ≤ x + column then some (pixels, erased)
    else if data.toBitVec.getMsbD column then do
      let (pixels, on) ← toggle? pixels (x + column) y
      drawRow? data x y pixels (erased || on) (column + 1) n
    else drawRow? data x y pixels erased (column + 1) n

def drawRows? (x y start : Nat) (r : Cells) (erased : Bool) (row : Nat) : Nat → Option (Result × Bool)
  | 0 => some ({ cells := r }, erased)
  | n + 1 =>
    if screenHeight ≤ y + row then some ({ cells := r }, erased)
    else do
      let a ← fit? indexLimit (start + row)
      if a < memorySize then
        let data ← r.memory[a]?
        let (pixels, erased) ← drawRow? data x (y + row) r.pixels erased 0 8
        drawRows? x y start { r with pixels } erased (row + 1) n
      else some ({ cells := r, fault := some (.outOfBounds a) }, erased)

def draw? (r : Cells) (x y : Register) (n : Nibble) : Option Result := do
  let vx ← r.register? x
  let vy ← r.register? y
  let (result, erased) ← drawRows? (vx.toNat % screenWidth) (vy.toNat % screenHeight) r.index.toNat
    { r with dirty := true } false 0 n.val
  afterBlock? result fun r => do
    let r ← r.setRegister? .flag erased.toUInt8
    r.advance? 2

/-! ## Instructions -/

def condition? (r : Cells) : Condition → Option Bool
  | .equalsByte x nn => do return (← r.register? x) = nn
  | .differsByte x nn => do return (← r.register? x) ≠ nn
  | .equals x y => do return (← r.register? x) = (← r.register? y)
  | .differs x y => do return (← r.register? x) ≠ (← r.register? y)
  | .keyDown x => do return r.isDown (← r.register? x)
  | .keyUp x => do return !r.isDown (← r.register? x)

def combine? (r : Cells) (op : Operator) (x y : Register) : Option Cells := do
  let a ← r.register? x
  let b ← r.register? y
  match op.apply r.config.dialect.shift a b with
  | (value, none) => r.setRegister? x value
  | (value, some flag) => do
    let r ← r.setRegister? x value
    r.setRegister? .flag flag.toUInt8

def waitKey? (r : Cells) (x : Register) : Option Result :=
  match r.held with
  | none =>
    match r.firstDown? with
    | none => some { cells := r }
    | some key => some { cells := { r with held := some key, timers := r.timers.start } }
  | some key =>
    if r.isDown key then some { cells := { r with timers := r.timers.hold } }
    else do
      let r ← r.setRegister? x key
      advance? { r with held := none, timers := r.timers.silence } 2

def pointToGlyph? (r : Cells) (x : Register) : Option Cells := do
  let v ← r.register? x
  if v < 16 then
    let a ← fit? wordLimit (glyphHeight * v.toNat)
    some { r with index := UInt16.ofNat a }
  else some r

def execute? (r : Cells) : Instruction → Option Result
  | .machineRoutine nnn => some { cells := r, fault := some (.machineRoutine (UInt16.ofNat nnn.val)) }
  | .clearScreen => advance? { r with pixels := r.pixels.map fun _ => false, dirty := true } 2
  | .returnFromCall => r.returnFromCall?
  | .jump nnn => some { cells := { r with pc := UInt16.ofNat nnn.val } }
  | .call nnn => r.call? nnn
  | .jumpOffset nnn => do
    let v ← r.register? .offset
    let pc ← fit? wordLimit (nnn.val + v.toNat)
    some { cells := { r with pc := UInt16.ofNat pc } }
  | .skip condition => do r.advance? (if ← r.condition? condition then 4 else 2)
  | .setByte x nn => do (← r.setRegister? x nn).advance? 2
  | .addByte x nn => do (← r.setRegister? x ((← r.register? x) + nn)).advance? 2
  | .combine op x y => do (← r.combine? op x y).advance? 2
  | .setIndex nnn => advance? { r with index := UInt16.ofNat nnn.val } 2
  | .random x nn => do
    let (word, generator) := r.generator.next
    advance? { ← r.setRegister? x (word.toUInt8 &&& nn) with generator } 2
  | .draw x y n => r.draw? x y n
  | .readDelay x => do (← r.setRegister? x r.timers.delay).advance? 2
  | .waitKey x => r.waitKey? x
  | .setDelay x => do advance? { r with timers := { r.timers with delay := ← r.register? x } } 2
  | .setSound x => do advance? { r with timers := r.timers.setSound (← r.register? x) } 2
  | .addIndex x => do advance? { r with index := r.index + (← r.register? x).toUInt16 } 2
  | .fontGlyph x => do (← r.pointToGlyph? x).advance? 2
  | .storeDecimal x => do
    let digits := decimalDigits (← r.register? x)
    afterBlock? (← writeBlock? (digits[·]?) r.index.toNat r 0 3) (·.advance? 2)
  | .storeRegisters x => do
    afterBlock? (← writeBlock? (r.registers[·]?) r.index.toNat r 0 (x.val + 1)) (·.passBlock? (x.val + 1))
  | .loadRegisters x => do
    afterBlock? (← readBlock? r.index.toNat r 0 (x.val + 1)) (·.passBlock? (x.val + 1))

/-! ## Operations -/

def cycle? (r : Cells) : Option Result := do
  let a := r.pc.toNat
  if a < memorySize then
    let high ← r.memory[a]?
    let b ← fit? indexLimit (a + 1)
    if b < memorySize then
      let low ← r.memory[b]?
      let word := UInt16.ofNat (256 * high.toNat + low.toNat)
      match Instruction.decode? word with
      | none => some { cells := r, fault := some (.notRecognized word) }
      | some i => r.execute? i
    else some { cells := r, fault := some (.outOfBounds b) }
  else some { cells := r, fault := some (.outOfBounds a) }

def step? (r : Cells) (ticks : Nat) : Option Cells :=
  if r.status.isOk then do
    let result ← cycle? { r with timers := r.timers.elapse ticks }
    match result.fault with
    | none => some result.cells
    | some fault => some { result.cells with status := .halted fault }
  else some r

def reset? (r : Cells) : Option Cells := do
  let memory ← copy? (r.memory.map fun _ => 0) 0 r.config.font.toList
  some {
    config := r.config
    registers := Array.replicate 16 0
    index := 0
    pc := 0
    slots := Array.replicate stackLimit 0
    depth := 0
    timers := {}
    memory
    pixels := Array.replicate (screenWidth * screenHeight) false
    dirty := true
    keys := Array.replicate keyCount false
    held := none
    status := .reset
    generator := r.config.generator r.generator }

def load? (r : Cells) (program : List UInt8) : Option Cells := do
  let r ← r.reset?
  if program.length ≤ programCapacity then
    let memory ← copy? r.memory programStart program
    some { r with memory, status := .ok, pc := UInt16.ofNat programStart }
  else some { r with status := .halted (.programTooBig program.length), pc := UInt16.ofNat programStart }

def build? (config : Config) (entropy : Random.Key) : Option Cells :=
  reset? {
    config
    registers := Array.replicate 16 0
    index := 0
    pc := 0
    slots := Array.replicate stackLimit 0
    depth := 0
    timers := {}
    memory := Array.replicate memorySize 0
    pixels := Array.replicate (screenWidth * screenHeight) false
    dirty := false
    keys := Array.replicate keyCount false
    held := none
    status := .reset
    generator := { key := entropy } }

def perform? (r : Cells) : Operation → Option Cells
  | .load program => r.load? program
  | .step ticks => r.step? ticks
  | .keyDown key => some { r with keys := r.keys.setIfInBounds key.toNat true }
  | .keyUp key => some { r with keys := r.keys.setIfInBounds key.toNat false }
  | .takeDirty => some { r with dirty := false }

def run? (r : Cells) (history : List Operation) : Option Cells :=
  history.foldlM perform? r

end Cells

end Chip8
