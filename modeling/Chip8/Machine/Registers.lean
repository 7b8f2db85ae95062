import Chip8.Instruction.Basic
/-!
# Registers — sixteen bytes

A register is named by four bits, so every name has a register.  Block transfers move the registers from the first to a
last one, in order.
-/
namespace Chip8

abbrev Registers := Vector UInt8 16

def Registers.read (r : Registers) (x : Register) : UInt8 :=
  r[x]

def Registers.write (r : Registers) (x : Register) (v : UInt8) : Registers :=
  r.set x v

def Registers.upTo (r : Registers) (x : Register) : List UInt8 :=
  r.toList.take (x.val + 1)

/-- The values with the first ones replaced by these bytes. -/
def Registers.overwrite (r : Registers) (bytes : List UInt8) : Registers :=
  Vector.ofFn fun x => bytes[x.val]?.getD (r.read x)

theorem Registers.read_write (r : Registers) (x y : Register) (v : UInt8) :
    (r.write x v).read y = if x = y then v else r.read y := by
  unfold read write
  rw [Fin.getElem_fin, Vector.getElem_set, Fin.getElem_fin]
  exact ite_congr (propext Fin.ext_iff.symm) (fun _ => rfl) (fun _ => rfl)

theorem Registers.read_write_of_ne (r : Registers) {x y : Register} (h : x ≠ y) (v : UInt8) :
    (r.write x v).read y = r.read y := by
  rw [read_write, if_neg h]

theorem Registers.read_overwrite (r : Registers) (bytes : List UInt8) (y : Register) :
    (r.overwrite bytes).read y = bytes[y.val]?.getD (r.read y) := by
  unfold overwrite
  rw [read, Fin.getElem_fin, Vector.getElem_ofFn]

end Chip8
