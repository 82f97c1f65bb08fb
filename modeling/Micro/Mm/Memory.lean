import Micro.Kern.State
import Micro.Lib.Word

/-!
# Reading and writing memory

Accesses to virtual addresses under an address space, built from the single-byte
accesses of the machine.  A multi-byte value is little-endian.
-/

namespace Micro.Mm

open Kern Lib

variable {σ : Type}

/-- Load a number of the given width in bytes. -/
def loadWord (machine : Machine σ) (dev : σ) (map : VmMap) (address width : Nat) :
    Option Nat := do
  let bytes ← (List.range width).mapM fun i => machine.load dev map (addWord address i)
  pure (bytes.foldr (fun byte value => byte.toNat + 256 * value) 0)

def storeBytes (machine : Machine σ) (map : VmMap) : σ → Nat → List UInt8 → Option σ
  | dev, _, [] => some dev
  | dev, address, byte :: bytes => do
      let dev ← machine.store dev map address byte
      storeBytes machine map dev (addWord address 1) bytes

def wordBytes (value : Nat) : List UInt8 :=
  (List.range 8).map fun i => UInt8.ofNat (value / 256 ^ i)

/-- `memcpy` of the remaining bytes -/
def memcpy (machine : Machine σ) (map : VmMap) : Nat → σ → (dst src : Nat) → Option σ
  | 0, dev, _, _ => some dev
  | size + 1, dev, dst, src => do
      let byte ← machine.load dev map src
      let dev ← machine.store dev map dst byte
      memcpy machine map size dev (addWord dst 1) (addWord src 1)

end Micro.Mm
