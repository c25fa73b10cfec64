import Jvm.Pool.ConstantPool

/-! Reading a constant pool: a two-byte count of slots, then the constants. The slots are filled
in order, one to a round, so `slots.size` is always the index of the next. -/

namespace Jvm.ConstantPool

open Decoder

/-- The last slot holds a long or double, so the next one holds nothing. -/
def endsWide (slots : Array (Option Constant)) : Bool := slots.back?.any (·.any Constant.isWide)

/-- Fills the next slot. -/
def decodeSlot (slots : Array (Option Constant)) : Decoder (Array (Option Constant)) :=
  if endsWide slots then return slots.push none
  else do
    let constant ← Constant.decode
    report (.constantRead slots.size constant.tag)
    return slots.push (some constant)

/-- A pool whose references all lead to constants. -/
def decode : Decoder ConstantPool := do
  let count ← u16
  let slots ← rounds decodeSlot (count.toNat - 1) #[none]
  if endsWide slots then fail (.wideAtEnd (slots.size - 1))
  else
    let pool : ConstantPool := ⟨slots⟩
    ofExcept pool.checkReferences
    return pool

end Jvm.ConstantPool
