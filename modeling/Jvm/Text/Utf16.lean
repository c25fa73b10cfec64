/-! UTF-16 code units. Every character is one unit or a high surrogate followed by a low one;
`decodeLossy` reads any list of units and puts U+FFFD for each surrogate that has no partner. -/

namespace Jvm.Utf16

def isHighSurrogate (unit : UInt16) : Bool := 0xd800 ≤ unit.toNat && unit.toNat < 0xdc00

def isLowSurrogate (unit : UInt16) : Bool := 0xdc00 ≤ unit.toNat && unit.toNat < 0xe000

/-- The character beyond U+FFFF that a high and a low surrogate stand for. -/
def joinSurrogates (high low : UInt16) : Char :=
  Char.ofNat (0x10000 + (high.toNat - 0xd800) * 0x400 + (low.toNat - 0xdc00))

/-- Stands in for a surrogate without its partner. -/
def replacement : Char := '\uFFFD'

/-- Decodes to the end; `done` holds the characters before, last one first. -/
def decodeOnto (done : List Char) : List UInt16 → List Char
  | [] => done.reverse
  | unit :: rest =>
    if isHighSurrogate unit then
      match rest with
      | [] => (replacement :: done).reverse
      | low :: rest =>
        if isLowSurrogate low then decodeOnto (joinSurrogates unit low :: done) rest
        else decodeOnto (replacement :: done) (low :: rest)
    else if isLowSurrogate unit then decodeOnto (replacement :: done) rest
    else decodeOnto (Char.ofNat unit.toNat :: done) rest

/-- The characters of any list of units. -/
def decodeLossy (units : List UInt16) : List Char := decodeOnto [] units

theorem decodeOnto_eq (done : List Char) (units : List UInt16) :
    decodeOnto done units = done.reverse ++ decodeLossy units := by
  suffices h : ∀ more, decodeOnto (more ++ done) units = done.reverse ++ decodeOnto more units from
    h []
  intro more
  fun_induction decodeOnto more units <;> rw [decodeOnto.eq_def] <;> simp_all

/-- The units of a character. -/
def unitsOf (c : Char) : List UInt16 :=
  if c.toNat < 0x10000 then [.ofNat c.toNat]
  else [.ofNat (0xd800 + (c.toNat - 0x10000) / 0x400), .ofNat (0xdc00 + (c.toNat - 0x10000) % 0x400)]

/-- The units of a text. -/
def encode (text : List Char) : List UInt16 := text.flatMap unitsOf

end Jvm.Utf16
