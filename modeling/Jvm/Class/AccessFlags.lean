import Jvm.Text.Hex

/-! Access flags of classes, fields and methods. Some bits mean one thing on a class or field and
another on a method, so two flags can share a bit. -/

namespace Jvm

/-- One named flag. -/
inductive Flag where
  | publicAccess | privateAccess | protectedAccess | static | final | super | synchronized
  | volatile | bridge | transient | varargs | native | interface | abstract | strict | synthetic
  | annotation | enum
  deriving DecidableEq, Repr

namespace Flag

/-- All flags, by ascending bit. -/
def all : List Flag :=
  [publicAccess, privateAccess, protectedAccess, static, final, super, synchronized, volatile,
    bridge, transient, varargs, native, interface, abstract, strict, synthetic, annotation, enum]

def bit : Flag → UInt16
  | publicAccess => 0x0001
  | privateAccess => 0x0002
  | protectedAccess => 0x0004
  | static => 0x0008
  | final => 0x0010
  | super | synchronized => 0x0020
  | volatile | bridge => 0x0040
  | transient | varargs => 0x0080
  | native => 0x0100
  | interface => 0x0200
  | abstract => 0x0400
  | strict => 0x0800
  | synthetic => 0x1000
  | annotation => 0x2000
  | enum => 0x4000

def name : Flag → String
  | publicAccess => "PUBLIC"
  | privateAccess => "PRIVATE"
  | protectedAccess => "PROTECTED"
  | static => "STATIC"
  | final => "FINAL"
  | super => "SUPER"
  | synchronized => "SYNCHRONIZED"
  | volatile => "VOLATILE"
  | bridge => "BRIDGE"
  | transient => "TRANSIENT"
  | varargs => "VARARGS"
  | native => "NATIVE"
  | interface => "INTERFACE"
  | abstract => "ABSTRACT"
  | strict => "STRICT"
  | synthetic => "SYNTHETIC"
  | annotation => "ANNOTATION"
  | enum => "ENUM"

end Flag

/-- A set of flags, as its bits. Bits without a name are kept. -/
structure AccessFlags where
  bits : UInt16 := 0
  deriving DecidableEq, Repr

namespace AccessFlags

/-- Every bit of `other` is set. -/
def contains (flags other : AccessFlags) : Bool := flags.bits &&& other.bits == other.bits

def has (flags : AccessFlags) (flag : Flag) : Bool := flags.contains ⟨flag.bit⟩

/-- The flags set, in the order of `Flag.all`. -/
def toList (flags : AccessFlags) : List Flag := Flag.all.filter flags.has

/-- The bits in full width, for diagnostics. -/
def describe (flags : AccessFlags) : String :=
  "AccessFlags(0x" ++ Hex.padded 4 flags.bits.toNat ++ ")"

end AccessFlags

end Jvm
