/-!
# Decoding files

Characters are read from a file one at a time, by a reader that is not part of this library: what it
answers is a parameter. `decode` is the reader that programs run with. It decodes UTF-8, and a fault
does not end the decoding: it is listed in its place, and decoding goes on behind it. A byte that
should continue a character and does not is taken as the start of the next one.
-/

namespace Treewalk

set_option autoImplicit false

inductive Fault where
  | notFound
  | permissionDenied
  | isFolder
  | notFolder
  | nameTooLong
  | invalidData
  | unexpectedEnd
  | other
deriving DecidableEq, Inhabited

namespace Fault

def message : Fault → String
  | notFound => "entity not found"
  | permissionDenied => "permission denied"
  | isFolder => "is a directory"
  | notFolder => "not a directory"
  | nameTooLong => "invalid filename"
  | invalidData => "invalid data"
  | unexpectedEnd => "unexpected end of file"
  | other => "other error"

end Fault

/-- What asking for the next character gives. -/
inductive Pull where
  | char (value : Char)
  | fault (value : Fault)
deriving DecidableEq, Inhabited

namespace Pull

def char? : Pull → Option Char
  | char value => some value
  | fault _ => none

def fault? : Pull → Option Fault
  | char _ => none
  | fault value => some value

end Pull

/-- A reader of characters: what asking for the next one gives for the bytes of a file, again and
again up to its end. -/
class CharReader where
  pulls : List UInt8 → List Pull

/-- A character of which some bytes are still owed: their number, the code point so far, and the
least code point that needs as many bytes. -/
structure Pending where
  owed : Nat
  code : Nat
  least : Nat
deriving DecidableEq, Inhabited

namespace Pending

/-- The character of a complete sequence; longer forms than needed, surrogates and code points out
of range are no characters. -/
def finish (code least : Nat) : Pull :=
  if code < least then .fault .invalidData
  else if code.isValidChar then .char (Char.ofNat code)
  else .fault .invalidData

end Pending

/-- What the first byte of a character gives: pulls that are complete, or a character that owes
bytes. -/
def decodeLead (byte : UInt8) : List Pull × Option Pending :=
  let value := byte.toNat
  if value < 0x80 then ([.char (Char.ofNat value)], none)
  else if value < 0xc0 then ([.fault .invalidData], none)
  else if value < 0xe0 then ([], some ⟨1, value % 0x20, 0x80⟩)
  else if value < 0xf0 then ([], some ⟨2, value % 0x10, 0x800⟩)
  else if value < 0xf8 then ([], some ⟨3, value % 0x08, 0x10000⟩)
  else ([.fault .invalidData], none)

def isContinuation (byte : UInt8) : Bool :=
  0x80 ≤ byte.toNat && byte.toNat < 0xc0

def decodeFrom : Option Pending → List UInt8 → List Pull
  | none, [] => []
  | some _, [] => [.fault .unexpectedEnd]
  | none, byte :: rest => (decodeLead byte).1 ++ decodeFrom (decodeLead byte).2 rest
  | some pending, byte :: rest =>
      if isContinuation byte then
        let code := pending.code * 0x40 + byte.toNat % 0x40
        if pending.owed ≤ 1 then Pending.finish code pending.least :: decodeFrom none rest
        else decodeFrom (some { pending with owed := pending.owed - 1, code := code }) rest
      else
        .fault .invalidData :: ((decodeLead byte).1 ++ decodeFrom (decodeLead byte).2 rest)

def decode (bytes : List UInt8) : List Pull :=
  decodeFrom none bytes

instance : CharReader :=
  ⟨decode⟩

end Treewalk
