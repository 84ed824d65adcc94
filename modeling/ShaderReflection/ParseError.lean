import ShaderReflection.Operation
import ShaderReflection.Text.Numeral

/-!
Why a module cannot be read. Every cause ends the reading; offsets count words from the start of
the module.
-/

namespace ShaderReflection

/-- What is wrong with one instruction. -/
inductive StreamFault where
  /-- The word count is zero, so no next instruction could be found. -/
  | zeroLength
  /-- The instruction claims `length` words of the `available` ones. -/
  | overrun (length available : Nat)
  /-- The instruction has `found` operand words, fewer than the operation reads. -/
  | missingOperand (op : Operation) (found : Nat)
  /-- The instruction ends inside a literal string. -/
  | unterminatedString (op : Operation)
  deriving DecidableEq, Repr

/-- Why a module cannot be read. -/
inductive ParseError where
  /-- The byte image is not made of whole words. -/
  | misalignedBytes (length : Nat)
  /-- There are fewer words than a header has. -/
  | tooShort (words : Nat)
  /-- The first word is not the magic number. -/
  | badMagic (found : Word)
  /-- The module is longer than allowed. -/
  | tooManyWords (words max : Nat)
  /-- The header's id bound is larger than allowed. -/
  | idBoundTooLarge (bound max : Word)
  /-- An instruction defines or targets an id that is not below the header's bound. -/
  | idOutOfBounds (id : Ident) (bound : Word) (atWord : Nat)
  /-- The instruction at a word is malformed; its opcode is known unless the module ends there. -/
  | malformed (atWord : Nat) (opcode : Option UInt16) (fault : StreamFault)
  deriving DecidableEq, Repr

/-- The message that reports a fault. -/
def StreamFault.message : StreamFault → String
  | zeroLength => "instruction word count is zero"
  | overrun length available =>
      s!"instruction with word count {length} overruns the module ({available} words available)"
  | missingOperand op found =>
      s!"{op.mnemonic} needs at least {op.minOperands} operand words, found {found}"
  | unterminatedString op => s!"{op.mnemonic} has a literal string without a null terminator"

/-- The message that reports an error. -/
def ParseError.message : ParseError → String
  | misalignedBytes length => s!"module length {length} is not a multiple of 4 bytes"
  | tooShort words => s!"module is too short: need at least 5 header words, got {words}"
  | badMagic found => s!"bad magic number {Numeral.hex found} (expected 0x07230203)"
  | tooManyWords words max => s!"module has {words} words, exceeding the maximum of {max}"
  | idBoundTooLarge bound max => s!"header id-bound {bound} exceeds the maximum of {max}"
  | idOutOfBounds id bound atWord =>
      s!"id %{id} at word {atWord} is outside the header id-bound {bound}"
  | malformed atWord opcode fault =>
      let place := s!"malformed instruction stream at word {atWord} (byte {atWord * 4})"
      let instruction := match opcode with
        | some opcode => s!" opcode {opcode}"
        | none => ""
      s!"{place}{instruction}: {fault.message}"

end ShaderReflection
