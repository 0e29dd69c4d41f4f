import Angelic.Model.Printf

namespace Angelic.Spec.Printf
open CString Model.Printf

/-! What C99 prints: a call of `vsnprintf` as the pieces of its format, each with its argument. -/

inductive Conv where
  | d | i | u | x | X
  deriving DecidableEq, Repr

/-- No modifier, `l` or `z`. -/
inductive Length where
  | int | long | size
  deriving DecidableEq, Repr

inductive Piece where
  | byte (b : Byte) (h : b ≠ 0 ∧ b ≠ ch '%')
  | percent
  | s (v : Option Str)
  | c (w : UInt64)
  | p (w : UInt64)
  | num (width : Option { n : Nat // 0 < n }) (len : Length) (conv : Conv) (w : UInt64)

def Conv.letter : Conv → Byte
  | .d => ch 'd'
  | .i => ch 'i'
  | .u => ch 'u'
  | .x => ch 'x'
  | .X => ch 'X'

def Length.letters : Length → Str
  | .int => []
  | .long => [ch 'l']
  | .size => [ch 'z']

/-- A zero-padded width. -/
def widthText : Option { n : Nat // 0 < n } → Str
  | none => []
  | some n => ch '0' :: decimal n

namespace Piece

def format : Piece → Str
  | .byte b _ => [b]
  | .percent => [ch '%', ch '%']
  | .s _ => [ch '%', ch 's']
  | .c _ => [ch '%', ch 'c']
  | .p _ => [ch '%', ch 'p']
  | .num width len conv _ => ch '%' :: (widthText width ++ len.letters ++ [conv.letter])

def args : Piece → List VArg
  | .byte _ _ | .percent => []
  | .s v => [.str v]
  | .c w | .p w | .num _ _ _ w => [.word w]

end Piece

/-- The value of an argument in the type its directive names. -/
def Length.signed : Length → UInt64 → Int
  | .int, w => w.toUInt32.toInt32.toInt
  | .long, w | .size, w => w.toInt64.toInt

def Length.unsigned : Length → UInt64 → Nat
  | .int, w => w.toUInt32.toNat
  | .long, w | .size, w => w.toNat

def hexLower (n : Nat) : Str := (Nat.toDigits 16 n).map ch
def hexUpper (n : Nat) : Str := (Nat.toDigits 16 n).map fun c => ch c.toUpper

def signText (v : Int) : Str := if v < 0 then [ch '-'] else []

namespace Conv

def isSigned : Conv → Bool
  | .d | .i => true
  | _ => false

def sign (conv : Conv) (len : Length) (w : UInt64) : Str := if conv.isSigned then signText (len.signed w) else []

def digits (len : Length) (w : UInt64) : Conv → Str
  | .d | .i => decimal (len.signed w).natAbs
  | .u => decimal (len.unsigned w)
  | .x => hexLower (len.unsigned w)
  | .X => hexUpper (len.unsigned w)

end Conv

/-- Zeros between the sign and the digits make up the width. -/
def padded (width : Option { n : Nat // 0 < n }) (sign digits : Str) : Str :=
  sign ++ List.replicate (width.elim 0 Subtype.val - (sign.length + digits.length)) (ch '0') ++ digits

/-- What a piece prints. The form of a pointer is the implementation's, as is what it prints for a null string. -/
def Piece.text : Piece → Str
  | .byte b _ => [b]
  | .percent => [ch '%']
  | .s v => cstr (v.getD (lit "(null)"))
  | .c w => [w.toUInt8]
  | .p w => lit "0x" ++ hexUpper w.toNat
  | .num width len conv w => padded width (conv.sign len w) (conv.digits len w)

def format (ps : List Piece) : Str := ps.flatMap Piece.format
def args (ps : List Piece) : List VArg := ps.flatMap Piece.args
def render (ps : List Piece) : Str := ps.flatMap Piece.text

/-- What C99 asks of a call: no more than `size` bytes are touched, they hold the text cut and terminated, and the
length of the whole text is returned. -/
def Conforms (size : Nat) (ps : List Piece) (r : Option Printed) : Prop :=
  ∃ p, r = some p ∧ p.stored.length ≤ size ∧ p.stored = (render ps).take (size - 1) ++ [0] ∧ p.ret = (render ps).length

end Angelic.Spec.Printf
