import Angelic.Lib.Format
import Mathlib.Algebra.Group.Int.Defs

namespace Angelic.Model.Printf
open CString

/-! `vsnprintf` of `libc_glue.c` as it is written. The rest of the model uses `CString.vsnprintf`, which knows the
directives the server's texts use. -/

/-- An argument of the variable list: a register or stack slot, or a pointer with what it points to. -/
inductive VArg where
  | word (w : UInt64)
  | str (s : Option Str)
  deriving DecidableEq, Repr

/-- What is between `str` and `out`, and `remaining`. -/
structure Out where
  text : List Byte
  remaining : Nat
  deriving DecidableEq, Repr

/-- `if (remaining > 1) { *out++ = b; remaining--; }` -/
def Out.put (o : Out) (b : Byte) : Out := if 1 < o.remaining then ⟨o.text ++ [b], o.remaining - 1⟩ else o

/-- The digits of a number, the first one first. -/
def simple_append {base : Nat} (hb : 1 < base) (digit : Nat → Byte) (o : Out) (n : Nat) : Out :=
  if _h : base ≤ n then (simple_append hb digit o (n / base)).put (digit (n % base)) else o.put (digit (n % base))
termination_by n
decreasing_by exact Nat.div_lt_self (by omega) hb

def simple_append_int (o : Out) (n : Nat) : Out := simple_append (show 1 < 10 by decide) (fun d => UInt8.ofNat d + ch '0') o n

def hex_digits : Str := lit "0123456789ABCDEF"

def simple_append_hex (o : Out) (n : Nat) : Out := simple_append (show 1 < 16 by decide) (fun d => hex_digits.getD d 0) o n

/-- `va_arg` for the signed types. -/
def signed (is_long : Bool) (w : UInt64) : Int := if is_long then w.toInt64.toInt else w.toUInt32.toInt32.toInt

/-- `va_arg` for the unsigned types. -/
def unsigned (wide : Bool) (w : UInt64) : Nat := if wide then w.toNat else w.toUInt32.toNat

/-- The directive behind its modifier, `none` where `va_arg` is given a type the argument does not have. -/
def convert (is_long is_size : Bool) (conv : Byte) (args : List VArg) (o : Out) : Option (List VArg × Out) :=
  if conv = ch 'd' ∨ conv = ch 'i' then
    match args with
    | .word w :: args =>
      let val := signed is_long w
      if val < 0 ∧ 1 < o.remaining then some (args, simple_append_int (o.put (ch '-')) (-val % 2 ^ 64).toNat)
      else some (args, simple_append_int o (val % 2 ^ 64).toNat)
    | _ => none
  else if conv = ch 'u' then
    match args with
    | .word w :: args => some (args, simple_append_int o (unsigned (is_long || is_size) w))
    | _ => none
  else if conv = ch 'x' ∨ conv = ch 'X' then
    match args with
    | .word w :: args => some (args, simple_append_hex o (unsigned (is_long || is_size) w))
    | _ => none
  else if conv = ch 'p' then
    match args with
    | .word w :: args =>
      let o := if 2 < o.remaining then ⟨o.text ++ [ch '0', ch 'x'], o.remaining - 2⟩ else o
      some (args, simple_append_hex o w.toNat)
    | _ => none
  else if conv = ch 's' then
    match args with
    | .str s :: args => some (args, (cstr (s.getD (lit "(null)"))).foldl Out.put o)
    | _ => none
  else if conv = ch 'c' then
    match args with
    | .word w :: args => some (args, o.put w.toUInt8)
    | _ => none
  else if conv = ch '%' then some (args, o.put (ch '%'))
  else some (args, (o.put (ch '%')).put conv)

/-- The loop over the format, a C string. A format that ends behind a `%` or its modifier is read past its end. -/
def loop : List Byte → List VArg → Out → Option Out
  | [], _, o => some o
  | [c], _, o => if o.remaining ≤ 1 then some o else if c ≠ ch '%' then some (o.put c) else none
  | c :: k :: f, args, o =>
    if o.remaining ≤ 1 then some o
    else if c ≠ ch '%' then loop (k :: f) args (o.put c)
    else if k = ch 'l' ∨ k = ch 'z' then
      match f with
      | [] => none
      | conv :: f => (convert (k == ch 'l') (k == ch 'z') conv args o).bind fun r => loop f r.1 r.2
    else (convert false false k args o).bind fun r => loop f r.1 r.2

/-- The bytes stored from `str` on, and what is returned. -/
structure Printed where
  stored : List Byte
  ret : Int
  deriving DecidableEq, Repr

def vsnprintf (size : Nat) (format : List Byte) (args : List VArg) : Option Printed :=
  (loop (cstr format) args ⟨[], size⟩).map fun o => ⟨o.text ++ [0], Int.bmod o.text.length (2 ^ 32)⟩

end Angelic.Model.Printf
