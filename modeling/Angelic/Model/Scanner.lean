import Angelic.Lib.CString

namespace Angelic.Model
open CString

/-! A buffer of `len` bytes is the list of exactly these bytes and `p` its suffix, so
`p < end` is `p ≠ []`. Fuel is the buffer's length: every turn of a loop moves `p`. -/

/-- `(gt + 1) - xml`, where `n` is the length of the buffer at `xml`. -/
def endAt (n : Nat) (gt : List Byte) : Int := (n : Int) - (gt.length : Int) + 1

/-- The byte at `gt - 1`. -/
def before (p gt : List Byte) : Option Byte := (upto p gt).getLast?

def scalarLoop (n : Nat) : Nat → List Byte → Int → Int
  | 0, _, _ => -1
  | _ + 1, [], _ => -1
  | fuel + 1, c :: rest, depth =>
    if c ≠ ch '<' then scalarLoop n fuel rest depth
    else if rest.head? = some (ch '?') ∨ rest.head? = some (ch '!') then
      match memchr (c :: rest) (ch '>') with
      | none => -1
      | some gt => scalarLoop n fuel gt.tail depth
    else if rest.head? = some (ch '/') then
      match memchr (c :: rest) (ch '>') with
      | none => -1
      | some gt =>
        if depth - 1 = 0 then endAt n gt else scalarLoop n fuel gt.tail (depth - 1)
    else
      match memchr (c :: rest) (ch '>') with
      | none => -1
      | some gt =>
        if before (c :: rest) gt = some (ch '/') then
          if depth = 0 then endAt n gt else scalarLoop n fuel gt.tail depth
        else scalarLoop n fuel gt.tail (depth + 1)

def find_stanza_end_scalar (xml : List Byte) : Int := scalarLoop xml.length xml.length xml 0

/-- `while (gt < end && *gt != '>') gt++`, empty when it reached the end. -/
def seekGt : List Byte → List Byte
  | [] => []
  | c :: s => if c ≠ ch '>' then seekGt s else c :: s

/-- The loop of the build without SSE4.2. Its searches start one byte further on. -/
def plainLoop (n : Nat) : Nat → List Byte → Int → Int
  | 0, _, _ => -1
  | _ + 1, [], _ => -1
  | fuel + 1, c :: rest, depth =>
    if c ≠ ch '<' then plainLoop n fuel rest depth
    else if rest.head? = some (ch '?') ∨ rest.head? = some (ch '!') then
      match seekGt rest with
      | [] => -1
      | _ :: after => plainLoop n fuel after depth
    else if rest.head? = some (ch '/') then
      match seekGt rest with
      | [] => -1
      | g :: after =>
        if depth - 1 = 0 then endAt n (g :: after) else plainLoop n fuel after (depth - 1)
    else
      match seekGt rest with
      | [] => -1
      | g :: after =>
        if before (c :: rest) (g :: after) = some (ch '/') then
          if depth = 0 then endAt n (g :: after) else plainLoop n fuel after depth
        else plainLoop n fuel after (depth + 1)

def find_stanza_end_plain (xml : List Byte) : Int := plainLoop xml.length xml.length xml 0

def XML_NEEDLE : List Byte :=
  [ch '<', ch '>', ch '/', ch '!', ch '?', 0, 0, 0, 0, 0, 0, 0, 0, 0, 0, 0]

/-- EQUAL_ANY on unsigned bytes, least significant index. Both operands end at their
first NUL; 16 means that no valid byte of `b` is among those of `a`. -/
def mm_cmpistri (a b : List Byte) : Nat :=
  match (cstr b).findIdx? (fun c => (cstr a).contains c) with
  | some i => i
  | none => 16

/-- How far `p` moves; near the end of the buffer the loop goes byte by byte. -/
def sseIndex (p : List Byte) : Nat :=
  if 16 ≤ p.length then mm_cmpistri XML_NEEDLE (p.take 16) else 0

def sseLoop (n : Nat) : Nat → List Byte → Int → Int
  | 0, _, _ => -1
  | _ + 1, [], _ => -1
  | fuel + 1, c₀ :: rest₀, depth =>
    let idx := sseIndex (c₀ :: rest₀)
    if idx = 16 then sseLoop n fuel ((c₀ :: rest₀).drop 16) depth
    else
      match (c₀ :: rest₀).drop idx with
      | [] => -1
      | c :: rest =>
        if c ≠ ch '<' then sseLoop n fuel rest depth
        else if rest = [] then -1
        else if rest.head? = some (ch '?') ∨ rest.head? = some (ch '!') then
          match memchr (c :: rest) (ch '>') with
          | none => -1
          | some gt => sseLoop n fuel gt.tail depth
        else if rest.head? = some (ch '/') then
          match memchr (c :: rest) (ch '>') with
          | none => -1
          | some gt =>
            if depth - 1 = 0 then endAt n gt else sseLoop n fuel gt.tail (depth - 1)
        else
          match memchr (c :: rest) (ch '>') with
          | none => -1
          | some gt =>
            if before (c :: rest) gt = some (ch '/') then
              if depth = 0 then endAt n gt else sseLoop n fuel gt.tail depth
            else sseLoop n fuel gt.tail (depth + 1)

def find_stanza_end_sse (xml : List Byte) : Int := sseLoop xml.length xml.length xml 0

/-- The SSE4.2 build chooses at the first call, from CPUID. -/
def find_stanza_end_dispatch (sse42 : Bool) (xml : List Byte) : Int :=
  if sse42 then find_stanza_end_sse xml else find_stanza_end_scalar xml

end Angelic.Model
