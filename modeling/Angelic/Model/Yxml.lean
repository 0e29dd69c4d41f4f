import Angelic.Lib.CString

namespace Angelic.Model
open CString

inductive YxmlRet where
  | EREF | ECLOSE | ESTACK | ESYN
  | OK | ELEMSTART | CONTENT | ELEMEND | ATTRSTART | ATTRVAL | ATTREND
  | PISTART | PICONTENT | PIEND
  deriving DecidableEq, Repr

inductive YxmlState where
  | string | attr0 | attr1 | attr2 | attr3 | attr4 | cd0 | cd1 | cd2
  | comment0 | comment1 | comment2 | comment3 | comment4
  | dt0 | dt1 | dt2 | dt3 | dt4 | elem0 | elem1 | elem2 | elem3
  | enc0 | enc1 | enc2 | enc3 | etag0 | etag1 | etag2 | init
  | le0 | le1 | le2 | le3 | lee1 | lee2 | leq0
  | misc0 | misc1 | misc2 | misc2a | misc3 | pi0 | pi1 | pi2 | pi3 | pi4
  | std0 | std1 | std2 | std3 | ver0 | ver1 | ver2 | ver3
  | xmldecl0 | xmldecl1 | xmldecl2 | xmldecl3 | xmldecl4 | xmldecl5 | xmldecl6
  | xmldecl7 | xmldecl8 | xmldecl9
  deriving DecidableEq, Repr

/-- `stack` holds the bytes `stack[0] .. stack[stacklen]`, so its last byte is the
terminator; `elem`, `attr` and `pi` are offsets into it. The bytes of a reference
collected so far are `data`, whose length is then `reflen`. -/
structure Yxml where
  elem : Nat
  data : Str
  attr : Nat
  pi : Nat
  state : YxmlState
  stack : List Byte
  stacksize : Nat
  quote : Byte
  nextstate : YxmlState
  ignore : Byte
  string : Str
  deriving DecidableEq, Repr

namespace Yxml

def stacklen (x : Yxml) : Nat := x.stack.length - 1

/-- The string at a pointer into the stack. -/
def name (x : Yxml) (off : Nat) : Str := cstr (x.stack.drop off)

def isSP (c : Byte) : Bool := c == 0x20 || c == 0x09 || c == 0x0a
def isAlpha (c : Byte) : Bool := (c ||| 32) - 97 < 26
def isNum (c : Byte) : Bool := c - 48 < 10
def isHex (c : Byte) : Bool := isNum c || (c ||| 32) - 97 < 6
def isEncName (c : Byte) : Bool :=
  isAlpha c || isNum c || c == ch '.' || c == ch '_' || c == ch '-'
def isNameStart (c : Byte) : Bool := isAlpha c || c == ch ':' || c == ch '_' || c ≥ 128
def isName (c : Byte) : Bool := isNameStart c || isNum c || c == ch '-' || c == ch '.'
def isRef (c : Byte) : Bool := isNum c || isAlpha c || c == ch '#'

def isAttValue (x : Yxml) (c : Byte) : Bool := c != x.quote && c != ch '<' && c != ch '&'

def setutf8 (c : Nat) : Str :=
  if c ≤ 0x7F then [UInt8.ofNat c]
  else if c ≤ 0x7FF then [UInt8.ofNat (0xC0 ||| (c >>> 6)), UInt8.ofNat (0x80 ||| (c &&& 0x3F))]
  else if c ≤ 0xFFFF then
    [UInt8.ofNat (0xE0 ||| (c >>> 12)), UInt8.ofNat (0x80 ||| ((c >>> 6) &&& 0x3F)),
      UInt8.ofNat (0x80 ||| (c &&& 0x3F))]
  else
    [UInt8.ofNat (0xF0 ||| (c >>> 18)), UInt8.ofNat (0x80 ||| ((c >>> 12) &&& 0x3F)),
      UInt8.ofNat (0x80 ||| ((c >>> 6) &&& 0x3F)), UInt8.ofNat (0x80 ||| (c &&& 0x3F))]

def datacontent (x : Yxml) (c : Byte) : Yxml × YxmlRet := ({ x with data := [c] }, .CONTENT)
def datapi1 (x : Yxml) (c : Byte) : Yxml × YxmlRet := ({ x with data := [c] }, .PICONTENT)
def datapi2 (x : Yxml) (c : Byte) : Yxml × YxmlRet := ({ x with data := [ch '?', c] }, .PICONTENT)
def datacd1 (x : Yxml) (c : Byte) : Yxml × YxmlRet := ({ x with data := [ch ']', c] }, .CONTENT)
def datacd2 (x : Yxml) (c : Byte) : Yxml × YxmlRet :=
  ({ x with data := [ch ']', ch ']', c] }, .CONTENT)
def dataattr (x : Yxml) (c : Byte) : Yxml × YxmlRet :=
  ({ x with data := [if c = 0x9 ∨ c = 0xa then 0x20 else c] }, .ATTRVAL)

/-- `none` is the stack overflow; the new name starts one past the old terminator. -/
def pushstack (x : Yxml) (c : Byte) : Option (Yxml × Nat) :=
  if x.stacklen + 2 ≥ x.stacksize then none
  else some ({ x with stack := x.stack ++ [c, 0] }, x.stack.length)

def pushstackc (x : Yxml) (c : Byte) : Yxml × YxmlRet :=
  if x.stacklen + 1 ≥ x.stacksize then (x, .ESTACK)
  else ({ x with stack := x.stack.dropLast ++ [c, 0] }, .OK)

/-- Down to the terminator before the last name. -/
def popstack (x : Yxml) : Yxml :=
  { x with stack := (x.stack.dropLast.reverse.dropWhile (· != 0)).reverse }

def elemstart (x : Yxml) (c : Byte) : Yxml × YxmlRet :=
  match x.pushstack c with
  | none => (x, .ESTACK)
  | some (x, p) => ({ x with elem := p }, .OK)

def attrstart (x : Yxml) (c : Byte) : Yxml × YxmlRet :=
  match x.pushstack c with
  | none => (x, .ESTACK)
  | some (x, p) => ({ x with attr := p }, .OK)

def pistart (x : Yxml) (c : Byte) : Yxml × YxmlRet :=
  match x.pushstack c with
  | none => (x, .ESTACK)
  | some (x, p) => ({ x with pi := p }, .OK)

def selfclose (x : Yxml) : Yxml × YxmlRet :=
  let x := x.popstack
  if x.stacklen ≠ 0 then
    let top := x.stack.dropLast.reverse.takeWhile (· != 0)
    ({ x with elem := x.stacklen - top.length }, .ELEMEND)
  else ({ x with elem := 0, state := .misc3 }, .ELEMEND)

def elemclose (x : Yxml) (c : Byte) : Yxml × YxmlRet :=
  if x.stack.getD x.elem 0 ≠ c then (x, .ECLOSE) else ({ x with elem := x.elem + 1 }, .OK)

def elemcloseend (x : Yxml) : Yxml × YxmlRet :=
  if x.stack.getD x.elem 0 ≠ 0 then (x, .ECLOSE) else x.selfclose

def attrvalend (x : Yxml) : Yxml × YxmlRet := (x.popstack, .ATTREND)

def pinameend (x : Yxml) : Yxml × YxmlRet :=
  match x.name x.pi with
  | [a, b, c] => if a ||| 32 = ch 'x' ∧ b ||| 32 = ch 'm' ∧ c ||| 32 = ch 'l'
      then (x, .ESYN) else (x, .PISTART)
  | _ => (x, .PISTART)

def pivalend (x : Yxml) : Yxml × YxmlRet := ({ x.popstack with pi := 0 }, .PIEND)

def refstart (x : Yxml) : Yxml × YxmlRet := ({ x with data := [] }, .OK)

def ref (x : Yxml) (c : Byte) : Yxml × YxmlRet :=
  if x.data.length ≥ 7 then (x, .EREF) else ({ x with data := x.data ++ [c] }, .OK)

def hexval (c : Byte) : Nat :=
  if c ≤ ch '9' then c.toNat - 48 else (c ||| 32).toNat - 97 + 10

/-- The character a reference names, 0 for none. -/
def refchar (r : Str) : Nat :=
  match r with
  | 35 :: 120 :: ds =>
    if (ds.dropWhile isHex) = [] then ds.foldl (fun n d => n * 16 + hexval d) 0 else 0
  | 35 :: ds =>
    if (ds.dropWhile isNum) = [] then ds.foldl (fun n d => n * 10 + (d.toNat - 48)) 0 else 0
  | _ =>
    if r.take 5 = lit "lt" then 60
    else if r.take 5 = lit "gt" then 62
    else if r.take 5 = lit "amp" then 38
    else if r.take 5 = lit "apos" then 39
    else if r.take 5 = lit "quot" then 34
    else 0

def refend (x : Yxml) (ret : YxmlRet) : Yxml × YxmlRet :=
  let c := refchar x.data
  if c = 0 ∨ c > 0x10FFFF ∨ c = 0xFFFE ∨ c = 0xFFFF ∨ (c + 2 ^ 32 - 0xDFFF) % 2 ^ 32 < 0x7FF
  then (x, .EREF)
  else ({ x with data := setutf8 c }, ret)

end Yxml

def yxml_init (stacksize : Nat) : Yxml :=
  { elem := 0, data := [], attr := 0, pi := 0, state := .init, stack := [0],
    stacksize := stacksize, quote := 0, nextstate := .string, ignore := 0, string := [] }

namespace Yxml

def goto (x : Yxml) (s : YxmlState) : Yxml × YxmlRet := ({ x with state := s }, .OK)

def gotoNext (x : Yxml) (s next : YxmlState) : Yxml × YxmlRet :=
  ({ x with state := s, nextstate := next }, .OK)

def expect (x : Yxml) (s : Str) (next : YxmlState) : Yxml × YxmlRet :=
  ({ x with state := .string, nextstate := next, string := s }, .OK)

/-- The `switch` of `yxml_parse`, one branch for each state in its order; a byte that
no test of the branch takes is a syntax error and leaves the state as it was. -/
def step (x : Yxml) (c : Byte) : Yxml × YxmlRet :=
  let at_ (s : YxmlState) : Yxml := { x with state := s }
  match x.state with
  | .string =>
    match x.string with
    | s :: rest =>
      if c = s then
        (if rest = [] then { x with string := rest, state := x.nextstate }
          else { x with string := rest }, .OK)
      else (x, .ESYN)
    | [] => (x, .ESYN)
  | .attr0 =>
    if isName c then x.pushstackc c
    else if isSP c then (at_ .attr1, .ATTRSTART)
    else if c = ch '=' then (at_ .attr2, .ATTRSTART)
    else (x, .ESYN)
  | .attr1 =>
    if isSP c then (x, .OK) else if c = ch '=' then x.goto .attr2 else (x, .ESYN)
  | .attr2 =>
    if isSP c then (x, .OK)
    else if c = apos ∨ c = dquote then ({ x with state := .attr3, quote := c }, .OK)
    else (x, .ESYN)
  | .attr3 =>
    if x.isAttValue c then x.dataattr c
    else if c = ch '&' then (at_ .attr4).refstart
    else if x.quote = c then (at_ .elem2).attrvalend
    else (x, .ESYN)
  | .attr4 =>
    if isRef c then x.ref c
    else if c = ch ';' then (at_ .attr3).refend .ATTRVAL
    else (x, .ESYN)
  | .cd0 => if c = ch ']' then x.goto .cd1 else x.datacontent c
  | .cd1 => if c = ch ']' then x.goto .cd2 else (at_ .cd0).datacd1 c
  | .cd2 =>
    if c = ch ']' then x.datacontent c
    else if c = ch '>' then x.goto .misc2
    else (at_ .cd0).datacd2 c
  | .comment0 => if c = ch '-' then x.goto .comment1 else (x, .ESYN)
  | .comment1 => if c = ch '-' then x.goto .comment2 else (x, .ESYN)
  | .comment2 => if c = ch '-' then x.goto .comment3 else (x, .OK)
  | .comment3 => if c = ch '-' then x.goto .comment4 else x.goto .comment2
  | .comment4 => if c = ch '>' then x.goto x.nextstate else (x, .ESYN)
  | .dt0 =>
    if c = ch '>' then x.goto .misc1
    else if c = apos ∨ c = dquote then
      ({ x with state := .dt1, quote := c, nextstate := .dt0 }, .OK)
    else if c = ch '<' then x.goto .dt2
    else (x, .OK)
  | .dt1 => if x.quote = c then x.goto x.nextstate else (x, .OK)
  | .dt2 =>
    if c = ch '?' then x.gotoNext .pi0 .dt0
    else if c = ch '!' then x.goto .dt3
    else (x, .ESYN)
  | .dt3 => if c = ch '-' then x.gotoNext .comment1 .dt0 else x.goto .dt4
  | .dt4 =>
    if c = apos ∨ c = dquote then ({ x with state := .dt1, quote := c, nextstate := .dt4 }, .OK)
    else if c = ch '>' then x.goto .dt0
    else (x, .OK)
  | .elem0 =>
    if isName c then x.pushstackc c
    else if isSP c then (at_ .elem1, .ELEMSTART)
    else if c = ch '/' then (at_ .elem3, .ELEMSTART)
    else if c = ch '>' then (at_ .misc2, .ELEMSTART)
    else (x, .ESYN)
  | .elem1 =>
    if isSP c then (x, .OK)
    else if c = ch '/' then x.goto .elem3
    else if c = ch '>' then x.goto .misc2
    else if isNameStart c then (at_ .attr0).attrstart c
    else (x, .ESYN)
  | .elem2 =>
    if isSP c then x.goto .elem1
    else if c = ch '/' then x.goto .elem3
    else if c = ch '>' then x.goto .misc2
    else (x, .ESYN)
  | .elem3 => if c = ch '>' then (at_ .misc2).selfclose else (x, .ESYN)
  | .enc0 => if isSP c then (x, .OK) else if c = ch '=' then x.goto .enc1 else (x, .ESYN)
  | .enc1 =>
    if isSP c then (x, .OK)
    else if c = apos ∨ c = dquote then ({ x with state := .enc2, quote := c }, .OK)
    else (x, .ESYN)
  | .enc2 => if isAlpha c then x.goto .enc3 else (x, .ESYN)
  | .enc3 =>
    if isEncName c then (x, .OK) else if x.quote = c then x.goto .xmldecl6 else (x, .ESYN)
  | .etag0 => if isNameStart c then (at_ .etag1).elemclose c else (x, .ESYN)
  | .etag1 =>
    if isName c then x.elemclose c
    else if isSP c then (at_ .etag2).elemcloseend
    else if c = ch '>' then (at_ .misc2).elemcloseend
    else (x, .ESYN)
  | .etag2 => if isSP c then (x, .OK) else if c = ch '>' then x.goto .misc2 else (x, .ESYN)
  | .init =>
    if c = 0xef then x.expect [0xbb, 0xbf] .misc0
    else if isSP c then x.goto .misc0
    else if c = ch '<' then x.goto .le0
    else (x, .ESYN)
  | .le0 =>
    if c = ch '!' then x.goto .lee1
    else if c = ch '?' then x.goto .leq0
    else if isNameStart c then (at_ .elem0).elemstart c
    else (x, .ESYN)
  | .le1 =>
    if c = ch '!' then x.goto .lee1
    else if c = ch '?' then x.gotoNext .pi0 .misc1
    else if isNameStart c then (at_ .elem0).elemstart c
    else (x, .ESYN)
  | .le2 =>
    if c = ch '!' then x.goto .lee2
    else if c = ch '?' then x.gotoNext .pi0 .misc2
    else if c = ch '/' then x.goto .etag0
    else if isNameStart c then (at_ .elem0).elemstart c
    else (x, .ESYN)
  | .le3 =>
    if c = ch '!' then x.gotoNext .comment0 .misc3
    else if c = ch '?' then x.gotoNext .pi0 .misc3
    else (x, .ESYN)
  | .lee1 =>
    if c = ch '-' then x.gotoNext .comment1 .misc1
    else if c = ch 'D' then x.expect (lit "OCTYPE") .dt0
    else (x, .ESYN)
  | .lee2 =>
    if c = ch '-' then x.gotoNext .comment1 .misc2
    else if c = ch '[' then x.expect (lit "CDATA[") .cd0
    else (x, .ESYN)
  | .leq0 =>
    if c = ch 'x' then { x with state := .xmldecl0, nextstate := .misc1 }.pistart c
    else if isNameStart c then { x with state := .pi1, nextstate := .misc1 }.pistart c
    else (x, .ESYN)
  | .misc0 => if isSP c then (x, .OK) else if c = ch '<' then x.goto .le0 else (x, .ESYN)
  | .misc1 => if isSP c then (x, .OK) else if c = ch '<' then x.goto .le1 else (x, .ESYN)
  | .misc2 =>
    if c = ch '<' then x.goto .le2
    else if c = ch '&' then (at_ .misc2a).refstart
    else x.datacontent c
  | .misc2a =>
    if isRef c then x.ref c
    else if c = ch ';' then (at_ .misc2).refend .CONTENT
    else (x, .ESYN)
  | .misc3 => if isSP c then (x, .OK) else if c = ch '<' then x.goto .le3 else (x, .ESYN)
  | .pi0 => if isNameStart c then (at_ .pi1).pistart c else (x, .ESYN)
  | .pi1 =>
    if isName c then x.pushstackc c
    else if c = ch '?' then (at_ .pi4).pinameend
    else if isSP c then (at_ .pi2).pinameend
    else (x, .ESYN)
  | .pi2 => if c = ch '?' then x.goto .pi3 else x.datapi1 c
  | .pi3 => if c = ch '>' then (at_ x.nextstate).pivalend else (at_ .pi2).datapi2 c
  | .pi4 => if c = ch '>' then (at_ x.nextstate).pivalend else (x, .ESYN)
  | .std0 => if isSP c then (x, .OK) else if c = ch '=' then x.goto .std1 else (x, .ESYN)
  | .std1 =>
    if isSP c then (x, .OK)
    else if c = apos ∨ c = dquote then ({ x with state := .std2, quote := c }, .OK)
    else (x, .ESYN)
  | .std2 =>
    if c = ch 'y' then x.expect (lit "es") .std3
    else if c = ch 'n' then x.expect (lit "o") .std3
    else (x, .ESYN)
  | .std3 => if x.quote = c then x.goto .xmldecl8 else (x, .ESYN)
  | .ver0 => if isSP c then (x, .OK) else if c = ch '=' then x.goto .ver1 else (x, .ESYN)
  | .ver1 =>
    if isSP c then (x, .OK)
    else if c = apos ∨ c = dquote then { x with quote := c }.expect (lit "1.") .ver2
    else (x, .ESYN)
  | .ver2 => if isNum c then x.goto .ver3 else (x, .ESYN)
  | .ver3 =>
    if isNum c then (x, .OK) else if x.quote = c then x.goto .xmldecl4 else (x, .ESYN)
  | .xmldecl0 =>
    if c = ch 'm' then (at_ .xmldecl1).pushstackc c
    else if isName c then (at_ .pi1).pushstackc c
    else if c = ch '?' then (at_ .pi4).pinameend
    else if isSP c then (at_ .pi2).pinameend
    else (x, .ESYN)
  | .xmldecl1 =>
    if c = ch 'l' then (at_ .xmldecl2).pushstackc c
    else if isName c then (at_ .pi1).pushstackc c
    else if c = ch '?' then (at_ .pi4).pinameend
    else if isSP c then (at_ .pi2).pinameend
    else (x, .ESYN)
  | .xmldecl2 =>
    if isSP c then ((at_ .xmldecl3).popstack, .OK)
    else if isName c then (at_ .pi1).pushstackc c
    else (x, .ESYN)
  | .xmldecl3 =>
    if isSP c then (x, .OK)
    else if c = ch 'v' then x.expect (lit "ersion") .ver0
    else (x, .ESYN)
  | .xmldecl4 =>
    if isSP c then x.goto .xmldecl5 else if c = ch '?' then x.goto .xmldecl9 else (x, .ESYN)
  | .xmldecl5 =>
    if isSP c then (x, .OK)
    else if c = ch '?' then x.goto .xmldecl9
    else if c = ch 'e' then x.expect (lit "ncoding") .enc0
    else if c = ch 's' then x.expect (lit "tandalone") .std0
    else (x, .ESYN)
  | .xmldecl6 =>
    if isSP c then x.goto .xmldecl7 else if c = ch '?' then x.goto .xmldecl9 else (x, .ESYN)
  | .xmldecl7 =>
    if isSP c then (x, .OK)
    else if c = ch '?' then x.goto .xmldecl9
    else if c = ch 's' then x.expect (lit "tandalone") .std0
    else (x, .ESYN)
  | .xmldecl8 =>
    if isSP c then (x, .OK) else if c = ch '?' then x.goto .xmldecl9 else (x, .ESYN)
  | .xmldecl9 => if c = ch '>' then x.goto .misc1 else (x, .ESYN)

end Yxml

/-- End-of-line bytes are normalised before the `switch`; a NUL is refused. -/
def yxml_parse (x : Yxml) (c : Byte) : Yxml × YxmlRet :=
  if c = 0 then (x, .ESYN)
  else if x.ignore = c then ({ x with ignore := 0 }, .OK)
  else
    let x := { x with ignore := if c = 0xd then 0xa else 0 }
    x.step (if c = 0xa ∨ c = 0xd then 0xa else c)

end Angelic.Model
