import Angelic.Model.Scanner
import Angelic.Model.Yxml
import Angelic.Lib.Format

namespace Angelic.Model
open CString

inductive StanzaType where
  | UNKNOWN | IQ_GET | IQ_SET | IQ_RESULT | IQ_ERROR | MESSAGE | PRESENCE
  | PRESENCE_UNAVAILABLE | PRESENCE_SUBSCRIBE | PRESENCE_SUBSCRIBED
  | PRESENCE_UNSUBSCRIBE | PRESENCE_UNSUBSCRIBED | PRESENCE_PROBE
  deriving DecidableEq, Repr

/-- The character arrays as the strings they hold; `is_used` is the pool's. -/
structure Stanza where
  type : StanzaType
  from_ : Str
  to_ : Str
  id : Str
  xmlns : Str
  payload : Str
  mechanism : Str
  deriving DecidableEq, Repr

def Stanza.zero : Stanza := ⟨.UNKNOWN, [], [], [], [], [], []⟩

inductive ParseNullReason where
  | PARSE_INCOMPLETE | PARSE_NO_MEMORY
  deriving DecidableEq, Repr

/-- The locals of the loop over the stanza's bytes. -/
structure ParseState where
  x : Yxml
  s : Stanza
  depth : Nat
  current_attr : Str
  iq_type_buf : Str
  pres_type_buf : Str
  is_iq : Bool
  is_pres : Bool
  xmlns_locked : Bool
  deriving DecidableEq, Repr

def ParseState.init : ParseState :=
  { x := yxml_init 1024, s := .zero, depth := 0, current_attr := [], iq_type_buf := [],
    pres_type_buf := [], is_iq := false, is_pres := false, xmlns_locked := false }

def NS_SASL : Str := lit "urn:ietf:params:xml:ns:xmpp-sasl"
def NS_BIND : Str := lit "urn:ietf:params:xml:ns:xmpp-bind"
def NS_SESSION : Str := lit "urn:ietf:params:xml:ns:xmpp-session"

/-- `depth` counts element starts; nothing counts it down again. -/
def onElemStart (p : ParseState) : ParseState :=
  let elem := p.x.name p.x.elem
  let p := { p with depth := p.depth + 1 }
  if p.depth = 1 then
    if elem = lit "message" then
      { p with s := { p.s with type := .MESSAGE, xmlns := lit "jabber:client" } }
    else if elem = lit "iq" then { p with s := { p.s with type := .UNKNOWN }, is_iq := true }
    else if elem = lit "presence" then
      { p with s := { p.s with type := .PRESENCE, xmlns := lit "jabber:client" }, is_pres := true }
    else if elem = lit "auth" then { p with s := { p.s with xmlns := NS_SASL } }
    else p
  else if p.depth = 2 then
    if elem = lit "bind" then { p with s := { p.s with xmlns := NS_BIND }, xmlns_locked := true }
    else if elem = lit "session" then
      { p with s := { p.s with xmlns := NS_SESSION }, xmlns_locked := true }
    else p
  else p

def onAttrVal (p : ParseState) : ParseState :=
  let d := p.x.data
  if p.depth = 1 then
    if p.current_attr = lit "to" then { p with s := { p.s with to_ := strncat 64 p.s.to_ d } }
    else if p.current_attr = lit "from" then
      { p with s := { p.s with from_ := strncat 64 p.s.from_ d } }
    else if p.current_attr = lit "id" then { p with s := { p.s with id := strncat 64 p.s.id d } }
    else if p.current_attr = lit "type" ∧ p.is_iq then
      { p with iq_type_buf := strncat 16 p.iq_type_buf d }
    else if p.current_attr = lit "type" ∧ p.is_pres then
      { p with pres_type_buf := strncat 16 p.pres_type_buf d }
    else if p.current_attr = lit "mechanism" ∧ p.x.name p.x.elem = lit "auth" then
      { p with s := { p.s with mechanism := strncat 32 p.s.mechanism d } }
    else p
  else if p.depth = 2 then
    if p.current_attr = lit "xmlns" ∧ ¬ p.xmlns_locked then
      { p with s := { p.s with xmlns := strncat 128 p.s.xmlns d } }
    else p
  else p

/-- One byte. The errors of `yxml_parse` are among the returns nothing looks at. -/
def parseByte (p : ParseState) (c : Byte) : ParseState :=
  let (x, r) := yxml_parse p.x c
  let p := { p with x := x }
  match r with
  | .ELEMSTART => onElemStart p
  | .ATTRSTART => { p with current_attr := (x.name x.attr).take 63 }
  | .ATTRVAL => onAttrVal p
  | _ => p

def iqType (t : Str) (old : StanzaType) : StanzaType :=
  if t = lit "get" then .IQ_GET
  else if t = lit "set" then .IQ_SET
  else if t = lit "result" then .IQ_RESULT
  else if t = lit "error" then .IQ_ERROR
  else old

def presType (t : Str) (old : StanzaType) : StanzaType :=
  if t = lit "unavailable" then .PRESENCE_UNAVAILABLE
  else if t = lit "subscribe" then .PRESENCE_SUBSCRIBE
  else if t = lit "subscribed" then .PRESENCE_SUBSCRIBED
  else if t = lit "unsubscribe" then .PRESENCE_UNSUBSCRIBE
  else if t = lit "unsubscribed" then .PRESENCE_UNSUBSCRIBED
  else if t = lit "probe" then .PRESENCE_PROBE
  else old

def finalType (p : ParseState) : StanzaType :=
  let t := if p.is_iq then iqType p.iq_type_buf p.s.type else p.s.type
  if p.is_pres ∧ p.pres_type_buf ≠ [] then presType p.pres_type_buf t else t

/-- Namespaces guessed from the text, in the order they are tried: what is searched
for and what is then stored. -/
def guessTable : List (String × String) :=
  [("jabber:iq:roster", "jabber:iq:roster"),
   ("muc#owner", "http://jabber.org/protocol/muc#owner"),
   ("muc#admin", "http://jabber.org/protocol/muc#admin"),
   ("disco#info", "http://jabber.org/protocol/disco#info"),
   ("disco#items", "http://jabber.org/protocol/disco#items"),
   ("urn:xmpp:blocking", "urn:xmpp:blocking"),
   ("http://jabber.org/protocol/pubsub", "http://jabber.org/protocol/pubsub"),
   ("http://jabber.org/protocol/muc", "http://jabber.org/protocol/muc")]

def presenceGuessTable : List (String × String) :=
  [("muc#owner", "http://jabber.org/protocol/muc#owner"),
   ("muc#admin", "http://jabber.org/protocol/muc#admin"),
   ("http://jabber.org/protocol/muc", "http://jabber.org/protocol/muc")]

def guess (table : List (String × String)) (temp_buf xmlns : Str) : Str :=
  match table.find? (fun e => (strstr temp_buf (lit e.1)).isSome) with
  | some e => lit e.2
  | none => xmlns

def finalXmlns (type : StanzaType) (xmlns temp_buf : Str) : Str :=
  if xmlns = [] then guess guessTable temp_buf xmlns
  else if type = .PRESENCE ∨ type = .PRESENCE_UNAVAILABLE then
    guess presenceGuessTable temp_buf xmlns
  else xmlns

/-- The text between the first `>` and the first closer of the root's name. -/
def extractPayload (temp_buf : Str) : Str :=
  match strchr temp_buf (ch '>') with
  | none => []
  | some header_end =>
    if before temp_buf header_end = some (ch '/') then []
    else
      let inner_start := header_end.tail
      let tag_name := ((cstr temp_buf.tail).takeWhile (fun c => c != ch ' ' && c != ch '>')).take 31
      let specific_closer := snprintf 40 (lit "</%s>") [.s tag_name]
      match strstr inner_start specific_closer with
      | some inner_end => (upto inner_start inner_end).take 4095
      | none => []

/-- The stanza made from its `stanza_len` bytes. -/
def parseStanza (xml : List Byte) : Stanza :=
  let p := xml.foldl parseByte .init
  let type := finalType p
  let temp_buf := cstr (xml.take 1023)
  { p.s with
    type := type
    xmlns := finalXmlns type p.s.xmlns temp_buf
    payload := extractPayload temp_buf }

def isSpace (c : Byte) : Bool := c == ch ' ' || c == 13 || c == 10 || c == 9

inductive Parsed where
  | stanza (s : Stanza) (bytes_consumed : Nat)
  | null (reason : ParseNullReason) (bytes_consumed : Nat)
  deriving DecidableEq, Repr

/-- `free` says whether the stanza pool has a slot. -/
def parse_xml_stream (sse42 free : Bool) (payload : List Byte) : Parsed :=
  let xml := payload.dropWhile isSpace
  let offset := payload.length - xml.length
  if xml.length < 4 then .null .PARSE_INCOMPLETE offset
  else
    let stanza_len := find_stanza_end_dispatch sse42 xml
    if stanza_len < 0 then .null .PARSE_INCOMPLETE offset
    else if ¬ free then .null .PARSE_NO_MEMORY (offset + stanza_len.toNat)
    else .stanza (parseStanza (xml.take stanza_len.toNat)) (offset + stanza_len.toNat)

end Angelic.Model
