import Angelic.Proofs.HandlerEffects

namespace Angelic.Proofs
open CString Model StateRel

/-! The strings of a parsed stanza hold no terminator and fit their arrays. -/

/-- The two addresses and the id while the parser collects them. -/
structure AttrsOk (s : Stanza) : Prop where
  to_ : Holds 64 s.to_
  id : Holds 64 s.id

theorem onElemStart_attrs (p : ParseState) : (onElemStart p).s.to_ = p.s.to_ ∧ (onElemStart p).s.id = p.s.id := by
  unfold onElemStart
  dsimp only
  repeat' first | exact ⟨rfl, rfl⟩ | split

theorem onAttrVal_ok {p : ParseState} (h : AttrsOk p.s) : AttrsOk (onAttrVal p).s := by
  unfold onAttrVal
  dsimp only
  repeat' first | exact h | split
  · exact ⟨strncat_holds h.to_, h.id⟩
  · exact ⟨h.to_, h.id⟩
  · exact ⟨h.to_, strncat_holds h.id⟩
  all_goals exact ⟨h.to_, h.id⟩

theorem parseByte_ok {p : ParseState} (c : Byte) (h : AttrsOk p.s) : AttrsOk (parseByte p c).s := by
  unfold parseByte
  dsimp only
  split
  · obtain ⟨ht, hi⟩ := onElemStart_attrs { p with x := (yxml_parse p.x c).1 }
    exact ⟨ht ▸ h.to_, hi ▸ h.id⟩
  · exact h
  · exact onAttrVal_ok h
  · exact h

theorem extractPayload_zero {w : Str} (h : 0 ∉ w) : 0 ∉ extractPayload w := by
  unfold extractPayload
  split
  · exact List.not_mem_nil
  · rename_i gt hg
    split
    · exact List.not_mem_nil
    · dsimp only
      split
      · intro hm
        have := upto_subset _ _ (List.mem_of_mem_take hm)
        exact h ((strchr_suffix hg).subset (List.mem_of_mem_tail this))
      · exact List.not_mem_nil

theorem parseStanza_attrs (xml : List Byte) : AttrsOk (parseStanza xml) := by
  have h : AttrsOk (xml.foldl parseByte .init).s :=
    foldl_keeps (P := fun p : ParseState => AttrsOk p.s) (fun p c => parseByte_ok c) xml
      ⟨⟨by decide, by decide⟩, ⟨by decide, by decide⟩⟩
  exact ⟨h.to_, h.id⟩

theorem parseStanza_ok (xml : List Byte) : StanzaOk (parseStanza xml) :=
  ⟨(parseStanza_attrs xml).to_.2, extractPayload_zero (zero_not_mem_cstr _)⟩

theorem parse_xml_stream_ok {sse42 free : Bool} {rx : List Byte} {st : Stanza} {n : Nat}
    (h : parse_xml_stream sse42 free rx = .stanza st n) : StanzaOk st := by
  unfold parse_xml_stream at h
  dsimp only at h
  split at h
  · cases h
  · split at h
    · cases h
    · split at h
      · cases h
      · cases h
        exact parseStanza_ok _

end Angelic.Proofs
