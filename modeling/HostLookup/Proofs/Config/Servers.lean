import HostLookup.Config.Server
import HostLookup.Proofs.Address.RoundTrip

/-!
Servers read back as they were written. An endpoint cannot be taken for an address, so a server's
port is not lost; only port 0 reads as no port.
-/
set_option autoImplicit false

namespace HostLookup

open Text

namespace Endpoint

theorem port?_decimal (port : UInt16) : port? (decimal port.toNat) = some port := by
  rw [port?, decimal, numeral_toDigits (by decide) (by decide) port.toNat_lt]
  exact congrArg some UInt16.ofNat_toNat

theorem zone?_decimal (zone : UInt32) : zone? (decimal zone.toNat) = some zone := by
  rw [zone?, decimal, numeral_toDigits (by decide) (by decide) zone.toNat_lt]
  exact congrArg some UInt32.ofNat_toNat

/-- An IPv6 address with its zone, between the brackets. -/
def zonedChars (a : V6) (zone : UInt32) : List Char :=
  a.chars ++ if zone = 0 then [] else '%' :: decimal zone.toNat

theorem zoned?_zonedChars (a : V6) (zone : UInt32) :
    zoned? (zonedChars a zone) = some (a, zone) := by
  have huncut : ∀ c ∈ a.chars, (c == '%') = false :=
    uncut_of_notMem (Address.notMem_chars (by decide) (.v6 a))
  unfold zoned? zonedChars
  by_cases hzone : zone = 0
  · rw [if_pos hzone, List.append_nil, splitFirst_uncut huncut]
    dsimp only
    rw [V6.ofChars?_chars, hzone]
    rfl
  · rw [if_neg hzone, splitFirst_append_cut huncut (beq_self_eq_true '%')]
    dsimp only
    rw [V6.ofChars?_chars, zone?_decimal]
    rfl

theorem notMem_decimal {c : Char} (hc : digitValue c = none) (n : Nat) : c ∉ decimal n :=
  notMem_toDigits (by decide) (by decide) hc n

theorem bracket_notMem_zonedChars (a : V6) (zone : UInt32) : ']' ∉ zonedChars a zone := by
  rw [zonedChars, List.mem_append]
  rintro (hmem | hmem)
  · exact Address.notMem_chars (by decide) (.v6 a) hmem
  · split at hmem
    · cases hmem
    · rcases List.mem_cons.mp hmem with hpercent | hmem
      · cases hpercent
      · exact notMem_decimal (by decide) _ hmem

theorem chars_v6 (a : V6) (port : UInt16) (zone : UInt32) : (v6 a port zone).chars =
    '[' :: (zonedChars a zone ++ ']' :: ':' :: decimal port.toNat) := by
  simp [chars, zonedChars]

@[simp] theorem ofChars?_chars (e : Endpoint) : ofChars? e.chars = some e := by
  cases e with
  | v4 a port =>
    have huncut : ∀ c ∈ a.chars, (c == ':') = false :=
      uncut_of_notMem (V4.notMem_chars (by decide) (by decide) a)
    unfold ofChars? chars
    split
    · rename_i cs hbracket
      -- Only endpoints with an IPv6 address begin with a bracket.
      exfalso
      have hmem : '[' ∈ a.chars ++ ':' :: decimal port.toNat := by
        rw [show a.chars ++ ':' :: decimal port.toNat = '[' :: cs from hbracket]
        exact List.mem_cons_self
      rw [List.mem_append, List.mem_cons] at hmem
      rcases hmem with hmem | hmem | hmem
      · exact V4.notMem_chars (by decide) (by decide) a hmem
      · cases hmem
      · exact notMem_decimal (by decide) _ hmem
    · rw [splitFirst_append_cut huncut (beq_self_eq_true ':')]
      dsimp only
      rw [V4.ofChars?_chars, port?_decimal]
      rfl
  | v6 a port zone =>
    have huncut : ∀ c ∈ zonedChars a zone, (c == ']') = false :=
      uncut_of_notMem (bracket_notMem_zonedChars a zone)
    rw [chars_v6, ofChars?, splitFirst_append_cut huncut (beq_self_eq_true ']')]
    simp [zoned?_zonedChars, port?_decimal]

theorem v6_ofChars?_v4 (a : V4) (n : Nat) : V6.ofChars? (a.chars ++ ':' :: decimal n) = none := by
  have ha : ∀ c ∈ a.chars, (c == ':') = false :=
    uncut_of_notMem (V4.notMem_chars (by decide) (by decide) a)
  have hn : ∀ c ∈ decimal n, (c == ':') = false := uncut_of_notMem (notMem_decimal (by decide) n)
  have hport : V6.splitGap (':' :: decimal n) = none := by
    have h := @V6.splitGap_flatMap [decimal n] (by simp [decimal]) (by simpa using hn) []
    simpa [V6.splitGap] using h
  have hsplit : split (· == ':') (a.chars ++ ':' :: decimal n) = [a.chars, decimal n] := by
    rw [split_colon, split_eq_singleton ha, split_eq_singleton hn]
    rfl
  have hdotted : V6.group? a.chars = none := V6.group?_eq_none (V6.dot_mem_chars a) (by decide)
  rw [V6.ofChars?, V6.splitGap_append ha, hport, Option.map_none]
  dsimp only
  rw [V6.back?, if_neg (by simp), hsplit, V6.groupsOfPieces, hdotted]
  · rfl
  · intro hnil
    cases hnil

/-- No endpoint is written as an address. -/
theorem address_ofChars?_chars (e : Endpoint) : Address.ofChars? e.chars = none := by
  cases e with
  | v4 a port =>
    have hv4 : V4.ofChars? (a.chars ++ ':' :: decimal port.toNat) = none :=
      V4.ofChars?_eq_none (c := ':') (by simp) (by decide) (by decide)
    rw [chars, Address.ofChars?, hv4, v6_ofChars?_v4]
    rfl
  | v6 a port zone =>
    refine Address.ofChars?_eq_none (c := '[') ?_ (by decide)
    rw [chars_v6]
    exact List.mem_cons_self

end Endpoint

namespace Server

theorem ofEndpoint_of (a : Address) (port : UInt16) :
    ofEndpoint (.of a port) = ⟨a, (some port).filter (· ≠ 0)⟩ := by
  unfold ofEndpoint
  rw [Endpoint.port_of, Endpoint.address_of]
  split
  · rename_i hport
    simp [ofAddress, Option.filter, hport]
  · rename_i hport
    simp [withPort, Option.filter, hport]

/-- A server that is read has no port, or one that is not 0. -/
theorem port_ne_zero {cs : List Char} {s : Server} (h : ofChars? cs = some s) :
    s.port ≠ some 0 := by
  unfold ofChars? at h
  cases ha : Address.ofChars? cs with
  | some a =>
    rw [ha] at h
    cases h
    exact nofun
  | none =>
    rw [ha] at h
    obtain ⟨e, _, rfl⟩ : ∃ e, Endpoint.ofChars? cs = some e ∧ ofEndpoint e = s :=
      Option.map_eq_some_iff.mp h
    unfold ofEndpoint
    split
    · exact nofun
    · rename_i hport
      exact fun hzero => hport (Option.some.inj hzero)

/-- A server's text reads back as the server, except that port 0 is no port. -/
theorem ofChars?_chars (s : Server) :
    ofChars? s.chars = some ⟨s.address, s.port.filter (· ≠ 0)⟩ := by
  obtain ⟨a, port⟩ := s
  cases port with
  | none =>
    rw [ofChars?, chars]
    dsimp only
    rw [Address.ofChars?_chars]
    rfl
  | some port =>
    rw [ofChars?, chars]
    dsimp only
    rw [Endpoint.address_ofChars?_chars, Endpoint.ofChars?_chars, Option.map_some, ofEndpoint_of]
    rfl

theorem toList_toString (s : Server) : (toString s).toList = s.chars := String.toList_ofList

/-- The server with a text, also if its port is 0. -/
def written? (cs : List Char) : Option Server :=
  (Address.ofChars? cs).map ofAddress <|>
    (Endpoint.ofChars? cs).map fun e => withPort e.address e.port

theorem written?_chars (s : Server) : written? s.chars = some s := by
  obtain ⟨a, port⟩ := s
  cases port with
  | none => simp [written?, chars, ofAddress]
  | some port => simp [written?, chars, withPort, Endpoint.address_ofChars?_chars]

theorem chars_injective : Function.Injective chars := by
  intro s t h
  have hs := written?_chars s
  rw [h, written?_chars t] at hs
  exact (Option.some.inj hs).symm

theorem ofString?_toString (s : Server) :
    ofString? (toString s) = some ⟨s.address, s.port.filter (· ≠ 0)⟩ := by
  rw [ofString?, toList_toString, ofChars?_chars]

theorem ofString?_toString_of_port {s : Server} (h : s.port ≠ some 0) :
    ofString? (toString s) = some s := by
  rw [ofString?_toString]
  obtain ⟨a, port⟩ := s
  cases port with
  | none => rfl
  | some port =>
    have hport : port ≠ 0 := fun hzero => h (congrArg some hzero)
    simp [Option.filter, hport]

theorem port_endpoint_ne_zero {s : Server} (h : s.port ≠ some 0) (protocol : Protocol) :
    (s.endpoint protocol).port ≠ 0 := by
  rw [endpoint, Endpoint.port_of]
  cases hport : s.port with
  | none => cases protocol <;> decide
  | some port =>
    rintro rfl
    exact h hport

/-- Servers are read back from their text, but that port 0 is no port, and no two have the same
text. Those that are read from any text are read back as they are; their port is not 0, and neither is the
one they are reached at. -/
theorem text_reads_back :
    (∀ s : Server, ofString? (toString s) = some ⟨s.address, s.port.filter (· ≠ 0)⟩) ∧
      (∀ s t : Server, toString s = toString t → s = t) ∧
      ∀ (text : String) (s : Server), ofString? text = some s →
        ofString? (toString s) = some s ∧ s.port ≠ some 0 ∧
          ∀ protocol, (s.endpoint protocol).port ≠ 0 := by
  refine ⟨ofString?_toString, ?_, ?_⟩
  · intro s t h
    apply chars_injective
    rw [← toList_toString, ← toList_toString, h]
  · intro text s h
    have hport := port_ne_zero h
    exact ⟨ofString?_toString_of_port hport, hport, port_endpoint_ne_zero hport⟩

/-- The zone is read and dropped, and so is port 0. -/
theorem text_reads_back_zoned :
    let s : Server := ⟨.v6 ⟨0xfe80, 0, 0, 0, 0, 0, 0, 1⟩, none⟩
    ofString? "[fe80:0::1%7]:0" = some s ∧ toString s = "fe80::1" ∧
      ofString? "fe80::1" = some s ∧ (s.endpoint .tls).port ≠ 0 := by
  intro s
  have hread : ofString? "[fe80:0::1%7]:0" = some s := by decide +kernel
  have htext : toString s = "fe80::1" := by decide +kernel
  obtain ⟨hback, _, hport⟩ := text_reads_back.2.2 _ s hread
  exact ⟨hread, htext, htext ▸ hback, hport .tls⟩

/-- The written form of a server has only characters of addresses and endpoints. -/
theorem notMem_chars {c : Char} (hc : V6.Stray c) (hopen : c ≠ '[') (hclose : c ≠ ']')
    (s : Server) : c ∉ s.chars := by
  obtain ⟨a, port⟩ := s
  intro hmem
  cases port with
  | none => exact Address.notMem_chars hc a hmem
  | some port =>
    cases a with
    | v4 a =>
      rcases List.mem_append.mp hmem with hmem | hmem
      · exact V4.notMem_chars hc.1 hc.2.2 a hmem
      · rcases List.mem_cons.mp hmem with hcolon | hmem
        · exact hc.2.1 hcolon
        · exact Endpoint.notMem_decimal hc.1 _ hmem
    | v6 a =>
      change c ∈ (Endpoint.v6 a port 0).chars at hmem
      rw [Endpoint.chars_v6, Endpoint.zonedChars, if_pos rfl] at hmem
      simp only [List.append_nil, List.mem_cons, List.mem_append] at hmem
      rcases hmem with hbracket | hmem | hbracket | hcolon | hmem
      · exact hopen hbracket
      · exact Address.notMem_chars hc (.v6 a) hmem
      · exact hclose hbracket
      · exact hc.2.1 hcolon
      · exact Endpoint.notMem_decimal hc.1 _ hmem

end Server

end HostLookup
