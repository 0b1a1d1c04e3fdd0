import Gfhttpd.Http3.Lifetime

/-!
# Packets and address validation (`main/http3/event_cb.c`)

A `Packet` is a datagram with what `quiche_header_info` writes for it.  The connection id it names
has any length up to `QUICHE_MAX_CONN_ID_LEN`; it goes into the array `dcid`, which keeps what is
behind it, and `get_connection` reads the first `LOCAL_CONN_ID_LEN` bytes of that array.

`Receiver` is the server with this array.  Anyone can send any packet from any address, so the
packets of a run are arbitrary.

- `validateToken_eq_some_iff`: the tokens `validate_token` accepts are those `mint_token` makes
- `addresses_bound`: a connection is created for a token of its address only.  The token has no
  secret part, so it need not come from the server.
-/

namespace Gfhttpd.Http3

open Http Conf Router Modules Transition

variable {Code : Type}

/-! ## Tokens -/

/-- `validate_token` accepts exactly what `mint_token` makes for the address. -/
theorem validateToken_eq_some_iff {token addr odcid : Bytes} {n : ℕ} :
    validateToken token addr n = some odcid ↔ odcid.length ≤ n ∧ token = mintToken odcid addr := by
  unfold validateToken mintToken
  simp only [Option.ite_none_left_eq_some, not_or, Nat.not_lt, not_not, Option.some.injEq]
  constructor
  · rintro ⟨⟨-, hquiche⟩, ⟨-, haddr⟩, hlength, rfl⟩
    refine ⟨hlength, ?_⟩
    -- the token is its three parts
    calc token
      _ = token.take (ascii "quiche").length ++ token.drop (ascii "quiche").length :=
          (List.take_append_drop _ _).symm
      _ = ascii "quiche" ++ ((token.drop (ascii "quiche").length).take addr.length ++
            (token.drop (ascii "quiche").length).drop addr.length) := by
          rw [hquiche, List.take_append_drop]
      _ = ascii "quiche" ++ addr ++ (token.drop (ascii "quiche").length).drop addr.length := by
          rw [haddr, List.append_assoc]
  · rintro ⟨hlength, rfl⟩
    rw [List.append_assoc]
    refine ⟨⟨?_, List.take_left⟩, ?_⟩
    · rw [List.length_append]
      exact Nat.le_add_right _ _
    · rw [List.drop_left]
      refine ⟨⟨?_, List.take_left⟩, ?_⟩
      · rw [List.length_append]
        exact Nat.le_add_right _ _
      · rw [List.drop_left]
        exact ⟨hlength, rfl⟩

/-- Addresses of one length have no token in common. -/
theorem mintToken_addr {odcid odcid' addr addr' : Bytes} (hlength : addr.length = addr'.length)
    (h : mintToken odcid addr = mintToken odcid' addr') : addr = addr' := by
  unfold mintToken at h
  rw [List.append_assoc, List.append_assoc] at h
  have hrest := List.append_cancel_left h
  exact (List.append_inj hrest hlength).1

/-! ## Packets -/

/-- `LOCAL_CONN_ID_LEN`. -/
def LOCAL_CONN_ID_LEN : ℕ := 16

/-- The bytes of a `cid` array. -/
abbrev ConnId := { cid : Bytes // cid.length = LOCAL_CONN_ID_LEN }

/-- A destination connection id. -/
abbrev Dcid := { dcid : Bytes // dcid.length ≤ QUICHE_MAX_CONN_ID_LEN }

/-- The array `dcid` of `http3_event_cb`. -/
abbrev DcidBuffer := { buf : Bytes // buf.length = QUICHE_MAX_CONN_ID_LEN }

/-- The array after a connection id was written to it. -/
def DcidBuffer.write (buf : DcidBuffer) (dcid : Dcid) : DcidBuffer where
  -- the bytes behind the new id stay
  val := dcid.val ++ buf.val.drop dcid.val.length
  property := by
    rw [List.length_append, List.length_drop, buf.property]
    exact Nat.add_sub_cancel' dcid.property

/-- What `get_connection(dcid)` looks for. -/
def DcidBuffer.key (buf : DcidBuffer) : Bytes :=
  buf.val.take LOCAL_CONN_ID_LEN

/-- A datagram with what `quiche_header_info` writes for it, and what the calls for it answer. -/
structure Packet where
  peerAddr : Bytes
  /-- `quiche_header_info` does not fail -/
  parsed : Bool
  dcid : Dcid
  token : Bytes
  versionSupported : Bool
  newCid : Option ConnId
  recv : ℤ
  closed : Bool
  established : Bool
  h3Created : Bool
deriving DecidableEq

namespace Packet

/-- The packet as the rest of the round sees it. -/
def datagram (p : Packet) (buf : DcidBuffer) : Datagram where
  peerAddr := p.peerAddr
  header := if p.parsed then some ⟨buf.key, p.token⟩ else none
  versionSupported := p.versionSupported
  newCid := p.newCid.map Subtype.val
  recv := p.recv
  closed := p.closed
  established := p.established
  h3Created := p.h3Created

end Packet

/-- What the copies of a client's first packet have in common. -/
structure Handshake where
  peerAddr : Bytes
  dcid : Bytes
  token : Bytes
deriving DecidableEq, Repr

/-- The handshake a packet belongs to. -/
def Packet.handshake (p : Packet) : Handshake :=
  ⟨p.peerAddr, p.dcid.val, p.token⟩

/-! ## The receiver -/

/-- The server with the array `dcid`. -/
structure Receiver where
  server : Server
  dcid : DcidBuffer
  /-- for every `http_stream`, the handshake of the packet it was created for -/
  origins : List Handshake
deriving DecidableEq

/-- No connection.  The array is set when a call of `http3_event_cb` begins. -/
def Receiver.init : Receiver where
  server := Server.init
  dcid := ⟨List.replicate QUICHE_MAX_CONN_ID_LEN 0, List.length_replicate⟩
  origins := []

namespace Receiver

/-- The datagram of a packet, after `quiche_header_info`. -/
def datagram (r : Receiver) (p : Packet) : Datagram :=
  p.datagram (r.dcid.write p.dcid)

/-- The connection the packet is for, if there is one. -/
def handedTo (r : Receiver) (p : Packet) : Option ℕ :=
  (r.datagram p).header.bind fun h => getConnection r.server h.dcid

/-- The receiver after a packet that the server has handled. -/
def received (r : Receiver) (p : Packet) (s : Server) : Receiver where
  server := s
  dcid := r.dcid.write p.dcid
  origins :=
    match creates r.server (r.datagram p) with
    | none => r.origins
    | some _ => r.origins ++ [p.handshake]

end Receiver

/-- What happens to the receiver. -/
inductive ReceiverEvent (Code : Type) where
  /-- the socket is readable; the array is somewhere on the stack -/
  | wake (stack : DcidBuffer)
  | packet (sock : ℤ) (p : Packet)
  | server (e : ServerEvent Code)

/-- The events that the receiver adds nothing to. -/
def ServerEvent.isPlain : ServerEvent Code → Bool
  | .wake => false
  | .recv _ (.datagram _) => false
  | _ => true

/-- One event. -/
def receiverStep (routes : List (Route Code)) (r : Receiver) : ReceiverEvent Code → Option Receiver
  | .wake stack => (serverStep routes r.server .wake).map fun s => { r with server := s, dcid := stack }
  | .packet sock p =>
      (serverStep routes r.server (.recv sock (.datagram (r.datagram p)))).map (r.received p)
  | .server e =>
      if e.isPlain then (serverStep routes r.server e).map fun s => { r with server := s } else none

/-- The runs of the receiver. -/
def receiverMachine (routes : List (Route Code)) : Machine Receiver (ReceiverEvent Code) :=
  ⟨receiverStep routes⟩

/-- The event of the server behind an event of the receiver. -/
def Receiver.event (r : Receiver) : ReceiverEvent Code → ServerEvent Code
  | .wake _ => .wake
  | .packet sock p => .recv sock (.datagram (r.datagram p))
  | .server e => e

/-- The receiver does what the server does. -/
theorem receiverStep_server {routes : List (Route Code)} {r r' : Receiver} {e : ReceiverEvent Code}
    (h : receiverStep routes r e = some r') :
    serverStep routes r.server (r.event e) = some r'.server := by
  cases e with
  | wake stack =>
      obtain ⟨s, hstep, rfl⟩ := Option.map_eq_some_iff.mp h
      exact hstep
  | packet sock p =>
      obtain ⟨s, hstep, rfl⟩ := Option.map_eq_some_iff.mp h
      exact hstep
  | server e =>
      simp only [receiverStep, Option.ite_none_right_eq_some] at h
      obtain ⟨s, hstep, rfl⟩ := Option.map_eq_some_iff.mp h.2
      exact hstep

/-! ## Address validation -/

/-- What a packet tells about its address. -/
inductive AddressEvent where
  /-- the retry with this token was sent to the address -/
  | retried (addr token : Bytes)
  /-- a connection was created for the address, by a packet with this token -/
  | accepted (addr token : Bytes)
deriving DecidableEq, Repr

/-- The token of the retry that is sent for a packet. -/
def Receiver.retry (r : Receiver) (p : Packet) : Option Bytes :=
  if p.parsed = true ∧ r.handedTo p = none ∧ p.versionSupported = true ∧ p.token = [] then
    some (mintToken p.dcid.val p.peerAddr)
  else none

/-- What an event tells about an address. -/
def addressEvent (r : Receiver) : ReceiverEvent Code → Option AddressEvent
  | .packet _ p =>
      match r.retry p with
      | some token => some (.retried p.peerAddr token)
      | none => (creates r.server (r.datagram p)).map fun _ => .accepted p.peerAddr p.token
  | _ => none

/-- A connection is created for an address only after a retry was sent to it. -/
def AddressesValidated (routes : List (Route Code)) (es : List (ReceiverEvent Code)) : Prop :=
  Audited (fun pre e => ∀ addr token, e = .accepted addr token → ∃ t, .retried addr t ∈ pre)
    ((receiverMachine routes).collect addressEvent Receiver.init es)

/-- The token is one that `mint_token` makes for the address, and for no other address of this
length. -/
def BoundTo (token addr : Bytes) : Prop :=
  (∃ odcid, odcid.length ≤ QUICHE_MAX_CONN_ID_LEN ∧ token = mintToken odcid addr) ∧
    ∀ odcid addr', addr'.length = addr.length → addr' ≠ addr → token ≠ mintToken odcid addr'

theorem boundTo_iff {token addr : Bytes} :
    BoundTo token addr ↔ (validateToken token addr QUICHE_MAX_CONN_ID_LEN).isSome := by
  rw [Option.isSome_iff_exists]
  simp only [validateToken_eq_some_iff]
  constructor
  · exact fun h => h.1
  · rintro ⟨odcid, hlength, rfl⟩
    refine ⟨⟨odcid, hlength, rfl⟩, fun odcid' addr' haddr hne heq => hne ?_⟩
    exact (mintToken_addr haddr.symm heq).symm

/-- A connection is created for an accepted token only. -/
theorem validated_of_creates {s : Server} {d : Datagram} {cid : Bytes} (h : creates s d = some cid) :
    ∃ header, d.header = some header ∧
      (validateToken header.token d.peerAddr QUICHE_MAX_CONN_ID_LEN).isSome := by
  unfold creates at h
  cases hheader : d.header with
  | none =>
      rw [hheader] at h
      cases h
  | some header =>
      rw [hheader] at h
      simp only [Option.ite_none_left_eq_some, not_or] at h
      exact ⟨header, rfl, Option.isSome_iff_ne_none.mpr h.1.2.2.2⟩

/-- **In every run a connection is created for an address only for a token of that address, and
`validate_token` accepts for an address exactly the tokens of that address.** -/
theorem addresses_bound (routes : List (Route Code)) (es : List (ReceiverEvent Code)) :
    (∀ addr token, .accepted addr token ∈
      (receiverMachine routes).collect addressEvent Receiver.init es → BoundTo token addr) ∧
    ∀ token addr, (validateToken token addr QUICHE_MAX_CONN_ID_LEN).isSome ↔ BoundTo token addr := by
  refine ⟨fun addr token hmem => ?_, fun token addr => boundTo_iff.symm⟩
  obtain ⟨r, e, -, hevent⟩ := (receiverMachine routes).exists_of_mem_collect (I := fun _ => True)
    (fun _ _ _ _ _ => trivial) trivial hmem
  apply boundTo_iff.mpr
  cases e with
  | wake stack => cases hevent
  | server e => cases hevent
  | packet sock p =>
      rw [addressEvent] at hevent
      cases hretry : r.retry p with
      | some t =>
          rw [hretry] at hevent
          cases hevent
      | none =>
          rw [hretry] at hevent
          obtain ⟨cid, hcreates, heq⟩ := Option.map_eq_some_iff.mp hevent
          cases heq
          obtain ⟨header, hheader, hvalid⟩ := validated_of_creates hcreates
          -- the token that was checked is the one of the packet
          have htoken : header.token = p.token := by
            simp only [Receiver.datagram, Packet.datagram, Option.ite_none_right_eq_some,
              Option.some.injEq] at hheader
            rw [← hheader.2]
          rw [← htoken]
          exact hvalid

/-- A packet that no retry was sent for, with a token that anyone can compute. -/
def forgedPacket : Packet where
  peerAddr := [7]
  parsed := true
  dcid := ⟨List.replicate 16 3, by decide⟩
  token := ascii "quiche" ++ [7]
  versionSupported := true
  newCid := some ⟨List.replicate 16 9, by decide⟩
  recv := 1200
  closed := false
  established := false
  h3Created := true

/-- The server creates a connection for an address it never sent anything to. -/
theorem addresses_not_validated_forged : ∃ r,
    (receiverMachine ([] : List (Route Unit))).exec Receiver.init
        [.wake Receiver.init.dcid, .packet 5 forgedPacket] = some r ∧
      r.server.table = [0] ∧
      ¬ AddressesValidated ([] : List (Route Unit))
        [.wake Receiver.init.dcid, .packet 5 forgedPacket] := by
  refine ⟨_, rfl, by decide +kernel, fun h => ?_⟩
  have hlog : (receiverMachine ([] : List (Route Unit))).collect addressEvent Receiver.init
      [.wake Receiver.init.dcid, .packet 5 forgedPacket] =
        [.accepted [7] (ascii "quiche" ++ [7])] := by decide +kernel
  rw [AddressesValidated, hlog] at h
  obtain ⟨t, hmem⟩ := h [] _ [] rfl [7] (ascii "quiche" ++ [7]) rfl
  cases hmem

end Gfhttpd.Http3
