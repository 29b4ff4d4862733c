import Gxemul.Lib.Bytes
import Gxemul.Network.Ip
import Gxemul.Network.Reply

/- Datagrams from the outside world: net_udp_rx_avail() in `src/net/net_ip.c`.

   A datagram becomes as many frames as it needs. Every frame is one fragment in the sense
   of RFC 791: it says where its data belong, in units of 8 bytes, and whether there are
   more fragments. -/
namespace Gxemul.Network

open Lib
open Lib.Buf (byte write writeAll slice set setAll)

def maxPacketsThisTick : Nat := 200

def maxPerPacket : Nat := 1500

/-- What recvfrom() returns: the address and the port of the sender, and the data. -/
structure Datagram where
  addr : Block 4
  port : Block 2
  data : List Byte

/-- What net_udp_rx_avail() is given: the blocks of malloc(), and the datagrams that each socket has. -/
structure UdpRxHost where
  fresh : Nat → Nat → Byte
  datagrams : Nat → List Datagram

/-- `while (n & 7) n --`. -/
def alignDown : Nat → Nat
  | 0 => 0
  | n + 1 => if (n + 1) % 8 = 0 then n + 1 else alignDown n

/-- `this_packets_data_length`, of which `left` bytes are left. -/
def thisPacketsDataLength (left : Nat) : Nat :=
  if maxPerPacket - 34 < left then alignDown (maxPerPacket - 34) else left

namespace UdpConnection
variable (gatewayEthernetAddr : Block 6) (addr : Block 4) (c : UdpConnection)

/-- `udp_data`: the UDP header, without a checksum, and the data. -/
def udpData (d : Datagram) : List Byte :=
  d.port.1 ++ Lib.bytes true 2 c.insideUdpPort ++ Lib.bytes true 2 (d.data.length + 8) ++ [0#8, 0#8] ++ d.data

def fragmentHeader (ipLen fragmentOfs : Nat) (more : Bool) : List (Nat × List Byte) :=
  [(0, c.ethernetAddress.1), (6, gatewayEthernetAddr.1), (12, [0x08#8, 0x00#8]), (14, [0x45#8, 0x00#8]),
    (16, Lib.bytes true 2 ipLen), (18, Lib.bytes true 2 c.udpId),
    (20, [BitVec.ofNat 8 (fragmentOfs / 256) ||| if more then 0x20#8 else 0#8]), (21, [BitVec.ofNat 8 fragmentOfs]),
    (22, [0x40#8, 17#8]), (26, addr.1), (30, c.insideIpAddress.1)]

def fragment (fresh : Nat → Byte) (fragmentOfs : Nat) (more : Bool) (data : List Byte) : Checked Frame := do
  let ipLen := 20 + data.length
  let frame ← writeAll (newFrame fresh (14 + 20 + data.length)) (c.fragmentHeader gatewayEthernetAddr addr ipLen fragmentOfs more)
  let frame ← replyChecksum fresh frame 14 10 20
  write frame 34 data

/-- The loop that makes frames of `udpData`, and `bytes_converted` at its end. -/
def fragments (fresh : Nat → Nat → Byte) (udpData : List Byte) : Nat → Nat → Nat → Checked (List Frame × Nat)
  | 0, _, bytesConverted => .ok ([], bytesConverted)
  | fuel + 1, k, bytesConverted =>
    if bytesConverted < udpData.length then do
      let n := thisPacketsDataLength (udpData.length - bytesConverted)
      let more := decide (bytesConverted + n < udpData.length)
      let frame ← c.fragment gatewayEthernetAddr addr (fresh k) (bytesConverted / 8) more (slice udpData bytesConverted n)
      let (frames, bytesConverted) ← fragments fresh udpData fuel (k + 1) (bytesConverted + n)
      return (frame :: frames, bytesConverted)
    else .ok ([], bytesConverted)

end UdpConnection

namespace Gateway
variable (gw : Gateway) (nic : NicPtr) (host : UdpRxHost)

/-- A datagram that the socket of connection `i` has received, and the frames that it becomes. The loop takes at least
one byte each time. -/
def receiveDatagram (k i : Nat) (d : Datagram) : Checked (Gateway × List Frame × Nat) := do
  let time := gw.timestamp + 1#64
  let c := gw.udpConnections i
  let c := { c with lastUsedTimestamp := time, udpId := c.udpId + 1 }
  -- A datagram of the nameserver seems to come from the gateway.
  let addr := if c.fakeNs then gw.gatewayIpv4Addr else d.addr
  let udpData := c.udpData d
  let (frames, bytesConverted) ← c.fragments gw.gatewayEthernetAddr addr host.fresh udpData udpData.length k 0
  return ({ gw.setUdp i c with timestamp := time }, frames, bytesConverted)

/-- One round of the loop, with `received_packets_this_tick`. -/
def udpRxAvailAt (s : Gateway × List Event × Nat) (x : Nat × Datagram) : Checked (Gateway × List Event × Nat) :=
  let c := s.1.udpConnections x.1
  if maxPacketsThisTick < s.2.2 ∨ c.inUse = false ∨ c.socket < 0 then .ok s
  else do
    let (gw, frames, _) ← s.1.receiveDatagram host s.2.2 x.1 x.2
    return (gw, s.2.1 ++ frames.map (.queued nic), s.2.2 + frames.length)

/-- `net_udp_rx_avail()`. A socket is asked again until it has no datagrams left. -/
def netUdpRxAvail : Checked (Gateway × List Event × Nat) :=
  ((List.range maxUdpConnections).flatMap fun i => (host.datagrams i).map (i, ·)).foldlM (udpRxAvailAt nic host) (gw, [], 0)

end Gateway

/-! ## Reassembly -/

structure Fragment where
  ident : List Byte
  more : Bool
  offset : Nat
  payload : List Byte

def Fragment.ofFrame (f : Frame) : Fragment where
  ident := slice f 18 2
  more := (byte f 20).getLsbD 5
  offset := (byte f 20 &&& 0x1f#8).toNat * 256 + (byte f 21).toNat
  payload := slice f 34 (Lib.value true (slice f 16 2) - 20)

namespace Fragment

def start (f : Fragment) : Nat := 8 * f.offset
def stop (f : Fragment) : Nat := f.start + f.payload.length

def place (m : ByteMem) (fs : List Fragment) : ByteMem := m.writeAll start payload fs

/-- The fragments of `data`, one after the other from `pos` on. -/
def Follow (ident data : List Byte) : Nat → List Fragment → Prop
  | pos, [] => pos = data.length
  | pos, f :: fs => f.ident = ident ∧ f.start = pos ∧ f.payload = slice data pos f.payload.length ∧ 0 < f.payload.length ∧
      f.stop ≤ data.length ∧ f.more = decide (f.stop < data.length) ∧ (f.more = true → f.payload.length % 8 = 0) ∧
      Follow ident data f.stop fs

variable {ident data : List Byte} {pos : Nat} {fs : List Fragment}

theorem Follow.mem (h : Follow ident data pos fs) {f : Fragment} (hf : f ∈ fs) :
    f.ident = ident ∧ pos ≤ f.start ∧ 0 < f.payload.length ∧ f.stop ≤ data.length ∧
      f.more = decide (f.stop < data.length) ∧ (f.more = true → f.payload.length % 8 = 0) := by
  induction fs generalizing pos with
  | nil => cases hf
  | cons g fs ih =>
    obtain ⟨hident, hstart, -, hpos, hstop, hmore, height, hrest⟩ := h
    rcases List.mem_cons.mp hf with rfl | hf
    · exact ⟨hident, Nat.le_of_eq hstart.symm, hpos, hstop, hmore, height⟩
    · obtain ⟨hident', hle, hrest'⟩ := ih hrest hf
      refine ⟨hident', ?_, hrest'⟩
      have hg : g.stop = g.start + g.payload.length := rfl
      omega

theorem Follow.pairwise (h : Follow ident data pos fs) : fs.Pairwise fun f f' => f.stop ≤ f'.start := by
  induction fs generalizing pos with
  | nil => exact List.Pairwise.nil
  | cons g fs ih =>
    obtain ⟨-, -, -, -, -, -, -, hrest⟩ := h
    exact List.Pairwise.cons (fun f hf => (hrest.mem hf).2.1) (ih hrest)

theorem Follow.apart (h : Follow ident data pos fs) : ByteMem.Apart start payload fs := by
  induction fs generalizing pos with
  | nil =>
    intro f hf
    cases hf
  | cons g fs ih =>
    obtain ⟨-, -, -, -, -, -, -, hrest⟩ := h
    intro f hf f' hf' hne
    rcases List.mem_cons.mp hf with rfl | hmem
    · rcases List.mem_cons.mp hf' with rfl | hmem'
      · exact absurd rfl hne
      · exact .inl (hrest.mem hmem').2.1
    · rcases List.mem_cons.mp hf' with rfl | hmem'
      · exact .inr (hrest.mem hmem).2.1
      · exact ih hrest f hmem f' hmem' hne

theorem Follow.read_place (h : Follow ident data pos fs) (m : ByteMem) :
    (place m fs).read pos (data.length - pos) = data.drop pos := by
  induction fs generalizing pos m with
  | nil =>
    have hend : pos = data.length := h
    rw [hend, Nat.sub_self, List.drop_length]
    rfl
  | cons f fs ih =>
    obtain ⟨-, hstart, hpayload, -, hstop, -, -, hrest⟩ := h
    have hsum : data.length - pos = f.payload.length + (data.length - f.stop) := by
      unfold stop at hstop ⊢
      omega
    have hbehind : pos + f.payload.length = f.stop := by
      unfold stop
      rw [hstart]
    have hkept : (place (m.write f.start f.payload) fs).read pos f.payload.length = f.payload := by
      have hother : (place (m.write f.start f.payload) fs).read pos f.payload.length =
          (m.write f.start f.payload).read pos f.payload.length := by
        apply List.map_congr_left
        intro i hi
        apply ByteMem.writeAll_other
        intro f' hf'
        have hle := (hrest.mem hf').2.1
        have hlt := List.mem_range.mp hi
        omega
      rw [hother, ← hstart]
      exact ByteMem.read_write m _ _
    calc (place (m.write f.start f.payload) fs).read pos (data.length - pos)
        = f.payload ++ data.drop f.stop := by
          rw [hsum, ByteMem.read_add, hkept, hbehind, ih hrest]
      _ = data.drop pos := by
          rw [hpayload]
          unfold slice
          rw [← hbehind, ← List.drop_drop, List.take_append_drop]

theorem Follow.last (h : Follow ident data pos fs) (hlt : pos < data.length) : ∃ f ∈ fs, f.more = false := by
  induction fs generalizing pos with
  | nil => exact absurd h (Nat.ne_of_lt hlt)
  | cons f fs ih =>
    obtain ⟨-, -, -, -, hstop, hmore, -, hrest⟩ := h
    by_cases hend : f.stop < data.length
    · obtain ⟨f', hf', hlast⟩ := ih hrest hend
      exact ⟨f', List.mem_cons_of_mem _ hf', hlast⟩
    · exact ⟨f, List.mem_cons_self, by rw [hmore, decide_eq_false hend]⟩

end Fragment

/-- The frames carry the datagram: from the port of the sender to the port of the guest, they reassemble to the UDP
header and the data, whatever the order is in which they arrive. -/
structure Lossless (port : Nat) (d : Datagram) (frames : List Frame) : Prop where
  ident : ∃ ident, ∀ f ∈ frames.map Fragment.ofFrame, f.ident = ident
  reassembled : ∀ order, order.Perm (frames.map Fragment.ofFrame) → ∀ m,
    (Fragment.place m order).read 0 (d.data.length + 8) =
      d.port.1 ++ Lib.bytes true 2 port ++ Lib.bytes true 2 (d.data.length + 8) ++ [0#8, 0#8] ++ d.data
  last : ∃ f ∈ frames.map Fragment.ofFrame, f.more = false
  stop : ∀ f ∈ frames.map Fragment.ofFrame, f.more = false → f.stop = d.data.length + 8
  inside : ∀ f ∈ frames.map Fragment.ofFrame, f.stop ≤ d.data.length + 8
  apart : (frames.map Fragment.ofFrame).Pairwise fun f f' => f.stop ≤ f'.start
  multiple : ∀ f ∈ frames.map Fragment.ofFrame, f.more = true → 0 < f.payload.length ∧ f.payload.length % 8 = 0
  size : ∀ frame ∈ frames, frame.length ≤ 1500

section
variable {gatewayEthernetAddr : Block 6} {addr : Block 4} {c : UdpConnection}

/-! ## Frames -/

theorem fragmentHeader_fits {ipLen fragmentOfs : Nat} {more : Bool} :
    ∀ w ∈ c.fragmentHeader gatewayEthernetAddr addr ipLen fragmentOfs more, w.1 + w.2.length ≤ 34 := by
  simp [UdpConnection.fragmentHeader]

theorem fragment_ok (fresh : Nat → Byte) {fragmentOfs : Nat} (more : Bool) {data : List Byte} (hofs : fragmentOfs < 8192)
    (hlen : data.length ≤ 65515) : ∃ frame, c.fragment gatewayEthernetAddr addr fresh fragmentOfs more data = .ok frame ∧
      Fragment.ofFrame frame = ⟨Lib.bytes true 2 c.udpId, more, fragmentOfs, data⟩ ∧ frame.length = 34 + data.length := by
  obtain ⟨ws, hws⟩ : ∃ ws, ws = c.fragmentHeader gatewayEthernetAddr addr (20 + data.length) fragmentOfs more := ⟨_, rfl⟩
  have hlen0 : (newFrame fresh (14 + 20 + data.length)).length = 34 + data.length := length_newFrame fresh _
  have hfits : ∀ w ∈ ws, w.1 + w.2.length ≤ (newFrame fresh (14 + 20 + data.length)).length := by
    intro w hw
    rw [hws] at hw
    have hfit := fragmentHeader_fits w hw
    omega
  obtain ⟨hw, hlen1⟩ := Buf.writeAll_of_le hfits
  obtain ⟨frame1, hframe1⟩ : ∃ f, f = setAll (newFrame fresh (14 + 20 + data.length)) ws := ⟨_, rfl⟩
  rw [← hframe1] at hw hlen1
  obtain ⟨sum, hsum, hck⟩ := @replyChecksum_eq_write fresh frame1 14 10 20
  have hb1 : 24 + sum.length ≤ frame1.length := by omega
  have hlen2 := Buf.length_set hb1
  have hb2 : 34 + data.length ≤ (set frame1 24 sum).length := by omega
  have hlen3 := Buf.length_set hb2
  -- The checksum and the data are written behind or in front of the other fields.
  have hkept (j n : Nat) (hn : j + n ≤ 24) : slice (set (set frame1 24 sum) 34 data) j n = slice frame1 j n := by
    rw [Buf.slice_set_other hb2 (.inl (by omega)), Buf.slice_set_other hb1 (.inl hn)]
  have hfield (k : Nat) (w : Nat × List Byte) (hk : ws[k]? = some w)
      (hpost : ∀ w' ∈ ws.drop (k + 1), w.1 + w.2.length ≤ w'.1) (hn : w.1 + w.2.length ≤ 24) :
      slice (set (set frame1 24 sum) 34 data) w.1 w.2.length = w.2 := by
    rw [hkept _ _ hn, hframe1]
    exact Buf.slice_setAll_at k hk hfits hpost
  refine ⟨set (set frame1 24 sum) 34 data, ?_, ?_, by omega⟩
  · unfold UdpConnection.fragment
    dsimp only
    rw [← hws, hw]
    change (replyChecksum fresh frame1 14 10 20 >>= _) = _
    rw [hck, Buf.write_of_le hb1]
    exact Buf.write_of_le hb2
  · have hipLen := hfield 4 (16, Lib.bytes true 2 (20 + data.length)) (by rw [hws]; rfl)
      (by rw [hws]; simp [UdpConnection.fragmentHeader]) (by simp)
    have hident := hfield 5 (18, Lib.bytes true 2 c.udpId) (by rw [hws]; rfl)
      (by rw [hws]; simp [UdpConnection.fragmentHeader]) (by simp)
    have hflags := hfield 6 (20, [BitVec.ofNat 8 (fragmentOfs / 256) ||| if more then 0x20#8 else 0#8])
      (by rw [hws]; rfl) (by rw [hws]; simp [UdpConnection.fragmentHeader]) (by simp)
    have hlow := hfield 7 (21, [BitVec.ofNat 8 fragmentOfs]) (by rw [hws]; rfl)
      (by rw [hws]; simp [UdpConnection.fragmentHeader]) (by simp)
    -- The offset shares a byte with the flag.
    have hbits : ∀ high < 32, ∀ more : Bool,
        (BitVec.ofNat 8 high ||| if more then 0x20#8 else 0#8).getLsbD 5 = more ∧
          ((BitVec.ofNat 8 high ||| if more then 0x20#8 else 0#8) &&& 0x1f#8).toNat = high := by decide
    obtain ⟨hmore, hhigh⟩ := hbits (fragmentOfs / 256) (by omega) more
    rw [length_bytes] at hipLen hident
    have hbyte20 := congrArg (fun l => byte l 0) hflags
    have hbyte21 := congrArg (fun l => byte l 0) hlow
    simp only [List.length_singleton, Buf.byte_slice, Nat.zero_lt_one, if_true, Nat.add_zero] at hbyte20 hbyte21
    have hvalue : Lib.value true (slice (set (set frame1 24 sum) 34 data) 16 2) - 20 = data.length := by
      rw [hipLen, value_bytes, Nat.mod_eq_of_lt (by omega)]
      omega
    unfold Fragment.ofFrame
    have hone (x : Byte) : byte [x] 0 = x := rfl
    have hofs' : fragmentOfs / 256 * 256 + fragmentOfs % 2 ^ 8 = fragmentOfs := by omega
    rw [hident, hvalue, Buf.slice_set_same hb2, hbyte20, hbyte21, hone, hone, hmore, hhigh, BitVec.toNat_ofNat, hofs']

/-! ## The loop -/

theorem thisPacketsDataLength_spec {left : Nat} (hleft : 0 < left) :
    0 < thisPacketsDataLength left ∧ thisPacketsDataLength left ≤ left ∧ thisPacketsDataLength left ≤ 1466 ∧
      (thisPacketsDataLength left < left → thisPacketsDataLength left % 8 = 0) := by
  have haligned : alignDown (maxPerPacket - 34) = 1464 := rfl
  have hmax : maxPerPacket - 34 = 1466 := rfl
  unfold thisPacketsDataLength
  rw [haligned, hmax]
  split
  · omega
  · omega

theorem fragments_follow (fresh : Nat → Nat → Byte) {data : List Byte} (hlen : data.length ≤ 65515) {fuel k pos : Nat}
    (hpos : pos ≤ data.length) (halign : pos < data.length → pos % 8 = 0) (hfuel : data.length ≤ pos + fuel) :
    ∃ frames, c.fragments gatewayEthernetAddr addr fresh data fuel k pos = .ok (frames, data.length) ∧
      Fragment.Follow (Lib.bytes true 2 c.udpId) data pos (frames.map Fragment.ofFrame) ∧
      ∀ frame ∈ frames, frame.length ≤ 1500 := by
  induction fuel generalizing k pos with
  | zero =>
    have hend : pos = data.length := by omega
    rw [hend]
    exact ⟨[], rfl, rfl, fun frame h => by cases h⟩
  | succ fuel ih =>
    unfold UdpConnection.fragments
    by_cases hlt : pos < data.length
    · rw [if_pos hlt]
      dsimp only
      obtain ⟨n, hn⟩ : ∃ n, n = thisPacketsDataLength (data.length - pos) := ⟨_, rfl⟩
      obtain ⟨hn0, hnle, hnmax, height⟩ := thisPacketsDataLength_spec (Nat.sub_pos_of_lt hlt)
      rw [← hn] at hn0 hnle hnmax height ⊢
      have hslice : (slice data pos n).length = n := Buf.length_slice (by omega)
      obtain ⟨frame, hframe, hfragment, hframeLen⟩ := @fragment_ok gatewayEthernetAddr addr c (fresh k) (pos / 8)
        (decide (pos + n < data.length)) (slice data pos n) (by omega) (by omega)
      obtain ⟨frames, hframes, hfollow, hsize⟩ := @ih (k + 1) (pos + n) (by omega) (fun h => by
        omega) (by omega)
      refine ⟨frame :: frames, ?_, ?_, ?_⟩
      · rw [hframe]
        rw [hframes]
        rfl
      · have hstart : (Fragment.ofFrame frame).start = pos := by
          rw [hfragment]
          unfold Fragment.start
          dsimp only
          omega
        have hpayload : (Fragment.ofFrame frame).payload = slice data pos n := by rw [hfragment]
        have hstop : (Fragment.ofFrame frame).stop = pos + n := by
          unfold Fragment.stop
          rw [hstart, hpayload, hslice]
        rw [List.map_cons]
        refine ⟨by rw [hfragment], hstart, ?_, ?_, ?_, ?_, ?_, ?_⟩
        · rw [hpayload, hslice]
        · rw [hpayload, hslice]
          exact hn0
        · rw [hstop]
          omega
        · rw [hstop, hfragment]
        · rw [hpayload, hslice, hfragment]
          intro hmore
          have := of_decide_eq_true hmore
          exact height (by omega)
        · rw [hstop]
          exact hfollow
      · intro frame' hmem
        rcases List.mem_cons.mp hmem with rfl | hmem
        · omega
        · exact hsize frame' hmem
    · rw [if_neg hlt]
      have hend : pos = data.length := by omega
      rw [hend]
      exact ⟨[], rfl, rfl, fun frame h => by cases h⟩

end

section
variable {gw gw' : Gateway} {nic : NicPtr} {host : UdpRxHost} {d : Datagram} {i k : Nat}

theorem length_udpData (c : UdpConnection) : (c.udpData d).length = d.data.length + 8 := by
  simp [UdpConnection.udpData]
  omega

/-- What net_udp_rx_avail() does not change. -/
def SameUse (gw gw' : Gateway) : Prop :=
  ∀ j, (gw'.udpConnections j).inUse = (gw.udpConnections j).inUse ∧
    (gw'.udpConnections j).socket = (gw.udpConnections j).socket ∧
    (gw'.udpConnections j).insideUdpPort = (gw.udpConnections j).insideUdpPort

theorem receiveDatagram_lossless (gw : Gateway) (host : UdpRxHost) (k i : Nat) (hlen : d.data.length ≤ 65507) :
    ∃ gw' frames, gw.receiveDatagram host k i d = .ok (gw', frames, d.data.length + 8) ∧ SameUse gw gw' ∧
      Lossless (gw.udpConnections i).insideUdpPort d frames := by
  let c : UdpConnection := { gw.udpConnections i with
    lastUsedTimestamp := gw.timestamp + 1#64
    udpId := (gw.udpConnections i).udpId + 1 }
  have hdata := @length_udpData d c
  obtain ⟨frames, hframes, hfollow, hsize⟩ := @fragments_follow gw.gatewayEthernetAddr
    (if c.fakeNs then gw.gatewayIpv4Addr else d.addr) c host.fresh (c.udpData d) (by omega) (c.udpData d).length k 0
    (Nat.zero_le _) (fun _ => rfl) (by omega)
  refine ⟨{ gw.setUdp i c with timestamp := gw.timestamp + 1#64 }, frames, ?_, fun j => ?_, ?_⟩
  · change (c.fragments gw.gatewayEthernetAddr (if c.fakeNs then gw.gatewayIpv4Addr else d.addr) host.fresh (c.udpData d)
      (c.udpData d).length k 0 >>= _) = _
    rw [hframes, hdata]
    rfl
  · change (Function.update gw.udpConnections i c j).inUse = _ ∧ (Function.update gw.udpConnections i c j).socket = _ ∧
      (Function.update gw.udpConnections i c j).insideUdpPort = _
    by_cases hij : j = i
    · rw [hij, Function.update_self]
      exact ⟨rfl, rfl, rfl⟩
    · rw [Function.update_of_ne hij]
      exact ⟨rfl, rfl, rfl⟩
  refine ⟨⟨_, fun f hf => (hfollow.mem hf).1⟩, fun order horder m => ?_, ?_, fun f hf hlast => ?_, fun f hf => ?_,
    hfollow.pairwise, fun f hf hmore => ?_, hsize⟩
  · have hplace : Fragment.place m order = Fragment.place m (frames.map Fragment.ofFrame) := by
      apply ByteMem.writeAll_perm m horder
      intro f hf f' hf' hne
      exact hfollow.apart f (horder.mem_iff.mp hf) f' (horder.mem_iff.mp hf') hne
    have hread := hfollow.read_place m
    rw [Nat.sub_zero, hdata, List.drop_zero] at hread
    rw [hplace, hread]
    rfl
  · apply hfollow.last
    omega
  · obtain ⟨-, -, -, hstop, hmore, -⟩ := hfollow.mem hf
    rw [hlast] at hmore
    have hnot := of_decide_eq_false hmore.symm
    omega
  · have hstop := (hfollow.mem hf).2.2.2.1
    omega
  · obtain ⟨-, -, hpos, -, -, height⟩ := hfollow.mem hf
    exact ⟨hpos, height hmore⟩

structure Delivery where
  conId : Nat
  datagram : Datagram
  frames : List Frame

def queuedFrames (deliveries : List Delivery) : List Frame := deliveries.flatMap Delivery.frames

def Gateway.receives (gw : Gateway) (x : Nat × Datagram) : Bool :=
  (gw.udpConnections x.1).inUse && decide (0 ≤ (gw.udpConnections x.1).socket)

theorem udpRxAvail_loop (gw : Gateway) (nic : NicPtr) (host : UdpRxHost) (l : List (Nat × Datagram))
    (hlen : ∀ x ∈ l, x.2.data.length ≤ 65507) (s : Gateway × List Event × Nat) (hsame : SameUse gw s.1) :
    ∃ gw' deliveries left, l.foldlM (Gateway.udpRxAvailAt nic host) s =
        .ok (gw', s.2.1 ++ (queuedFrames deliveries).map (.queued nic), s.2.2 + (queuedFrames deliveries).length) ∧
      (∀ x ∈ deliveries, (gw.udpConnections x.conId).inUse = true ∧
        Lossless (gw.udpConnections x.conId).insideUdpPort x.datagram x.frames) ∧
      l.filter gw.receives = deliveries.map (fun x => (x.conId, x.datagram)) ++ left ∧
      (left ≠ [] → maxPacketsThisTick < s.2.2 + (queuedFrames deliveries).length) ∧
      (maxPacketsThisTick < s.2.2 → deliveries = []) := by
  induction l generalizing s with
  | nil =>
    refine ⟨s.1, [], [], ?_, ?_, rfl, fun h => absurd rfl h, fun _ => rfl⟩
    · change Except.ok s = .ok (s.1, s.2.1 ++ [], s.2.2 + 0)
      rw [List.append_nil, Nat.add_zero]
    · intro x hx
      cases hx
  | cons x l ih =>
    have hlen' : ∀ x ∈ l, x.2.data.length ≤ 65507 := fun y hy => hlen y (List.mem_cons_of_mem _ hy)
    obtain ⟨huse, hsocket, hport⟩ := hsame x.1
    rw [List.foldlM_cons]
    by_cases hskip : maxPacketsThisTick < s.2.2 ∨ (s.1.udpConnections x.1).inUse = false ∨ (s.1.udpConnections x.1).socket < 0
    · have hround : Gateway.udpRxAvailAt nic host s x = .ok s := if_pos hskip
      obtain ⟨gw', deliveries, left, hfold, hall, hfilter, hleft, hnone⟩ := ih hlen' s hsame
      rw [hround]
      by_cases hreceives : gw.receives x = true
      · -- The socket has not been asked, as there have been too many packets.
        have hmany : maxPacketsThisTick < s.2.2 := by
          unfold Gateway.receives at hreceives
          rw [Bool.and_eq_true, decide_eq_true_eq, ← huse, ← hsocket] at hreceives
          rcases hskip with h | h | h
          · exact h
          · rw [hreceives.1] at h
            cases h
          · omega
        have hempty := hnone hmany
        refine ⟨gw', deliveries, x :: left, hfold, hall, ?_, fun _ => by omega, hnone⟩
        rw [List.filter_cons_of_pos hreceives, hfilter, hempty]
        rfl
      · refine ⟨gw', deliveries, left, hfold, hall, ?_, hleft, hnone⟩
        rw [List.filter_cons_of_neg hreceives]
        exact hfilter
    · rw [not_or, not_or] at hskip
      obtain ⟨hfew, hinUse, hopen⟩ := hskip
      rw [Bool.not_eq_false] at hinUse
      obtain ⟨gw1, frames, hok, hsame1, hlossless⟩ := receiveDatagram_lossless s.1 host s.2.2 x.1
        (hlen x List.mem_cons_self)
      have hsame' : SameUse gw gw1 := by
        intro j
        obtain ⟨h1, h2, h3⟩ := hsame j
        obtain ⟨h4, h5, h6⟩ := hsame1 j
        exact ⟨h4.trans h1, h5.trans h2, h6.trans h3⟩
      have hround : Gateway.udpRxAvailAt nic host s x =
          .ok (gw1, s.2.1 ++ frames.map (.queued nic), s.2.2 + frames.length) := by
        unfold Gateway.udpRxAvailAt
        rw [if_neg (by rw [not_or, not_or, Bool.not_eq_false]; exact ⟨hfew, hinUse, hopen⟩), hok]
        rfl
      obtain ⟨gw', deliveries, left, hfold, hall, hfilter, hleft, -⟩ := ih hlen'
        (gw1, s.2.1 ++ frames.map (.queued nic), s.2.2 + frames.length) hsame'
      have hframes : queuedFrames (⟨x.1, x.2, frames⟩ :: deliveries) = frames ++ queuedFrames deliveries := rfl
      refine ⟨gw', ⟨x.1, x.2, frames⟩ :: deliveries, left, ?_, ?_, ?_, ?_, fun h => absurd h hfew⟩
      · rw [hround]
        change l.foldlM (Gateway.udpRxAvailAt nic host) _ = _
        rw [hfold, hframes, List.map_append, List.length_append, List.append_assoc, Nat.add_assoc]
      · intro y hy
        rcases List.mem_cons.mp hy with rfl | hy
        · refine ⟨huse.symm.trans hinUse, ?_⟩
          rw [← hport]
          exact hlossless
        · exact hall y hy
      · have hreceives : gw.receives x = true := by
          unfold Gateway.receives
          rw [Bool.and_eq_true, decide_eq_true_eq, ← huse, ← hsocket]
          exact ⟨hinUse, by omega⟩
        rw [List.filter_cons_of_pos hreceives, hfilter]
        rfl
      · intro hne
        have hmany := hleft hne
        rw [hframes, List.length_append]
        dsimp only at hmany
        omega

def UdpRxHost.all (host : UdpRxHost) : List (Nat × Datagram) :=
  (List.range maxUdpConnections).flatMap fun i => (host.datagrams i).map (i, ·)

/-- Every datagram that net_udp_rx_avail() receives on a connection that is in use becomes frames that carry it. Only
when more than 200 frames have been queued, the datagrams that are left have to wait. -/
theorem netUdpRxAvail_lossless (gw : Gateway) (nic : NicPtr) (host : UdpRxHost)
    (hlen : ∀ i, ∀ d ∈ host.datagrams i, d.data.length ≤ 65507) : ∃ gw' deliveries left,
      gw.netUdpRxAvail nic host =
        .ok (gw', (queuedFrames deliveries).map (.queued nic), (queuedFrames deliveries).length) ∧
      (∀ x ∈ deliveries, (gw.udpConnections x.conId).inUse = true ∧
        Lossless (gw.udpConnections x.conId).insideUdpPort x.datagram x.frames) ∧
      host.all.filter gw.receives = deliveries.map (fun x => (x.conId, x.datagram)) ++ left ∧
      (left ≠ [] → maxPacketsThisTick < (queuedFrames deliveries).length) := by
  have hall : ∀ x ∈ host.all, x.2.data.length ≤ 65507 := by
    intro x hx
    obtain ⟨i, -, hmem⟩ := List.mem_flatMap.mp hx
    obtain ⟨d, hd, rfl⟩ := List.mem_map.mp hmem
    exact hlen i d hd
  obtain ⟨gw', deliveries, left, hfold, hdeliveries, hfilter, hleft, -⟩ :=
    udpRxAvail_loop gw nic host host.all hall (gw, [], 0) fun j => ⟨rfl, rfl, rfl⟩
  rw [Nat.zero_add] at hleft
  refine ⟨gw', deliveries, left, ?_, hdeliveries, hfilter, hleft⟩
  change host.all.foldlM (Gateway.udpRxAvailAt nic host) (gw, [], 0) = _
  rw [hfold, Nat.zero_add]
  rfl

end

/-- A connection of the guest's port 1025, whose socket has a datagram with "ab". -/
def udpGateway : Gateway := natGateway.setUdp 0 { UdpConnection.zero with inUse := true, insideUdpPort := 1025, socket := 3 }

def abDatagram : Datagram := ⟨⟨[1#8, 2#8, 3#8, 4#8], rfl⟩, ⟨[0#8, 53#8], rfl⟩, [0x61#8, 0x62#8]⟩

def abHost : UdpRxHost := ⟨fun _ _ => 0#8, fun i => if i = 0 then [abDatagram] else []⟩

theorem abDatagram_lossless : ∃ gw' deliveries left,
    udpGateway.netUdpRxAvail (some 0) abHost =
      .ok (gw', (queuedFrames deliveries).map (.queued (some 0)), (queuedFrames deliveries).length) ∧
    (∀ x ∈ deliveries, (udpGateway.udpConnections x.conId).inUse = true ∧
      Lossless (udpGateway.udpConnections x.conId).insideUdpPort x.datagram x.frames) ∧
    abHost.all.filter udpGateway.receives = deliveries.map (fun x => (x.conId, x.datagram)) ++ left ∧
    (left ≠ [] → maxPacketsThisTick < (queuedFrames deliveries).length) := by
  apply netUdpRxAvail_lossless
  intro i d hd
  unfold abHost at hd
  dsimp only at hd
  split at hd
  · rw [List.mem_singleton.mp hd]
    decide
  · cases hd

end Gxemul.Network
