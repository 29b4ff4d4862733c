import Gxemul.Lib.Bytes
import Mathlib.Logic.Function.Basic
import Gxemul.Network.Checksum

/- The packets that wait for the NICs of an emulated network (`src/net/net.c`,
   `src/net/net_tap.c`).

   All NICs share one doubly linked list. Packets are added last by
   net_allocate_ethernet_packet_link() only, and net_ethernet_rx() takes out the
   first one of a NIC, wherever it is. What the gateway answers to a packet is
   given with the operation: the handlers of `net_ip.c` and net_arp() add
   packets and do not look at the list. -/
namespace Gxemul.Network

open Lib (Byte)

/-- The address of a `struct ethernet_packet_link`. -/
abbrev Ptr := Nat

/-- A `struct nic_data *`; `none` is NULL. -/
abbrev NicPtr := Option Nat

abbrev Frame := List Byte

/-- Why the emulator stops: malloc() fails, a pointer is used that does not
point to a link, or the list does not end. -/
inductive NetExit where
  | malloc
  | badPointer
  | endless

/-- `struct ethernet_packet_link`; `len` is the length of the data. -/
structure Link where
  prev : Option Ptr
  next : Option Ptr
  nic : NicPtr
  data : Frame

/-- `struct nic_data`. -/
structure NicData where
  macAddress : List Byte
  promiscuousMode : Bool

/-- `struct net`, without the connections of the gateway. `allocated` is the
number of links that have been allocated and not freed, `mallocs` how often
malloc() has been called. -/
structure Net where
  tapdev : Bool
  nicData : List Nat
  nic : Nat → NicData
  gatewayEthernetAddr : List Byte
  localPort : Bool
  links : Ptr → Option Link
  first : Option Ptr
  last : Option Ptr
  allocated : Nat
  mallocs : Nat

namespace Net

/-- `lp->field = v` for a link. -/
def setLink (net : Net) (p : Ptr) (f : Link → Link) : Except NetExit Net :=
  match net.links p with
  | some lp => .ok { net with links := Function.update net.links p (some (f lp)) }
  | none => .error .badPointer

/-- net_allocate_ethernet_packet_link(), and the copy of the data. `addr` are
the addresses that malloc() returns. -/
def allocateEthernetPacketLink (addr : Nat → Ptr) (net : Net) (nic : NicPtr) (data : Frame) :
    Except NetExit Net :=
  let p := addr net.mallocs
  if (net.links p).isSome then .error .malloc
  else
    let lp : Link := { prev := net.last, next := none, nic := nic, data := data }
    let net' : Net := { net with
      links := Function.update net.links p (some lp)
      allocated := net.allocated + 1
      mallocs := net.mallocs + 1 }
    match net.last with
    | some q => do
      let net' ← net'.setLink q (fun l => { l with next := some p })
      .ok { net' with last := some p }
    | none => .ok { net' with first := some p, last := some p }

def allocateAll (addr : Nat → Ptr) (net : Net) : List (NicPtr × Frame) → Except NetExit Net
  | [] => .ok net
  | (nic, data) :: frames => do
    let net ← net.allocateEthernetPacketLink addr nic data
    net.allocateAll addr frames

/-- The first packet with the right `nic` field, and `prev`. -/
def findPacket (net : Net) (nic : NicPtr) :
    Nat → Option Ptr → Option Ptr → Except NetExit (Option (Option Ptr × Ptr × Link))
  | _, _, none => .ok none
  | 0, _, some _ => .error .endless
  | fuel + 1, prev, some p =>
    match net.links p with
    | none => .error .badPointer
    | some lp => if lp.nic = nic then .ok (some (prev, p, lp)) else net.findPacket nic fuel (some p) lp.next

/-- Let `next` follow after `prev`, or be the first link. -/
def setNext (net : Net) (prev next : Option Ptr) : Except NetExit Net :=
  match prev with
  | none => .ok { net with first := next }
  | some q => net.setLink q fun l => { l with next := next }

/-- Let `prev` come before `next`, or be the last link. -/
def setPrev (net : Net) (next prev : Option Ptr) : Except NetExit Net :=
  match next with
  | none => .ok { net with last := prev }
  | some r => net.setLink r fun l => { l with prev := prev }

def unlink (net : Net) (prev : Option Ptr) (p : Ptr) (lp : Link) : Except NetExit Net := do
  let net ← net.setNext prev lp.next
  let net ← net.setPrev lp.next prev
  .ok { net with links := Function.update net.links p none, allocated := net.allocated - 1 }

/-- net_ethernet_rx(). The packet is handed over unless `packetp` is NULL. -/
def ethernetRx (net : Net) (nic : NicPtr) (packetp : Bool) : Except NetExit (Net × Bool × Option Frame) := do
  match ← net.findPacket nic net.allocated none net.first with
  | none => .ok (net, false, none)
  | some (prev, p, lp) =>
    if packetp then do
      let net ← net.unlink prev p lp
      .ok (net, true, some lp.data)
    else .ok (net, true, none)

def etherMulticast (buf : Frame) : Bool := buf.getD 0 0#8 &&& 1#8 != 0#8

/-- The packets that net_tap_rx_avail() adds for packets it reads from the tap device. -/
def tapFrames (net : Net) (packets : List Frame) : List (NicPtr × Frame) :=
  (packets.filter (fun buf => decide (20 ≤ buf.length))).flatMap fun buf =>
    (net.nicData.filter fun nic =>
      (net.nic nic).promiscuousMode || etherMulticast buf || decide ((net.nic nic).macAddress = buf.take 6)).map
        fun nic => (some nic, buf)

/-- The packets that net_ethernet_rx_avail() adds for packets from other emulator processes. -/
def distributedFrames (net : Net) (packets : List Frame) : List (NicPtr × Frame) :=
  if net.localPort then (packets.take 100).flatMap fun buf => net.nicData.map fun nic => (some nic, buf) else []

/-- What net_ethernet_rx_avail() adds. `packets` come from the tap device or from other processes, `incoming` is what
net_udp_rx_avail() and net_tcp_rx_avail() add. -/
def rxAvailFrames (net : Net) (packets : List Frame) (incoming : List (NicPtr × Frame)) : List (NicPtr × Frame) :=
  if net.tapdev then net.tapFrames packets else net.distributedFrames packets ++ incoming

def ethernetRxAvail (addr : Nat → Ptr) (net : Net) (nic : NicPtr) (packets : List Frame)
    (incoming : List (NicPtr × Frame)) : Except NetExit (Net × Bool × Option Frame) := do
  let net ← net.allocateAll addr (net.rxAvailFrames packets incoming)
  net.ethernetRx nic false

/-- What net_ethernet_tx() adds: copies for all other NICs, and what the gateway answers. -/
def txFrames (net : Net) (nic : NicPtr) (packet : Frame) (replies : List (NicPtr × Frame)) :
    List (NicPtr × Frame) :=
  if packet.length < 20 ∨ net.tapdev then []
  else
    let forTheGateway := packet.take 6 = net.gatewayEthernetAddr
    let copies := if ¬ forTheGateway ∧ nic ≠ none then
        (net.nicData.filter fun other => decide (nic ≠ some other)).map fun other => (some other, packet)
      else []
    let dropped := ¬ forTheGateway ∧ packet.getD 0 0#8 ≠ 0xff#8 ∧
      ¬ (packet.getD 0 0#8 = 0#8 ∧ packet.getD 5 0#8 = 0#8)
    copies ++ if dropped then [] else replies

def ethernetTx (addr : Nat → Ptr) (net : Net) (nic : NicPtr) (packet : Frame) (replies : List (NicPtr × Frame)) :
    Except NetExit Net :=
  net.allocateAll addr (net.txFrames nic packet replies)

def init (tapdev : Bool) (nicData : List Nat) (nic : Nat → NicData) (gateway : List Byte) (localPort : Bool) : Net where
  tapdev := tapdev
  nicData := nicData
  nic := nic
  gatewayEthernetAddr := gateway
  localPort := localPort
  links := fun _ => none
  first := none
  last := none
  allocated := 0
  mallocs := 0

end Net

end Gxemul.Network

/- The NAT gateway (`struct net` in `src/include/net.h`): its addresses, and its
   connections to the outside world.

   What the host answers is given with each call, as is what a block has in it that
   malloc() returns. -/
namespace Gxemul.Network
open Lib (Byte Block Checked)

def maxTcpConnections : Nat := 100
def maxUdpConnections : Nat := 100

/-- `struct udp_connection`. -/
structure UdpConnection where
  inUse : Bool
  lastUsedTimestamp : BitVec 64
  ethernetAddress : Block 6
  insideIpAddress : Block 4
  insideUdpPort : Nat
  fakeNs : Bool
  udpId : Nat
  socket : Int
  outsideIpAddress : Block 4
  outsideUdpPort : Nat

/-- `state` of a connection: 0, `TCP_OUTSIDE_TRYINGTOCONNECT`, `_CONNECTED`, `_DISCONNECTED` and `_DISCONNECTED2`. -/
inductive TcpState where
  | unused | tryingToConnect | connected | disconnected | disconnected2
  deriving DecidableEq

/-- `state >= TCP_OUTSIDE_DISCONNECTED`. -/
def TcpState.isDisconnected : TcpState → Bool
  | .disconnected | .disconnected2 => true
  | .unused | .tryingToConnect | .connected => false

/-- `struct tcp_connection`. `incomingBuf` has the bytes that have been written to `incoming_buf`, of which there are
at least `incoming_buf_len`. -/
structure TcpConnection where
  inUse : Bool
  lastUsedTimestamp : BitVec 64
  ethernetAddress : Block 6
  insideIpAddress : Block 4
  insideTcpPort : Nat
  insideTimestamp : BitVec 32
  incomingBuf : List Byte
  incomingBufRounds : Nat
  incomingBufLen : Nat
  incomingBufSeqnr : BitVec 32
  insideSeqnr : BitVec 32
  insideAcknr : BitVec 32
  outsideSeqnr : BitVec 32
  outsideAcknr : BitVec 32
  state : TcpState
  tcpId : Nat
  socket : Int
  outsideIpAddress : Block 4
  outsideTcpPort : Nat
  fits : incomingBufLen ≤ incomingBuf.length

/-- After `memset()`. -/
def UdpConnection.zero : UdpConnection :=
  ⟨false, 0#64, Block.zero 6, Block.zero 4, 0, false, 0, 0, Block.zero 4, 0⟩

/-- After `memset()`. -/
def TcpConnection.zero : TcpConnection where
  inUse := false
  lastUsedTimestamp := 0#64
  ethernetAddress := Block.zero 6
  insideIpAddress := Block.zero 4
  insideTcpPort := 0
  insideTimestamp := 0#32
  incomingBuf := []
  incomingBufRounds := 0
  incomingBufLen := 0
  incomingBufSeqnr := 0#32
  insideSeqnr := 0#32
  insideAcknr := 0#32
  outsideSeqnr := 0#32
  outsideAcknr := 0#32
  state := .unused
  tcpId := 0
  socket := 0
  outsideIpAddress := Block.zero 4
  outsideTcpPort := 0
  fits := Nat.le_refl 0

/-- `struct net`, the gateway. `nics` are the NICs on the network, and `remoteNets` is set if there are other
emulator processes on it. -/
structure Gateway where
  nics : List Nat
  remoteNets : Bool
  gatewayIpv4Addr : Block 4
  gatewayEthernetAddr : Block 6
  nameserverKnown : Bool
  nameserverIpv4 : Block 4
  timestamp : BitVec 64
  udpConnections : Nat → UdpConnection
  tcpConnections : Nat → TcpConnection

/-- What write() did: it has taken some of the bytes, `errno` is EAGAIN, or there is another error. -/
inductive WriteResult where
  | taken (n : Nat)
  | again
  | error

/-- What a call is given by the host: the bytes of the blocks that malloc() returns, the results of socket(),
random(), select() and write(), and whether there are messages for debugging and about errors. -/
structure Host where
  fresh : Nat → Nat → Byte
  socket : Int
  random0 : BitVec 32
  random1 : BitVec 32
  writable : Int
  write : WriteResult
  verbose : Bool
  verboseErrors : Bool

/-- What a segment of the guest says: the fields of its TCP header that are used. -/
structure Segment where
  srcport : Nat
  dstport : Nat
  seqnr : BitVec 32
  acknr : BitVec 32
  dataOffset : Nat
  ack : Bool
  rst : Bool
  syn : Bool
  fin : Bool
  checksum : List Byte
  deriving DecidableEq

/-- What happens to a TCP connection: a SYN opens it, the guest's segment is handled, a frame is queued for the
guest, bytes are read from the socket or taken by it, and it is closed. -/
inductive TcpEvent where
  | opened
  | segment (seg : Segment) (payload : List Byte)
  | queued (frame : Frame)
  | read (data : List Byte)
  | wrote (data : List Byte)
  | closed
  deriving DecidableEq

/-- What happens on the network when a frame is sent: a copy or a reply is queued for a NIC, the frame is sent to
the other processes, a datagram is sent, or something happens to a TCP connection. -/
inductive Event where
  | queued (nic : NicPtr) (frame : Frame)
  | distributed (frame : Frame)
  | sent (conId : Nat) (remoteIp : Block 4) (data : List Byte)
  | tcp (nic : NicPtr) (conId : Nat) (e : TcpEvent)

/-- The data of a new link, which malloc() has not written. -/
def newFrame (fresh : Nat → Byte) (len : Nat) : Frame := (List.range len).map fresh

@[simp] theorem length_newFrame (fresh : Nat → Byte) (len : Nat) : (newFrame fresh len).length = len := by
  simp [newFrame]

def replyByte (fresh : Nat → Byte) (reply : Frame) (i : Nat) : Checked Byte :=
  .ok (if i < reply.length then Lib.Buf.byte reply i else fresh i)

/-- `net_ip_checksum(lp->data + ofs, chksumoffset, len)` for a reply. -/
def replyChecksum (fresh : Nat → Byte) (reply : Frame) (ofs chksumoffset len : Nat) : Checked Frame := do
  let sum ← netIpChecksum (fun i => replyByte fresh reply (ofs + i)) chksumoffset len
  Lib.Buf.write reply (ofs + chksumoffset) sum

/-- `net_ip_tcp_checksum(lp->data + 34, chksumoffset, len, lp->data + 26, lp->data + 30, udpflag)` for a reply. -/
def replyTcpChecksum (fresh : Nat → Byte) (reply : Frame) (chksumoffset len : Nat) (udpflag : Bool) :
    Checked Frame := do
  let sum ← netIpTcpChecksum (fun i => replyByte fresh reply (34 + i)) chksumoffset len
    (Lib.Buf.slice reply 26 4) (Lib.Buf.slice reply 30 4) udpflag
  Lib.Buf.write reply (34 + chksumoffset) sum

def natGateway : Gateway where
  nics := []
  remoteNets := false
  gatewayIpv4Addr := ⟨[10#8, 0#8, 0#8, 254#8], by decide⟩
  gatewayEthernetAddr := ⟨[0x60#8, 0x50#8, 0x40#8, 0x30#8, 0x20#8, 0x10#8], by decide⟩
  nameserverKnown := false
  nameserverIpv4 := .zero 4
  timestamp := 0#64
  udpConnections _ := .zero
  tcpConnections _ := .zero

def openHost : Host := ⟨fun _ _ => 0#8, 3, 0#32, 0#32, 1, .taken 1400, false, false⟩

/-- A segment of the guest 10.0.0.1, from its port 1025 to port 80 of 1.2.3.4, with the checksum given. -/
def guestFrame (seqnr acknr : Nat) (control : Byte) (checksum data : List Byte) : Frame :=
  natGateway.gatewayEthernetAddr.1 ++ List.replicate 6 0x02#8 ++ [0x08#8, 0x00#8, 0x45#8, 0x00#8] ++
    Lib.bytes true 2 (52 + data.length) ++ List.replicate 5 0#8 ++ [6#8, 0#8, 0#8, 10#8, 0#8, 0#8, 1#8, 1#8, 2#8, 3#8, 4#8] ++
    Lib.bytes true 2 1025 ++ Lib.bytes true 2 80 ++ Lib.bytes true 4 seqnr ++ Lib.bytes true 4 acknr ++
    [0x80#8, control, 0#8, 0#8] ++ checksum ++ List.replicate 14 0#8 ++ data

def guestSyn : Frame := guestFrame 16 0 0x02#8 [0x6d#8, 0x6f#8] []

def guestAck : Frame := guestFrame 17 1 0x10#8 [0x6d#8, 0x5f#8] []

end Gxemul.Network
