import Gxemul.Network.Gateway

/- TCP through the gateway: net_ip_tcp(), net_ip_tcp_connectionreply() and
   net_tcp_rx_avail() in `src/net/net_ip.c`.

   What these functions do once they know the connection is done to that connection,
   with the addresses and the time of the gateway, and is recorded as events. -/
namespace Gxemul.Network
open Lib (Byte Block Checked)
open Lib.Buf (readByte readBytes readBlock write writeAll slice)

/-- What the functions on a connection use of `struct net`. -/
structure TcpNet where
  gatewayEthernetAddr : Block 6
  timestamp : BitVec 64

/-- `lp->data[47]`. -/
def TcpConnection.control (c : TcpConnection) (connecting rst : Bool) : Byte :=
  0x10#8 ||| (if connecting then 0x02#8 else 0#8) ||| (if c.state = .connected then 0x08#8 else 0#8) |||
    (if rst then 0x04#8 else 0#8) ||| (if c.state.isDisconnected then 0x01#8 else 0#8)

namespace TcpConnection
variable (net : TcpNet) (fresh : Nat → Byte) (c : TcpConnection)

/-! ## Replies -/

def replyIpHeader (ipLen : Nat) : List (Nat × List Byte) :=
  [(0, c.ethernetAddress.1), (6, net.gatewayEthernetAddr.1), (12, [0x08#8, 0x00#8]), (14, [0x45#8, 0x10#8]),
    (16, Lib.bytes true 2 ipLen), (18, Lib.bytes true 2 c.tcpId), (20, [0x40#8, 0x00#8, 0x40#8, 6#8]),
    (26, c.outsideIpAddress.1), (30, c.insideIpAddress.1)]

/-- The TCP header and the options of a reply. The urgent pointer is not written. -/
def replyTcpHeader (connecting rst : Bool) : List (Nat × List Byte) :=
  [(34, Lib.bytes true 2 c.outsideTcpPort), (36, Lib.bytes true 2 c.insideTcpPort),
    (38, Lib.bytes true 4 c.outsideSeqnr.toNat), (42, Lib.bytes true 4 c.outsideAcknr.toNat),
    (46, [0xa0#8]), (47, [c.control connecting rst]), (48, [0x10#8, 0x00#8]),
    (54, [0x02#8, 0x04#8, 0x05#8, 0xb4#8, 0x01#8, 0x03#8, 0x03#8, 0x00#8, 0x01#8, 0x01#8, 0x08#8, 0x0a#8]),
    (66, Lib.bytes true 4 net.timestamp.toNat), (70, Lib.bytes true 4 c.insideTimestamp.toNat)]

/-- `net_ip_tcp_connectionreply()`. No data is NULL. -/
def connectionreply (connecting : Bool) (data : List Byte) (rst : Bool) : Checked (TcpConnection × Frame) := do
  let c := if connecting then { c with outsideAcknr := c.insideSeqnr + 1#32 } else c
  let c := { c with tcpId := c.tcpId + 1 }
  let tcpLength := 20 + 20 + data.length
  let ipLen := 20 + tcpLength
  let reply ← writeAll (newFrame fresh (14 + ipLen)) (c.replyIpHeader net ipLen)
  let reply ← replyChecksum fresh reply 14 10 20
  let reply ← writeAll reply (c.replyTcpHeader net connecting rst)
  let reply ← write reply 74 data
  let c := { c with outsideSeqnr := c.outsideSeqnr + BitVec.ofNat 32 data.length }
  let reply ← replyTcpChecksum fresh reply 16 tcpLength false
  return (if connecting then { c with outsideSeqnr := c.outsideSeqnr + 1#32 } else c, reply)

/-- `tcp_closeconnection()`. -/
def close : TcpConnection :=
  { c with state := .disconnected, inUse := false, incomingBufLen := 0, fits := Nat.zero_le _ }

end TcpConnection

/-! ## Segments of the guest -/

def Segment.ofHeader (h : List Byte) : Segment where
  srcport := Lib.value true (slice h 0 2)
  dstport := Lib.value true (slice h 2 2)
  seqnr := BitVec.ofNat 32 (Lib.value true (slice h 4 4))
  acknr := BitVec.ofNat 32 (Lib.value true (slice h 8 4))
  dataOffset := (Lib.Buf.byte h 12).toNat / 16 * 4 + 34
  ack := (Lib.Buf.byte h 13).getLsbD 4
  rst := (Lib.Buf.byte h 13).getLsbD 2
  syn := (Lib.Buf.byte h 13).getLsbD 1
  fin := (Lib.Buf.byte h 13).getLsbD 0
  checksum := slice h 16 2

namespace TcpConnection
variable (net : TcpNet) (host : Host) (packet : Frame) (len : Nat) (seg : Segment) (c : TcpConnection)

/-- An ACK. All of `incoming_buf` is acknowledged, or nothing. -/
def acknowledge : TcpConnection :=
  let c := { c with insideAcknr := seg.acknr }
  if c.insideAcknr = c.outsideSeqnr ∧ c.incomingBufLen ≠ 0 then { c with incomingBufLen := 0, fits := Nat.zero_le _ }
  else c

/-- "TODO: This is hardcoded for a specific NetBSD packet". -/
def readTimestamp : Checked TcpConnection := do
  let kind ← readByte packet 64
  if kind = 0x08#8 then do
    let length ← readByte packet 65
    if length = 0x0a#8 then do
      let value ← readBytes packet 66 4
      return { c with insideTimestamp := BitVec.ofNat 32 (Lib.value true value) }
    else return c
  else return c

/-- Data for the outside world. The last result says whether there is a reply. As `send_ofs` is `data_offset` for
the only `seqnr` that is not dropped, `len - send_ofs` is positive. -/
def transmit : Checked (TcpConnection × List TcpEvent × Bool) :=
  if seg.seqnr ≠ c.outsideAcknr then .ok (c, [], true)
  else if host.writable < 1 then .ok ({ c with state := .disconnected }, [], true)
  else do
    let data ← readBytes packet seg.dataOffset (len - seg.dataOffset)
    match host.write with
    | .taken (n + 1) =>
      let res := min (n + 1) data.length
      return ({ c with outsideAcknr := c.outsideAcknr + BitVec.ofNat 32 res }, [.wrote (data.take res)], true)
    | .again => return (c, [], false)
    | .taken 0 | .error => return ({ c with state := .disconnected }, [], true)

def reply (k : Nat) (rst : Bool) (net : TcpNet) (events : List TcpEvent) :
    Checked (TcpConnection × BitVec 64 × List TcpEvent) := do
  let (c, frame) ← c.connectionreply net (host.fresh k) false [] rst
  return (c, net.timestamp, events ++ [.queued frame])

/-- `net_ip_tcp()`, after the tests for RST and FIN. -/
def inputData : Checked (TcpConnection × BitVec 64 × List TcpEvent) := do
  let c := if seg.ack then c.acknowledge seg else c
  let c := { c with insideSeqnr := seg.seqnr }
  let c ← c.readTimestamp packet
  let net := { net with timestamp := net.timestamp + 1#64 }
  let c := { c with lastUsedTimestamp := net.timestamp }
  if c.state ≠ .connected then return (c, net.timestamp, [])
  else if len ≤ seg.dataOffset then return (c, net.timestamp, [])
  else do
    let (c, events, replies) ← c.transmit host packet len seg
    if replies then c.reply host 0 false net events
    else return (c, net.timestamp, events)

/-- `net_ip_tcp()`, from where the connection is known. -/
def input : Checked (TcpConnection × BitVec 64 × List TcpEvent) :=
  if seg.rst then do
    let (c, time, events) ← c.reply host 0 true net []
    return (c.close, time, events ++ [.closed])
  else if seg.ack ∧ c.state = .disconnected2 then do
    let (c, time, events) ← c.reply host 0 true net []
    return (c.close, time, events ++ [.closed])
  else if seg.fin ∧ c.state = .disconnected then do
    let (c, time, events) ← { c with state := .connected }.reply host 0 false net []
    return ({ c with state := .disconnected2 }, time, events)
  else if seg.fin then do
    let (c, _, events) ← c.reply host 0 false net []
    { c with state := .disconnected2 }.reply host 1 false net events
  else c.inputData net host packet len seg

end TcpConnection

namespace Gateway
variable (gw : Gateway) (nic : NicPtr) (packet : Frame) (seg : Segment) (host : Host)

def tcpNet : TcpNet := ⟨gw.gatewayEthernetAddr, gw.timestamp⟩

/-- The segment belongs to connection `i`. -/
def ownsSegment (i : Nat) : Bool :=
  let c := gw.tcpConnections i
  c.inUse && c.insideTcpPort == seg.srcport && c.outsideTcpPort == seg.dstport &&
    decide (c.insideIpAddress = Lib.Buf.block packet 26 4) && decide (c.outsideIpAddress = Lib.Buf.block packet 30 4)

/-- `con_id`. -/
def tcpConId : Option Nat := (List.range maxTcpConnections).find? (gw.ownsSegment packet seg)

/-- `free_con_id`, which is the last connection that is free. -/
def freeTcpConId : Option Nat := ((List.range maxTcpConnections).filter fun i => !(gw.tcpConnections i).inUse).getLast?

def setTcp (i : Nat) (c : TcpConnection) (time : BitVec 64) : Gateway :=
  { gw with tcpConnections := Function.update gw.tcpConnections i c, timestamp := time }

/-- A new outgoing connection, before socket() is called. -/
def newTcpConnection : Checked TcpConnection := do
  let ethernetAddress ← readBlock packet 6 6
  let insideIpAddress ← readBlock packet 26 4
  let outsideIpAddress ← readBlock packet 30 4
  return { TcpConnection.zero with
    ethernetAddress, insideIpAddress, outsideIpAddress
    insideTcpPort := seg.srcport
    outsideTcpPort := seg.dstport }

def connecting (c : TcpConnection) : TcpConnection :=
  { c with
    socket := host.socket
    inUse := true
    state := .tryingToConnect
    outsideAcknr := 0#32
    outsideSeqnr := ((host.random0 &&& 0xffff#32) <<< 16) + (host.random1 &&& 0xffff#32) }

/-- The part of net_ip_tcp() that works on connection `i`. -/
def inputTo (i : Nat) (c : TcpConnection) (events : List TcpEvent) (len : Nat) : Checked (Gateway × List Event) := do
  let payload := slice packet seg.dataOffset (len - seg.dataOffset)
  let (c, time, events') ← c.input gw.tcpNet host packet len seg
  return (gw.setTcp i c time, (events ++ .segment seg payload :: events').map (.tcp nic i))

def openTcp (len : Nat) : Checked (Gateway × List Event) :=
  match gw.freeTcpConId with
  | none => .ok (gw, [])
  | some i => do
    let c ← newTcpConnection packet seg
    if host.socket < 0 then return (gw.setTcp i { c with socket := host.socket } gw.timestamp, [])
    else gw.inputTo nic packet seg host i (connecting host c) [.opened] len

def netIpTcp (len : Nat) : Checked (Gateway × List Event) := do
  let header ← readBytes packet 34 20
  let seg := Segment.ofHeader header
  let tcpLen ← Lib.checkLength (len - 34)
  let srcaddr ← readBytes packet 26 4
  let dstaddr ← readBytes packet 30 4
  let sum ← netIpTcpChecksum (fun i => readByte packet (34 + i)) 16 tcpLen srcaddr dstaddr false
  if sum ≠ seg.checksum then return (gw, [])
  else
    match gw.tcpConId packet seg with
    | none => if seg.syn then gw.openTcp nic packet seg host len else return (gw, [])
    | some i => if seg.syn then return (gw, []) else gw.inputTo nic packet seg host i (gw.tcpConnections i) [] len

end Gateway

/-! ## Data from the outside world -/

/-- `errno` after select(). -/
inductive SelectErrno where
  | connrefused | timedout | other
  deriving DecidableEq

/-- What net_tcp_rx_avail() is given for a connection: the blocks of malloc(), the results of select() for writing
and for reading, and of read(). `overflow` is what a test of a difference gives that is no `int`. -/
structure RxHost where
  fresh : Nat → Nat → Byte
  writable : Int
  errno : SelectErrno
  overflow : Bool
  readable : Int
  read : Option (List Byte)

/-- `((int32_t)a - (int32_t)b) > 0`. -/
def differencePositive (overflow : Bool) (a b : BitVec 32) : Bool :=
  let d := a.toInt - b.toInt
  if -2147483648 ≤ d ∧ d ≤ 2147483647 then decide (0 < d) else overflow

namespace TcpConnection
variable (net : TcpNet) (host : RxHost) (c : TcpConnection)

/-- "Does this connection have unacknowledged data? Then, if enough number of rounds have passed, try to resend it
using the old value of seqnr." -/
def resend (events : List TcpEvent) : Checked (TcpConnection × BitVec 64 × List TcpEvent) := do
  let c := { c with incomingBufRounds := c.incomingBufRounds + 1 }
  if 10000 < c.incomingBufRounds then do
    let c := { c with incomingBufRounds := 0, outsideSeqnr := c.incomingBufSeqnr }
    let (c, frame) ← c.connectionreply net (host.fresh 1) false (c.incomingBuf.take c.incomingBufLen) false
    return (c, net.timestamp, events ++ [.queued frame])
  else return (c, net.timestamp, events)

/-- What has been read is put in `incoming_buf`, from where it can be sent again. -/
def putIncoming (buf : List Byte) : TcpConnection :=
  { c with
    incomingBufLen := buf.length
    incomingBufRounds := 0
    incomingBufSeqnr := c.outsideSeqnr
    incomingBuf := buf ++ c.incomingBuf.drop buf.length
    fits := by simp }

/-- The read() from the socket, of at most 1400 bytes. -/
def receive (events : List TcpEvent) : Checked (TcpConnection × BitVec 64 × List TcpEvent) := do
  let buf := (host.read.getD []).take 1400
  let c := if buf = [] then { c with state := .disconnected }
    else c.putIncoming buf
  let (c, frame) ← c.connectionreply net (host.fresh 1) false buf false
  let time := net.timestamp + 1#64
  return ({ c with lastUsedTimestamp := time }, time,
    events ++ (if buf = [] then [.queued frame] else [.read buf, .queued frame]))

/-- The body of the loop, from where the connection may have just been established. -/
def rxData (events : List TcpEvent) : Checked (TcpConnection × BitVec 64 × List TcpEvent) :=
  if c.state = .connected ∧ host.writable < 1 then .ok (c, net.timestamp, events)
  else if c.incomingBufLen ≠ 0 then c.resend net host events
  else if differencePositive host.overflow c.outsideSeqnr c.insideAcknr then .ok (c, net.timestamp, events)
  else if host.readable < 1 then .ok (c, net.timestamp, events)
  else c.receive net host events

def rxAvail : Checked (TcpConnection × BitVec 64 × List TcpEvent) :=
  if !c.inUse || decide (c.socket < 0) || c.state.isDisconnected then .ok (c, net.timestamp, [])
  else if host.errno = .connrefused ∨ host.errno = .timedout then
    .ok ({ c with state := .disconnected }, net.timestamp, [])
  else if c.state = .tryingToConnect ∧ 0 < host.writable then do
    let (c, frame) ← { c with state := .connected }.connectionreply net (host.fresh 0) true [] false
    c.rxData net host [.queued frame]
  else c.rxData net host []

end TcpConnection

namespace Gateway
variable (nic : NicPtr) (hosts : Nat → RxHost)

/-- One round of the loop. `received_packets_this_tick` stays 0. -/
def rxAvailAt (s : Gateway × List Event) (i : Nat) : Checked (Gateway × List Event) := do
  let (c, time, events) ← (s.1.tcpConnections i).rxAvail s.1.tcpNet (hosts i)
  return (s.1.setTcp i c time, s.2 ++ events.map (.tcp nic i))

def netTcpRxAvail (gw : Gateway) : Checked (Gateway × List Event) :=
  (List.range maxTcpConnections).foldlM (rxAvailAt nic hosts) (gw, [])

end Gateway

end Gxemul.Network
