import Gxemul.Network.Tcp

/- What the gateway does with a frame of the guest: net_ethernet_tx() and net_arp() in
   `src/net/net.c`, net_ip() and what it calls in `src/net/net_ip.c`.

   A handler is given the frame, which may be longer than the length that it is given.
   Debug messages are left out, but not what is read for them. -/
namespace Gxemul.Network
open Lib (Byte Block Checked)
open Lib.Buf (byte readByte readBytes readBlock write writeAll slice)

def ethertypeIp : Nat := 0x0800
def ethertypeArp : Nat := 0x0806
def ethertypeRevarp : Nat := 0x8035

/-- The bytes from `i` to the end of a packet of `len` bytes, if there are any. -/
def readFrom (packet : Frame) (i len : Nat) : Checked (List Byte) :=
  if i < len then readBytes packet i (len - i) else .ok []

def dumpIp (verbose : Bool) (packet : Frame) (len : Nat) : Checked Unit :=
  if verbose then do
    let _ ← readBytes packet 14 20
    let _ ← readFrom packet 34 len
    return ()
  else return ()

/-- "Cut off overflowing tail data". -/
def cutLen (packet : Frame) (len : Nat) : Checked Nat := do
  let hi ← readByte packet 16
  let lo ← readByte packet 17
  return min len (14 + hi.toNat * 256 + lo.toNat)

namespace Gateway
variable (gw : Gateway) (nic : NicPtr) (host : Host) (packet : Frame) (len : Nat)

/-! ## ARP -/

def arpReply : Checked Frame := do
  let reply ← write (List.replicate 74 0#8) 14 packet
  let sender := slice reply 22 10
  writeAll reply [(0, sender.take 6), (6, gw.gatewayEthernetAddr.1), (12, [0x08#8, 0x06#8]), (32, sender),
    (22, gw.gatewayEthernetAddr.1), (28, gw.gatewayIpv4Addr.1), (20, [0x00#8, 0x02#8])]

/-- The answer to a RARP request. The IP address is made from the last byte of the Ethernet address. -/
def rarpReply : Checked Frame := do
  let reply ← write (List.replicate 74 0#8) 14 packet
  let mac ← readBytes packet 8 6
  let last ← readByte packet 13
  writeAll reply [(0, mac), (6, gw.gatewayEthernetAddr.1), (12, [0x80#8, 0x35#8]), (20, [0x00#8, 0x04#8]),
    (22, gw.gatewayEthernetAddr.1), (28, gw.gatewayIpv4Addr.1), (32, mac), (38, [10#8, 0#8, 0#8, last >>> 4])]

/-- `net_arp()`. `packet` is what follows the Ethernet header. -/
def netArp : Checked (List Event) := do
  let _ ← readBytes packet 0 28
  let header ← readBytes packet 0 6
  if header = [0x00#8, 0x01#8, 0x08#8, 0x00#8, 0x06#8, 0x04#8] then do
    let r ← readBytes packet 6 2
    if Lib.value true r = 1 then do
      let target ← readBytes packet 24 4
      if target = gw.gatewayIpv4Addr.1 then do
        let reply ← gw.arpReply packet
        return [.queued nic reply]
      else return []
    else if Lib.value true r = 3 then do
      let reply ← gw.rarpReply packet
      return [.queued nic reply]
    else return []
  else return []

/-! ## ICMP -/

def echoReply : Checked Frame := do
  let tailLen ← Lib.checkLength (len - 12)
  let tail ← readBytes packet 12 tailLen
  let reply ← write (newFrame (host.fresh 0) len) 12 tail
  let ether ← readBytes packet 0 12
  let addrs ← readBytes packet 26 8
  let reply ← writeAll reply [(0, slice ether 6 6), (6, slice ether 0 6), (26, slice addrs 4 4), (30, slice addrs 0 4),
    (34, [0x00#8]), (22, [2#8])]
  let icmpLen ← Lib.checkLength (len - 34)
  let reply ← replyChecksum (host.fresh 0) reply 34 2 icmpLen
  replyChecksum (host.fresh 0) reply 14 10 20

def netIpIcmp : Checked (List Event) := do
  let type ← readByte packet 34
  if type = 8#8 then do
    let reply ← echoReply host packet len
    return [.queued nic reply]
  else return []

/-! ## UDP -/

/-- The datagram belongs to connection `i`. -/
def ownsDatagram (srcport dstport : Nat) (i : Nat) : Bool :=
  let c := gw.udpConnections i
  c.inUse && c.insideUdpPort == srcport && c.outsideUdpPort == dstport &&
    decide (c.insideIpAddress = Lib.Buf.block packet 26 4) && decide (c.outsideIpAddress = Lib.Buf.block packet 30 4)

def udpConId (srcport dstport : Nat) : Option Nat :=
  (List.range maxUdpConnections).find? (gw.ownsDatagram packet srcport dstport)

def oldestUdpConId : Nat :=
  (List.range maxUdpConnections).foldl (fun oldest j =>
    if (gw.udpConnections j).lastUsedTimestamp.slt (gw.udpConnections oldest).lastUsedTimestamp then j else oldest) 0

def freeUdpConId : Nat :=
  (((List.range maxUdpConnections).filter fun i => !(gw.udpConnections i).inUse).getLast?).getD gw.oldestUdpConId

def setUdp (i : Nat) (c : UdpConnection) : Gateway := { gw with udpConnections := Function.update gw.udpConnections i c }

def newUdpConnection (srcport dstport : Nat) : Checked UdpConnection := do
  let ethernetAddress ← readBlock packet 6 6
  let insideIpAddress ← readBlock packet 26 4
  let outsideIpAddress ← readBlock packet 30 4
  return { UdpConnection.zero with
    ethernetAddress, insideIpAddress, outsideIpAddress
    insideUdpPort := srcport
    outsideUdpPort := dstport
    socket := host.socket
    inUse := decide (0 ≤ host.socket) }

def sendDatagram (i : Nat) (c : UdpConnection) : Checked (Gateway × List Event) := do
  let time := gw.timestamp + 1#64
  let toNameserver := gw.nameserverKnown && decide (c.outsideIpAddress = gw.gatewayIpv4Addr)
  let c := { c with lastUsedTimestamp := time, fakeNs := c.fakeNs || toNameserver }
  let n ← Lib.checkLength (len - 42)
  let data ← readBytes packet 42 n
  return ({ gw.setUdp i c with timestamp := time },
    [.sent i (if toNameserver then gw.nameserverIpv4 else c.outsideIpAddress) data])

def netIpUdp : Checked (Gateway × List Event) := do
  let ofs ← readByte packet 20
  if ofs &&& 0x3f#8 ≠ 0#8 then return (gw, [])
  else do
    let ports ← readBytes packet 34 6
    let srcport := Lib.value true (slice ports 0 2)
    let dstport := Lib.value true (slice ports 2 2)
    let _ ← readFrom packet 42 len
    match gw.udpConId packet srcport dstport with
    | some i => gw.sendDatagram packet len i (gw.udpConnections i)
    | none => do
      let c ← newUdpConnection host packet srcport dstport
      if host.socket < 0 then return (gw.setUdp gw.freeUdpConId c, [])
      else gw.sendDatagram packet len gw.freeUdpConId c

/-! ## IP -/

def netIp : Checked (Gateway × List Event) := do
  dumpIp host.verbose packet len
  let len ← cutLen packet len
  let version ← readByte packet 14
  if version = 0x45#8 then do
    let p ← readByte packet 23
    if p = 1#8 then do
      let events ← netIpIcmp nic host packet len
      return (gw, events)
    else if p = 6#8 then gw.netIpTcp nic packet host len
    else if p = 17#8 then gw.netIpUdp host packet len
    else return (gw, [])
  else return (gw, [])

/-! ## Broadcasts -/

def dhcpHeader (mac ports : List Byte) : List (Nat × List Byte) :=
  [(0, mac), (6, gw.gatewayEthernetAddr.1), (16, Lib.bytes true 2 293), (26, gw.gatewayIpv4Addr.1),
    (30, [0xff#8, 0xff#8, 0xff#8, 0xff#8]), (34, slice ports 2 2), (36, slice ports 0 2), (38, Lib.bytes true 2 273),
    (58, [10#8, 0#8, 0#8, 1#8]), (66, gw.gatewayIpv4Addr.1), (42, [0x02#8]),
    (150, [0x67#8, 0x78#8, 0x65#8, 0x6d#8, 0x75#8, 0x6c#8, 0#8])]

def dhcpOptions : List (Nat × List Byte) :=
  [(278, [99#8, 130#8, 83#8, 99#8]), (282, [1#8, 4#8, 255#8, 0#8, 0#8, 0#8]), (288, [3#8, 4#8]),
    (290, gw.gatewayIpv4Addr.1), (294, [6#8, 4#8]), (296, gw.gatewayIpv4Addr.1), (300, [54#8, 4#8]),
    (302, gw.gatewayIpv4Addr.1), (306, [255#8])]

/-- `net_ip_broadcast_dhcp()`. The reply has 307 bytes. -/
def netIpBroadcastDhcp : Checked (List Event) := do
  dumpIp host.verbose packet len
  if len < 34 + 8 + 236 then return []
  else do
    let old ← readBytes packet 0 278
    let reply ← write (newFrame (host.fresh 0) 307) 0 old
    let mac ← readBytes packet 6 6
    let ports ← readBytes packet 34 4
    let reply ← writeAll reply (gw.dhcpHeader mac ports)
    let reply ← writeAll reply gw.dhcpOptions
    let reply ← replyChecksum (host.fresh 0) reply 14 10 20
    let reply ← replyTcpChecksum (host.fresh 0) reply 6 273 true
    return [.queued nic reply]

def bytesMatch : List (Nat × Byte) → Checked Bool
  | [] => .ok true
  | (i, b) :: tests => do
    let b' ← readByte packet i
    if b' = b then bytesMatch tests else return false

def dhcpTests : List (Nat × Byte) := [(14, 0x45#8), (23, 0x11#8), (34, 0#8), (35, 68#8), (36, 0#8), (37, 67#8)]

/-- "NetBSD seems to send this during shutdown". -/
def ipxTests : List (Nat × Byte) := [(14, 0x45#8), (23, 0x11#8), (34, 0xff#8), (35, 0xff#8), (36, 0x00#8), (37, 0x6f#8)]

/-- `net_ip_broadcast()`. The destination address is only looked at for a warning. -/
def netIpBroadcast : Checked (List Event) := do
  dumpIp host.verbose packet len
  let _ ← readBytes packet 30 4
  let len ← cutLen packet len
  let isDhcp ← bytesMatch packet dhcpTests
  if isDhcp then gw.netIpBroadcastDhcp nic host packet len
  else do
    let isIpx ← bytesMatch packet ipxTests
    if isIpx then return []
    else do
      dumpIp host.verboseErrors packet len
      return []

/-! ## Ethernet -/

/-- What happens to a frame that is not for the gateway alone: all other NICs get it, and the other processes. -/
def forward : List Event :=
  (if nic ≠ none then (gw.nics.filter fun other => decide (nic ≠ some other)).map fun other => .queued (some other) packet
    else []) ++ if gw.remoteNets then [.distributed packet] else []

def handleFrame (forTheGateway : Bool) : Checked (Gateway × List Event) := do
  let type ← readBytes packet 12 2
  if Lib.value true type = ethertypeIp then
    if forTheGateway then gw.netIp nic host packet packet.length
    else if packet.take 6 = List.replicate 6 0xff#8 then do
      let events ← gw.netIpBroadcast nic host packet packet.length
      return (gw, events)
    else return (gw, [])
  else if Lib.value true type = ethertypeArp ∨ Lib.value true type = ethertypeRevarp then do
    let events ← gw.netArp nic (packet.drop 14)
    return (gw, events)
  else return (gw, [])

/-- `net_ethernet_tx()`, without a tap device. -/
def netEthernetTx : Checked (Gateway × List Event) := do
  if packet.length < 20 then return (gw, [])
  else do
    let dst ← readBytes packet 0 6
    let forTheGateway := decide (dst = gw.gatewayEthernetAddr.1)
    let forwarded := if forTheGateway then [] else gw.forward nic packet
    if !forTheGateway && byte dst 0 != 0xff#8 && !(byte dst 0 == 0x00#8 && byte dst 5 == 0x00#8) then
      return (gw, forwarded)
    else do
      let (gw, events) ← gw.handleFrame nic host packet forTheGateway
      return (gw, forwarded ++ events)

end Gateway

end Gxemul.Network
