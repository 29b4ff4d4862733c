import Gxemul.Network.Tcp

/- The replies of net_ip_tcp_connectionreply(): every one of them fits into its frame,
   and has the sequence numbers, the flags and the data of its connection. -/
namespace Gxemul.Network

open Lib
open Lib.Buf (byte write writeAll slice set setAll)

/-! ## The fields of a TCP frame -/

def frameSeqnr (frame : Frame) : BitVec 32 := BitVec.ofNat 32 (Lib.value true (slice frame 38 4))
def frameAcknr (frame : Frame) : BitVec 32 := BitVec.ofNat 32 (Lib.value true (slice frame 42 4))
def frameControl (frame : Frame) : Byte := byte frame 47
def frameSyn (frame : Frame) : Bool := (frameControl frame).getLsbD 1

def frameData (frame : Frame) : List Byte := frame.drop 74

section
variable {fresh : Nat → Byte} {reply : Frame} {ofs chksumoffset len : Nat} {udpflag : Bool}

/-! ## Checksums of replies -/

theorem replyChecksum_eq_write : ∃ sum : List Byte, sum.length = 2 ∧
    replyChecksum fresh reply ofs chksumoffset len = write reply (ofs + chksumoffset) sum := by
  obtain ⟨sum, h, -⟩ := @checksumWords_ok (fun i => replyByte fresh reply (ofs + i)) _ chksumoffset len 0 fun _ _ => rfl
  refine ⟨checksumBytes sum, length_checksumBytes sum, ?_⟩
  unfold replyChecksum netIpChecksum
  rw [h]
  rfl

theorem replyTcpChecksum_eq_write : ∃ sum : List Byte, sum.length = 2 ∧
    replyTcpChecksum fresh reply chksumoffset len udpflag = write reply (34 + chksumoffset) sum := by
  obtain ⟨sum, h, -⟩ := @netIpTcpChecksum_ok (fun i => replyByte fresh reply (34 + i)) _ chksumoffset len
    (slice reply 26 4) (slice reply 30 4) udpflag fun _ _ => rfl
  refine ⟨sum, length_netIpTcpChecksum h, ?_⟩
  unfold replyTcpChecksum
  rw [h]
  rfl

end

namespace TcpConnection
variable {net : TcpNet} {fresh : Nat → Byte} {c : TcpConnection} {connecting rst : Bool} {data : List Byte}

/-! ## net_ip_tcp_connectionreply() -/

def replied (c : TcpConnection) (connecting : Bool) (n : Nat) : TcpConnection :=
  { c with
    outsideAcknr := if connecting then c.insideSeqnr + 1#32 else c.outsideAcknr
    tcpId := c.tcpId + 1
    outsideSeqnr := c.outsideSeqnr + BitVec.ofNat 32 n + if connecting then 1#32 else 0#32 }

def replying (c : TcpConnection) (connecting : Bool) : TcpConnection :=
  { c with
    outsideAcknr := if connecting then c.insideSeqnr + 1#32 else c.outsideAcknr
    tcpId := c.tcpId + 1 }

structure ReplyIs (frame : Frame) (seqnr acknr : BitVec 32) (control : Byte) (data : List Byte) : Prop where
  seqnr : frameSeqnr frame = seqnr
  acknr : frameAcknr frame = acknr
  control : frameControl frame = control
  data : frameData frame = data

theorem replyIpHeader_fits {ipLen : Nat} : ∀ w ∈ c.replyIpHeader net ipLen, w.1 + w.2.length ≤ 34 := by
  simp [replyIpHeader]

theorem replyTcpHeader_fits : ∀ w ∈ c.replyTcpHeader net connecting rst, w.1 + w.2.length ≤ 74 := by
  simp [replyTcpHeader]

theorem slice_replyTcpHeader {buf : List Byte} (h : 74 ≤ buf.length) :
    slice (setAll buf (c.replyTcpHeader net connecting rst)) 38 4 = Lib.bytes true 4 c.outsideSeqnr.toNat ∧
      slice (setAll buf (c.replyTcpHeader net connecting rst)) 42 4 = Lib.bytes true 4 c.outsideAcknr.toNat ∧
      slice (setAll buf (c.replyTcpHeader net connecting rst)) 47 1 = [c.control connecting rst] := by
  have hfits : ∀ w ∈ c.replyTcpHeader net connecting rst, w.1 + w.2.length ≤ buf.length := fun w hw =>
    Nat.le_trans (replyTcpHeader_fits w hw) h
  refine ⟨?_, ?_, ?_⟩
  · have hs := Buf.slice_setAll_at (w := (38, Lib.bytes true 4 c.outsideSeqnr.toNat)) 2 rfl hfits
      (by simp [replyTcpHeader])
    rwa [length_bytes] at hs
  · have hs := Buf.slice_setAll_at (w := (42, Lib.bytes true 4 c.outsideAcknr.toNat)) 3 rfl hfits
      (by simp [replyTcpHeader])
    rwa [length_bytes] at hs
  · exact Buf.slice_setAll_at (w := (47, [c.control connecting rst])) 5 rfl hfits (by simp [replyTcpHeader])

theorem ofNat_value_bytes (x : BitVec 32) : BitVec.ofNat 32 (Lib.value true (Lib.bytes true 4 x.toNat)) = x := by
  have hlt : x.toNat < 256 ^ 4 := x.isLt
  rw [value_bytes, Nat.mod_eq_of_lt hlt, BitVec.ofNat_toNat, BitVec.setWidth_eq]

theorem connectionreply_eq : c.connectionreply net fresh connecting data rst = (do
    let reply ← writeAll (newFrame fresh (74 + data.length)) ((c.replying connecting).replyIpHeader net (60 + data.length))
    let reply ← replyChecksum fresh reply 14 10 20
    let reply ← writeAll reply ((c.replying connecting).replyTcpHeader net connecting rst)
    let reply ← write reply 74 data
    let reply ← replyTcpChecksum fresh reply 16 (40 + data.length) false
    return (c.replied connecting data.length, reply)) := by
  have htcp : 20 + 20 + data.length = 40 + data.length := by omega
  have hip : 20 + (40 + data.length) = 60 + data.length := by omega
  have hframe : 14 + (60 + data.length) = 74 + data.length := by omega
  unfold connectionreply
  cases connecting <;>
  · dsimp only [Bool.false_eq_true, if_false, if_true]
    rw [htcp, hip, hframe]
    simp [replied, replying]

theorem connectionreply_ok : ∃ frame, c.connectionreply net fresh connecting data rst =
    .ok (c.replied connecting data.length, frame) ∧
      ReplyIs frame c.outsideSeqnr (c.replied connecting data.length).outsideAcknr (c.control connecting rst) data := by
  obtain ⟨c', hc'⟩ : ∃ c', c' = c.replying connecting := ⟨_, rfl⟩
  have hlen0 : (newFrame fresh (74 + data.length)).length = 74 + data.length := length_newFrame fresh _
  obtain ⟨frame1, hw1, hlen1⟩ : ∃ f, writeAll (newFrame fresh (74 + data.length))
      (c'.replyIpHeader net (60 + data.length)) = .ok f ∧ f.length = 74 + data.length := by
    have hfits : ∀ w ∈ c'.replyIpHeader net (60 + data.length),
        w.1 + w.2.length ≤ (newFrame fresh (74 + data.length)).length := by
      intro w hw
      have hfit := @replyIpHeader_fits net c' (60 + data.length) w hw
      omega
    obtain ⟨hw, hlen⟩ := Buf.writeAll_of_le hfits
    exact ⟨_, hw, hlen.trans hlen0⟩
  obtain ⟨sum, hsum, hck⟩ := @replyChecksum_eq_write fresh frame1 14 10 20
  have hb1 : 24 + sum.length ≤ frame1.length := by omega
  have hlen2 := Buf.length_set hb1
  obtain ⟨frame3, hf3⟩ : ∃ f, f = setAll (set frame1 24 sum) (c'.replyTcpHeader net connecting rst) := ⟨_, rfl⟩
  have hfits3 : ∀ w ∈ c'.replyTcpHeader net connecting rst, w.1 + w.2.length ≤ (set frame1 24 sum).length := by
    intro w hw
    have hfit := @replyTcpHeader_fits net c' connecting rst w hw
    omega
  obtain ⟨hw3, hlen3⟩ := Buf.writeAll_of_le hfits3
  rw [← hf3] at hw3 hlen3
  have hb3 : 74 + data.length ≤ frame3.length := by omega
  have hlen4 := Buf.length_set hb3
  obtain ⟨sum', hsum', htck⟩ := @replyTcpChecksum_eq_write fresh (set frame3 74 data) 16 (40 + data.length) false
  have hb4 : 50 + sum'.length ≤ (set frame3 74 data).length := by omega
  refine ⟨set (set frame3 74 data) 50 sum', ?_, ?_⟩
  · rw [connectionreply_eq, ← hc', hw1]
    show replyChecksum fresh frame1 14 10 20 >>= _ = _
    rw [hck, Buf.write_of_le hb1]
    show writeAll _ (c'.replyTcpHeader net _ rst) >>= _ = _
    rw [hw3]
    show write frame3 74 data >>= _ = _
    rw [Buf.write_of_le hb3]
    show replyTcpChecksum fresh (set frame3 74 data) 16 (40 + data.length) false >>= _ = _
    rw [htck, Buf.write_of_le hb4]
    rfl
  · obtain ⟨hseq, hack, hctl⟩ := @slice_replyTcpHeader net c' connecting rst (set frame1 24 sum) (by omega)
    rw [← hf3, hc'] at hseq hack hctl
    have hother : ∀ j k, j + k ≤ 50 → slice (set (set frame3 74 data) 50 sum') j k = slice frame3 j k := by
      intro j k hjk
      rw [Buf.slice_set_other hb4 (.inl hjk), Buf.slice_set_other hb3 (.inl (by omega))]
    refine ⟨?_, ?_, ?_, ?_⟩
    · unfold frameSeqnr
      rw [hother 38 4 (by decide), hseq]
      exact ofNat_value_bytes c.outsideSeqnr
    · unfold frameAcknr
      rw [hother 42 4 (by decide), hack]
      exact ofNat_value_bytes _
    · have hbyte := congrArg (fun l => byte l 0) ((hother 47 1 (by decide)).trans hctl)
      simp only [Buf.byte_slice] at hbyte
      exact hbyte
    · have hdata : slice (set (set frame3 74 data) 50 sum') 74 data.length = data := by
        rw [Buf.slice_set_other hb4 (.inr (by omega))]
        exact Buf.slice_set_same hb3
      unfold slice at hdata
      rwa [List.take_of_length_le] at hdata
      rw [List.length_drop, Buf.length_set hb4, hlen4]
      omega

section
variable {host : Host}

theorem reply_ok {k : Nat} {rst : Bool} {events : List TcpEvent} : ∃ frame,
    c.reply host k rst net events = .ok (c.replied false 0, net.timestamp, events ++ [.queued frame]) ∧
      ReplyIs frame c.outsideSeqnr c.outsideAcknr (c.control false rst) [] := by
  obtain ⟨frame, h, hreply⟩ := @connectionreply_ok net (host.fresh k) c false rst []
  refine ⟨frame, ?_, hreply⟩
  unfold reply
  rw [h]
  rfl

end

end TcpConnection

end Gxemul.Network
