import Gxemul.Lib.OnesSum
import Gxemul.Network.FrameBounds
import Gxemul.Network.UdpFragments

/- The frames that the gateway makes itself: their checksums, and what they depend on.

   A new frame is a block of malloc(), with anything in it. What its bytes are must not
   matter, which is so if all of them are written before they are used. A checksum is the
   complement of the sum of all other words, so that all words have the sum 0xffff. -/
namespace Gxemul.Network

open Lib Lib.Buf

/-! ## Checksums of frames -/

def ipSum (frame : Frame) : Nat := onesSum (slice frame 14 20)

def icmpSum (frame : Frame) : Nat := onesSum (slice frame 34 (frame.length - 34))

def tcpSum (frame : Frame) (udpflag : Bool) : Nat :=
  onesSum (pseudoh (frame.length - 34) (slice frame 26 4) (slice frame 30 4) udpflag ++ slice frame 34 (frame.length - 34))

section
variable {f : Nat → Byte} {fresh : Nat → Byte} {reply : Frame} {ofs j len n sum : Nat} {udpflag : Bool}

theorem addWord_eq {w : Nat} (hsum : sum ≤ 65535) (hw : w ≤ 65535) : addWord sum w = Lib.onesAdd sum w := by
  simp only [addWord, foldCarry, Lib.onesAdd]
  by_cases hcarry : 65535 < sum + w
  · rw [if_pos hcarry, if_pos hcarry, if_neg (by omega)]
    omega
  · rw [if_neg hcarry, if_neg hcarry]

def otherWords (f : Nat → Byte) (j len : Nat) : Nat :=
  ((List.range ((len + 1) / 2)).map fun k => if k = j then 0 else wordAt f k).sum

theorem checksumWords_eq (f : Nat → Byte) (j len n : Nat) :
    checksumWords (fun i => .ok (f i)) (2 * j) len (onesFold n) = .ok (onesFold (n + otherWords f j len)) := by
  unfold checksumWords otherWords
  generalize List.range ((len + 1) / 2) = l
  induction l generalizing n with
  | nil => rfl
  | cons k l ih =>
    have hword : checksumWord (fun i => .ok (f i)) (2 * j) (onesFold n) k =
        .ok (onesFold (n + if k = j then 0 else wordAt f k)) := by
      unfold checksumWord
      by_cases hk : k = j
      · rw [if_pos (by omega), if_pos hk, Nat.add_zero]
      · rw [if_neg (by omega), if_neg hk]
        change Except.ok (addWord (onesFold n) (wordAt f k)) = _
        rw [addWord_eq (onesFold_le n) (wordAt_le f k), onesAdd_onesFold (wordAt_le f k)]
    rw [List.foldlM_cons, hword]
    change l.foldlM (checksumWord _ _) _ = _
    rw [ih, List.map_cons, List.sum_cons, Nat.add_assoc]

/-! ## They verify -/

theorem value_checksumBytes (hsum : sum ≤ 65535) : Lib.value true (checksumBytes sum) = 65535 - sum := by
  have hxor : sum ^^^ 0xffff = 65535 - sum := by
    have hbits := congrArg BitVec.toNat (BitVec.xor_allOnes (x := BitVec.ofNat 16 sum))
    rw [BitVec.toNat_xor, BitVec.toNat_not, BitVec.toNat_ofNat, Nat.mod_eq_of_lt (by omega)] at hbits
    exact hbits
  unfold checksumBytes
  rw [value_bytes, hxor]
  exact Nat.mod_eq_of_lt (by omega)

theorem sum_words_set (hsum : sum ≤ 65535) (hj : 2 * j + 2 ≤ len) (hlen : ofs + len ≤ reply.length) :
    (Lib.words16 (slice (set reply (ofs + 2 * j) (checksumBytes sum)) ofs len)).sum =
      (65535 - sum) + otherWords (byte (slice reply ofs len)) j len := by
  have hfits : ofs + 2 * j + (checksumBytes sum).length ≤ reply.length := by
    rw [length_checksumBytes]
    omega
  have hslice : (slice (set reply (ofs + 2 * j) (checksumBytes sum)) ofs len).length = len := by
    apply length_slice
    rw [length_set hfits]
    exact hlen
  rw [words16_eq, hslice, sum_range_split _ (show j < (len + 1) / 2 by omega)]
  have hfield : wordAt (byte (slice (set reply (ofs + 2 * j) (checksumBytes sum)) ofs len)) j = 65535 - sum := by
    have hvalue := @Buf.value_slice (slice (set reply (ofs + 2 * j) (checksumBytes sum)) ofs len) (2 * j) (by omega)
    have hsame := slice_set_same hfits
    rw [length_checksumBytes] at hsame
    rw [slice_slice hj, hsame, value_checksumBytes hsum] at hvalue
    exact hvalue.symm
  have hothers : ∀ k, (if k = j then 0 else
      wordAt (byte (slice (set reply (ofs + 2 * j) (checksumBytes sum)) ofs len)) k) =
      if k = j then 0 else wordAt (byte (slice reply ofs len)) k := by
    intro k
    by_cases hkj : k = j
    · rw [if_pos hkj, if_pos hkj]
    · have hbyte : ∀ i, i ≠ 2 * j → i ≠ 2 * j + 1 →
          byte (slice (set reply (ofs + 2 * j) (checksumBytes sum)) ofs len) i = byte (slice reply ofs len) i := by
        intro i hi1 hi2
        rw [byte_slice, byte_slice]
        split
        · rw [byte_set hfits, length_checksumBytes, if_neg (by omega)]
        · rfl
      rw [if_neg hkj, if_neg hkj]
      unfold wordAt
      rw [hbyte (2 * k) (by omega) (by omega), hbyte (2 * k + 1) (by omega) (by omega)]
  rw [hfield, List.map_congr_left fun k _ => hothers k]
  rfl

theorem otherWords_congr {g : Nat → Byte}
    (h : ∀ i, i < 2 * ((len + 1) / 2) → i ≠ 2 * j → i ≠ 2 * j + 1 → f i = g i) : otherWords f j len = otherWords g j len := by
  apply congrArg List.sum
  apply List.map_congr_left
  intro k hk
  have hk := List.mem_range.mp hk
  by_cases hkj : k = j
  · rw [if_pos hkj, if_pos hkj]
  · rw [if_neg hkj, if_neg hkj]
    unfold wordAt
    rw [h (2 * k) (by omega) (by omega) (by omega), h (2 * k + 1) (by omega) (by omega) (by omega)]

theorem replyChecksum_eq (fresh : Nat → Byte) (reply : Frame) (ofs j len : Nat) :
    replyChecksum fresh reply ofs (2 * j) len = write reply (ofs + 2 * j) (checksumBytes (onesFold (otherWords
      (fun i => if ofs + i < reply.length then byte reply (ofs + i) else fresh (ofs + i)) j len))) := by
  have hwords := checksumWords_eq
    (fun i => if ofs + i < reply.length then byte reply (ofs + i) else fresh (ofs + i)) j len 0
  rw [Nat.zero_add] at hwords
  change (checksumWords _ (2 * j) len (onesFold 0) >>= _) >>= _ = _
  unfold replyByte
  rw [hwords]
  rfl

theorem replyChecksum_sum (reply : Frame) (ofs j len : Nat) (hj : 2 * j + 2 ≤ len) (heven : len % 2 = 0) (hlen : ofs + len ≤ reply.length) :
    ∃ sum : List Byte, sum.length = 2 ∧
      (∀ reply', Agree (fun i => ofs ≤ i ∧ i < ofs + len ∧ i ≠ ofs + 2 * j ∧ i ≠ ofs + 2 * j + 1) reply reply' →
        ∀ fresh, replyChecksum fresh reply' ofs (2 * j) len = .ok (set reply' (ofs + 2 * j) sum)) ∧
      onesSum (slice (set reply (ofs + 2 * j) sum) ofs len) = 65535 := by
  obtain ⟨n, hn⟩ : ∃ n, n = otherWords (byte (slice reply ofs len)) j len := ⟨_, rfl⟩
  refine ⟨checksumBytes (onesFold n), length_checksumBytes _, ?_, ?_⟩
  · intro reply' hagree fresh
    have hlen' : ofs + len ≤ reply'.length := by
      rw [← hagree.length]
      exact hlen
    have hwords : otherWords
        (fun i => if ofs + i < reply'.length then byte reply' (ofs + i) else fresh (ofs + i)) j len = n := by
      rw [hn]
      apply otherWords_congr
      intro i hi hi1 hi2
      rw [if_pos (by omega), byte_slice, if_pos (by omega)]
      exact (hagree.byte (ofs + i) ⟨by omega, by omega, by omega, by omega⟩).symm
    rw [replyChecksum_eq, hwords]
    apply write_of_le
    rw [length_checksumBytes]
    omega
  · rw [onesSum_eq, sum_words_set (onesFold_le n) hj hlen, ← hn, Nat.add_comm]
    exact onesFold_complement n

theorem length_pseudoh {srcaddr dstaddr : List Byte} (hsrc : srcaddr.length = 4) (hdst : dstaddr.length = 4) :
    (pseudoh len srcaddr dstaddr udpflag).length = 12 := by
  simp [pseudoh, hsrc, hdst]

theorem replyTcpChecksum_eq (hlen : 34 + len ≤ reply.length) :
    replyTcpChecksum fresh reply (2 * j) len udpflag = write reply (34 + 2 * j) (checksumBytes (onesFold
      ((Lib.words16 (pseudoh len (slice reply 26 4) (slice reply 30 4) udpflag)).sum +
        otherWords (byte (slice reply 34 len)) j len))) := by
  have hpseudo := checksumWords_eq (byte (pseudoh len (slice reply 26 4) (slice reply 30 4) udpflag)) 6 12 0
  have hsum : otherWords (byte (pseudoh len (slice reply 26 4) (slice reply 30 4) udpflag)) 6 12 =
      (Lib.words16 (pseudoh len (slice reply 26 4) (slice reply 30 4) udpflag)).sum := by
    rw [words16_eq, length_pseudoh (length_slice (by omega)) (length_slice (by omega))]
    apply congrArg List.sum
    apply List.map_congr_left
    intro k hk
    have hk := List.mem_range.mp hk
    exact if_neg (by omega)
  rw [Nat.zero_add, hsum] at hpseudo
  have hpad : (fun i => if i < len then replyByte fresh reply (34 + i) else .ok 0#8) =
      fun i => (.ok (byte (slice reply 34 len) i) : Checked Byte) := by
    funext i
    rw [byte_slice]
    by_cases hi : i < len
    · rw [if_pos hi, if_pos hi]
      unfold replyByte
      rw [if_pos (by omega)]
    · rw [if_neg hi, if_neg hi]
  unfold replyTcpChecksum netIpTcpChecksum
  rw [hpad]
  change (checksumWords _ (2 * 6) 12 (onesFold 0) >>= _) >>= _ = _
  rw [hpseudo]
  change (checksumWords _ (2 * j) len _ >>= _) >>= _ = _
  rw [checksumWords_eq]
  rfl

def uncheckedSum (reply : Frame) (j len : Nat) (udpflag : Bool) : Nat :=
  onesSum (pseudoh len (slice reply 26 4) (slice reply 30 4) udpflag ++
    slice (set reply (34 + 2 * j) [0#8, 0#8]) 34 len)

theorem pseudoh_even (hlen : 34 ≤ reply.length) :
    (pseudoh len (slice reply 26 4) (slice reply 30 4) udpflag).length % 2 = 0 := by
  rw [length_pseudoh (length_slice (by omega)) (length_slice (by omega))]

theorem uncheckedSum_eq (hj : 2 * j + 2 ≤ len) (hlen : 34 + len ≤ reply.length) : uncheckedSum reply j len udpflag =
    onesFold ((Lib.words16 (pseudoh len (slice reply 26 4) (slice reply 30 4) udpflag)).sum +
      otherWords (byte (slice reply 34 len)) j len) := by
  have hzero : [0#8, 0#8] = checksumBytes 65535 := by decide
  unfold uncheckedSum
  rw [onesSum_eq, words16_append (pseudoh_even (by omega)), List.sum_append, hzero,
    sum_words_set (Nat.le_refl _) hj hlen, Nat.sub_self, Nat.zero_add]

theorem replyTcpChecksum_sum (reply : Frame) (j len : Nat) (udpflag : Bool) (hj : 2 * j + 2 ≤ len)
    (hlen : 34 + len ≤ reply.length) : ∃ sum : List Byte, sum = checksumBytes (uncheckedSum reply j len udpflag) ∧
      (∀ fresh, replyTcpChecksum fresh reply (2 * j) len udpflag = .ok (set reply (34 + 2 * j) sum)) ∧
      onesSum (pseudoh len (slice (set reply (34 + 2 * j) sum) 26 4) (slice (set reply (34 + 2 * j) sum) 30 4) udpflag ++
        slice (set reply (34 + 2 * j) sum) 34 len) = 65535 := by
  obtain ⟨m, hm⟩ : ∃ m, m = (Lib.words16 (pseudoh len (slice reply 26 4) (slice reply 30 4) udpflag)).sum := ⟨_, rfl⟩
  obtain ⟨n, hn⟩ : ∃ n, n = otherWords (byte (slice reply 34 len)) j len := ⟨_, rfl⟩
  have hfits : 34 + 2 * j + (checksumBytes (onesFold (m + n))).length ≤ reply.length := by
    rw [length_checksumBytes]
    omega
  refine ⟨checksumBytes (onesFold (m + n)), by rw [uncheckedSum_eq hj hlen, ← hm, ← hn], ?_, ?_⟩
  · intro fresh
    rw [replyTcpChecksum_eq hlen, ← hm, ← hn]
    exact write_of_le hfits
  · rw [slice_set_other hfits (by omega), slice_set_other hfits (by omega), onesSum_eq,
      words16_append (pseudoh_even (by omega)), List.sum_append, sum_words_set (onesFold_le (m + n)) hj hlen, ← hm, ← hn]
    have hcomplement := onesFold_complement (m + n)
    rwa [show m + n + (65535 - onesFold (m + n)) = m + (65535 - onesFold (m + n) + n) by omega] at hcomplement

end

/-! ## Frames before their checksums -/

/-- The packet that a handler is given: the first `len` bytes of a frame, with an Ethernet header. -/
structure Packet where
  frame : Frame
  len : Nat
  header : 14 ≤ len
  fits : len ≤ frame.length

def Packet.echoWrites (packet : Packet) : List (Nat × List Byte) :=
  [(0, slice (slice packet.frame 0 12) 6 6), (6, slice (slice packet.frame 0 12) 0 6),
    (26, slice (slice packet.frame 26 8) 4 4), (30, slice (slice packet.frame 26 8) 0 4), (34, [0x00#8]), (22, [2#8])]

def Packet.echoCopy (packet : Packet) (fresh : Nat → Byte) : Frame :=
  setAll (set (newFrame fresh packet.len) 12 (slice packet.frame 12 (packet.len - 12))) packet.echoWrites

def Packet.dhcpCopy (packet : Packet) (gw : Gateway) (fresh : Nat → Byte) : Frame :=
  setAll (set (newFrame fresh 307) 0 (slice packet.frame 0 278))
    (gw.dhcpHeader (slice packet.frame 6 6) (slice packet.frame 34 4) ++ gw.dhcpOptions)

section
variable {gw : Gateway} {nic : NicPtr} {host : Host} {packet : Packet} {fresh fresh' : Nat → Byte} {n : Nat}

theorem agree_newFrame : Agree (fun _ => False) (newFrame fresh n) (newFrame fresh' n) :=
  ⟨by rw [length_newFrame, length_newFrame], fun _ hi => hi.elim⟩

theorem Packet.length_ether {k : Nat} (hk : k + 6 ≤ 12) (h12 : 12 ≤ packet.frame.length) :
    (slice (slice packet.frame 0 12) k 6).length = 6 := by
  rw [slice_slice hk]
  exact length_slice (by omega)

theorem Packet.echoWrites_fit (h35 : 35 ≤ packet.len) : ∀ w ∈ packet.echoWrites, w.1 + w.2.length ≤ packet.len := by
  have hfits := packet.fits
  have haddr : ∀ k, k + 4 ≤ 8 → (slice (slice packet.frame 26 8) k 4).length = 4 := by
    intro k hk
    rw [slice_slice hk]
    exact length_slice (by omega)
  have hether : ∀ k, k + 6 ≤ 12 → (slice (slice packet.frame 0 12) k 6).length = 6 := by
    intro k hk
    exact Packet.length_ether hk (by omega)
  simp [Packet.echoWrites, hether 6, hether 0, haddr 4, haddr 0]
  omega

theorem Packet.tail_fits (packet : Packet) (fresh : Nat → Byte) :
    12 + (slice packet.frame 12 (packet.len - 12)).length ≤ (newFrame fresh packet.len).length ∧
      (slice packet.frame 12 (packet.len - 12)).length = packet.len - 12 := by
  have hfits := packet.fits
  have hheader := packet.header
  have htail : (slice packet.frame 12 (packet.len - 12)).length = packet.len - 12 := length_slice (by omega)
  refine ⟨?_, htail⟩
  rw [htail, length_newFrame]
  omega

theorem Packet.echoCopy_spec (h35 : 35 ≤ packet.len) (fresh fresh' : Nat → Byte) :
    (packet.echoCopy fresh).length = packet.len ∧ packet.echoCopy fresh = packet.echoCopy fresh' := by
  have hfits := packet.fits
  obtain ⟨hset, htail⟩ := packet.tail_fits fresh
  have hlen := length_set hset
  rw [length_newFrame] at hlen
  have hws : ∀ w ∈ packet.echoWrites,
      w.1 + w.2.length ≤ (set (newFrame fresh packet.len) 12 (slice packet.frame 12 (packet.len - 12))).length := by
    rw [hlen]
    exact Packet.echoWrites_fit h35
  have hcopy := (writeAll_of_le hws).2.trans hlen
  refine ⟨hcopy, ?_⟩
  apply ((agree_newFrame.set hset).setAll hws).eq
  intro i hi
  rw [hcopy] at hi
  rw [htail]
  by_cases h6 : i < 6
  · refine .inr ⟨(0, slice (slice packet.frame 0 12) 6 6), List.mem_cons_self, Nat.zero_le i, ?_⟩
    rw [Packet.length_ether (by omega) (by omega)]
    omega
  · by_cases h12 : i < 12
    · refine .inr ⟨(6, slice (slice packet.frame 0 12) 0 6), List.mem_cons_of_mem _ List.mem_cons_self,
        show 6 ≤ i by omega, ?_⟩
      rw [Packet.length_ether (by omega) (by omega)]
      omega
    · exact .inl (.inr ⟨by omega, by omega⟩)

theorem dhcpWrites_fit (gw : Gateway) {mac ports : List Byte} (hmac : mac.length = 6) (hports : ports.length = 4) :
    ∀ w ∈ gw.dhcpHeader mac ports ++ gw.dhcpOptions, w.1 + w.2.length ≤ 307 := by
  have hsrc : (slice ports 2 2).length = 2 := length_slice (by omega)
  have hdst : (slice ports 0 2).length = 2 := length_slice (by omega)
  simp [Gateway.dhcpHeader, Gateway.dhcpOptions, hmac, hsrc, hdst]

theorem covers_dhcpOptions (gw : Gateway) {i : Nat} (hlo : 278 ≤ i) (hhi : i < 307) : Covers gw.dhcpOptions i := by
  unfold Covers Gateway.dhcpOptions
  simp
  omega

theorem Packet.dhcpCopy_spec (h278 : 278 ≤ packet.len) (gw : Gateway) (fresh fresh' : Nat → Byte) :
    (packet.dhcpCopy gw fresh).length = 307 ∧ packet.dhcpCopy gw fresh = packet.dhcpCopy gw fresh' := by
  have hfits := packet.fits
  have hold : (slice packet.frame 0 278).length = 278 := length_slice (by omega)
  have hset : 0 + (slice packet.frame 0 278).length ≤ (newFrame fresh 307).length := by
    rw [hold, length_newFrame]
    omega
  have hlen := length_set hset
  rw [length_newFrame] at hlen
  have hws : ∀ w ∈ gw.dhcpHeader (slice packet.frame 6 6) (slice packet.frame 34 4) ++ gw.dhcpOptions,
      w.1 + w.2.length ≤ (set (newFrame fresh 307) 0 (slice packet.frame 0 278)).length := by
    rw [hlen]
    exact dhcpWrites_fit gw (length_slice (by omega)) (length_slice (by omega))
  have hcopy : (packet.dhcpCopy gw fresh).length = 307 := (writeAll_of_le hws).2.trans hlen
  refine ⟨hcopy, ?_⟩
  apply ((agree_newFrame.set hset).setAll hws).eq
  intro i hi
  rw [(writeAll_of_le hws).2, hlen] at hi
  rw [hold]
  by_cases h : i < 278
  · exact .inl (.inr ⟨Nat.zero_le i, by omega⟩)
  · obtain ⟨w, hw, hin⟩ := covers_dhcpOptions gw (show 278 ≤ i by omega) hi
    exact .inr ⟨w, List.mem_append_right _ hw, hin⟩

/-! ## What the functions make -/

theorem checkLength_sub {n k : Nat} (h : k ≤ n) : Lib.checkLength ((n : Int) - k) = .ok (n - k) := by
  unfold Lib.checkLength
  rw [if_pos (by omega)]
  congr 1
  omega

theorem echoReply_eq (h35 : 35 ≤ packet.len) (host : Host) :
    Gateway.echoReply host packet.frame packet.len = (do
      let reply ← replyChecksum (host.fresh 0) (packet.echoCopy (host.fresh 0)) 34 2 (packet.len - 34)
      replyChecksum (host.fresh 0) reply 14 10 20) := by
  have hfits := packet.fits
  obtain ⟨hset, htail⟩ := packet.tail_fits (host.fresh 0)
  have hlen := length_set hset
  rw [length_newFrame] at hlen
  have hws : ∀ w ∈ packet.echoWrites, w.1 + w.2.length ≤
      (set (newFrame (host.fresh 0) packet.len) 12 (slice packet.frame 12 (packet.len - 12))).length := by
    rw [hlen]
    exact Packet.echoWrites_fit h35
  have h12 := checkLength_sub (show 12 ≤ packet.len by omega)
  have h34 := checkLength_sub (show 34 ≤ packet.len by omega)
  have hall := (writeAll_of_le hws).1
  unfold Packet.echoWrites at hall
  unfold Gateway.echoReply
  rw [show (12 : Int) = ((12 : Nat) : Int) from rfl, show (34 : Int) = ((34 : Nat) : Int) from rfl, h12, Lib.ok_bind,
    readBytes_of_le (by omega), Lib.ok_bind, write_of_le hset, Lib.ok_bind, readBytes_of_le (by omega),
    Lib.ok_bind, readBytes_of_le (by omega), Lib.ok_bind, hall, Lib.ok_bind, h34, Lib.ok_bind]
  rfl

theorem netIpBroadcastDhcp_eq (h278 : 278 ≤ packet.len) (host : Host) :
    gw.netIpBroadcastDhcp nic host packet.frame packet.len = (do
      let reply ← replyChecksum (host.fresh 0) (packet.dhcpCopy gw (host.fresh 0)) 14 10 20
      let reply ← replyTcpChecksum (host.fresh 0) reply 6 273 true
      return [.queued nic reply]) := by
  have hfits := packet.fits
  have hold : (slice packet.frame 0 278).length = 278 := length_slice (by omega)
  have hset : 0 + (slice packet.frame 0 278).length ≤ (newFrame (host.fresh 0) 307).length := by
    rw [hold, length_newFrame]
    omega
  have hlen := length_set hset
  rw [length_newFrame] at hlen
  have hfit := dhcpWrites_fit gw (show (slice packet.frame 6 6).length = 6 from length_slice (by omega))
    (show (slice packet.frame 34 4).length = 4 from length_slice (by omega))
  have hheader : ∀ w ∈ gw.dhcpHeader (slice packet.frame 6 6) (slice packet.frame 34 4),
      w.1 + w.2.length ≤ (set (newFrame (host.fresh 0) 307) 0 (slice packet.frame 0 278)).length := by
    rw [hlen]
    exact fun w hw => hfit w (List.mem_append_left _ hw)
  obtain ⟨hall, hlen'⟩ := writeAll_of_le hheader
  have hoptions : ∀ w ∈ gw.dhcpOptions, w.1 + w.2.length ≤
      (setAll (set (newFrame (host.fresh 0) 307) 0 (slice packet.frame 0 278))
        (gw.dhcpHeader (slice packet.frame 6 6) (slice packet.frame 34 4))).length := by
    rw [hlen', hlen]
    exact fun w hw => hfit w (List.mem_append_right _ hw)
  have hdump : dumpIp host.verbose packet.frame packet.len = .ok () := by
    unfold dumpIp
    split
    · rw [readBytes_of_le (show 14 + 20 ≤ packet.frame.length by omega)]
      unfold readFrom
      rw [if_pos (by omega), readBytes_of_le (show 34 + (packet.len - 34) ≤ packet.frame.length by omega)]
      rfl
    · rfl
  unfold Gateway.netIpBroadcastDhcp
  rw [hdump, Lib.ok_bind, if_neg (by omega), readBytes_of_le (by omega), Lib.ok_bind, write_of_le hset, Lib.ok_bind,
    readBytes_of_le (by omega), Lib.ok_bind, readBytes_of_le (by omega), Lib.ok_bind, hall, Lib.ok_bind,
    (writeAll_of_le hoptions).1, Lib.ok_bind]
  have hcopy : packet.dhcpCopy gw (host.fresh 0) =
      setAll (setAll (set (newFrame (host.fresh 0) 307) 0 (slice packet.frame 0 278))
        (gw.dhcpHeader (slice packet.frame 6 6) (slice packet.frame 34 4))) gw.dhcpOptions :=
    List.foldl_append
  rw [hcopy]

theorem fragment_made (c : UdpConnection) (gatewayEthernetAddr : Block 6) (addr : Block 4) (fragmentOfs : Nat)
    (more : Bool) (data : List Byte) : ∃ frame,
      (∀ fresh, c.fragment gatewayEthernetAddr addr fresh fragmentOfs more data = .ok frame) ∧ ipSum frame = 65535 := by
  obtain ⟨ws, hws⟩ : ∃ ws, ws = c.fragmentHeader gatewayEthernetAddr addr (20 + data.length) fragmentOfs more := ⟨_, rfl⟩
  obtain ⟨n, hn⟩ : ∃ n, n = 14 + 20 + data.length := ⟨_, rfl⟩
  have hfits : ∀ fresh : Nat → Byte, ∀ w ∈ ws, w.1 + w.2.length ≤ (newFrame fresh n).length := by
    intro fresh w hw
    rw [hws] at hw
    have hfit := fragmentHeader_fits w hw
    rw [length_newFrame]
    omega
  -- the header but its checksum
  have hcovers : ∀ i, i < 34 → i ≠ 24 → i ≠ 25 → Covers ws i := by
    intro i hi h24 h25
    rw [hws]
    unfold Covers UdpConnection.fragmentHeader
    simp
    omega
  have hlen : ∀ fresh, (setAll (newFrame fresh n) ws).length = n := fun fresh =>
    (writeAll_of_le (hfits fresh)).2.trans (length_newFrame fresh n)
  obtain ⟨sum, hsum, hck, hright⟩ := replyChecksum_sum (setAll (newFrame (fun _ => 0#8) n) ws) 14 5 20 (by omega)
    (by omega) (by rw [hlen]; omega)
  have hagree : ∀ fresh, Agree (fun i => False ∨ Covers ws i) (setAll (newFrame (fun _ => 0#8) n) ws)
      (setAll (newFrame fresh n) ws) := fun fresh => agree_newFrame.setAll (hfits _)
  have hb24 : ∀ fresh, 24 + sum.length ≤ (setAll (newFrame fresh n) ws).length := by
    intro fresh
    rw [hlen, hsum]
    omega
  have hb34 : ∀ fresh, 34 + data.length ≤ (set (setAll (newFrame fresh n) ws) 24 sum).length := by
    intro fresh
    rw [length_set (hb24 fresh), hlen]
    omega
  refine ⟨set (set (setAll (newFrame (fun _ => 0#8) n) ws) 24 sum) 34 data, ?_, ?_⟩
  · intro fresh
    have hsame : set (set (setAll (newFrame fresh n) ws) 24 sum) 34 data =
        set (set (setAll (newFrame (fun _ => 0#8) n) ws) 24 sum) 34 data := by
      symm
      apply (((hagree fresh).set (hb24 _)).set (hb34 _)).eq
      intro i hi
      rw [length_set (hb34 _), length_set (hb24 _), hlen] at hi
      by_cases h34 : 34 ≤ i
      · exact .inr ⟨h34, by omega⟩
      · by_cases hfield : 24 ≤ i ∧ i < 26
        · exact .inl (.inr ⟨hfield.1, by omega⟩)
        · exact .inl (.inl (.inr (hcovers i (by omega) (by omega) (by omega))))
    have hbytes : replyChecksum fresh (setAll (newFrame fresh n) ws) 14 10 20 =
        .ok (set (setAll (newFrame fresh n) ws) 24 sum) := by
      apply hck _ ((hagree fresh).mono ?_)
      intro i hi
      exact .inr (hcovers i (by omega) (by omega) (by omega))
    unfold UdpConnection.fragment
    dsimp only
    rw [← hn, ← hws, (writeAll_of_le (hfits fresh)).1, Lib.ok_bind, hbytes, Lib.ok_bind,
      write_of_le (hb34 fresh), hsame]
  · unfold ipSum
    rw [slice_set_other (hb34 _) (by omega)]
    exact hright

/-- The bytes of a TCP reply depend on the block alone, and all but the urgent pointer are written. -/
theorem connectionreply_made (net : TcpNet) (c : TcpConnection) (connecting : Bool) (data : List Byte) (rst : Bool)
    (fresh : Nat → Byte) : ∃ frame, frame.length = 74 + data.length ∧ byte frame 52 = fresh 52 ∧
      ipSum frame = 65535 ∧ tcpSum frame false = 65535 ∧
      ∀ fresh', newFrame fresh (74 + data.length) = newFrame fresh' (74 + data.length) →
        c.connectionreply net fresh' connecting data rst = .ok (c.replied connecting data.length, frame) := by
  obtain ⟨c', hc'⟩ : ∃ c', c' = c.replying connecting := ⟨_, rfl⟩
  obtain ⟨frame0, hframe0⟩ : ∃ f, f = newFrame fresh (74 + data.length) := ⟨_, rfl⟩
  have hlen0 : frame0.length = 74 + data.length := by
    rw [hframe0]
    exact length_newFrame fresh _
  have hfits1 : ∀ w ∈ c'.replyIpHeader net (60 + data.length), w.1 + w.2.length ≤ frame0.length := by
    intro w hw
    have hfit := TcpConnection.replyIpHeader_fits w hw
    omega
  obtain ⟨hw1, hlen1⟩ := writeAll_of_le hfits1
  obtain ⟨frame1, hframe1⟩ : ∃ f, f = setAll frame0 (c'.replyIpHeader net (60 + data.length)) := ⟨_, rfl⟩
  rw [← hframe1] at hw1 hlen1
  obtain ⟨sum, hsum, hck, hip⟩ := replyChecksum_sum frame1 14 5 20 (by omega) (by omega) (by omega)
  have hb24 : 24 + sum.length ≤ frame1.length := by omega
  have hlen2 := length_set hb24
  have hfits3 : ∀ w ∈ c'.replyTcpHeader net connecting rst, w.1 + w.2.length ≤ (set frame1 24 sum).length := by
    intro w hw
    have hfit := TcpConnection.replyTcpHeader_fits w hw
    omega
  obtain ⟨hw3, hlen3⟩ := writeAll_of_le hfits3
  obtain ⟨frame3, hframe3⟩ : ∃ f, f = setAll (set frame1 24 sum) (c'.replyTcpHeader net connecting rst) := ⟨_, rfl⟩
  rw [← hframe3] at hw3 hlen3
  have hb74 : 74 + data.length ≤ frame3.length := by omega
  have hlen4 := length_set hb74
  obtain ⟨sum', hsum', htck, htcp⟩ := replyTcpChecksum_sum (set frame3 74 data) 8 (40 + data.length) false (by omega)
    (by omega)
  have hsum' : sum'.length = 2 := by
    rw [hsum']
    exact length_checksumBytes _
  have hb50 : 50 + sum'.length ≤ (set frame3 74 data).length := by omega
  have hlen5 := length_set hb50
  refine ⟨set (set frame3 74 data) 50 sum', by omega, ?_, ?_, ?_, ?_⟩
  · -- no header covers the urgent pointer
    have hother1 : ¬ Covers (c'.replyIpHeader net (60 + data.length)) 52 := by
      intro hcovers
      obtain ⟨w, hw, -, hlt⟩ := hcovers
      have hfit := TcpConnection.replyIpHeader_fits w hw
      omega
    have hother3 : ¬ Covers (c'.replyTcpHeader net connecting rst) 52 := by
      unfold Covers TcpConnection.replyTcpHeader
      simp
    calc byte (set (set frame3 74 data) 50 sum') 52
        = byte (set frame3 74 data) 52 := by rw [byte_set hb50, if_neg (by omega)]
      _ = byte frame3 52 := by rw [byte_set hb74, if_neg (by omega)]
      _ = byte (set frame1 24 sum) 52 := by rw [hframe3, byte_setAll_other hfits3 hother3]
      _ = byte frame1 52 := by rw [byte_set hb24, if_neg (by omega)]
      _ = byte frame0 52 := by rw [hframe1, byte_setAll_other hfits1 hother1]
      _ = fresh 52 := by
        rw [hframe0]
        simp [newFrame, byte, List.getD_eq_getElem?_getD, show 52 < 74 + data.length by omega]
  · unfold ipSum
    rw [slice_set_other hb50 (by omega), slice_set_other hb74 (by omega), hframe3,
      slice_setAll_other fun w hw => ⟨hfits3 w hw, .inl ?_⟩]
    · exact hip
    · revert w
      simp [TcpConnection.replyTcpHeader]
  · unfold tcpSum
    rw [hlen5, show (set frame3 74 data).length - 34 = 40 + data.length by omega]
    exact htcp
  · intro fresh' hfresh
    have hck1 : replyChecksum fresh' frame1 14 10 20 = .ok (set frame1 24 sum) := hck frame1 ⟨rfl, fun _ _ => rfl⟩ fresh'
    have hck2 : replyTcpChecksum fresh' (set frame3 74 data) 16 (40 + data.length) false =
        .ok (set (set frame3 74 data) 50 sum') := htck fresh'
    rw [TcpConnection.connectionreply_eq, ← hfresh, ← hframe0, ← hc', hw1, Lib.ok_bind, hck1, Lib.ok_bind, hw3, Lib.ok_bind,
      write_of_le hb74, Lib.ok_bind, hck2, Lib.ok_bind]
    rfl

/-- An echo request that fits is answered. Only a message of odd length has a checksum that depends on what is behind
the reply. -/
theorem echoReply_made (h38 : 38 ≤ packet.len) (host : Host) :
    ∃ frame, frame.length = packet.len ∧ ipSum frame = 65535 ∧ (packet.len % 2 = 0 → icmpSum frame = 65535) ∧
      slice frame 36 2 = checksumBytes (onesFold (otherWords (fun i =>
        if 34 + i < packet.len then byte (packet.echoCopy fun _ => 0#8) (34 + i) else host.fresh 0 (34 + i))
        1 (packet.len - 34))) ∧
      ∀ host' : Host, (packet.len % 2 = 1 → host.fresh 0 packet.len = host'.fresh 0 packet.len) →
        Gateway.echoReply host' packet.frame packet.len = .ok frame := by
  obtain ⟨copy, hcopy⟩ : ∃ copy, copy = packet.echoCopy fun _ => 0#8 := ⟨_, rfl⟩
  have hlen : copy.length = packet.len := by
    rw [hcopy]
    exact (Packet.echoCopy_spec (by omega) _ fun _ => 0#8).1
  obtain ⟨n, hn⟩ : ∃ n, n = otherWords (fun i => if 34 + i < packet.len then byte copy (34 + i)
    else host.fresh 0 (34 + i)) 1 (packet.len - 34) := ⟨_, rfl⟩
  have hb36 : 36 + (checksumBytes (onesFold n)).length ≤ copy.length := by
    rw [length_checksumBytes]
    omega
  have hfirst : ∀ host' : Host, (packet.len % 2 = 1 → host.fresh 0 packet.len = host'.fresh 0 packet.len) →
      replyChecksum (host'.fresh 0) copy 34 2 (packet.len - 34) = .ok (set copy 36 (checksumBytes (onesFold n))) := by
    intro host' hodd
    have hwords : otherWords (fun i => if 34 + i < copy.length then byte copy (34 + i) else host'.fresh 0 (34 + i)) 1
        (packet.len - 34) = n := by
      rw [hn]
      apply otherWords_congr
      intro i hi _ _
      rw [hlen]
      by_cases hin : 34 + i < packet.len
      · rw [if_pos hin, if_pos hin]
      · rw [if_neg hin, if_neg hin, show 34 + i = packet.len by omega]
        exact (hodd (by omega)).symm
    rw [show 2 = 2 * 1 from rfl, replyChecksum_eq, hwords]
    exact write_of_le hb36
  have hlen1 := length_set hb36
  obtain ⟨sum, hsum, hck, hip⟩ := replyChecksum_sum (set copy 36 (checksumBytes (onesFold n))) 14 5 20 (by omega)
    (by omega) (by omega)
  have hb24 : 24 + sum.length ≤ (set copy 36 (checksumBytes (onesFold n))).length := by omega
  refine ⟨set (set copy 36 (checksumBytes (onesFold n))) 24 sum, ?_, hip, ?_, ?_, ?_⟩
  · rw [length_set hb24, hlen1, hlen]
  · intro heven
    obtain ⟨sum', -, hck', hicmp⟩ := replyChecksum_sum copy 34 1 (packet.len - 34) (by omega) (by omega) (by omega)
    have hsame := (hfirst host fun _ => rfl).symm.trans (hck' copy ⟨rfl, fun _ _ => rfl⟩ (host.fresh 0))
    unfold icmpSum
    rw [length_set hb24, hlen1, hlen, slice_set_other hb24 (by omega), Except.ok.inj hsame]
    exact hicmp
  · have hfield := slice_set_same hb36
    rw [length_checksumBytes] at hfield
    rw [slice_set_other hb24 (by omega), hfield, hn, hcopy]
  · intro host' hodd
    rw [echoReply_eq (by omega), (Packet.echoCopy_spec (by omega) (host'.fresh 0) fun _ => 0#8).2, ← hcopy,
      hfirst host' hodd, Lib.ok_bind]
    exact hck _ ⟨rfl, fun _ _ => rfl⟩ _

def Packet.dhcpSum (packet : Packet) (gw : Gateway) : Nat := uncheckedSum (packet.dhcpCopy gw fun _ => 0#8) 3 273 true

theorem dhcpReply_made (h278 : 278 ≤ packet.len) (gw : Gateway) (nic : NicPtr) :
    ∃ frame, frame.length = 307 ∧ ipSum frame = 65535 ∧ tcpSum frame true = 65535 ∧
      slice frame 40 2 = checksumBytes (packet.dhcpSum gw) ∧
      ∀ host, gw.netIpBroadcastDhcp nic host packet.frame packet.len = .ok [.queued nic frame] := by
  obtain ⟨copy, hcopy⟩ : ∃ copy, copy = packet.dhcpCopy gw fun _ => 0#8 := ⟨_, rfl⟩
  have hlen : copy.length = 307 := by
    rw [hcopy]
    exact (Packet.dhcpCopy_spec h278 gw _ fun _ => 0#8).1
  obtain ⟨sum, hsum, hck, hip⟩ := replyChecksum_sum copy 14 5 20 (by omega) (by omega) (by omega)
  have hb24 : 24 + sum.length ≤ copy.length := by omega
  have hlen1 := length_set hb24
  obtain ⟨sum', hsum', hck', hudp⟩ := replyTcpChecksum_sum (set copy 24 sum) 3 273 true (by omega) (by omega)
  have hb40 : 40 + sum'.length ≤ (set copy 24 sum).length := by
    rw [hsum', length_checksumBytes]
    omega
  -- the checksum of the IP header is not in the sum of the datagram
  have hunchecked : uncheckedSum (set copy 24 sum) 3 273 true = packet.dhcpSum gw := by
    have hother : slice (set copy 24 sum) 34 273 = slice copy 34 273 := slice_set_other hb24 (by omega)
    have hsrc : slice (set copy 24 sum) 26 4 = slice copy 26 4 := slice_set_other hb24 (by omega)
    have hdst : slice (set copy 24 sum) 30 4 = slice copy 30 4 := slice_set_other hb24 (by omega)
    unfold Packet.dhcpSum
    rw [uncheckedSum_eq (by omega) (by omega), hother, hsrc, hdst, ← hcopy, uncheckedSum_eq (by omega) (by omega)]
  refine ⟨set (set copy 24 sum) 40 sum', ?_, ?_, ?_, ?_, ?_⟩
  · rw [length_set hb40, hlen1, hlen]
  · unfold ipSum
    rw [slice_set_other hb40 (by omega)]
    exact hip
  · unfold tcpSum
    rw [length_set hb40, hlen1, hlen]
    exact hudp
  · have hfield := slice_set_same hb40
    rw [hsum', length_checksumBytes, hunchecked] at hfield
    rw [hsum', hunchecked]
    exact hfield
  · intro host
    have hfirst : replyChecksum (host.fresh 0) copy 14 10 20 = .ok (set copy 24 sum) :=
      hck copy ⟨rfl, fun _ _ => rfl⟩ _
    have hsecond : replyTcpChecksum (host.fresh 0) (set copy 24 sum) 6 273 true = .ok (set (set copy 24 sum) 40 sum') :=
      hck' _
    rw [netIpBroadcastDhcp_eq h278, (Packet.dhcpCopy_spec h278 gw (host.fresh 0) fun _ => 0#8).2, ← hcopy, hfirst, Lib.ok_bind,
      hsecond, Lib.ok_bind]
    rfl

/-! ## Datagrams -/

theorem fragments_made (c : UdpConnection) (gatewayEthernetAddr : Block 6) (addr : Block 4) (udpData : List Byte)
    (fuel k pos : Nat) : ∃ r, (∀ fresh, c.fragments gatewayEthernetAddr addr fresh udpData fuel k pos = .ok r) ∧
      ∀ frame ∈ r.1, ipSum frame = 65535 := by
  induction fuel generalizing k pos with
  | zero => exact ⟨([], pos), fun _ => rfl, fun frame hframe => absurd hframe List.not_mem_nil⟩
  | succ fuel ih =>
    by_cases hpos : pos < udpData.length
    · obtain ⟨n, hn⟩ : ∃ n, n = thisPacketsDataLength (udpData.length - pos) := ⟨_, rfl⟩
      obtain ⟨frame, hframe, hright⟩ := fragment_made c gatewayEthernetAddr addr (pos / 8)
        (decide (pos + n < udpData.length)) (slice udpData pos n)
      obtain ⟨r, hr, hall⟩ := ih (k + 1) (pos + n)
      refine ⟨(frame :: r.1, r.2), ?_, ?_⟩
      · intro fresh
        unfold UdpConnection.fragments
        dsimp only
        rw [if_pos hpos, ← hn, hframe (fresh k), Lib.ok_bind, hr fresh]
        rfl
      · intro frame' hframe'
        rcases List.mem_cons.mp hframe' with heq | hmem
        · rw [heq]
          exact hright
        · exact hall frame' hmem
    · refine ⟨([], pos), ?_, fun frame hframe => by cases hframe⟩
      intro fresh
      exact if_neg hpos

def QueuesRight (events : List Event) : Prop := ∀ e ∈ events, ∃ nic frame, e = .queued nic frame ∧ ipSum frame = 65535

theorem receiveDatagram_made (gw : Gateway) (k i : Nat) (d : Datagram) :
    ∃ gw' frames n, (∀ host, gw.receiveDatagram host k i d = .ok (gw', frames, n)) ∧
      ∀ frame ∈ frames, ipSum frame = 65535 := by
  obtain ⟨c, hc⟩ : ∃ c, c = { gw.udpConnections i with
    lastUsedTimestamp := gw.timestamp + 1#64, udpId := (gw.udpConnections i).udpId + 1 } := ⟨_, rfl⟩
  obtain ⟨r, hr, hall⟩ := fragments_made c gw.gatewayEthernetAddr
    (if c.fakeNs then gw.gatewayIpv4Addr else d.addr) (c.udpData d) (c.udpData d).length k 0
  refine ⟨{ gw.setUdp i c with timestamp := gw.timestamp + 1#64 }, r.1, r.2, ?_, hall⟩
  intro host
  have hfragments := hr host.fresh
  subst hc
  unfold Gateway.receiveDatagram
  dsimp only at hfragments ⊢
  rw [hfragments]
  rfl

theorem udpRxAvailAt_made (nic : NicPtr) (s : Gateway × List Event × Nat) (x : Nat × Datagram) :
    ∃ s', (∀ host, Gateway.udpRxAvailAt nic host s x = .ok s') ∧ (QueuesRight s.2.1 → QueuesRight s'.2.1) := by
  by_cases hskip : maxPacketsThisTick < s.2.2 ∨ (s.1.udpConnections x.1).inUse = false ∨
      (s.1.udpConnections x.1).socket < 0
  · exact ⟨s, fun host => if_pos hskip, fun h => h⟩
  · obtain ⟨gw', frames, n, hreceived, hall⟩ := receiveDatagram_made s.1 s.2.2 x.1 x.2
    refine ⟨(gw', s.2.1 ++ frames.map (.queued nic), s.2.2 + frames.length), ?_, ?_⟩
    · intro host
      unfold Gateway.udpRxAvailAt
      rw [if_neg hskip, hreceived host]
      rfl
    · intro hold e he
      rcases List.mem_append.mp he with he | he
      · exact hold e he
      · obtain ⟨frame, hframe, heq⟩ := List.mem_map.mp he
        exact ⟨nic, frame, heq.symm, hall frame hframe⟩

theorem netUdpRxAvail_made (gw : Gateway) (nic : NicPtr) (datagrams : Nat → List Datagram) :
    ∃ r, (∀ fresh, gw.netUdpRxAvail nic ⟨fresh, datagrams⟩ = .ok r) ∧ QueuesRight r.2.1 := by
  have hloop : ∀ (l : List (Nat × Datagram)) (s : Gateway × List Event × Nat), QueuesRight s.2.1 →
      ∃ r, (∀ host, l.foldlM (Gateway.udpRxAvailAt nic host) s = .ok r) ∧ QueuesRight r.2.1 := by
    intro l
    induction l with
    | nil => exact fun s hs => ⟨s, fun _ => rfl, hs⟩
    | cons x l ih =>
      intro s hs
      obtain ⟨s', hround, hkeeps⟩ := udpRxAvailAt_made nic s x
      obtain ⟨r, hrest, hr⟩ := ih s' (hkeeps hs)
      refine ⟨r, fun host => ?_, hr⟩
      rw [List.foldlM_cons, hround host, Lib.ok_bind]
      exact hrest host
  obtain ⟨r, hall, hr⟩ := hloop ((List.range maxUdpConnections).flatMap fun i => (datagrams i).map (i, ·)) (gw, [], 0)
    fun e he => by cases he
  exact ⟨r, fun fresh => hall ⟨fresh, datagrams⟩, hr⟩

end

/-! ## All frames -/

/-- The functions that make frames, with what they are given but the blocks of malloc(). -/
inductive Builder where
  | tcpConnectionreply (net : TcpNet) (c : TcpConnection) (connecting : Bool) (data : List Byte) (rst : Bool)
  | udpRxAvail (gw : Gateway) (nic : NicPtr) (datagrams : Nat → List Datagram)
  | ipBroadcastDhcp (gw : Gateway) (nic : NicPtr) (host : Host) (packet : Packet)
  | arp (gw : Gateway) (nic : NicPtr) (packet : Frame)
  | ipIcmp (nic : NicPtr) (host : Host) (packet : Packet)

def Event.queuedFrame : Event → Option Frame
  | .queued _ frame => some frame
  | .distributed _ | .sent _ _ _ | .tcp _ _ _ => none

namespace Builder

/-- The frames that are queued. Frame `k` is made in block `k`. -/
def frames (fresh : Nat → Nat → Byte) : Builder → Checked (List Frame)
  | .tcpConnectionreply net c connecting data rst => do
    let (_, frame) ← c.connectionreply net (fresh 0) connecting data rst
    return [frame]
  | .udpRxAvail gw nic datagrams => do
    let (_, events, _) ← gw.netUdpRxAvail nic ⟨fresh, datagrams⟩
    return events.filterMap Event.queuedFrame
  | .ipBroadcastDhcp gw nic host packet => do
    let events ← gw.netIpBroadcastDhcp nic { host with fresh } packet.frame packet.len
    return events.filterMap Event.queuedFrame
  | .arp gw nic packet => do
    let events ← gw.netArp nic packet
    return events.filterMap Event.queuedFrame
  | .ipIcmp nic host packet => do
    let events ← Gateway.netIpIcmp nic { host with fresh } packet.frame packet.len
    return events.filterMap Event.queuedFrame

def isTcpReply : Builder → Bool
  | .tcpConnectionreply _ _ _ _ _ => true
  | .udpRxAvail _ _ _ | .ipBroadcastDhcp _ _ _ _ | .arp _ _ _ | .ipIcmp _ _ _ => false

def Determined (b : Builder) : Prop := ∀ fresh fresh' frames, b.frames fresh = .ok frames →
  (∀ k i, (frames.getD k []).length ≤ i → fresh k i = fresh' k i) → b.frames fresh' = .ok frames

/-- The checksums of a frame are right, and a datagram does not seem to have none. -/
def Verifies (frame : Frame) : Builder → Prop
  | .tcpConnectionreply _ _ _ _ _ => ipSum frame = 65535 ∧ tcpSum frame false = 65535
  | .udpRxAvail _ _ _ => ipSum frame = 65535
  | .ipBroadcastDhcp _ _ _ _ => ipSum frame = 65535 ∧ tcpSum frame true = 65535 ∧ slice frame 40 2 ≠ [0#8, 0#8]
  | .arp _ _ _ => True
  | .ipIcmp _ _ _ => ipSum frame = 65535 ∧ icmpSum frame = 65535

def ChecksumsRight (b : Builder) : Prop := ∀ fresh frames, b.frames fresh = .ok frames →
  (∀ frame ∈ frames, b.Verifies frame) ∧
    ∀ fresh', (∀ k i, i < (frames.getD k []).length → fresh k i = fresh' k i) → b.frames fresh' = .ok frames

/-- An echo request has an even length, and the sum of the reply to a DHCP request is not 0xffff already. -/
def CanVerify : Builder → Prop
  | .tcpConnectionreply _ _ _ _ _ | .udpRxAvail _ _ _ | .arp _ _ _ => True
  | .ipBroadcastDhcp gw _ _ packet => 278 ≤ packet.len → packet.dhcpSum gw ≠ 65535
  | .ipIcmp _ _ packet => byte packet.frame 34 = 8#8 → 38 ≤ packet.len → packet.len % 2 = 0

section
variable {gw : Gateway} {nic : NicPtr} {host : Host} {packet : Packet} {fresh fresh' : Nat → Nat → Byte}
  {l : List Frame}

theorem frames_tcpConnectionreply (net : TcpNet) (c : TcpConnection) (connecting : Bool) (data : List Byte) (rst : Bool)
    (fresh : Nat → Nat → Byte) : ∃ frame, frame.length = 74 + data.length ∧ byte frame 52 = fresh 0 52 ∧
      ipSum frame = 65535 ∧ tcpSum frame false = 65535 ∧
      ∀ fresh', (∀ i, i < 74 + data.length → fresh 0 i = fresh' 0 i) →
        (tcpConnectionreply net c connecting data rst).frames fresh' = .ok [frame] := by
  obtain ⟨frame, hlen, hurgent, hip, htcp, hmade⟩ := connectionreply_made net c connecting data rst (fresh 0)
  refine ⟨frame, hlen, hurgent, hip, htcp, ?_⟩
  intro fresh' hsame
  have hblock : newFrame (fresh 0) (74 + data.length) = newFrame (fresh' 0) (74 + data.length) := by
    apply List.map_congr_left
    intro i hi
    exact hsame i (List.mem_range.mp hi)
  change (TcpConnection.connectionreply net (fresh' 0) c connecting data rst >>= _) = _
  rw [hmade (fresh' 0) hblock]
  rfl

theorem frames_ipBroadcastDhcp_short (h : packet.len < 278) (hok : (ipBroadcastDhcp gw nic host packet).frames fresh = .ok l) :
    l = [] ∧ ∀ fresh', (ipBroadcastDhcp gw nic host packet).frames fresh' = .ok l := by
  have heq : ∀ host', gw.netIpBroadcastDhcp nic host' packet.frame packet.len =
      (dumpIp host'.verbose packet.frame packet.len >>= fun _ => .ok []) := by
    intro host'
    unfold Gateway.netIpBroadcastDhcp
    rw [if_pos h]
    rfl
  obtain ⟨events, hevents, hl⟩ := Lib.bind_eq_ok hok
  rw [heq] at hevents
  obtain ⟨u, hu, hnil⟩ := Lib.bind_eq_ok hevents
  cases hnil
  cases hl
  refine ⟨rfl, fun fresh' => ?_⟩
  change (gw.netIpBroadcastDhcp nic { host with fresh := fresh' } packet.frame packet.len >>= _) = _
  rw [heq, hu]
  rfl

theorem frames_ipBroadcastDhcp (h : 278 ≤ packet.len) (gw : Gateway) (nic : NicPtr) (host : Host) : ∃ frame,
    frame.length = 307 ∧ ipSum frame = 65535 ∧ tcpSum frame true = 65535 ∧
      slice frame 40 2 = checksumBytes (packet.dhcpSum gw) ∧
      ∀ fresh, (ipBroadcastDhcp gw nic host packet).frames fresh = .ok [frame] := by
  obtain ⟨frame, hlen, hip, hudp, hfield, hmade⟩ := dhcpReply_made h gw nic
  refine ⟨frame, hlen, hip, hudp, hfield, ?_⟩
  intro fresh
  change (gw.netIpBroadcastDhcp nic { host with fresh } packet.frame packet.len >>= _) = _
  rw [hmade]
  rfl

theorem frames_ipIcmp_other (h : byte packet.frame 34 ≠ 8#8) (hok : (ipIcmp nic host packet).frames fresh = .ok l) :
    l = [] ∧ ∀ fresh', (ipIcmp nic host packet).frames fresh' = .ok l := by
  have hsame : ∀ fresh', (ipIcmp nic host packet).frames fresh' = (readByte packet.frame 34 >>= fun _ => .ok []) := by
    intro fresh'
    by_cases h34 : 34 < packet.frame.length
    · change ((readByte packet.frame 34 >>= _) >>= _) = _
      rw [readByte_of_lt h34, Lib.ok_bind, if_neg h]
      rfl
    · have herror : readByte packet.frame 34 = .error (.read 34) := if_neg h34
      change ((readByte packet.frame 34 >>= _) >>= _) = _
      rw [herror]
      rfl
  rw [hsame] at hok
  obtain ⟨b, hb, hnil⟩ := Lib.bind_eq_ok hok
  cases hnil
  refine ⟨rfl, fun fresh' => ?_⟩
  rw [hsame, hb]
  rfl

theorem le_of_frames_ipIcmp (h : byte packet.frame 34 = 8#8) (hok : (ipIcmp nic host packet).frames fresh = .ok l) :
    38 ≤ packet.len := by
  obtain ⟨events, hevents, -⟩ := Lib.bind_eq_ok hok
  exact ((Gateway.inBounds_netIpIcmp packet.fits packet.header).mp ⟨events, hevents⟩).2 h

theorem frames_ipIcmp (h : byte packet.frame 34 = 8#8) (h38 : 38 ≤ packet.len) (nic : NicPtr) (host : Host)
    (fresh : Nat → Nat → Byte) : ∃ frame, frame.length = packet.len ∧ ipSum frame = 65535 ∧
      (packet.len % 2 = 0 → icmpSum frame = 65535) ∧
      slice frame 36 2 = checksumBytes (onesFold (otherWords (fun i =>
        if 34 + i < packet.len then byte (packet.echoCopy fun _ => 0#8) (34 + i) else fresh 0 (34 + i))
        1 (packet.len - 34))) ∧
      ∀ fresh' : Nat → Nat → Byte, (packet.len % 2 = 1 → fresh 0 packet.len = fresh' 0 packet.len) →
        (ipIcmp nic host packet).frames fresh' = .ok [frame] := by
  have hfits := packet.fits
  obtain ⟨frame, hlen, hip, hicmp, hfield, hmade⟩ := echoReply_made h38 { host with fresh }
  refine ⟨frame, hlen, hip, hicmp, hfield, ?_⟩
  intro fresh' hodd
  change ((readByte packet.frame 34 >>= _) >>= _) = _
  rw [readByte_of_lt (by omega), Lib.ok_bind, if_pos h, hmade { host with fresh := fresh' } hodd]
  rfl

theorem not_determined_tcpConnectionreply (net : TcpNet) (c : TcpConnection) (connecting : Bool) (data : List Byte)
    (rst : Bool) : ¬ (tcpConnectionreply net c connecting data rst).Determined := by
  intro hdet
  -- two blocks that differ in the urgent pointer
  obtain ⟨frame, hlen, hurgent, -, -, hmade⟩ := frames_tcpConnectionreply net c connecting data rst fun _ _ => 0#8
  obtain ⟨frame', -, hurgent', -, -, hmade'⟩ :=
    frames_tcpConnectionreply net c connecting data rst fun _ i => if i = 52 then 1#8 else 0#8
  have hother := hdet _ (fun k i => if k = 0 ∧ i = 52 then 1#8 else 0#8) _ (hmade _ fun _ _ => rfl) (by
    intro k i hi
    rw [if_neg]
    intro hk
    rw [hk.1] at hi
    change frame.length ≤ i at hi
    omega)
  have hsame := hother.symm.trans (hmade' _ fun i _ => by simp)
  have heq : frame = frame' := (List.cons.inj (Except.ok.inj hsame)).1
  rw [← heq, hurgent] at hurgent'
  cases hurgent'

/-- All functions but net_ip_tcp_connectionreply() write every byte before they use it. -/
theorem determined_iff (b : Builder) : b.Determined ↔ b.isTcpReply = false := by
  cases b with
  | tcpConnectionreply net c connecting data rst =>
    constructor
    · intro hdet
      exact absurd hdet (not_determined_tcpConnectionreply net c connecting data rst)
    · intro htcp
      cases htcp
  | udpRxAvail gw nic datagrams =>
    refine ⟨fun _ => rfl, fun _ fresh fresh' l hok _ => ?_⟩
    obtain ⟨r, hr, -⟩ := netUdpRxAvail_made gw nic datagrams
    rw [← hok]
    change (gw.netUdpRxAvail nic ⟨fresh', datagrams⟩ >>= _) = (gw.netUdpRxAvail nic ⟨fresh, datagrams⟩ >>= _)
    rw [hr fresh, hr fresh']
  | ipBroadcastDhcp gw nic host packet =>
    refine ⟨fun _ => rfl, fun _ fresh fresh' l hok _ => ?_⟩
    by_cases h278 : 278 ≤ packet.len
    · obtain ⟨frame, -, -, -, -, hmade⟩ := frames_ipBroadcastDhcp h278 gw nic host
      rw [← hok, hmade, hmade]
    · exact (frames_ipBroadcastDhcp_short (by omega) hok).2 fresh'
  | arp gw nic packet => exact ⟨fun _ => rfl, fun _ _ _ _ hok _ => hok⟩
  | ipIcmp nic host packet =>
    refine ⟨fun _ => rfl, fun _ fresh fresh' l hok hbehind => ?_⟩
    by_cases h8 : byte packet.frame 34 = 8#8
    · obtain ⟨frame, hlen, -, -, -, hmade⟩ := frames_ipIcmp h8 (le_of_frames_ipIcmp h8 hok) nic host fresh
      have hl : l = [frame] := Except.ok.inj (hok.symm.trans (hmade fresh fun _ => rfl))
      subst hl
      apply hmade
      intro _
      exact hbehind 0 packet.len (Nat.le_of_eq hlen)
    · exact (frames_ipIcmp_other h8 hok).2 fresh'

theorem synReply_leaks : ¬ (tcpConnectionreply ⟨natGateway.gatewayEthernetAddr, 0#64⟩ .zero true [] false).Determined :=
  not_determined_tcpConnectionreply _ _ _ _ _

theorem otherWords_succ (f g : Nat → Byte) (j len : Nat) (hodd : len % 2 = 1) (hj : 2 * j + 2 ≤ len)
    (hsame : ∀ i, i < len → f i = g i) (hlast : (g len).toNat = (f len).toNat + 1) :
    otherWords g j len = otherWords f j len + 1 := by
  have hn : (len + 1) / 2 = len / 2 + 1 := by omega
  have hfront : ((List.range (len / 2)).map fun k => if k = j then 0 else wordAt g k) =
      (List.range (len / 2)).map fun k => if k = j then 0 else wordAt f k := by
    apply List.map_congr_left
    intro k hk
    have hk := List.mem_range.mp hk
    unfold wordAt
    rw [hsame (2 * k) (by omega), hsame (2 * k + 1) (by omega)]
  have hword : wordAt g (len / 2) = wordAt f (len / 2) + 1 := by
    unfold wordAt
    rw [hsame (2 * (len / 2)) (by omega), show 2 * (len / 2) + 1 = len by omega, hlast]
    omega
  unfold otherWords
  rw [hn, List.range_succ, List.map_append, List.map_append, List.sum_append, List.sum_append, hfront]
  simp only [List.map_cons, List.map_nil, List.sum_cons, List.sum_nil, if_neg (show ¬ len / 2 = j by omega), hword]
  omega

theorem checksumBytes_inj {s s' : Nat} (hs : s ≤ 65535) (hs' : s' ≤ 65535) (h : checksumBytes s = checksumBytes s') :
    s = s' := by
  have hvalue := congrArg (Lib.value true) h
  rw [value_checksumBytes hs, value_checksumBytes hs'] at hvalue
  omega

theorem not_checksumsRight_ipIcmp (h8 : byte packet.frame 34 = 8#8) (h38 : 38 ≤ packet.len)
    (hodd : packet.len % 2 = 1) : ¬ (ipIcmp nic host packet).ChecksumsRight := by
  intro hright
  -- two blocks that differ behind the reply
  obtain ⟨frame, hlen, -, -, hfield, hmade⟩ := frames_ipIcmp h8 h38 nic host fun _ _ => 0#8
  obtain ⟨frame', -, -, -, hfield', hmade'⟩ := frames_ipIcmp h8 h38 nic host
    fun _ i => if i = packet.len then 1#8 else 0#8
  have hother := (hright _ _ (hmade _ fun _ => rfl)).2 (fun _ i => if i = packet.len then 1#8 else 0#8) (by
    intro k i hi
    rw [if_neg]
    intro hik
    cases k with
    | zero =>
      change i < frame.length at hi
      omega
    | succ k => exact absurd hi (Nat.not_lt_zero i))
  have hsame := hother.symm.trans (hmade' _ fun _ => rfl)
  have heq : frame = frame' := (List.cons.inj (Except.ok.inj hsame)).1
  rw [← heq, hfield] at hfield'
  have hsums := checksumBytes_inj (onesFold_le _) (onesFold_le _) hfield'
  have hbehind : ¬ 34 + (packet.len - 34) < packet.len := by omega
  have hat : 34 + (packet.len - 34) = packet.len := by omega
  have hwords := otherWords_succ
    (fun i => if 34 + i < packet.len then byte (packet.echoCopy fun _ => 0#8) (34 + i) else 0#8)
    (fun i => if 34 + i < packet.len then byte (packet.echoCopy fun _ => 0#8) (34 + i)
      else if 34 + i = packet.len then 1#8 else 0#8) 1 (packet.len - 34) (by omega) (by omega) (by
        intro i hi
        rw [if_pos (by omega), if_pos (by omega)]) (by
        rw [if_neg hbehind, if_neg hbehind, if_pos hat]
        rfl)
  rw [hwords] at hsums
  exact onesFold_ne (by omega) (by omega) hsums.symm

theorem checksumsRight_iff (b : Builder) : b.ChecksumsRight ↔ b.CanVerify := by
  cases b with
  | tcpConnectionreply net c connecting data rst =>
    refine ⟨fun _ => trivial, fun _ fresh l hok => ?_⟩
    obtain ⟨frame, hlen, -, hip, htcp, hmade⟩ := frames_tcpConnectionreply net c connecting data rst fresh
    have hl : l = [frame] := Except.ok.inj (hok.symm.trans (hmade fresh fun _ _ => rfl))
    subst hl
    refine ⟨fun frame' hframe' => ?_, fun fresh' hinside => hmade fresh' fun i hi => hinside 0 i ?_⟩
    · rw [List.mem_singleton.mp hframe']
      exact ⟨hip, htcp⟩
    · change i < frame.length
      omega
  | udpRxAvail gw nic datagrams =>
    refine ⟨fun _ => trivial, fun _ fresh l hok => ?_⟩
    obtain ⟨r, hr, hall⟩ := netUdpRxAvail_made gw nic datagrams
    have hmade : ∀ fresh', (udpRxAvail gw nic datagrams).frames fresh' = .ok (r.2.1.filterMap Event.queuedFrame) := by
      intro fresh'
      change (gw.netUdpRxAvail nic ⟨fresh', datagrams⟩ >>= _) = _
      rw [hr fresh']
      rfl
    have hl := Except.ok.inj (hok.symm.trans (hmade fresh))
    subst hl
    refine ⟨fun frame hframe => ?_, fun fresh' _ => hmade fresh'⟩
    obtain ⟨e, he, hqueued⟩ := List.mem_filterMap.mp hframe
    obtain ⟨nic', frame', heq, hip⟩ := hall e he
    rw [heq] at hqueued
    cases hqueued
    exact hip
  | ipBroadcastDhcp gw nic host packet =>
    by_cases h278 : 278 ≤ packet.len
    · obtain ⟨frame, hlen, hip, hudp, hfield, hmade⟩ := frames_ipBroadcastDhcp h278 gw nic host
      have hsum : packet.dhcpSum gw ≤ 65535 := by
        unfold Packet.dhcpSum uncheckedSum
        rw [onesSum_eq]
        exact onesFold_le _
      have hzero : slice frame 40 2 = [0#8, 0#8] ↔ packet.dhcpSum gw = 65535 := by
        rw [hfield, show [0#8, 0#8] = checksumBytes 65535 by decide]
        exact ⟨checksumBytes_inj hsum (Nat.le_refl _), fun h => by rw [h]⟩
      constructor
      · intro hright _ hsum
        have hverifies := (hright (fun _ _ => 0#8) [frame] (hmade _)).1 frame List.mem_cons_self
        exact hverifies.2.2 (hzero.mpr hsum)
      · intro hcan fresh l hok
        have hl := Except.ok.inj (hok.symm.trans (hmade fresh))
        subst hl
        refine ⟨fun frame' hframe' => ?_, fun fresh' _ => hmade fresh'⟩
        rw [List.mem_singleton.mp hframe']
        exact ⟨hip, hudp, fun h => hcan h278 (hzero.mp h)⟩
    · refine ⟨fun _ h => absurd h h278, fun _ fresh l hok => ?_⟩
      obtain ⟨hnil, hsame⟩ := frames_ipBroadcastDhcp_short (by omega) hok
      rw [hnil] at hsame ⊢
      exact ⟨fun frame hframe => absurd hframe List.not_mem_nil, fun fresh' _ => hsame fresh'⟩
  | arp gw nic packet => exact ⟨fun _ => trivial, fun _ _ _ hok => ⟨fun _ _ => trivial, fun _ _ => hok⟩⟩
  | ipIcmp nic host packet =>
    constructor
    · intro hright h8 h38
      by_contra hparity
      exact not_checksumsRight_ipIcmp h8 h38 (by omega) hright
    · intro hcan fresh l hok
      by_cases h8 : byte packet.frame 34 = 8#8
      · have h38 := le_of_frames_ipIcmp h8 hok
        have heven := hcan h8 h38
        obtain ⟨frame, -, hip, hicmp, -, hmade⟩ := frames_ipIcmp h8 h38 nic host fresh
        have hl := Except.ok.inj (hok.symm.trans (hmade fresh fun _ => rfl))
        subst hl
        refine ⟨fun frame' hframe' => ?_, fun fresh' _ => hmade fresh' fun hodd => by omega⟩
        rw [List.mem_singleton.mp hframe']
        exact ⟨hip, hicmp heven⟩
      · obtain ⟨hnil, hsame⟩ := frames_ipIcmp_other h8 hok
        rw [hnil] at hsame ⊢
        exact ⟨fun frame hframe => absurd hframe List.not_mem_nil, fun fresh' _ => hsame fresh'⟩

end

def oddPing : Packet where
  frame := natGateway.gatewayEthernetAddr.1 ++ List.replicate 6 0x02#8 ++ [0x08#8, 0x00#8, 0x45#8, 0x00#8] ++
    Lib.bytes true 2 29 ++ List.replicate 5 0#8 ++ [1#8, 0#8, 0#8, 10#8, 0#8, 0#8, 1#8, 10#8, 0#8, 0#8, 254#8] ++
    [8#8, 0#8, 0#8, 0#8, 0#8, 1#8, 0#8, 1#8, 0xaa#8]
  len := 43
  header := by decide
  fits := by decide

theorem oddPing_checksum : ¬ (ipIcmp none openHost oddPing).ChecksumsRight := by
  apply not_checksumsRight_ipIcmp
  · decide
  · decide
  · decide

end Builder

end Gxemul.Network
