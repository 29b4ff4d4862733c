import Gxemul.Lib.Bounds

/- The checksums of IP, ICMP, TCP and UDP (`src/net/net_ip.c`).

   A header is given as the function that reads its bytes, since both frames of the
   guest and replies are summed up. -/
namespace Gxemul.Network
open Lib (Byte Checked)

/-- `while (sum > 65535) …`. A sum of two 16-bit numbers needs one round. -/
def foldCarry : Nat → Nat → Nat
  | 0, sum => sum
  | fuel + 1, sum => if 65535 < sum then foldCarry fuel (sum % 65536 + sum / 65536) else sum

/-- `sum += w`, with the carry added again. -/
def addWord (sum w : Nat) : Nat := foldCarry 2 (sum + w)

/-- One round of the loops over a header: the word at `2 * k`, unless it is the checksum. -/
def checksumWord (rd : Nat → Checked Byte) (chksumoffset sum k : Nat) : Checked Nat :=
  if 2 * k = chksumoffset then .ok sum
  else do
    let hi ← rd (2 * k)
    let lo ← rd (2 * k + 1)
    return addWord sum (hi.toNat * 256 + lo.toNat)

def checksumWords (rd : Nat → Checked Byte) (chksumoffset len sum : Nat) : Checked Nat :=
  (List.range ((len + 1) / 2)).foldlM (checksumWord rd chksumoffset) sum

/-- `sum ^= 0xffff`, and its two bytes. -/
def checksumBytes (sum : Nat) : List Byte := Lib.bytes true 2 (sum ^^^ 0xffff)

/-- `net_ip_checksum()`: what it writes at `chksumoffset`. -/
def netIpChecksum (rd : Nat → Checked Byte) (chksumoffset len : Nat) : Checked (List Byte) := do
  let sum ← checksumWords rd chksumoffset len 0
  return checksumBytes sum

def pseudoh (tcpLen : Nat) (srcaddr dstaddr : List Byte) (udpflag : Bool) : List Byte :=
  srcaddr ++ dstaddr ++ [0#8, if udpflag then 17#8 else 6#8] ++ Lib.bytes true 2 tcpLen

/-- `net_ip_tcp_checksum()`: what it writes at `chksumoffset`. A last byte alone is padded. -/
def netIpTcpChecksum (rd : Nat → Checked Byte) (chksumoffset tcpLen : Nat) (srcaddr dstaddr : List Byte)
    (udpflag : Bool) : Checked (List Byte) := do
  let sum ← checksumWords (fun i => .ok (Lib.Buf.byte (pseudoh tcpLen srcaddr dstaddr udpflag) i)) 12 12 0
  let sum ← checksumWords (fun i => if i < tcpLen then rd i else .ok 0#8) chksumoffset tcpLen sum
  return checksumBytes sum

section
variable {rd : Nat → Checked Byte} {f : Nat → Byte} {chksumoffset len sum w tcpLen : Nat}

theorem checksumWords_ok (h : ∀ i, i < 2 * ((len + 1) / 2) → rd i = .ok (f i)) :
    ∃ sum', checksumWords rd chksumoffset len sum = .ok sum' ∧
      checksumWords (fun i => .ok (f i)) chksumoffset len sum = .ok sum' := by
  have hstep : ∀ (l : List Nat) (sum : Nat), (∀ k ∈ l, k < (len + 1) / 2) →
      ∃ sum', l.foldlM (checksumWord rd chksumoffset) sum = .ok sum' ∧
        l.foldlM (checksumWord (fun i => .ok (f i)) chksumoffset) sum = .ok sum' := by
    intro l
    induction l with
    | nil => exact fun sum _ => ⟨sum, rfl, rfl⟩
    | cons k l ih =>
      intro sum hl
      have hk := hl k List.mem_cons_self
      have hword : ∃ sum', checksumWord rd chksumoffset sum k = .ok sum' ∧
          checksumWord (fun i => .ok (f i)) chksumoffset sum k = .ok sum' := by
        unfold checksumWord
        split
        · exact ⟨sum, rfl, rfl⟩
        · rw [h (2 * k) (by omega), h (2 * k + 1) (by omega)]
          exact ⟨_, rfl, rfl⟩
      obtain ⟨sum', h1, h2⟩ := hword
      obtain ⟨sum'', h3, h4⟩ := ih sum' fun k' hk' => hl k' (List.mem_cons_of_mem _ hk')
      refine ⟨sum'', ?_, ?_⟩
      · rw [List.foldlM_cons, h1]
        exact h3
      · rw [List.foldlM_cons, h2]
        exact h4
  exact hstep _ sum fun k hk => List.mem_range.mp hk

theorem netIpTcpChecksum_ok {srcaddr dstaddr : List Byte} {udpflag : Bool} (h : ∀ i, i < tcpLen → rd i = .ok (f i)) :
    ∃ sum, netIpTcpChecksum rd chksumoffset tcpLen srcaddr dstaddr udpflag = .ok sum ∧
      netIpTcpChecksum (fun i => .ok (f i)) chksumoffset tcpLen srcaddr dstaddr udpflag = .ok sum := by
  obtain ⟨sum, hpseudo, -⟩ := @checksumWords_ok
    (fun i => .ok (Lib.Buf.byte (pseudoh tcpLen srcaddr dstaddr udpflag) i)) _ 12 12 0 fun _ _ => rfl
  have hpad : (fun i => if i < tcpLen then rd i else .ok 0#8) =
      fun i => .ok (if i < tcpLen then f i else 0#8) := by
    funext i
    by_cases hi : i < tcpLen
    · rw [if_pos hi, if_pos hi, h i hi]
    · rw [if_neg hi, if_neg hi]
  have hpad' : (fun i => if i < tcpLen then .ok (f i) else .ok 0#8) =
      fun i => (.ok (if i < tcpLen then f i else 0#8) : Checked Byte) := by
    funext i
    split <;> rfl
  obtain ⟨sum', hwords, -⟩ := @checksumWords_ok (fun i => .ok (if i < tcpLen then f i else 0#8)) _ chksumoffset tcpLen
    sum fun _ _ => rfl
  refine ⟨checksumBytes sum', ?_, ?_⟩
  · unfold netIpTcpChecksum
    rw [hpseudo, hpad]
    show (checksumWords _ _ _ _ >>= _) = _
    rw [hwords]
    rfl
  · unfold netIpTcpChecksum
    rw [hpseudo, hpad']
    show (checksumWords _ _ _ _ >>= _) = _
    rw [hwords]
    rfl

@[simp] theorem length_checksumBytes (sum : Nat) : (checksumBytes sum).length = 2 := Lib.length_bytes true 2 _

theorem length_netIpTcpChecksum {srcaddr dstaddr sum : List Byte} {udpflag : Bool}
    (h : netIpTcpChecksum rd chksumoffset tcpLen srcaddr dstaddr udpflag = .ok sum) : sum.length = 2 := by
  obtain ⟨s1, -, h⟩ := Lib.bind_eq_ok h
  obtain ⟨s2, -, h⟩ := Lib.bind_eq_ok h
  cases h
  exact length_checksumBytes s2

end

end Gxemul.Network
