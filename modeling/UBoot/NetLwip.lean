import UBoot.Memory

/-!
The frames that the recovery loop takes for its DHCP server before the network
stack sees them, `net_lwip_dispatch_recovery_dhcp` of `net/lwip/net-lwip.c`. The
frame is memory of which `len` bytes were received; a read beyond them has no
value in this model, and then neither has the function.
-/
namespace UBoot.NetLwip
open UBoot.Memory Option

def SIZEOF_ETH_HDR : Nat := 14
def SIZEOF_VLAN_HDR : Nat := 4
/-- The sizes of `struct ip_hdr` and `struct udp_hdr`. -/
def sizeof_ip_hdr : Nat := 20
def sizeof_udp_hdr : Nat := 8
def IP_HLEN : Nat := 20
def IP_HLEN_MAX : Nat := 60
def IP_PROTO_UDP : Nat := 17
def IP_MF : Nat := 0x2000
def IP_OFFMASK : Nat := 0x1fff
def ETHTYPE_IP : Nat := 0x0800
def ETHTYPE_VLAN : Nat := 0x8100
def ETHTYPE_QINQ : Nat := 0x9100
def ETHTYPE_8021AD : Nat := 0x88a8
def LWIP_IANA_PORT_DHCP_SERVER : Nat := 67
def LWIP_IANA_PORT_DHCP_CLIENT : Nat := 68
def RECOVERY_DHCP_MAX_VLAN_TAGS : Nat := 2

section
variable (packet : Nat → UInt8) (len : Int)

def read_u8 (i : Nat) : Option Nat := if (i : Int) < len then some (packet i).toNat else none

def read_u16 (i : Nat) : Option Nat :=
  (read_u8 packet len i).bind fun high => (read_u8 packet len (i+1)).map fun low => high*256+low

def read_bytes : Nat → Nat → Option (List UInt8)
  | _, 0 => some []
  | i, n+1 =>
    if (i : Int) < len then (read_bytes (i+1) n).map fun rest => packet i :: rest else none

/-- What the handler is given: the datagram, the sender's address and port. -/
structure Delivery where
  payload : List UInt8
  src_addr : List UInt8
  port : Nat
  deriving DecidableEq, Repr

def net_lwip_recovery_vlan_type (eth_type : Nat) : Bool :=
  eth_type = ETHTYPE_VLAN || eth_type = ETHTYPE_QINQ || eth_type = ETHTYPE_8021AD

/-- The loop over the tags, of which `tags` more are allowed: the type behind
    them and where it is, or nothing when the frame is refused. -/
def vlan_loop : Nat → Nat → Nat → Option (Option (Nat × Nat))
  | 0, eth_type, offset => some (some (eth_type,offset))
  | tags+1, eth_type, offset =>
    if net_lwip_recovery_vlan_type eth_type = false then some (some (eth_type,offset))
    else if len < offset+SIZEOF_VLAN_HDR then some none
    else
      (read_u16 packet len offset).bind fun prio_vid =>
        if prio_vid &&& 0x0fff ≠ 0 then some none
        else (read_u16 packet len (offset+2)).bind fun tpid => vlan_loop tags tpid (offset+SIZEOF_VLAN_HDR)

/-- The part about the UDP header, which begins at `udp`. -/
def dispatch_udp (memory : Bool) (ip ip_hlen ip_len : Nat) : Option (Option Delivery) :=
  let udp := ip+ip_hlen
  if len < udp+sizeof_udp_hdr then some none
  else
    (read_u16 packet len udp).bind fun src =>
      (read_u16 packet len (udp+2)).bind fun dest =>
        if src ≠ LWIP_IANA_PORT_DHCP_CLIENT ∨ dest ≠ LWIP_IANA_PORT_DHCP_SERVER then some none
        else
          (read_u16 packet len (udp+4)).bind fun udp_len =>
            if udp_len < sizeof_udp_hdr ∨ (udp_len : Int) > ip_len-ip_hlen ∨ len < udp+udp_len then some none
            else if udp_len-sizeof_udp_hdr = 0 then some none
            else if memory = false then some none
            else
              (read_bytes packet len (udp+sizeof_udp_hdr) (udp_len-sizeof_udp_hdr)).bind fun payload =>
                (read_bytes packet len (ip+12) 4).map fun src_addr => some ⟨payload,src_addr,src⟩

/-- The part about the IPv4 header, which begins at `ip`. -/
def dispatch_ip (memory : Bool) (eth_type ip : Nat) : Option (Option Delivery) :=
  if eth_type ≠ ETHTYPE_IP ∨ len < ip+(sizeof_ip_hdr+sizeof_udp_hdr) then some none
  else
    (read_u8 packet len ip).bind fun v_hl =>
      let ip_hlen := ((v_hl &&& 0x0f)*4)%256
      if v_hl >>> 4 ≠ 4 ∨ ip_hlen < IP_HLEN ∨ ip_hlen > IP_HLEN_MAX then some none
      else
        (read_u8 packet len (ip+9)).bind fun proto =>
          if proto ≠ IP_PROTO_UDP then some none
          else
            (read_u16 packet len (ip+2)).bind fun ip_len =>
              (read_u16 packet len (ip+6)).bind fun ip_offset =>
                if ip_offset &&& (IP_MF ||| IP_OFFMASK) ≠ 0 ∨ ip_len < ip_hlen+sizeof_udp_hdr ∨ (ip_len : Int) > len-ip
                then some none
                else dispatch_udp packet len memory ip ip_hlen ip_len

/-- The inner value is what the handler was given, if the frame was for it.
    `hook` says whether there is a handler, `memory` whether the buffer for the
    datagram could be had. -/
def net_lwip_dispatch_recovery_dhcp (hook memory : Bool) : Option (Option Delivery) :=
  if hook = false ∨ len < (SIZEOF_ETH_HDR+sizeof_ip_hdr+sizeof_udp_hdr : Nat) then some none
  else
    (read_u16 packet len 12).bind fun eth_type =>
      (vlan_loop packet len RECOVERY_DHCP_MAX_VLAN_TAGS eth_type SIZEOF_ETH_HDR).bind fun tagged =>
        tagged.elim (some none) fun found => dispatch_ip packet len memory found.1 found.2

def be16 (i : Nat) : Nat := (packet i).toNat*256+(packet (i+1)).toNat

/-- A whole IPv4 packet at `ip` with a whole UDP datagram in it, the payload of
    which is not empty: each of the three lengths leaves room for the next one,
    and the packet ends within the frame. -/
structure Datagram (ip : Nat) (payload : List UInt8) : Prop where
  version : (packet ip).toNat/16 = 4
  header : 20 ≤ 4*((packet ip).toNat%16)
  unfragmented : be16 packet (ip+6)%2^14 = 0
  protocol : (packet (ip+9)).toNat = IP_PROTO_UDP
  inside : (ip+be16 packet (ip+2) : Int) ≤ len
  source : be16 packet (ip+4*((packet ip).toNat%16)) = LWIP_IANA_PORT_DHCP_CLIENT
  destination : be16 packet (ip+4*((packet ip).toNat%16)+2) = LWIP_IANA_PORT_DHCP_SERVER
  nonempty : 8 < be16 packet (ip+4*((packet ip).toNat%16)+4)
  fits : 4*((packet ip).toNat%16)+be16 packet (ip+4*((packet ip).toNat%16)+4) ≤ be16 packet (ip+2)
  payload : payload = load packet (ip+4*((packet ip).toNat%16)+8) (be16 packet (ip+4*((packet ip).toNat%16)+4)-8)

end

section
variable {packet : Nat → UInt8} {len : Int}

theorem read_u8_inside {i : Nat} (inside : (i : Int) < len) : read_u8 packet len i = some (packet i).toNat :=
  if_pos inside

theorem read_u16_inside {i : Nat} (inside : (i : Int)+1 < len) : read_u16 packet len i = some (be16 packet i) := by
  rw [read_u16,read_u8_inside (by omega),bind_some,read_u8_inside (by omega),map_some,be16]

theorem read_bytes_inside (n : Nat) :
    ∀ i : Nat, (i : Int)+n ≤ len → read_bytes packet len i n = some (load packet i n) := by
  induction n with
  | zero =>
    intro i _
    rfl
  | succ n ih =>
    intro i inside
    rw [read_bytes,if_pos (by omega),ih (i+1) (by omega),map_some,load_succ]

theorem low_nibble (b : Nat) : b &&& 0x0f = b%16 := Nat.and_two_pow_sub_one_eq_mod b 4

theorem high_nibble (b : Nat) : b >>> 4 = b/16 := Nat.shiftRight_eq_div_pow b 4

theorem fragment_bits (w : Nat) : w &&& (IP_MF ||| IP_OFFMASK) = w%2^14 := by
  have mask : IP_MF ||| IP_OFFMASK = 2^14-1 := by decide
  rw [mask,Nat.and_two_pow_sub_one_eq_mod]

theorem vlan_loop_spec (tags : Nat) :
    ∀ eth_type offset : Nat, (offset : Int) ≤ len →
      ∃ tagged, vlan_loop packet len tags eth_type offset = some tagged ∧
        ∀ found ∈ tagged, ∃ k ≤ tags, found.2 = offset+4*k := by
  have size : SIZEOF_VLAN_HDR = 4 := rfl
  induction tags with
  | zero =>
    intro eth_type offset _
    refine ⟨some (eth_type,offset),rfl,?_⟩
    intro found same
    obtain rfl := Option.some.inj same
    exact ⟨0,le_rfl,rfl⟩
  | succ tags ih =>
    intro eth_type offset low
    rw [vlan_loop]
    by_cases plain : net_lwip_recovery_vlan_type eth_type = false
    · rw [if_pos plain]
      refine ⟨_,rfl,?_⟩
      intro found same
      obtain rfl := Option.some.inj same
      exact ⟨0,Nat.zero_le _,rfl⟩
    rw [if_neg plain]
    by_cases short : len < offset+SIZEOF_VLAN_HDR
    · rw [if_pos short]
      exact ⟨none,rfl,nofun⟩
    rw [size] at short
    rw [size,if_neg short,read_u16_inside (by omega),bind_some,read_u16_inside (by omega),bind_some]
    split
    · exact ⟨none,rfl,nofun⟩
    · obtain ⟨tagged,ends,placed⟩ := ih (be16 packet (offset+2)) (offset+4) (by omega)
      refine ⟨tagged,ends,?_⟩
      intro found member
      obtain ⟨k,few,place⟩ := placed found member
      exact ⟨k+1,by omega,by omega⟩

theorem header_bytes (b : Nat) : ((b &&& 0x0f)*4)%256 = 4*(b%16) := by
  rw [low_nibble]
  omega

theorem dispatch_udp_spec (memory : Bool) {ip : Nat} (version : (packet ip).toNat/16 = 4)
    (header : 20 ≤ 4*((packet ip).toNat%16)) (unfragmented : be16 packet (ip+6)%2^14 = 0)
    (protocol : (packet (ip+9)).toNat = IP_PROTO_UDP) (inside : (ip+be16 packet (ip+2) : Int) ≤ len)
    (room : 4*((packet ip).toNat%16)+8 ≤ be16 packet (ip+2)) :
    ∃ r, dispatch_udp packet len memory ip (4*((packet ip).toNat%16)) (be16 packet (ip+2)) = some r ∧
      ∀ d ∈ r, Datagram packet len ip d.payload := by
  set ihl := (packet ip).toNat%16
  have size : sizeof_udp_hdr = 8 := rfl
  have refused : ∃ r : Option Delivery, some none = some r ∧ ∀ d ∈ r, Datagram packet len ip d.payload :=
    ⟨none,rfl,nofun⟩
  rw [dispatch_udp,size]
  rw [if_neg (by push_cast; omega),read_u16_inside (by push_cast; omega),bind_some,
    read_u16_inside (by push_cast; omega),bind_some]
  by_cases ports : be16 packet (ip+4*ihl) ≠ LWIP_IANA_PORT_DHCP_CLIENT ∨
      be16 packet (ip+4*ihl+2) ≠ LWIP_IANA_PORT_DHCP_SERVER
  · rw [if_pos ports]
    exact refused
  rw [if_neg ports,read_u16_inside (by push_cast; omega),bind_some]
  simp only [not_or,not_not] at ports
  generalize lengths : be16 packet (ip+4*ihl+4) = udp_len
  by_cases bad : udp_len < 8 ∨ (udp_len : Int) > (be16 packet (ip+2) : Int)-(4*ihl : Nat) ∨
      len < (ip+4*ihl : Nat)+udp_len
  · rw [if_pos bad]
    exact refused
  rw [if_neg bad]
  by_cases empty : udp_len-8 = 0
  · rw [if_pos empty]
    exact refused
  rw [if_neg empty]
  cases memory with
  | false =>
    rw [if_pos rfl]
    exact refused
  | true =>
    rw [if_neg (by decide),read_bytes_inside _ _ (by push_cast; omega),bind_some,
      read_bytes_inside _ _ (by push_cast; omega),map_some]
    refine ⟨_,rfl,?_⟩
    intro d given
    obtain rfl := Option.some.inj given
    refine ⟨version,header,unfragmented,protocol,inside,ports.1,ports.2,?_,?_,?_⟩
    · rw [lengths]
      omega
    · rw [lengths]
      omega
    · rw [lengths]

theorem dispatch_ip_spec (memory : Bool) (eth_type ip : Nat) :
    ∃ r, dispatch_ip packet len memory eth_type ip = some r ∧ ∀ d ∈ r, Datagram packet len ip d.payload := by
  have sizes : sizeof_ip_hdr = 20 ∧ sizeof_udp_hdr = 8 ∧ IP_HLEN = 20 ∧ IP_HLEN_MAX = 60 := by decide
  obtain ⟨ip_size,udp_size,least,most⟩ := sizes
  have refused : ∃ r : Option Delivery, some none = some r ∧ ∀ d ∈ r, Datagram packet len ip d.payload :=
    ⟨none,rfl,nofun⟩
  rw [dispatch_ip,ip_size,udp_size,least,most]
  by_cases other : eth_type ≠ ETHTYPE_IP ∨ len < ip+(20+8)
  · rw [if_pos (by exact_mod_cast other)]
    exact refused
  rw [if_neg (by exact_mod_cast other),read_u8_inside (by omega),bind_some]
  rw [header_bytes,high_nibble]
  by_cases bad : (packet ip).toNat/16 ≠ 4 ∨ 4*((packet ip).toNat%16) < 20 ∨ 4*((packet ip).toNat%16) > 60
  · rw [if_pos bad]
    exact refused
  rw [if_neg bad,read_u8_inside (by omega),bind_some]
  by_cases foreign : (packet (ip+9)).toNat ≠ IP_PROTO_UDP
  · rw [if_pos foreign]
    exact refused
  rw [if_neg foreign,read_u16_inside (by omega),bind_some,read_u16_inside (by omega),bind_some,
    fragment_bits]
  by_cases unfit : be16 packet (ip+6)%2^14 ≠ 0 ∨ be16 packet (ip+2) < 4*((packet ip).toNat%16)+8 ∨
      (be16 packet (ip+2) : Int) > len-ip
  · rw [if_pos unfit]
    exact refused
  · rw [if_neg unfit]
    simp only [not_or,not_not] at unfit bad foreign
    exact dispatch_udp_spec memory bad.1 (by omega) unfit.1 foreign (by omega) (by omega)

/-- No byte beyond the frame is read, and what is delivered is the datagram of
    the IPv4 packet behind at most two tags. -/
theorem dispatch_exact (packet : Nat → UInt8) (len : Int) (hook memory : Bool) :
    ∃ r, net_lwip_dispatch_recovery_dhcp packet len hook memory = some r ∧
      ∀ d ∈ r, ∃ tags ≤ RECOVERY_DHCP_MAX_VLAN_TAGS, Datagram packet len (SIZEOF_ETH_HDR+4*tags) d.payload := by
  have sizes : SIZEOF_ETH_HDR = 14 ∧ sizeof_ip_hdr = 20 ∧ sizeof_udp_hdr = 8 := by decide
  obtain ⟨eth_size,ip_size,udp_size⟩ := sizes
  rw [net_lwip_dispatch_recovery_dhcp]
  by_cases short : hook = false ∨ len < (SIZEOF_ETH_HDR+sizeof_ip_hdr+sizeof_udp_hdr : Nat)
  · rw [if_pos short]
    exact ⟨none,rfl,nofun⟩
  · rw [if_neg short]
    rw [eth_size,ip_size,udp_size] at short
    rw [read_u16_inside (by omega),Option.bind_some]
    obtain ⟨tagged,ends,placed⟩ := @vlan_loop_spec packet len RECOVERY_DHCP_MAX_VLAN_TAGS (be16 packet 12) SIZEOF_ETH_HDR
      (by omega)
    rw [ends,Option.bind_some]
    cases tagged with
    | none => exact ⟨none,rfl,nofun⟩
    | some found =>
      obtain ⟨tags,few,place⟩ := placed found rfl
      obtain ⟨r,dispatched,exact_⟩ := @dispatch_ip_spec packet len memory found.1 found.2
      refine ⟨r,dispatched,?_⟩
      intro d given
      have datagram := exact_ d given
      rw [place] at datagram
      exact ⟨tags,few,datagram⟩

/-- A priority-tagged frame of 47 bytes with one byte of payload. -/
example : net_lwip_dispatch_recovery_dhcp
    (fun i => ([0xff,0xff,0xff,0xff,0xff,0xff,2,0,0,0,0,1,0x81,0x00,0,0,0x08,0x00,0x45,0,0,29,0,0,0,0,64,17,0,0,
      0,0,0,0,0xff,0xff,0xff,0xff,0,68,0,67,0,9,0,0,0xaa] : List UInt8).getD i 0) 47 true true =
    some (some ⟨[0xaa],[0,0,0,0],68⟩) := by decide

end
end UBoot.NetLwip
