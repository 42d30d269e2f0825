import UBoot.DhcpOptions

/-!
The start of the DHCP server of the recovery loop, `recovery_dhcp_server_init`
of `net/lwip/httpd_recovery.c`: the addresses that it is going to announce, and
whether a client can use the one that it is offered.
-/
namespace UBoot.DhcpOptions

def RECOVERY_DHCP_CLIENT_HOST : BitVec 32 := 2
/-- What `ip4addr_aton` makes of `RECOVERY_DHCP_BROADCAST_IPADDR`. -/
def recovery_dhcp_broadcast : Ip4 := ⟨192,168,0,255⟩

def recovery_dhcp_ip4_to_scalar (addr : Ip4) : BitVec 32 :=
  (addr.b0.toBitVec.setWidth 32) <<< 24 ||| (addr.b1.toBitVec.setWidth 32) <<< 16 |||
    (addr.b2.toBitVec.setWidth 32) <<< 8 ||| addr.b3.toBitVec.setWidth 32

def recovery_dhcp_scalar_to_ip4 (value : BitVec 32) : Ip4 :=
  ⟨⟨(value >>> 24).setWidth 8⟩,⟨(value >>> 16).setWidth 8⟩,⟨(value >>> 8).setWidth 8⟩,⟨value.setWidth 8⟩⟩

def ip4_addr_isany (addr : Ip4) : Bool := addr = ⟨0,0,0,0⟩

structure Netif where
  ip_addr : Ip4
  netmask : Ip4
  gw : Ip4

/-- The return code and the server. `pcb` says whether `udp_new` finds memory,
    `bound` whether the port is free; the addresses are set before both. -/
def recovery_dhcp_server_init (netif : Netif) (pcb bound : Bool) : Int × Server :=
  let server_addr := recovery_dhcp_ip4_to_scalar netif.ip_addr
  let netmask_addr := recovery_dhcp_ip4_to_scalar netif.netmask
  let network_addr := server_addr &&& netmask_addr
  let srv : Server := {
    server_ip := netif.ip_addr
    client_ip := recovery_dhcp_scalar_to_ip4 (network_addr ||| RECOVERY_DHCP_CLIENT_HOST)
    netmask := netif.netmask
    router := if ip4_addr_isany netif.gw then netif.ip_addr else netif.gw
    broadcast := if ip4_addr_isany netif.netmask then recovery_dhcp_broadcast
      else recovery_dhcp_scalar_to_ip4 (network_addr ||| ~~~netmask_addr)
    dns := netif.ip_addr }
  (if pcb = false then -ENOMEM else if bound = false then - EIO else 0,srv)

theorem scalar_bit (addr : Ip4) (i : Nat) :
    (recovery_dhcp_ip4_to_scalar addr).getLsbD i =
      if i < 8 then addr.b3.toBitVec.getLsbD i else if i < 16 then addr.b2.toBitVec.getLsbD (i-8)
      else if i < 24 then addr.b1.toBitVec.getLsbD (i-16)
      else decide (i < 32) && addr.b0.toBitVec.getLsbD (i-24) := by
  have above : ∀ (b : BitVec 8) (k : Nat), 8 ≤ k → b.getLsbD k = false := by
    intro b k high
    exact BitVec.getLsbD_of_ge b k high
  simp only [recovery_dhcp_ip4_to_scalar,BitVec.getLsbD_or,BitVec.getLsbD_shiftLeft,BitVec.getLsbD_setWidth]
  by_cases byte3 : i < 8
  · simp [byte3,show i < 16 by omega,show i < 24 by omega,show i < 32 by omega]
  by_cases byte2 : i < 16
  · simp [byte3,byte2,show i < 24 by omega,show i < 32 by omega,show i-8 < 32 by omega,above _ i (by omega)]
  · by_cases byte1 : i < 24
    · simp [byte3,byte2,byte1,show i < 32 by omega,show i-16 < 32 by omega,above _ i (by omega),above _ (i-8) (by omega)]
    · by_cases byte0 : i < 32
      · simp [byte3,byte2,byte1,byte0,show i-24 < 32 by omega,above _ i (by omega),above _ (i-8) (by omega),
          above _ (i-16) (by omega)]
      · simp [byte3,byte2,byte1,byte0]

theorem scalar_of_scalar (value : BitVec 32) :
    recovery_dhcp_ip4_to_scalar (recovery_dhcp_scalar_to_ip4 value) = value := by
  apply BitVec.eq_of_getLsbD_eq
  intro i below
  rw [scalar_bit]
  simp only [recovery_dhcp_scalar_to_ip4,BitVec.getLsbD_setWidth,BitVec.getLsbD_ushiftRight]
  by_cases byte3 : i < 8
  · simp [byte3]
  · by_cases byte2 : i < 16
    · simp [byte3,byte2,show i-8 < 8 by omega,show 8+(i-8) = i by omega]
    · by_cases byte1 : i < 24
      · simp [byte3,byte2,byte1,show i-16 < 8 by omega,show 16+(i-16) = i by omega]
      · simp [byte3,byte2,byte1,below,show i-24 < 8 by omega,show 24+(i-24) = i by omega]

def contiguous (n : Nat) : BitVec 32 := BitVec.allOnes 32 <<< (32-n)

/-- The client gets an address of the server's subnet that is neither the
    server's own nor one of the two that stand for the whole subnet. -/
structure Usable (srv : Server) : Prop where
  subnet : recovery_dhcp_ip4_to_scalar srv.client_ip &&& recovery_dhcp_ip4_to_scalar srv.netmask =
    recovery_dhcp_ip4_to_scalar srv.server_ip &&& recovery_dhcp_ip4_to_scalar srv.netmask
  not_server : srv.client_ip ≠ srv.server_ip
  not_network : recovery_dhcp_ip4_to_scalar srv.client_ip ≠
    recovery_dhcp_ip4_to_scalar srv.server_ip &&& recovery_dhcp_ip4_to_scalar srv.netmask
  not_broadcast : srv.client_ip ≠ srv.broadcast

theorem scalar_injective {a b : Ip4} (same : recovery_dhcp_ip4_to_scalar a = recovery_dhcp_ip4_to_scalar b) : a = b := by
  have bits : ∀ i, (recovery_dhcp_ip4_to_scalar a).getLsbD i = (recovery_dhcp_ip4_to_scalar b).getLsbD i := by
    intro i
    rw [same]
  have byte : ∀ {x y : UInt8}, (∀ i, i < 8 → x.toBitVec.getLsbD i = y.toBitVec.getLsbD i) → x = y := by
    intro x y equal
    exact UInt8.toBitVec_inj.mp (BitVec.eq_of_getLsbD_eq equal)
  have b3 : a.b3 = b.b3 := by
    apply byte
    intro i below
    have bit := bits i
    rwa [scalar_bit,scalar_bit,if_pos below,if_pos below] at bit
  have b2 : a.b2 = b.b2 := by
    apply byte
    intro i below
    have bit := bits (i+8)
    simp only [scalar_bit,show ¬ i+8 < 8 by omega,show i+8 < 16 by omega,if_false,if_true,Nat.add_sub_cancel] at bit
    exact bit
  have b1 : a.b1 = b.b1 := by
    apply byte
    intro i below
    have bit := bits (i+16)
    simp only [scalar_bit,show ¬ i+16 < 8 by omega,show ¬ i+16 < 16 by omega,show i+16 < 24 by omega,if_false,if_true,
      Nat.add_sub_cancel] at bit
    exact bit
  have b0 : a.b0 = b.b0 := by
    apply byte
    intro i below
    have bit := bits (i+24)
    simp only [scalar_bit,show ¬ i+24 < 8 by omega,show ¬ i+24 < 16 by omega,show ¬ i+24 < 24 by omega,
      show i+24 < 32 by omega,if_false,decide_true,Bool.true_and,Nat.add_sub_cancel] at bit
    exact bit
  cases a
  cases b
  simp_all

theorem contiguous_low {n : Nat} (high : n ≤ 30) {i : Nat} (low : i < 2) : (contiguous n).getLsbD i = false := by
  rw [contiguous,BitVec.getLsbD_shiftLeft]
  simp [show i < 32-n by omega]

theorem contiguous_top {n : Nat} (low : 1 ≤ n) : (contiguous n).getLsbD 31 = true := by
  have above : ¬ 31 < 32-n := by omega
  have inside : 31-(32-n) < 32 := by omega
  rw [contiguous,BitVec.getLsbD_shiftLeft,BitVec.getLsbD_allOnes]
  simp [above,inside]

section
variable {server mask : BitVec 32}

theorem host_bit (i : Nat) : RECOVERY_DHCP_CLIENT_HOST.getLsbD i = decide (i = 1) := by
  by_cases below : i < 32
  · have all : ∀ k : Fin 32, RECOVERY_DHCP_CLIENT_HOST.getLsbD k.val = decide (k.val = 1) := by decide
    exact all ⟨i,below⟩
  · rw [BitVec.getLsbD_of_ge _ _ (by omega),eq_comm,decide_eq_false_iff_not]
    omega

theorem client_subnet (free : ∀ i, i < 2 → mask.getLsbD i = false) :
    (server &&& mask ||| RECOVERY_DHCP_CLIENT_HOST) &&& mask = server &&& mask := by
  apply BitVec.eq_of_getLsbD_eq
  intro i _
  simp only [BitVec.getLsbD_and,BitVec.getLsbD_or,host_bit]
  by_cases one : i = 1
  · rw [one,free 1 (by omega)]
    simp
  · simp [one]

theorem client_server (free : ∀ i, i < 2 → mask.getLsbD i = false) :
    server &&& mask ||| RECOVERY_DHCP_CLIENT_HOST = server ↔ server &&& ~~~mask = RECOVERY_DHCP_CLIENT_HOST := by
  have bitwise : ∀ i, i < 32 →
      (((server &&& mask ||| RECOVERY_DHCP_CLIENT_HOST).getLsbD i = server.getLsbD i) ↔
        ((server &&& ~~~mask).getLsbD i = RECOVERY_DHCP_CLIENT_HOST.getLsbD i)) := by
    intro i below
    simp only [BitVec.getLsbD_and,BitVec.getLsbD_or,BitVec.getLsbD_not,host_bit,below,decide_true,Bool.true_and]
    by_cases one : i = 1
    · rw [one,free 1 (by omega)]
      cases server.getLsbD 1 <;> simp
    · cases server.getLsbD i <;> cases mask.getLsbD i <;> simp [one]
  constructor
  · intro same
    apply BitVec.eq_of_getLsbD_eq
    intro i below
    exact (bitwise i below).mp (by rw [same])
  · intro same
    apply BitVec.eq_of_getLsbD_eq
    intro i below
    exact (bitwise i below).mpr (by rw [same])

theorem client_network (free : ∀ i, i < 2 → mask.getLsbD i = false) :
    server &&& mask ||| RECOVERY_DHCP_CLIENT_HOST ≠ server &&& mask := by
  intro same
  have bit := congrArg (fun value => value.getLsbD 1) same
  simp only [BitVec.getLsbD_and,BitVec.getLsbD_or,host_bit,free 1 (by omega)] at bit
  simp at bit

theorem client_broadcast (free : ∀ i, i < 2 → mask.getLsbD i = false) :
    server &&& mask ||| RECOVERY_DHCP_CLIENT_HOST ≠ server &&& mask ||| ~~~mask := by
  intro same
  have bit := congrArg (fun value => value.getLsbD 0) same
  simp only [BitVec.getLsbD_and,BitVec.getLsbD_or,BitVec.getLsbD_not,host_bit,free 0 (by omega)] at bit
  simp at bit

end

/-- The offer is of use unless the server itself has the host number that is
    put behind the network. -/
theorem client_usable_iff (netif : Netif) (pcb bound : Bool) (n : Nat) (low : 1 ≤ n) (high : n ≤ 30)
    (mask : recovery_dhcp_ip4_to_scalar netif.netmask = contiguous n) :
    Usable (recovery_dhcp_server_init netif pcb bound).2 ↔
      recovery_dhcp_ip4_to_scalar netif.ip_addr &&& ~~~(recovery_dhcp_ip4_to_scalar netif.netmask) ≠
        RECOVERY_DHCP_CLIENT_HOST := by
  have free : ∀ i, i < 2 → (recovery_dhcp_ip4_to_scalar netif.netmask).getLsbD i = false := by
    intro i below
    rw [mask]
    exact contiguous_low high below
  have set_ : ip4_addr_isany netif.netmask = false := by
    rw [ip4_addr_isany,decide_eq_false_iff_not]
    intro zero
    have top := contiguous_top low
    rw [← mask,zero] at top
    exact absurd top (by decide)
  have client : recovery_dhcp_ip4_to_scalar (recovery_dhcp_server_init netif pcb bound).2.client_ip =
      recovery_dhcp_ip4_to_scalar netif.ip_addr &&& recovery_dhcp_ip4_to_scalar netif.netmask |||
        RECOVERY_DHCP_CLIENT_HOST := scalar_of_scalar _
  have broadcast : recovery_dhcp_ip4_to_scalar (recovery_dhcp_server_init netif pcb bound).2.broadcast =
      recovery_dhcp_ip4_to_scalar netif.ip_addr &&& recovery_dhcp_ip4_to_scalar netif.netmask |||
        ~~~(recovery_dhcp_ip4_to_scalar netif.netmask) := by
    rw [recovery_dhcp_server_init]
    dsimp only
    rw [if_neg (by rw [set_]; decide)]
    exact scalar_of_scalar _
  rw [ne_eq,← not_congr (client_server free)]
  constructor
  · intro usable same
    exact usable.not_server (scalar_injective (client.trans same))
  · intro other
    refine ⟨?_,?_,?_,?_⟩
    · rw [client]
      exact client_subnet free
    · intro same
      rw [← client,same] at other
      exact other rfl
    · rw [client]
      exact client_network free
    · intro same
      rw [← same,client] at broadcast
      exact client_broadcast free broadcast

theorem client_usable_iff_default :
    Usable (recovery_dhcp_server_init ⟨⟨192,168,0,1⟩,⟨255,255,255,0⟩,⟨0,0,0,0⟩⟩ true true).2 :=
  (client_usable_iff ⟨⟨192,168,0,1⟩,⟨255,255,255,0⟩,⟨0,0,0,0⟩⟩ true true 24 (by decide) (by decide) (by decide)).mpr
    (by decide)

/-- A server at host 2 offers its own address. -/
theorem server_offers_itself :
    ¬ ∀ (netif : Netif) (pcb bound : Bool) (n : Nat), 1 ≤ n → n ≤ 30 →
      recovery_dhcp_ip4_to_scalar netif.netmask = contiguous n →
        Usable (recovery_dhcp_server_init netif pcb bound).2 := by
  intro always
  have usable := always ⟨⟨192,168,0,2⟩,⟨255,255,255,0⟩,⟨0,0,0,0⟩⟩ true true 24 (by decide) (by decide) (by decide)
  exact usable.not_server (by decide)

end UBoot.DhcpOptions
