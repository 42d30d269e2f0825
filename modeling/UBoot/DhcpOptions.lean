import Mathlib.Tactic

/-!
The DHCP server of the recovery loop (`net/lwip/httpd_recovery.c`): the walk
over the options of a received message, the helpers that put options into a
reply, and the reply itself. A read outside the received bytes and a write
outside the options field have no result in this model, so a theorem that
gives a result says that neither happens.
-/
namespace UBoot.DhcpOptions
open List Option

def ENOENT : Int := 2
def EIO : Int := 5
def ENOMEM : Int := 12
def EINVAL : Int := 22
def ENOSPC : Int := 28

def DHCP_OPTIONS_OFS : Nat := 240
def DHCP_MIN_OPTIONS_LEN : Nat := 68
def DHCP_OPTIONS_LEN : Nat := DHCP_MIN_OPTIONS_LEN
def RECOVERY_DHCP_MAX_MSG_LEN : Nat := 1500
def RECOVERY_DHCP_LEASE_SECS : Nat := 86400

def DHCP_OPTION_PAD : UInt8 := 0
def DHCP_OPTION_SUBNET_MASK : UInt8 := 1
def DHCP_OPTION_ROUTER : UInt8 := 3
def DHCP_OPTION_DNS_SERVER : UInt8 := 6
def DHCP_OPTION_BROADCAST : UInt8 := 28
def DHCP_OPTION_REQUESTED_IP : UInt8 := 50
def DHCP_OPTION_LEASE_TIME : UInt8 := 51
def DHCP_OPTION_MESSAGE_TYPE : UInt8 := 53
def DHCP_OPTION_SERVER_ID : UInt8 := 54
def DHCP_OPTION_T1 : UInt8 := 58
def DHCP_OPTION_T2 : UInt8 := 59
def DHCP_OPTION_END : UInt8 := 255

def DHCP_BOOTREQUEST : UInt8 := 1
def DHCP_BOOTREPLY : UInt8 := 2
def DHCP_DISCOVER : UInt8 := 1
def DHCP_OFFER : UInt8 := 2
def DHCP_REQUEST : UInt8 := 3
def DHCP_ACK : UInt8 := 5
def DHCP_NAK : UInt8 := 6
def DHCP_INFORM : UInt8 := 8
def LWIP_IANA_HWTYPE_ETHERNET : UInt8 := 1
def ARP_HLEN : UInt8 := 6
def LWIP_IANA_PORT_DHCP_CLIENT : Nat := 68
def DHCP_MAGIC_COOKIE : List UInt8 := [0x63,0x82,0x53,0x63]

/-- `ip4_addr_t`, carried as wire-order bytes. -/
structure Ip4 where
  b0 : UInt8
  b1 : UInt8
  b2 : UInt8
  b3 : UInt8
  deriving DecidableEq, Repr

def Ip4.bytes (ip : Ip4) : List UInt8 := [ip.b0,ip.b1,ip.b2,ip.b3]

/-- What a reading function does: it reads outside the packet, returns an error
    code, or returns 0 with a value. -/
inductive Outcome (α : Type) where
  | outside
  | error (code : Int)
  | ok (a : α)
  deriving DecidableEq, Repr

def Outcome.bind {α β : Type} : Outcome α → (α → Outcome β) → Outcome β
  | .outside, _ => .outside
  | .error code, _ => .error code
  | .ok a, f => f a

/-- The loop of `recovery_dhcp_get_option` from an offset on. -/
def get_option_from (pkt : List UInt8) (pkt_len : Nat) (code : UInt8) (off : Nat) : Outcome (Nat × UInt8) :=
  if off < pkt_len then
    match pkt[off]? with
    | none => .outside
    | some opt =>
      if opt = DHCP_OPTION_PAD then get_option_from pkt pkt_len code (off+1)
      else if opt = DHCP_OPTION_END then .error (-ENOENT)
      else if pkt_len ≤ off+1 then .error (-EINVAL)
      else
        match pkt[off+1]? with
        | none => .outside
        | some opt_len =>
          if pkt_len < off+2+opt_len.toNat then .error (-EINVAL)
          else if opt = code then .ok (off+2,opt_len)
          else get_option_from pkt pkt_len code (off+2+opt_len.toNat)
  else .error (-EINVAL)
termination_by pkt_len-off

def recovery_dhcp_get_option (pkt : List UInt8) (pkt_len : Nat) (code : UInt8) : Outcome (Nat × UInt8) :=
  get_option_from pkt pkt_len code DHCP_OPTIONS_OFS

def recovery_dhcp_get_u8_option (pkt : List UInt8) (pkt_len : Nat) (code : UInt8) : Outcome UInt8 :=
  (recovery_dhcp_get_option pkt pkt_len code).bind fun (off,opt_len) =>
    if opt_len ≠ 1 then .error (-EINVAL)
    else
      match pkt[off]? with
      | none => .outside
      | some value => .ok value

def recovery_dhcp_get_ip4_option (pkt : List UInt8) (pkt_len : Nat) (code : UInt8) : Outcome Ip4 :=
  (recovery_dhcp_get_option pkt pkt_len code).bind fun (off,opt_len) =>
    if opt_len ≠ 4 then .error (-EINVAL)
    else
      match pkt[off]?, pkt[off+1]?, pkt[off+2]?, pkt[off+3]? with
      | some b0, some b1, some b2, some b3 => .ok ⟨b0,b1,b2,b3⟩
      | _, _, _, _ => .outside

/-- `options[i] = value`, no result outside the field. -/
def put (options : List UInt8) (i : Nat) (value : UInt8) : Option (List UInt8) :=
  if i < options.length then some (options.set i value) else none

def put_bytes (options : List UInt8) (i : Nat) : List UInt8 → Option (List UInt8)
  | [] => some options
  | b :: rest => (put options i b).bind fun options => put_bytes options (i+1) rest

def recovery_dhcp_put_option_head (options : List UInt8) (off : Int) (code len : UInt8) :
    Option (Int × List UInt8) :=
  if off < 0 ∨ off+2+len.toNat > DHCP_OPTIONS_LEN then some (-ENOSPC,options)
  else do
    let options ← put options off.toNat code
    let options ← put options (off.toNat+1) len
    some (off+2,options)

/-- The common part of the three helpers below: a head, then the bytes of the
    value unless the head failed. -/
def put_option (options : List UInt8) (off : Int) (code : UInt8) (value : List UInt8) :
    Option (Int × List UInt8) := do
  let (off,options) ← recovery_dhcp_put_option_head options off code (UInt8.ofNat value.length)
  if off < 0 then some (off,options)
  else do
    let options ← put_bytes options off.toNat value
    some (off+value.length,options)

def lwip_htonl (value : Nat) : List UInt8 :=
  [UInt8.ofNat (value/2^24),UInt8.ofNat (value/2^16),UInt8.ofNat (value/2^8),UInt8.ofNat value]

def recovery_dhcp_put_u8_option (options : List UInt8) (off : Int) (code value : UInt8) :
    Option (Int × List UInt8) := put_option options off code [value]

def recovery_dhcp_put_u32_option (options : List UInt8) (off : Int) (code : UInt8) (value : Nat) :
    Option (Int × List UInt8) := put_option options off code (lwip_htonl value)

def recovery_dhcp_put_ip4_option (options : List UInt8) (off : Int) (code : UInt8) (addr : Ip4) :
    Option (Int × List UInt8) := put_option options off code addr.bytes

/-- The padding loop of `recovery_dhcp_finalize_options`. -/
def pad_from (options : List UInt8) (opt_len : Nat) : Option (Nat × List UInt8) :=
  if (opt_len < DHCP_MIN_OPTIONS_LEN ∨ opt_len%4 ≠ 0) ∧ opt_len < DHCP_OPTIONS_LEN then
    (put options opt_len DHCP_OPTION_PAD).bind fun options => pad_from options (opt_len+1)
  else some (opt_len,options)
termination_by DHCP_OPTIONS_LEN-opt_len

/-- The END option, the padding, and how long the options are in the end. -/
def recovery_dhcp_finalize_options (options : List UInt8) (opt_len : Nat) : Option (Nat × List UInt8) := do
  let options ← put options opt_len DHCP_OPTION_END
  pad_from options (opt_len+1)

/-- `struct recovery_dhcp_server`: the addresses of the configuration. -/
structure Server where
  server_ip : Ip4
  client_ip : Ip4
  netmask : Ip4
  router : Ip4
  broadcast : Ip4
  dns : Ip4

/-- A field of the fixed part of `struct dhcp_msg`, by offset and length. -/
def field (pkt : List UInt8) (off len : Nat) : List UInt8 := (pkt.drop off).take len

def reply_header (srv : Server) (req : List UInt8) (assign_address : Bool) : List UInt8 :=
  let none_ : List UInt8 := [0,0,0,0]
  DHCP_BOOTREPLY :: field req 1 3 ++ field req 4 4 ++ field req 8 2 ++
    -- `req->flags | lwip_htons(0x8000)`: the broadcast bit is in the first byte.
    (field req 10 1).map (· ||| 0x80) ++ field req 11 1 ++ none_ ++
    (if assign_address then srv.client_ip.bytes else none_) ++
    (if assign_address then srv.server_ip.bytes else none_) ++ field req 24 4 ++ field req 28 16 ++
    List.replicate 64 0 ++ List.replicate 128 0 ++ DHCP_MAGIC_COOKIE

def reply_options (srv : Server) (message_type : UInt8) (assign_address : Bool) (options : List UInt8) :
    Option (Int × List UInt8) := do
  let include_config := message_type ≠ DHCP_NAK
  let (opt_len,options) ← recovery_dhcp_put_u8_option options 0 DHCP_OPTION_MESSAGE_TYPE message_type
  let (opt_len,options) ← recovery_dhcp_put_ip4_option options opt_len DHCP_OPTION_SERVER_ID srv.server_ip
  let (opt_len,options) ←
    if assign_address then do
      let (opt_len,options) ←
        recovery_dhcp_put_u32_option options opt_len DHCP_OPTION_LEASE_TIME RECOVERY_DHCP_LEASE_SECS
      let (opt_len,options) ←
        recovery_dhcp_put_u32_option options opt_len DHCP_OPTION_T1 (RECOVERY_DHCP_LEASE_SECS/2)
      recovery_dhcp_put_u32_option options opt_len DHCP_OPTION_T2 (RECOVERY_DHCP_LEASE_SECS*7/8)
    else some (opt_len,options)
  if include_config then do
    let (opt_len,options) ← recovery_dhcp_put_ip4_option options opt_len DHCP_OPTION_SUBNET_MASK srv.netmask
    let (opt_len,options) ← recovery_dhcp_put_ip4_option options opt_len DHCP_OPTION_ROUTER srv.router
    let (opt_len,options) ← recovery_dhcp_put_ip4_option options opt_len DHCP_OPTION_BROADCAST srv.broadcast
    recovery_dhcp_put_ip4_option options opt_len DHCP_OPTION_DNS_SERVER srv.dns
  else some (opt_len,options)

/-- The return code and the message handed to `udp_sendto_if_src`. `alloc` says
    whether `pbuf_alloc` finds memory, `sent` whether sending succeeds. -/
def recovery_dhcp_send_reply (srv : Server) (req : List UInt8) (message_type : UInt8) (assign_address : Bool)
    (alloc sent : Bool) : Option (Int × Option (List UInt8)) :=
  if alloc then do
    let (opt_len,options) ← reply_options srv message_type assign_address (List.replicate DHCP_OPTIONS_LEN 0)
    if opt_len < 0 then some (opt_len,none)
    else do
      let (opt_len,options) ← recovery_dhcp_finalize_options options opt_len.toNat
      let reply := reply_header srv req assign_address ++ options.take opt_len
      some (if sent then 0 else - EIO,some reply)
  else some (-ENOMEM,none)

inductive Verdict where
  | ack
  | nak
  | ignore
  deriving DecidableEq, Repr

/-- `recovery_dhcp_classify_request`; a failed option read counts as absent. -/
def recovery_dhcp_classify_request (srv : Server) (pkt : List UInt8) (pkt_len : Nat) : Outcome Verdict :=
  let judge (addr : List UInt8) : Verdict := if addr = srv.client_ip.bytes then .ack else .nak
  let by_address : Outcome Verdict :=
    match recovery_dhcp_get_ip4_option pkt pkt_len DHCP_OPTION_REQUESTED_IP with
    | .outside => .outside
    | .ok requested => .ok (judge requested.bytes)
    | .error _ =>
      let ciaddr := field pkt 12 4
      if ciaddr ≠ [0,0,0,0] then .ok (judge ciaddr) else .ok .ack
  match recovery_dhcp_get_ip4_option pkt pkt_len DHCP_OPTION_SERVER_ID with
  | .outside => .outside
  | .ok server_id => if server_id ≠ srv.server_ip then .ok .ignore else by_address
  | .error _ => by_address

/-- `recovery_dhcp_recv` on the payload of a datagram: the message that is
    sent, if any. No result when a read or a write leaves its field. -/
def recovery_dhcp_recv (srv : Server) (payload : List UInt8) (port : Nat) (rx_allowed alloc sent : Bool) :
    Option (Option (List UInt8)) :=
  let pkt := payload.take RECOVERY_DHCP_MAX_MSG_LEN
  let pkt_len := pkt.length
  if rx_allowed = false ∨ port ≠ LWIP_IANA_PORT_DHCP_CLIENT ∨ pkt_len < DHCP_OPTIONS_OFS then some none
  else if field pkt 0 1 ≠ [DHCP_BOOTREQUEST] ∨ field pkt 1 1 ≠ [LWIP_IANA_HWTYPE_ETHERNET] ∨
      field pkt 2 1 ≠ [ARP_HLEN] ∨ field pkt 236 4 ≠ DHCP_MAGIC_COOKIE then some none
  else
    match recovery_dhcp_get_u8_option pkt pkt_len DHCP_OPTION_MESSAGE_TYPE with
    | .outside => none
    | .error _ => some none
    | .ok message_type =>
      let send (message_type : UInt8) (assign_address : Bool) :=
        (recovery_dhcp_send_reply srv pkt message_type assign_address alloc sent).map Prod.snd
      if message_type = DHCP_DISCOVER then send DHCP_OFFER true
      else if message_type = DHCP_REQUEST then
        match recovery_dhcp_classify_request srv pkt pkt_len with
        | .outside => none
        | .error _ => some none
        | .ok .ack => send DHCP_ACK true
        | .ok .nak => send DHCP_NAK false
        | .ok .ignore => some none
      else if message_type = DHCP_INFORM then send DHCP_ACK false
      else some none

inductive Item where
  | pad
  | option (code : UInt8) (value : List UInt8)

def Item.bytes : Item → List UInt8
  | .pad => [DHCP_OPTION_PAD]
  | .option code value => code :: UInt8.ofNat value.length :: value

/-- An option has a code of its own and a length that fits its byte. -/
def Item.WellFormed : Item → Prop
  | .pad => True
  | .option code value => code ≠ DHCP_OPTION_PAD ∧ code ≠ DHCP_OPTION_END ∧ value.length < 256

def Item.Has (code : UInt8) : Item → Prop
  | .pad => False
  | .option other _ => other = code

def encode (items : List Item) : List UInt8 := items.flatMap Item.bytes

def Passes (code : UInt8) (items : List Item) : Prop := ∀ item ∈ items, item.WellFormed ∧ ¬ item.Has code

@[simp] theorem encode_nil : encode [] = [] := rfl
@[simp] theorem encode_cons (item : Item) (items : List Item) : encode (item :: items) = item.bytes ++ encode items := rfl
@[simp] theorem encode_append (first second : List Item) : encode (first ++ second) = encode first ++ encode second :=
  flatMap_append

variable {items : List Item} {off : Nat} {pkt req tail : List UInt8} (srv : Server)
    (code message_type : UInt8) (assign_address : Bool)

theorem read_at {b : UInt8} (here : pkt.drop off = b :: tail) :
    off < pkt.length ∧ pkt[off]? = some b ∧ pkt.drop (off+1) = tail := by
  have bound : off < pkt.length := by
    by_contra past
    rw [drop_eq_nil_of_le (by omega)] at here
    contradiction
  rw [drop_eq_getElem_cons bound] at here
  obtain ⟨rfl,rfl⟩ := List.cons.inj here
  exact ⟨bound,getElem?_eq_getElem bound,rfl⟩

theorem walk_pad (here : pkt.drop off = DHCP_OPTION_PAD :: tail) :
    get_option_from pkt pkt.length code off = get_option_from pkt pkt.length code (off+1) := by
  obtain ⟨bound,first,_⟩ := read_at here
  rw [get_option_from]
  simp only [bound,first,if_true]

theorem walk_end (here : pkt.drop off = DHCP_OPTION_END :: tail) :
    get_option_from pkt pkt.length code off = .error (-ENOENT) := by
  obtain ⟨bound,first,_⟩ := read_at here
  have notPad : DHCP_OPTION_END ≠ DHCP_OPTION_PAD := by decide
  rw [get_option_from]
  simp only [bound,first,notPad,if_true,if_false]

theorem walk_option {pkt value tail : List UInt8} {opt : UInt8}
    (formed : (Item.option opt value).WellFormed) (here : pkt.drop off = (Item.option opt value).bytes ++ tail) :
    get_option_from pkt pkt.length code off =
      if opt = code then .ok (off+2,UInt8.ofNat value.length)
      else get_option_from pkt pkt.length code (off+2+value.length) := by
  obtain ⟨notPad,notEnd,short⟩ := formed
  replace here : pkt.drop off = opt :: UInt8.ofNat value.length :: (value ++ tail) := here
  obtain ⟨bound,first,next⟩ := read_at here
  obtain ⟨lengthBound,second,rest⟩ := read_at next
  have length : (UInt8.ofNat value.length).toNat = value.length := by
    rw [UInt8.toNat_ofNat']
    exact Nat.mod_eq_of_lt (by omega)
  have whole := congrArg List.length rest
  rw [length_drop,length_append] at whole
  have inside : ¬ pkt.length < off+2+value.length := by omega
  have more : ¬ pkt.length ≤ off+1 := by omega
  rw [get_option_from]
  simp only [bound,if_true,first,notPad,notEnd,if_false,more,second,length,inside]

theorem walk_passes {code : UInt8} (passes : Passes code items) (here : pkt.drop off = encode items ++ tail) :
    get_option_from pkt pkt.length code off = get_option_from pkt pkt.length code (off+(encode items).length) ∧
      pkt.drop (off+(encode items).length) = tail := by
  induction items generalizing off with
  | nil => exact ⟨rfl,here⟩
  | cons item items ih =>
    obtain ⟨formed,other⟩ := passes item mem_cons_self
    have later : Passes code items := fun item member => passes item (mem_cons_of_mem _ member)
    rw [encode_cons,append_assoc] at here
    have next : pkt.drop (off+item.bytes.length) = encode items ++ tail := by
      rw [← drop_drop,here,drop_left]
    obtain ⟨same,left⟩ := ih later next
    rw [encode_cons,length_append,← add_assoc]
    refine ⟨?_,left⟩
    rw [← same]
    cases item with
    | pad => exact walk_pad code here
    | option opt value =>
      have differs : ¬ opt = code := other
      rw [walk_option code formed here,if_neg differs]
      congr 1
      simp [Item.bytes]
      omega

/-- What the walk over the bytes from `off` on can find: the first option of
    the code before END, an END before any such option, or a truncated or
    missing option. -/
inductive Finds (pkt : List UInt8) (code : UInt8) (off : Nat) : Outcome (Nat × UInt8) → Prop
  | option (items : List Item) (value tail : List UInt8) (passes : Passes code items)
      (formed : (Item.option code value).WellFormed)
      (here : pkt.drop off = encode items ++ (Item.option code value).bytes ++ tail) :
      Finds pkt code off (.ok (off+(encode items).length+2,UInt8.ofNat value.length))
  | ending (items : List Item) (tail : List UInt8) (passes : Passes code items)
      (here : pkt.drop off = encode items ++ DHCP_OPTION_END :: tail) : Finds pkt code off (.error (-ENOENT))
  | malformed (items : List Item) (tail : List UInt8) (passes : Passes code items)
      (here : pkt.drop off = encode items ++ tail)
      (truncated : tail = [] ∨ ∃ opt rest, tail = opt :: rest ∧ opt ≠ DHCP_OPTION_PAD ∧ opt ≠ DHCP_OPTION_END ∧
        ∀ len value, rest = len :: value → value.length < len.toNat) : Finds pkt code off (.error (-EINVAL))

theorem finds_after {code : UInt8} (item : Item)
    (formed : item.WellFormed) (other : ¬ item.Has code) (here : pkt.drop off = item.bytes ++ tail)
    {result : Outcome (Nat × UInt8)} (finds : Finds pkt code (off+item.bytes.length) result) :
    Finds pkt code off result := by
  have next : pkt.drop (off+item.bytes.length) = tail := by rw [← drop_drop,here,drop_left]
  have first {items : List Item} (passes : Passes code items) : Passes code (item :: items) := by
    intro it member
    rcases mem_cons.mp member with rfl | later
    · exact ⟨formed,other⟩
    · exact passes it later
  cases finds with
  | option items value rest passes good there =>
    have same : off+item.bytes.length+(encode items).length = off+(encode (item :: items)).length := by
      rw [encode_cons,length_append,add_assoc]
    rw [same]
    refine .option _ _ rest (first passes) good ?_
    rw [here,← next,there,encode_cons,append_assoc,append_assoc,append_assoc]
  | ending items rest passes there =>
    refine .ending (item :: items) rest (first passes) ?_
    rw [here,← next,there,encode_cons,append_assoc]
  | malformed items rest passes there truncated =>
    refine .malformed (item :: items) rest (first passes) ?_ truncated
    rw [here,← next,there,encode_cons,append_assoc]

theorem walk_malformed (here : pkt.drop off = tail)
    (truncated : tail = [] ∨ ∃ opt rest, tail = opt :: rest ∧ opt ≠ DHCP_OPTION_PAD ∧ opt ≠ DHCP_OPTION_END ∧
      ∀ len value, rest = len :: value → value.length < len.toNat) :
    get_option_from pkt pkt.length code off = .error (-EINVAL) := by
  rcases truncated with rfl | ⟨opt,rest,rfl,notPad,notEnd,short⟩
  · have past : ¬ off < pkt.length := by
      have := drop_eq_nil_iff.mp here
      omega
    rw [get_option_from,if_neg past]
  obtain ⟨bound,first,next⟩ := read_at here
  rw [get_option_from]
  simp only [bound,if_true,first,notPad,notEnd,if_false]
  cases rest with
  | nil =>
    have := drop_eq_nil_iff.mp next
    simp only [this,if_true]
  | cons len value =>
    obtain ⟨lengthBound,second,after⟩ := read_at next
    have whole := congrArg List.length after
    rw [length_drop] at whole
    have less := short len value rfl
    have more : ¬ pkt.length ≤ off+1 := by omega
    have outside : pkt.length < off+2+len.toNat := by omega
    simp only [more,if_false,second,outside,if_true]

theorem finds_unique {code : UInt8} {result : Outcome (Nat × UInt8)}
    (finds : Finds pkt code off result) : get_option_from pkt pkt.length code off = result := by
  cases finds with
  | option items value tail passes formed here =>
    rw [append_assoc] at here
    obtain ⟨same,there⟩ := walk_passes passes here
    rw [same,walk_option code formed there,if_pos rfl]
  | ending items tail passes here =>
    obtain ⟨same,there⟩ := walk_passes passes here
    rw [same,walk_end code there]
  | malformed items tail passes here truncated =>
    obtain ⟨same,there⟩ := walk_passes passes here
    rw [same,walk_malformed code there truncated]

theorem get_option_finds (pkt : List UInt8) (code : UInt8) (off : Nat) :
    Finds pkt code off (get_option_from pkt pkt.length code off) := by
  induction left : pkt.length-off using Nat.strong_induction_on generalizing off with
  | _ left ih =>
  cases here : pkt.drop off with
  | nil =>
    rw [walk_malformed code here (.inl rfl)]
    exact .malformed [] _ (by simp [Passes]) here (.inl rfl)
  | cons opt rest =>
    obtain ⟨bound,first,next⟩ := read_at here
    by_cases isPad : opt = DHCP_OPTION_PAD
    · subst isPad
      rw [walk_pad code here]
      exact finds_after .pad trivial (by simp [Item.Has]) here (ih _ (by omega) (off+1) rfl)
    by_cases isEnd : opt = DHCP_OPTION_END
    · subst isEnd
      rw [walk_end code here]
      exact .ending [] _ (by simp [Passes]) here
    cases rest with
    | nil =>
      have truncated : ∀ len value, ([] : List UInt8) = len :: value → value.length < len.toNat := by simp
      rw [walk_malformed code here (.inr ⟨opt,[],rfl,isPad,isEnd,truncated⟩)]
      exact .malformed [] _ (by simp [Passes]) here (.inr ⟨opt,[],rfl,isPad,isEnd,truncated⟩)
    | cons len body =>
      obtain ⟨lengthBound,second,after⟩ := read_at next
      have whole := congrArg List.length after
      rw [length_drop] at whole
      by_cases fits : len.toNat ≤ body.length
      · -- The option is well formed: its value is the next `len` bytes.
        have sized : (body.take len.toNat).length = len.toNat := by simp [fits]
        have lengthByte : UInt8.ofNat (body.take len.toNat).length = len := by rw [sized,UInt8.ofNat_toNat]
        have formed : (Item.option opt (body.take len.toNat)).WellFormed :=
          ⟨isPad,isEnd,by have := len.toNat_lt; omega⟩
        have there : pkt.drop off = (Item.option opt (body.take len.toNat)).bytes ++ body.drop len.toNat := by
          simp only [Item.bytes,lengthByte,cons_append,take_append_drop]
          exact here
        rw [walk_option code formed there]
        by_cases wanted : opt = code
        · subst wanted
          rw [if_pos rfl]
          exact .option [] _ _ (by simp [Passes]) formed there
        rw [if_neg wanted]
        have step := ih (pkt.length-(off+2+len.toNat)) (by omega) (off+2+len.toNat) rfl
        refine finds_after (.option opt (body.take len.toNat)) formed wanted there ?_
        have length : off+(Item.option opt (body.take len.toNat)).bytes.length = off+2+len.toNat := by
          simp only [Item.bytes,length_cons,sized]
          omega
        rw [length,sized]
        exact step
      · have truncated : ∀ len' value, len :: body = len' :: value → value.length < len'.toNat := by
          rintro len' value same
          obtain ⟨rfl,rfl⟩ := List.cons.inj same
          omega
        rw [walk_malformed code here (.inr ⟨opt,len :: body,rfl,isPad,isEnd,truncated⟩)]
        exact .malformed [] _ (by simp [Passes]) here (.inr ⟨opt,len :: body,rfl,isPad,isEnd,truncated⟩)

theorem get_option_inside {code : UInt8} {len : UInt8}
    (found : recovery_dhcp_get_option pkt pkt.length code = .ok (off,len)) : off+len.toNat ≤ pkt.length := by
  have finds := get_option_finds pkt code DHCP_OPTIONS_OFS
  unfold recovery_dhcp_get_option at found
  rw [found] at finds
  cases finds with
  | option items value tail passes formed here =>
    have whole := congrArg List.length here
    have length : (UInt8.ofNat value.length).toNat = value.length := by
      rw [UInt8.toNat_ofNat']
      exact Nat.mod_eq_of_lt formed.2.2
    simp only [length_drop,length_append,Item.bytes,length_cons] at whole
    omega

theorem get_option_not_outside (pkt : List UInt8) (code : UInt8) :
    recovery_dhcp_get_option pkt pkt.length code ≠ .outside := by
  intro outside
  have finds := get_option_finds pkt code DHCP_OPTIONS_OFS
  unfold recovery_dhcp_get_option at outside
  rw [outside] at finds
  cases finds

theorem get_u8_not_outside (pkt : List UInt8) (code : UInt8) :
    recovery_dhcp_get_u8_option pkt pkt.length code ≠ .outside := by
  unfold recovery_dhcp_get_u8_option
  cases found : recovery_dhcp_get_option pkt pkt.length code with
  | outside => exact absurd found (get_option_not_outside pkt code)
  | error code => simp [Outcome.bind]
  | ok at_ =>
    obtain ⟨off,len⟩ := at_
    have inside := get_option_inside found
    by_cases one : len = 1
    · subst one
      have bound : off < pkt.length := by simp at inside; omega
      simp [Outcome.bind,getElem?_eq_getElem bound]
    · simp [Outcome.bind,one]

theorem get_ip4_not_outside (pkt : List UInt8) (code : UInt8) :
    recovery_dhcp_get_ip4_option pkt pkt.length code ≠ .outside := by
  unfold recovery_dhcp_get_ip4_option
  cases found : recovery_dhcp_get_option pkt pkt.length code with
  | outside => exact absurd found (get_option_not_outside pkt code)
  | error code => simp [Outcome.bind]
  | ok at_ =>
    obtain ⟨off,len⟩ := at_
    have inside := get_option_inside found
    by_cases four : len = 4
    · subst four
      have bound : off+4 ≤ pkt.length := by simpa using inside
      have b0 : off < pkt.length := by omega
      have b1 : off+1 < pkt.length := by omega
      have b2 : off+2 < pkt.length := by omega
      have b3 : off+3 < pkt.length := by omega
      simp [Outcome.bind,b0,b1,b2,b3]
    · simp [Outcome.bind,four]

@[simp] theorem Ip4.bytes_length (ip : Ip4) : ip.bytes.length = 4 := rfl
@[simp] theorem lwip_htonl_length (value : Nat) : (lwip_htonl value).length = 4 := rfl

/-- The running offset and the options field once some options are put: the
    rest of the field is still zero. -/
def so_far (items : List Item) : Int × List UInt8 :=
  ((encode items).length,encode items ++ List.replicate (DHCP_OPTIONS_LEN-(encode items).length) 0)

theorem put_bytes_appends (done bs : List UInt8) (zeros : Nat) (fits : bs.length ≤ zeros) :
    put_bytes (done ++ replicate zeros 0) done.length bs =
      some (done ++ bs ++ replicate (zeros-bs.length) 0) := by
  induction bs generalizing done zeros with
  | nil => simp [put_bytes]
  | cons b bs ih =>
    obtain ⟨left,rfl⟩ : ∃ left, zeros = left+1 := ⟨zeros-1,by simp at fits; omega⟩
    have here : put (done ++ replicate (left+1) 0) done.length b =
        some ((done ++ [b]) ++ replicate left 0) := by
      simp [put,replicate_succ]
    have rest := ih (done ++ [b]) left (by simpa using fits)
    have length : (done ++ [b]).length = done.length+1 := by simp
    rw [length] at rest
    rw [put_bytes,here,bind_some,rest]
    simp

theorem put_option_appends (items : List Item) {code : UInt8} {value : List UInt8}
    (fits : (encode items).length+2+value.length ≤ DHCP_OPTIONS_LEN) :
    put_option (so_far items).2 (so_far items).1 code value = some (so_far (items ++ [.option code value])) := by
  unfold DHCP_OPTIONS_LEN DHCP_MIN_OPTIONS_LEN at fits
  set done := encode items with doneIs
  set len := UInt8.ofNat value.length with lenIs
  have length : len.toNat = value.length := by
    rw [lenIs,UInt8.toNat_ofNat']
    exact Nat.mod_eq_of_lt (by omega)
  have room : ¬ ((done.length : Int) < 0 ∨ (done.length : Int)+2+len.toNat > DHCP_OPTIONS_LEN) := by
    unfold DHCP_OPTIONS_LEN DHCP_MIN_OPTIONS_LEN
    omega
  have encoded : encode (items ++ [.option code value]) = done ++ [code,len] ++ value := by
    simp [Item.bytes,doneIs,lenIs]
  have head := put_bytes_appends done [code,len] (68-done.length) (by simp; omega)
  have body := put_bytes_appends (done ++ [code,len]) value (68-done.length-2) (by omega)
  simp only [put_bytes,length_cons,length_nil] at head
  have put_head : recovery_dhcp_put_option_head (done ++ replicate (68-done.length) 0) done.length code len =
      some ((done.length : Int)+2,done ++ [code,len] ++ replicate (68-done.length-2) 0) := by
    rw [recovery_dhcp_put_option_head,if_neg room]
    cases first : put (done ++ replicate (68-done.length) 0) done.length code with
    | none => rw [first] at head; contradiction
    | some options =>
      rw [first,bind_some] at head
      cases second : put options (done.length+1) len with
      | none => rw [second] at head; contradiction
      | some options' =>
        rw [second,bind_some] at head
        have same := Option.some.inj head
        simp [first,second,same]
  have sized : (done ++ [code,len]).length = done.length+2 := by simp
  rw [sized] at body
  have positive : ¬ ((done.length : Int)+2 < 0) := by omega
  have at_ : ((done.length : Int)+2).toNat = done.length+2 := by omega
  have start : so_far items = ((done.length : Int),done ++ replicate (68-done.length) 0) := rfl
  have left : 68-(done ++ [code,len] ++ value).length = 68-done.length-2-value.length := by
    simp only [length_append,length_cons,length_nil]; omega
  unfold put_option
  rw [start,put_head]
  simp only [bind_eq_bind,bind_some,positive,if_false,at_,body]
  rw [so_far,encoded,show DHCP_OPTIONS_LEN = 68 from rfl,left]
  simp only [length_append,length_cons,length_nil]
  congr 2

def offered (srv : Server) (message_type : UInt8) (assign_address : Bool) : List Item :=
  [.option DHCP_OPTION_MESSAGE_TYPE [message_type],.option DHCP_OPTION_SERVER_ID srv.server_ip.bytes] ++
    (if assign_address then
      [.option DHCP_OPTION_LEASE_TIME (lwip_htonl RECOVERY_DHCP_LEASE_SECS),
        .option DHCP_OPTION_T1 (lwip_htonl (RECOVERY_DHCP_LEASE_SECS/2)),
        .option DHCP_OPTION_T2 (lwip_htonl (RECOVERY_DHCP_LEASE_SECS*7/8))]
    else []) ++
    (if message_type ≠ DHCP_NAK then
      [.option DHCP_OPTION_SUBNET_MASK srv.netmask.bytes,.option DHCP_OPTION_ROUTER srv.router.bytes,
        .option DHCP_OPTION_BROADCAST srv.broadcast.bytes,.option DHCP_OPTION_DNS_SERVER srv.dns.bytes]
    else [])

theorem reply_options_puts :
    reply_options srv message_type assign_address (replicate DHCP_OPTIONS_LEN 0) =
      some (so_far (offered srv message_type assign_address)) := by
  have first : recovery_dhcp_put_u8_option (replicate DHCP_OPTIONS_LEN 0) 0 DHCP_OPTION_MESSAGE_TYPE message_type =
      some (so_far [.option DHCP_OPTION_MESSAGE_TYPE [message_type]]) :=
    put_option_appends [] (by simp [DHCP_OPTIONS_LEN,DHCP_MIN_OPTIONS_LEN])
  unfold reply_options
  rw [first]
  by_cases nak : message_type = DHCP_NAK <;> cases assign_address
  all_goals
    simp only [recovery_dhcp_put_ip4_option,recovery_dhcp_put_u32_option,nak,ne_eq,not_true_eq_false,
      not_false_eq_true,if_true,if_false,Bool.false_eq_true,bind_eq_bind,bind_some]
    -- One round for each option that is left.
    repeat
      rw [put_option_appends _ (by simp [Item.bytes,DHCP_OPTIONS_LEN,DHCP_MIN_OPTIONS_LEN])]
      simp only [bind_some,cons_append,nil_append]
    simp [offered,nak]

theorem offered_length :
    (encode (offered srv message_type assign_address)).length < DHCP_OPTIONS_LEN := by
  unfold offered
  split_ifs <;> simp [Item.bytes,DHCP_OPTIONS_LEN,DHCP_MIN_OPTIONS_LEN]

theorem pad_from_fills (done : List UInt8) (zeros : Nat) (whole : done.length+zeros = DHCP_OPTIONS_LEN) :
    pad_from (done ++ replicate zeros 0) done.length = some (DHCP_OPTIONS_LEN,done ++ replicate zeros 0) := by
  unfold DHCP_OPTIONS_LEN at whole
  induction zeros generalizing done with
  | zero =>
    have full : ¬ ((done.length < DHCP_MIN_OPTIONS_LEN ∨ done.length%4 ≠ 0) ∧ done.length < DHCP_OPTIONS_LEN) := by
      unfold DHCP_OPTIONS_LEN; omega
    rw [pad_from,if_neg full]
    simp only [replicate_zero,append_nil]
    rw [show done.length = DHCP_OPTIONS_LEN from by unfold DHCP_OPTIONS_LEN; omega]
  | succ zeros ih =>
    have more : (done.length < DHCP_MIN_OPTIONS_LEN ∨ done.length%4 ≠ 0) ∧ done.length < DHCP_OPTIONS_LEN := by
      unfold DHCP_OPTIONS_LEN; omega
    have here : put (done ++ replicate (zeros+1) 0) done.length DHCP_OPTION_PAD =
        some ((done ++ [DHCP_OPTION_PAD]) ++ replicate zeros 0) := by
      simp [put,replicate_succ]
    have rest := ih (done ++ [DHCP_OPTION_PAD]) (by simp; omega)
    rw [length_append,length_singleton] at rest
    rw [pad_from,if_pos more,here,bind_some,rest]
    simp [replicate_succ,DHCP_OPTION_PAD]

theorem finalize_terminates (fits : (encode items).length < DHCP_OPTIONS_LEN) :
    recovery_dhcp_finalize_options (so_far items).2 (encode items).length =
      some (DHCP_OPTIONS_LEN,encode items ++ DHCP_OPTION_END ::
        replicate (DHCP_OPTIONS_LEN-(encode items).length-1) DHCP_OPTION_PAD) := by
  obtain ⟨zeros,left⟩ : ∃ zeros, DHCP_OPTIONS_LEN-(encode items).length = zeros+1 :=
    ⟨DHCP_OPTIONS_LEN-(encode items).length-1,by omega⟩
  have here : put (encode items ++ replicate (zeros+1) 0) (encode items).length DHCP_OPTION_END =
      some ((encode items ++ [DHCP_OPTION_END]) ++ replicate zeros 0) := by
    simp [put,replicate_succ]
  have rest := pad_from_fills (encode items ++ [DHCP_OPTION_END]) zeros (by simp; omega)
  rw [length_append,length_singleton] at rest
  unfold recovery_dhcp_finalize_options so_far
  simp only [left,here,bind_eq_bind,bind_some,rest]
  simp [DHCP_OPTION_PAD]

theorem field_length {off len : Nat} (inside : off+len ≤ pkt.length) :
    (field pkt off len).length = len := by
  rw [field,length_take,length_drop]
  omega

theorem reply_header_length (long : DHCP_OPTIONS_OFS ≤ req.length)
    (assign_address : Bool) : (reply_header srv req assign_address).length = DHCP_OPTIONS_OFS := by
  unfold DHCP_OPTIONS_OFS at long
  have lengths {off len : Nat} (inside : off+len ≤ 240) : (field req off len).length = len :=
    field_length (by omega)
  have address (chosen : Ip4) : (if assign_address then chosen.bytes else ([0,0,0,0] : List UInt8)).length = 4 := by
    split <;> rfl
  simp only [reply_header,length_append,length_cons,length_map,length_nil,
    length_replicate,DHCP_MAGIC_COOKIE,address]
  rw [lengths (by omega),lengths (by omega),lengths (by omega),lengths (by omega),lengths (by omega),
    lengths (by omega),lengths (by omega)]
  rfl

/-- A reply whose options field has its END, where a lookup gives exactly the
    values that were put and finds no other code. -/
structure Carries (items : List Item) (reply : List UInt8) : Prop where
  sized : reply.length = DHCP_OPTIONS_OFS+DHCP_OPTIONS_LEN
  terminated : ∃ padding, reply.drop DHCP_OPTIONS_OFS = encode items ++ DHCP_OPTION_END :: padding
  values : ∀ code value, .option code value ∈ items → ∃ off,
    recovery_dhcp_get_option reply reply.length code = .ok (off,UInt8.ofNat value.length) ∧
      value.length < 256 ∧ field reply off value.length = value
  others : ∀ code, (∀ value, .option code value ∉ items) →
    recovery_dhcp_get_option reply reply.length code = .error (-ENOENT)

theorem carries_of_terminated {reply : List UInt8} (padding : List UInt8)
    (formed : ∀ item ∈ items, item.WellFormed ∧ ∃ code value, item = .option code value)
    (distinct : items.Pairwise fun a b => ∀ code, a.Has code → ¬ b.Has code)
    (sized : reply.length = DHCP_OPTIONS_OFS+DHCP_OPTIONS_LEN)
    (terminated : reply.drop DHCP_OPTIONS_OFS = encode items ++ DHCP_OPTION_END :: padding) : Carries items reply := by
  refine ⟨sized,⟨padding,terminated⟩,?_,?_⟩
  · intro code value member
    obtain ⟨before,after,rfl⟩ := append_of_mem member
    have good := (formed _ member).1
    have passes : Passes code before := by
      intro item early
      refine ⟨(formed item (mem_append_left _ early)).1,fun has => ?_⟩
      exact (pairwise_append.mp distinct).2.2 item early _ mem_cons_self code has rfl
    have here : reply.drop DHCP_OPTIONS_OFS = encode before ++ (Item.option code value).bytes ++
        (encode after ++ DHCP_OPTION_END :: padding) := by
      rw [terminated]
      simp only [encode_append,encode_cons,append_assoc]
    refine ⟨_,finds_unique (.option _ _ _ passes good here),good.2.2,?_⟩
    unfold field
    rw [add_assoc,← drop_drop,here,append_assoc,← drop_drop,drop_left]
    simp [Item.bytes]
  · intro code absent
    have passes : Passes code items := by
      intro item member
      obtain ⟨good,other,value,rfl⟩ := formed item member
      refine ⟨good,?_⟩
      rintro rfl
      exact absent value member
    exact finds_unique (.ending _ _ passes terminated)

theorem offered_formed :
    ∀ item ∈ offered srv message_type assign_address, item.WellFormed ∧ ∃ code value, item = .option code value := by
  have good {code : UInt8} {value : List UInt8} (codes : code ≠ DHCP_OPTION_PAD ∧ code ≠ DHCP_OPTION_END)
      (short : value.length ≤ 4) :
      (Item.option code value).WellFormed ∧ ∃ c v, Item.option code value = .option c v :=
    ⟨⟨codes.1,codes.2,by omega⟩,code,value,rfl⟩
  intro item member
  simp only [offered,mem_append,mem_cons,not_mem_nil,or_false] at member
  rcases member with (((rfl | rfl) | lease) | config)
  · exact good (by decide) (by simp)
  · exact good (by decide) (by simp)
  · split_ifs at lease
    · simp only [mem_cons,not_mem_nil,or_false] at lease
      rcases lease with rfl | rfl | rfl <;> exact good (by decide) (by simp)
    · simp at lease
  · split_ifs at config
    · simp only [mem_cons,not_mem_nil,or_false] at config
      rcases config with rfl | rfl | rfl | rfl <;> exact good (by decide) (by simp)
    · simp at config

theorem offered_distinct :
    (offered srv message_type assign_address).Pairwise fun a b => ∀ code, a.Has code → ¬ b.Has code := by
  unfold offered
  split_ifs <;> simp only [cons_append,nil_append,append_nil] <;>
    simp [Item.Has,DHCP_OPTION_MESSAGE_TYPE,DHCP_OPTION_SERVER_ID,DHCP_OPTION_LEASE_TIME,DHCP_OPTION_T1,
      DHCP_OPTION_T2,DHCP_OPTION_SUBNET_MASK,DHCP_OPTION_ROUTER,DHCP_OPTION_BROADCAST,DHCP_OPTION_DNS_SERVER]

theorem send_reply_carries (long : DHCP_OPTIONS_OFS ≤ req.length)
    (message_type : UInt8) (assign_address sent : Bool) :
    ∃ reply, recovery_dhcp_send_reply srv req message_type assign_address true sent =
        some (if sent then 0 else - EIO,some reply) ∧
      Carries (offered srv message_type assign_address) reply := by
  set items := offered srv message_type assign_address with itemsAre
  have fits : (encode items).length < DHCP_OPTIONS_LEN := offered_length srv message_type assign_address
  set padding := replicate (DHCP_OPTIONS_LEN-(encode items).length-1) DHCP_OPTION_PAD with paddingIs
  have header := reply_header_length srv long assign_address
  have whole : (encode items ++ DHCP_OPTION_END :: padding).length = DHCP_OPTIONS_LEN := by
    rw [length_append,length_cons,paddingIs,length_replicate]
    omega
  refine ⟨reply_header srv req assign_address ++ (encode items ++ DHCP_OPTION_END :: padding),?_,?_⟩
  · have positive : ¬ (so_far items).1 < 0 := by simp [so_far]
    have at_ : (so_far items).1.toNat = (encode items).length := by simp [so_far]
    have taken : (encode items ++ DHCP_OPTION_END :: padding).take DHCP_OPTIONS_LEN =
        encode items ++ DHCP_OPTION_END :: padding := take_of_length_le (by omega)
    unfold recovery_dhcp_send_reply
    rw [reply_options_puts,← itemsAre]
    simp only [if_true,bind_eq_bind,bind_some,positive,if_false,at_,finalize_terminates fits,
      ← paddingIs,taken]
  · refine carries_of_terminated padding (offered_formed srv message_type assign_address)
      (offered_distinct srv message_type assign_address) ?_ ?_
    · rw [length_append,header,whole]
    · rw [drop_append_of_le_length (by omega),drop_eq_nil_of_le (by omega),nil_append]

theorem classify_not_outside (pkt : List UInt8) :
    recovery_dhcp_classify_request srv pkt pkt.length ≠ .outside := by
  have server := get_ip4_not_outside pkt DHCP_OPTION_SERVER_ID
  have requested := get_ip4_not_outside pkt DHCP_OPTION_REQUESTED_IP
  unfold recovery_dhcp_classify_request
  cases identified : recovery_dhcp_get_ip4_option pkt pkt.length DHCP_OPTION_SERVER_ID with
  | outside => exact absurd identified server
  | error _ =>
    cases asked : recovery_dhcp_get_ip4_option pkt pkt.length DHCP_OPTION_REQUESTED_IP with
    | outside => exact absurd asked requested
    | error _ => simp only; split_ifs <;> simp
    | ok _ => simp
  | ok server_id =>
    cases asked : recovery_dhcp_get_ip4_option pkt pkt.length DHCP_OPTION_REQUESTED_IP with
    | outside => exact absurd asked requested
    | error _ | ok _ => simp only; split_ifs <;> simp

def answers : List (UInt8 × Bool) := [(DHCP_OFFER,true),(DHCP_ACK,true),(DHCP_NAK,false),(DHCP_ACK,false)]

/-- What is sent, if anything, is a reply of one of the four kinds. -/
def Answered (srv : Server) (result : Option (List UInt8)) : Prop :=
  ∀ reply, result = some reply → ∃ kind ∈ answers, Carries (offered srv kind.1 kind.2) reply

theorem send_answered (long : DHCP_OPTIONS_OFS ≤ req.length) (kind : UInt8 × Bool)
    (known : kind ∈ answers) (alloc sent : Bool) :
    ∃ result, (recovery_dhcp_send_reply srv req kind.1 kind.2 alloc sent).map Prod.snd = some result ∧
      Answered srv result := by
  cases alloc with
  | false => exact ⟨none,rfl,by simp [Answered]⟩
  | true =>
    obtain ⟨reply,sends,carries⟩ := send_reply_carries srv long kind.1 kind.2 sent
    refine ⟨some reply,by rw [sends]; rfl,?_⟩
    rintro other same
    cases same
    exact ⟨kind,known,carries⟩

theorem recv_answers (payload : List UInt8) (port : Nat) (rx_allowed alloc sent : Bool) :
    ∃ result, recovery_dhcp_recv srv payload port rx_allowed alloc sent = some result ∧ Answered srv result := by
  have silent : Answered srv none := by simp [Answered]
  unfold recovery_dhcp_recv
  set pkt := payload.take RECOVERY_DHCP_MAX_MSG_LEN
  simp only
  split_ifs with unwanted foreign
  · exact ⟨none,rfl,silent⟩
  · exact ⟨none,rfl,silent⟩
  have long : DHCP_OPTIONS_OFS ≤ pkt.length := by
    by_contra short
    exact unwanted (.inr (.inr (by omega)))
  have inside := get_u8_not_outside pkt DHCP_OPTION_MESSAGE_TYPE
  cases typed : recovery_dhcp_get_u8_option pkt pkt.length DHCP_OPTION_MESSAGE_TYPE with
  | outside => exact absurd typed inside
  | error _ => exact ⟨none,rfl,silent⟩
  | ok message_type =>
    simp only
    split_ifs
    · exact send_answered srv long (DHCP_OFFER,true) (by decide) alloc sent
    · have judged := classify_not_outside srv pkt
      cases classified : recovery_dhcp_classify_request srv pkt pkt.length with
      | outside => exact absurd classified judged
      | error _ => exact ⟨none,rfl,silent⟩
      | ok verdict =>
        cases verdict with
        | ack => exact send_answered srv long (DHCP_ACK,true) (by decide) alloc sent
        | nak => exact send_answered srv long (DHCP_NAK,false) (by decide) alloc sent
        | ignore => exact ⟨none,rfl,silent⟩
    · exact send_answered srv long (DHCP_ACK,false) (by decide) alloc sent
    · exact ⟨none,rfl,silent⟩

/-- Encoder and parser agree. On every datagram the server stays inside its
    buffers and what it sends carries exactly what was put; so does the reply
    of any type to any message that has its fixed part; and on every byte
    string the walk ends inside the packet with the first well-formed option of
    the code before END, or says why there is none. -/
theorem recovery_dhcp_agrees :
    (∀ srv payload port rx_allowed alloc sent,
      ∃ result, recovery_dhcp_recv srv payload port rx_allowed alloc sent = some result ∧ Answered srv result) ∧
    (∀ srv req message_type assign_address sent, DHCP_OPTIONS_OFS ≤ req.length →
      ∃ reply, recovery_dhcp_send_reply srv req message_type assign_address true sent =
          some (if sent then 0 else - EIO,some reply) ∧
        Carries (offered srv message_type assign_address) reply) ∧
    (∀ pkt code result, recovery_dhcp_get_option pkt pkt.length code = result ↔
      Finds pkt code DHCP_OPTIONS_OFS result) := by
  refine ⟨recv_answers,fun srv req message_type assign_address sent long =>
    send_reply_carries srv long message_type assign_address sent,?_⟩
  intro pkt code result
  constructor
  · rintro rfl
    exact get_option_finds pkt code DHCP_OPTIONS_OFS
  · exact finds_unique

/-- The offer to a message of 240 zero bytes. -/
theorem recovery_dhcp_agrees_on_offer :
    ∃ reply, recovery_dhcp_send_reply ⟨⟨192,168,0,1⟩,⟨192,168,0,2⟩,⟨255,255,255,0⟩,⟨192,168,0,1⟩,
        ⟨192,168,0,255⟩,⟨192,168,0,1⟩⟩ (List.replicate 240 0) DHCP_OFFER true true true = some (0,some reply) ∧
      Carries (offered ⟨⟨192,168,0,1⟩,⟨192,168,0,2⟩,⟨255,255,255,0⟩,⟨192,168,0,1⟩,⟨192,168,0,255⟩,
        ⟨192,168,0,1⟩⟩ DHCP_OFFER true) reply :=
  recovery_dhcp_agrees.2.1 _ _ _ _ true (by rw [List.length_replicate]; decide)

end UBoot.DhcpOptions
