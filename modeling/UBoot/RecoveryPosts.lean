import UBoot.Memory

/-!
The POST handlers of the recovery server, `net/lwip/httpd_recovery.c`: what a
request to upload or to reboot does to the flags and the receive buffer that all
connections share. What the handlers read from the board is an argument. The
counters for the progress page and the times are left out.
-/
namespace UBoot.Recovery
open UBoot.Memory List

def ERR_OK : Int := 0
def ERR_MEM : Int := -1
def ERR_ARG : Int := -16

def RECOVERY_MIN_FIRMWARE_SIZE : Nat := 1*1024*1024
def RECOVERY_MAX_UBOOT_SIZE : Nat := 2*1024*1024
def RECOVERY_RAW_PART_SIZE : Nat := 2*1024*1024

inductive Target where
  | TARGET_FIRMWARE
  | TARGET_UBOOT
  | TARGET_UENV
  | TARGET_DSD
  deriving DecidableEq, Repr

/-- What a request reads outside: whether the board knows its UBI layout and
    which version, the largest upload of each target, and the memory. -/
structure Board where
  active : Bool
  version : List Char
  target_max : Target → Nat
  recovery_max : Nat
  recovery_addr : Nat
  loadaddr : Nat
  sys_load_addr : Nat
  ram_base : Nat
  ram_size : Nat

/-- The variables that the handlers share. Of the timers that are to set
    `reboot_request` only the number counts. -/
structure Shared where
  recv_base : Nat
  recv_off : Nat
  recv_total : Nat
  current_target : Target
  post_ok : Bool
  flash_request : Bool
  reboot_post_pending : Bool
  reboot_request : Bool
  prog_phase : Int
  timers : Nat
  ram : Nat → UInt8

def recovery_upload_uri_matches (uri path : List Char) : Bool :=
  path.isPrefixOf uri && ((uri.drop path.length).head? = none || (uri.drop path.length).head? = some '?')

/-- Zero in the source: the layout that the query asks for is the board's. -/
def recovery_parse_ubi_layout (board : Board) (uri : List Char) : Bool :=
  let query := uri.dropWhile (· ≠ '?')
  if query = [] then true
  else "?layout=".toList.isPrefixOf query && board.active && query.drop 8 = board.version

def recovery_target_exact_size : Target → Nat
  | .TARGET_UBOOT => RECOVERY_MAX_UBOOT_SIZE
  | .TARGET_UENV => RECOVERY_RAW_PART_SIZE
  | .TARGET_DSD => RECOVERY_RAW_PART_SIZE
  | .TARGET_FIRMWARE => 0

def upload_target (uri : List Char) : Option Target :=
  if recovery_upload_uri_matches uri "/upload/firmware".toList then some .TARGET_FIRMWARE
  else if recovery_upload_uri_matches uri "/upload/uboot".toList then some .TARGET_UBOOT
  else if recovery_upload_uri_matches uri "/upload/uenv".toList ||
      recovery_upload_uri_matches uri "/upload/env".toList then some .TARGET_UENV
  else if recovery_upload_uri_matches uri "/upload/dsd".toList then some .TARGET_DSD
  else if recovery_upload_uri_matches uri "/upload".toList then some .TARGET_FIRMWARE
  else none

def length_allowed (board : Board) (target : Target) (content_len : Int) : Bool :=
  let dts_max := board.target_max target
  let exact_ := recovery_target_exact_size target
  let min_ := if target = .TARGET_FIRMWARE then RECOVERY_MIN_FIRMWARE_SIZE else 0
  let max_ := if target ≠ .TARGET_FIRMWARE ∧ exact_ ≠ 0 ∧ exact_ < dts_max then exact_ else dts_max
  let max_ := if exact_ = 0 ∧ board.recovery_max ≠ 0 ∧ board.recovery_max < max_ then board.recovery_max else max_
  if dts_max = 0 then false
  else if content_len > 0 ∧ exact_ ≠ 0 ∧ content_len ≠ exact_ then false
  else !(content_len ≤ 0 || content_len > max_ || (min_ ≠ 0 && content_len < min_))

theorem length_allowed_pos {board : Board} {target : Target} {content_len : Int}
    (allowed : length_allowed board target content_len = true) : 0 < content_len := by
  by_contra negative
  have low : content_len ≤ 0 := by omega
  simp [length_allowed,low] at allowed

/-- The address of the upload buffer, if the memory has room for it. Both sums
    are of type `ulong`. -/
def upload_base (board : Board) (recv_total : Nat) : Option Nat :=
  let ram_end := (board.ram_base+board.ram_size)%2^64
  let base := if board.recovery_addr ≠ 0 then board.recovery_addr
    else if board.loadaddr ≠ 0 then board.loadaddr else board.sys_load_addr
  if base < board.ram_base ∨ base ≥ ram_end ∨ recv_total > ram_end-base then
    let fallback := (board.ram_base+0x01000000)%2^64
    if fallback ≥ board.ram_base ∧ fallback < ram_end ∧ recv_total ≤ ram_end-fallback then some fallback else none
  else some base

def busy (g : Shared) : Bool :=
  g.post_ok || g.flash_request || g.reboot_post_pending || g.reboot_request || decide (g.prog_phase > 0)

def begin_upload (g : Shared) (board : Board) (uri : List Char) (content_len : Int) : Int × Shared :=
  let g := { g with post_ok := false, recv_off := 0, recv_total := 0, prog_phase := 0 }
  match upload_target uri with
  | none => (ERR_ARG,{ g with prog_phase := -1 })
  | some target =>
    let g := { g with current_target := target }
    if target = .TARGET_FIRMWARE ∧ recovery_parse_ubi_layout board uri = false then (ERR_ARG,{ g with prog_phase := -1 })
    else if length_allowed board target content_len = false then (ERR_ARG,{ g with prog_phase := -1 })
    else
      let g := { g with recv_total := content_len.toNat }
      match upload_base board g.recv_total with
      | none => (ERR_MEM,{ g with prog_phase := -1 })
      | some base => (ERR_OK,{ g with recv_base := base, post_ok := true })

/-- The error code, whether the receive window is automatic, and the variables. -/
def httpd_post_begin (g : Shared) (board : Board) (uri : List Char) (content_len : Int) : Int × Bool × Shared :=
  if uri = "/reboot".toList then
    if busy g then (ERR_ARG,true,g)
    else if content_len ≠ 0 then (ERR_ARG,true,g)
    else (ERR_OK,true,{ g with reboot_post_pending := true })
  else if busy g then (ERR_ARG,false,g)
  else
    let (err,g) := begin_upload g board uri content_len
    (err,false,g)

/-- An upload is opened with nothing received yet, or refused. -/
theorem begin_upload_cases (g : Shared) (board : Board) (uri : List Char) (content_len : Int) :
    (∃ base target, 0 < content_len ∧ begin_upload g board uri content_len = (ERR_OK,{ g with
      recv_base := base, recv_off := 0, recv_total := content_len.toNat, current_target := target,
      post_ok := true, prog_phase := 0 })) ∨
    ∃ err total target, err ≠ ERR_OK ∧ begin_upload g board uri content_len = (err,{ g with
      recv_off := 0, recv_total := total, current_target := target, post_ok := false, prog_phase := -1 }) := by
  have argument : ERR_ARG ≠ ERR_OK := by decide
  have memory : ERR_MEM ≠ ERR_OK := by decide
  rw [begin_upload]
  cases upload_target uri with
  | none => exact .inr ⟨ERR_ARG,0,g.current_target,argument,rfl⟩
  | some target =>
    dsimp only
    split
    · exact .inr ⟨ERR_ARG,0,target,argument,rfl⟩
    · split
      · exact .inr ⟨ERR_ARG,0,target,argument,rfl⟩
      · rename_i _ allowed
        cases upload_base board content_len.toNat with
        | none => exact .inr ⟨ERR_MEM,content_len.toNat,target,memory,rfl⟩
        | some base => exact .inl ⟨base,target,length_allowed_pos (by simpa using allowed),rfl⟩

theorem httpd_post_begin_busy {g : Shared} (under_way : busy g = true) (board : Board) (uri : List Char)
    (content_len : Int) :
    httpd_post_begin g board uri content_len = (ERR_ARG,decide (uri = "/reboot".toList),g) := by
  by_cases reboot : uri = "/reboot".toList
  · rw [httpd_post_begin,if_pos reboot,if_pos under_way,decide_eq_true reboot]
  · rw [httpd_post_begin,if_neg reboot,if_pos under_way,decide_eq_false reboot]

theorem httpd_post_begin_reboot {g : Shared} (idle : busy g = false) (board : Board) (content_len : Int) :
    httpd_post_begin g board "/reboot".toList content_len =
      if content_len ≠ 0 then (ERR_ARG,true,g) else (ERR_OK,true,{ g with reboot_post_pending := true }) := by
  rw [httpd_post_begin,if_pos rfl,if_neg (by rw [idle]; decide)]

theorem httpd_post_begin_upload {g : Shared} (idle : busy g = false) (board : Board) {uri : List Char}
    (upload : uri ≠ "/reboot".toList) (content_len : Int) :
    httpd_post_begin g board uri content_len =
      ((begin_upload g board uri content_len).1,false,(begin_upload g board uri content_len).2) := by
  rw [httpd_post_begin,if_neg upload,if_neg (by rw [idle]; decide)]

abbrev Pbuf := List (List UInt8)

def tot_len (p : Pbuf) : Nat := (p.map List.length).sum

/-- The loop over the chain: whether there is more than was announced, and the
    variables. -/
def copy_chain : Pbuf → Shared → Bool × Shared
  | [], g => (false,g)
  | q :: rest, g =>
    if g.recv_off ≥ g.recv_total then (true,g)
    else
      let avail := g.recv_total-g.recv_off
      let part := q.take avail
      let (overflow,g) := copy_chain rest { g with
        ram := store g.ram (g.recv_base+g.recv_off) part, recv_off := g.recv_off+part.length }
      (decide (q.length > avail) || overflow,g)

/-- The variables with the bytes of a chain behind those that came before. -/
def received (g : Shared) (p : Pbuf) : Shared :=
  { g with ram := store g.ram (g.recv_base+g.recv_off) p.flatten, recv_off := g.recv_off+tot_len p }

theorem tot_len_eq (p : Pbuf) : tot_len p = p.flatten.length := by
  simp [tot_len,length_flatten]

/-- The chain can be copied where `room` bytes are left: each buffer finds room,
    even an empty one. -/
def Fits : Pbuf → Nat → Prop
  | [], _ => True
  | q :: rest, room => 0 < room ∧ q.length ≤ room ∧ Fits rest (room-q.length)

theorem Fits.tot_len_le {p : Pbuf} {room : Nat} (fits : Fits p room) : tot_len p ≤ room := by
  induction p generalizing room with
  | nil => exact Nat.zero_le room
  | cons q rest ih =>
    have later := ih fits.2.2
    have first := fits.2.1
    simp only [tot_len,map_cons,sum_cons] at later ⊢
    omega

theorem copy_chain_cases (p : Pbuf) (g : Shared) (room : g.recv_off ≤ g.recv_total) :
    (Fits p (g.recv_total-g.recv_off) ∧ copy_chain p g = (false,received g p)) ∨
    (¬ Fits p (g.recv_total-g.recv_off) ∧
      ∃ ram off, off ≤ g.recv_total ∧ copy_chain p g = (true,{ g with ram := ram, recv_off := off })) := by
  induction p generalizing g with
  | nil => exact .inl ⟨trivial,by simp [copy_chain,received,tot_len]⟩
  | cons q rest ih =>
    by_cases full : g.recv_off ≥ g.recv_total
    · exact .inr ⟨fun fits => by have := fits.1; omega,g.ram,g.recv_off,room,by rw [copy_chain,if_pos full]⟩
    let part := q.take (g.recv_total-g.recv_off)
    let g' : Shared := { g with
      ram := store g.ram (g.recv_base+g.recv_off) part, recv_off := g.recv_off+part.length }
    have short : part.length ≤ g.recv_total-g.recv_off := by simp [part]
    have unfolded : copy_chain (q :: rest) g =
        (decide (q.length > g.recv_total-g.recv_off) || (copy_chain rest g').1,(copy_chain rest g').2) := by
      rw [copy_chain,if_neg full]
    have inside : g'.recv_off ≤ g'.recv_total := by simp only [g']; omega
    rw [unfolded]
    by_cases long : q.length > g.recv_total-g.recv_off
    · refine .inr ⟨fun fits => by have := fits.2.1; omega,?_⟩
      rcases ih g' inside with ⟨fits,copied⟩ | ⟨-,ram,off,low,copied⟩
      · rw [copied]
        refine ⟨(received g' rest).ram,g'.recv_off+tot_len rest,?_,?_⟩
        · have rest_le := fits.tot_len_le
          simp only [g'] at rest_le ⊢
          omega
        · simp only [long,decide_true,Bool.true_or,received,g']
      · rw [copied]
        exact ⟨ram,off,low,by simp only [Bool.or_true,g']⟩
    · -- The whole buffer was copied, so the rest of the chain finds that much less room.
      have whole : part = q := take_of_length_le (by omega)
      have less : g'.recv_total-g'.recv_off = g.recv_total-g.recv_off-q.length := by
        simp only [g',whole]
        omega
      rcases ih g' inside with ⟨fits,copied⟩ | ⟨misfits,ram,off,low,copied⟩
      · rw [less] at fits
        rw [copied]
        refine .inl ⟨⟨by omega,by omega,fits⟩,?_⟩
        simp only [long,decide_false,Bool.false_or,received,g',whole,tot_len,map_cons,sum_cons,
          flatten_cons,store_append,add_assoc]
      · rw [less] at misfits
        rw [copied]
        exact .inr ⟨fun fits => misfits fits.2.2,ram,off,low,by simp only [Bool.or_true,g']⟩

/-- The error code, the bytes that are reported as received, and the
    variables. -/
def httpd_post_receive_data (g : Shared) (p : Pbuf) : Int × Nat × Shared :=
  if g.reboot_post_pending then (ERR_OK,0,g)
  else if g.post_ok = false then (ERR_ARG,0,g)
  else if g.recv_off > g.recv_total then (ERR_ARG,0,{ g with post_ok := false, prog_phase := -1 })
  else
    let (overflow,g) := copy_chain p g
    if overflow then (ERR_ARG,tot_len p,{ g with post_ok := false, prog_phase := -1 }) else (ERR_OK,tot_len p,g)

/-- Data for an upload that is under way is stored, or ends the upload. -/
theorem httpd_post_receive_data_cases {g : Shared} (p : Pbuf) (ok : g.post_ok = true)
    (apart : g.reboot_post_pending = false) (room : g.recv_off ≤ g.recv_total) :
    (Fits p (g.recv_total-g.recv_off) ∧ httpd_post_receive_data g p = (ERR_OK,tot_len p,received g p)) ∨
    (¬ Fits p (g.recv_total-g.recv_off) ∧ ∃ ram off, off ≤ g.recv_total ∧ httpd_post_receive_data g p =
      (ERR_ARG,tot_len p,{ g with ram := ram, recv_off := off, post_ok := false, prog_phase := -1 })) := by
  have unfolded : httpd_post_receive_data g p =
      let (overflow,g) := copy_chain p g
      if overflow then (ERR_ARG,tot_len p,{ g with post_ok := false, prog_phase := -1 }) else (ERR_OK,tot_len p,g) := by
    rw [httpd_post_receive_data,if_neg (by simp [apart]),if_neg (by simp [ok]),if_neg (by omega)]
  rw [unfolded]
  rcases copy_chain_cases p g room with ⟨fits,copied⟩ | ⟨misfits,ram,off,low,copied⟩
  · exact .inl ⟨fits,by rw [copied]; rfl⟩
  · exact .inr ⟨misfits,ram,off,low,by rw [copied]; rfl⟩

def httpd_post_finished (g : Shared) : Shared :=
  if g.reboot_post_pending then g
  else if g.post_ok ∧ g.recv_total ≠ 0 ∧ g.recv_off ≥ g.recv_total then g
  else { g with post_ok := false, prog_phase := -1 }

def httpd_post_response_complete (g : Shared) (result : Int) : Shared :=
  if g.reboot_post_pending then
    if result ≠ ERR_OK then { g with reboot_post_pending := false }
    else { g with reboot_request := false, timers := g.timers+1 }
  else if g.post_ok = false ∨ g.recv_total = 0 ∨ g.recv_off < g.recv_total then g
  else if result ≠ ERR_OK then { g with post_ok := false, prog_phase := -1 }
  else { g with flash_request := true }

/-- The upload is there and waits for the end of its response. -/
def Complete (g : Shared) : Prop := g.post_ok = true ∧ g.recv_total ≠ 0 ∧ g.recv_total ≤ g.recv_off

/-- The end of a response concerns the reboot that was accepted, else the upload
    that is complete, whoever sent them. -/
theorem httpd_post_response_complete_cases (g : Shared) (result : Int) :
    (g.reboot_post_pending = true ∧ result ≠ ERR_OK ∧
      httpd_post_response_complete g result = { g with reboot_post_pending := false }) ∨
    (g.reboot_post_pending = true ∧ result = ERR_OK ∧
      httpd_post_response_complete g result = { g with reboot_request := false, timers := g.timers+1 }) ∨
    (g.reboot_post_pending = false ∧ Complete g ∧ result ≠ ERR_OK ∧
      httpd_post_response_complete g result = { g with post_ok := false, prog_phase := -1 }) ∨
    (g.reboot_post_pending = false ∧ Complete g ∧ result = ERR_OK ∧
      httpd_post_response_complete g result = { g with flash_request := true }) ∨
    (g.reboot_post_pending = false ∧ ¬ Complete g ∧ httpd_post_response_complete g result = g) := by
  rw [httpd_post_response_complete]
  cases pending : g.reboot_post_pending with
  | true =>
    by_cases failed : result ≠ ERR_OK
    · exact .inl ⟨rfl,failed,by simp [failed]⟩
    · exact .inr (.inl ⟨rfl,not_not.mp failed,by simp [failed]⟩)
  | false =>
    have not_pending : ¬ (false = true) := by decide
    rw [if_neg not_pending]
    by_cases complete : Complete g
    · have passes : ¬ (g.post_ok = false ∨ g.recv_total = 0 ∨ g.recv_off < g.recv_total) := by
        rintro (no_post | empty | short)
        · simp [complete.1] at no_post
        · exact complete.2.1 empty
        · exact absurd complete.2.2 (by omega)
      rw [if_neg passes]
      by_cases failed : result ≠ ERR_OK
      · exact .inr (.inr (.inl ⟨rfl,complete,failed,if_pos failed⟩))
      · exact .inr (.inr (.inr (.inl ⟨rfl,complete,not_not.mp failed,if_neg failed⟩)))
    · have returns : g.post_ok = false ∨ g.recv_total = 0 ∨ g.recv_off < g.recv_total := by
        by_contra passes
        simp only [not_or,Bool.not_eq_false,not_lt] at passes
        exact complete passes
      rw [if_pos returns]
      exact .inr (.inr (.inr (.inr ⟨rfl,complete,rfl⟩)))

def reboot_delay_cb (g : Shared) : Shared := { g with reboot_request := true }

end UBoot.Recovery
