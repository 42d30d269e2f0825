import UBoot.Memory
import UBoot.Runs

/-!
Getting a file by TFTP, `net/tftp.c`, with a server that sends the blocks of a file in a window and
a network that loses, duplicates and reorders packets. `ulong` has 64 bit and `int` has 32. The
options of an OACK are a list in the order of the packet; packets are for our port and from the
server's. A copy of a block that is not too old can only be the next one if its number, of 16 bits,
is (`number_next`).
-/
namespace UBoot.Tftp
open UBoot.Memory UBoot.Runs List

def TFTP_BLOCK_SIZE : ℕ := 512
def TFTP_SEQUENCE_SIZE : ℕ := 2^16

inductive TftpState where
  | STATE_SEND_RRQ
  | STATE_SEND_WRQ
  | STATE_DATA
  | STATE_OACK
  | STATE_INVALID_OPTION
deriving DecidableEq

inductive Outcome where
  | running
  | restarted
  | failed
  | complete
deriving DecidableEq

/-- What is set up before the transfer; the block size is capped by
    `sanitize_tftp_block_size_option`. -/
structure Board where
  tftp_load_addr : ℕ
  tftp_block_size_option : ℕ
  timeout_s : ℕ
  tftp_timeout_count_max : ℕ
  LMB : Bool
  lmb_read_check : ℕ → ℕ → Bool
  capped : tftp_block_size_option ≤ 65464

structure Client where
  tftp_state : TftpState
  tftp_cur_block : ℕ
  tftp_prev_block : ℕ
  tftp_block_wrap : ℕ
  tftp_block_wrap_offset : ℕ
  tftp_block_size : ℕ
  tftp_windowsize : ℕ
  tftp_next_ack : ℕ
  tftp_last_nack : ℕ
  timeout_count : ℕ
  net_boot_file_size : ℕ
  memory : ℕ → UInt8
  outcome : Outcome

inductive OackOption where
  | blksize (n : ℕ)
  | timeout (n : ℕ)
  | tsize (n : ℕ)
  | windowsize (n : ℕ)

def int_to_ulong (n : ℕ) : ℕ := if n%2^32 < 2^31 then n%2^32 else 2^64-2^32+n%2^32

section
variable (board : Board)

/-- Where `store_block` puts a block, from `tftp_load_addr` on. -/
def block_offset (c : Client) : ℕ :=
  (int_to_ulong (c.tftp_cur_block*c.tftp_block_size)+c.tftp_block_wrap_offset+(2^64-c.tftp_block_size))%2^64

def store_block (c : Client) (src : List UInt8) : Option Client :=
  let offset := block_offset c
  let newsize := (offset+src.length)%2^64
  let store_addr := (board.tftp_load_addr+offset)%2^64
  if board.LMB ∧ (store_addr < board.tftp_load_addr ∨ board.lmb_read_check store_addr src.length) then none
  else
    some { c with
      memory := store c.memory store_addr src
      net_boot_file_size := if c.net_boot_file_size < newsize then newsize%2^32 else c.net_boot_file_size }

def new_transfer (c : Client) : Client :=
  { c with tftp_prev_block := 0, tftp_block_wrap := 0, tftp_block_wrap_offset := 0 }

def update_block_number (c : Client) : Client :=
  if c.tftp_cur_block = 0 ∧ c.tftp_prev_block ≠ 0 then
    { c with
      tftp_block_wrap := c.tftp_block_wrap+1
      tftp_block_wrap_offset := (c.tftp_block_wrap_offset+c.tftp_block_size*TFTP_SEQUENCE_SIZE)%2^64
      timeout_count := 0 }
  else c

/-- `tftp_send`, which ends the net loop after an error packet. -/
def tftp_send (c : Client) : Client :=
  if c.tftp_state = .STATE_INVALID_OPTION then { c with outcome := .failed } else c

def tftp_complete (c : Client) : Client := { c with outcome := .complete }

def oack_option (c : Client) : OackOption → Client
  | .blksize n =>
    let tftp_block_size := n%2^16
    { c with
      tftp_block_size
      tftp_state := if board.tftp_block_size_option < tftp_block_size then .STATE_INVALID_OPTION else c.tftp_state }
  | .timeout n => if n%2^16 ≠ board.timeout_s then { c with tftp_state := .STATE_INVALID_OPTION } else c
  | .tsize _ => c
  | .windowsize n => { c with tftp_windowsize := n%2^16 }

def handle_oack (c : Client) (options : List OackOption) : Client :=
  let c := options.foldl (oack_option board) { c with tftp_state := .STATE_OACK }
  tftp_send { c with tftp_next_ack := c.tftp_windowsize }

/-- `tftp_handler` for a block with another number than the next one: an ACK is sent for a
    block that is further on, but not twice. -/
def unexpected_block (c : Client) (number : ℕ) : Client :=
  let signed : ℤ := if number < 2^15 then number else number-2^16
  if ((c.tftp_cur_block+1)%2^16 : ℤ)-signed > 0 then c
  else if c.tftp_last_nack ≠ c.tftp_cur_block then
    let c := tftp_send c
    { c with tftp_last_nack := c.tftp_cur_block%2^16, tftp_next_ack := (c.tftp_cur_block+c.tftp_windowsize)%2^16 }
  else c

/-- `tftp_handler` for the next block, once the transfer has begun. -/
def take_block (c : Client) (src : List UInt8) : Client :=
  if c.tftp_cur_block = c.tftp_prev_block then c
  else
    let c := update_block_number c
    let c := { c with tftp_prev_block := c.tftp_cur_block }
    match store_block board c src with
    | none => { c with outcome := .failed }
    | some c =>
      let c := { c with timeout_count := 0 }
      if src.length < c.tftp_block_size then tftp_complete (tftp_send c)
      else if c.tftp_cur_block = c.tftp_next_ack then
        { tftp_send c with tftp_next_ack := (c.tftp_next_ack+c.tftp_windowsize)%2^16 }
      else c

def handle_data (c : Client) (number : ℕ) (src : List UInt8) : Client :=
  if number ≠ (c.tftp_cur_block+1)%2^16 then unexpected_block c number
  else
    let first := c.tftp_state
    let c := { c with tftp_cur_block := (c.tftp_cur_block+1)%TFTP_SEQUENCE_SIZE }
    let c := if first = .STATE_SEND_RRQ then { c with tftp_next_ack := c.tftp_windowsize } else c
    if first = .STATE_SEND_RRQ ∨ first = .STATE_OACK then
      -- first block received
      let c := new_transfer { c with tftp_state := .STATE_DATA }
      if c.tftp_cur_block ≠ 1 then { c with outcome := .restarted } else take_block board c src
    else take_block board c src

def tftp_timeout_handler (c : Client) : Client :=
  let c := { c with timeout_count := c.timeout_count+1 }
  if board.tftp_timeout_count_max < c.timeout_count then { c with outcome := .restarted } else tftp_send c

/-- `tftp_start` for a get; the counters of blocks are those of an earlier transfer. -/
def tftp_start (old : Client) : Client :=
  { old with
    tftp_state := .STATE_SEND_RRQ
    tftp_cur_block := 0
    tftp_windowsize := 1
    tftp_last_nack := 0
    tftp_block_size := TFTP_BLOCK_SIZE
    timeout_count := 0
    net_boot_file_size := 0
    outcome := .running }
end

/-! ## The server and the network -/

/-- What a server sends: the file in blocks, in a window. It acknowledges options that U-Boot
    accepts, or sends blocks of 512 bytes one by one. -/
structure Server (board : Board) where
  file : List UInt8
  blksize : ℕ
  windowsize : ℕ
  oack : Option (List OackOption)
  blksize_pos : 0 < blksize
  blksize_small : blksize < 2^16
  window : 1 ≤ windowsize ∧ windowsize < 2^16
  plain : oack = none → blksize = TFTP_BLOCK_SIZE ∧ windowsize = 1
  accepted : oack ≠ none → blksize ≤ board.tftp_block_size_option
  options : ∀ l, oack = some l → (∀ n, .blksize n ∈ l → n = blksize) ∧ (blksize ≠ TFTP_BLOCK_SIZE → .blksize blksize ∈ l) ∧
    (∀ n, .timeout n ∈ l → n%2^16 = board.timeout_s)
  /-- There is room for the file. -/
  fits : board.tftp_load_addr+file.length < 2^64

section
variable {board : Board} (server : Server board)

def Server.blocks : ℕ := server.file.length/server.blksize+1

/-- A block, counted from 1. -/
def Server.block (k : ℕ) : List UInt8 := (server.file.drop ((k-1)*server.blksize)).take server.blksize

/-- The transfer with the number of blocks that U-Boot has taken and the last block that the
    server has sent. -/
structure System where
  client : Client
  received : ℕ
  advanced : ℕ

inductive Event where
  | advance
  | oack
  | data (k : ℕ)
  | timeout

/-- The server sends the next block of its window once U-Boot has answered its OACK. -/
def MayAdvance (s : System) : Prop :=
  (server.oack ≠ none → s.client.tftp_state ≠ .STATE_SEND_RRQ) ∧ s.advanced < server.blocks ∧
    s.advanced < s.received+server.windowsize

/-- A copy of a block arrives before the server is 32768 blocks further on. -/
def MayArrive (s : System) (k : ℕ) : Prop := 1 ≤ k ∧ k ≤ s.advanced ∧ s.advanced < k+2^15

instance (s : System) : Decidable (MayAdvance server s) := inferInstanceAs (Decidable (_ ∧ _))
instance (s : System) (k : ℕ) : Decidable (MayArrive s k) := inferInstanceAs (Decidable (_ ∧ _))

def step (s : System) (e : Event) : System :=
  if s.client.outcome ≠ .running then s
  else
    match e with
    | .advance => if MayAdvance server s then { s with advanced := s.advanced+1 } else s
    | .oack =>
      match server.oack with
      | none => s
      | some options => { s with client := handle_oack board s.client options }
    | .data k =>
      if MayArrive s k then
        let client := handle_data board s.client (k%2^16) (server.block k)
        { s with client, received := if client.tftp_cur_block = s.client.tftp_cur_block then s.received else s.received+1 }
      else s
    | .timeout => { s with client := tftp_timeout_handler board s.client }
end

/-! ## Blocks -/

theorem number_next {n s k w : ℕ} (same : k%2^16 = (n%2^16+1)%2^16) (sent : k ≤ s) (young : s < k+2^15) (order : n ≤ s)
    (window : s ≤ n+w) (small : w < 2^16) : k = n+1 := by
  omega

section
variable {board : Board} {server : Server board}

theorem blocks_before {n : ℕ} (left : n < server.blocks) : n*server.blksize ≤ server.file.length := by
  unfold Server.blocks at left
  exact (Nat.le_div_iff_mul_le server.blksize_pos).1 (by omega)

theorem block_length (n : ℕ) :
    (server.block (n+1)).length = min server.blksize (server.file.length-n*server.blksize) := by
  simp [Server.block]

/-- Only the last block is not full. -/
theorem block_short_iff {n : ℕ} (left : n < server.blocks) :
    (server.block (n+1)).length < server.blksize ↔ n+1 = server.blocks := by
  have pos := server.blksize_pos
  have before := blocks_before left
  rw [block_length]
  unfold Server.blocks at left ⊢
  have next : server.file.length/server.blksize < n+1 ↔ server.file.length < (n+1)*server.blksize :=
    Nat.div_lt_iff_lt_mul pos
  have spread : (n+1)*server.blksize = n*server.blksize+server.blksize := by ring
  rw [spread] at next
  omega

theorem take_next (n : ℕ) : server.file.take (n*server.blksize) ++ server.block (n+1) =
    server.file.take ((n+1)*server.blksize) := by
  have spread : (n+1)*server.blksize = n*server.blksize+server.blksize := by ring
  rw [spread,take_add]
  rfl

theorem load_next {m : ℕ → UInt8} {n : ℕ}
    (before : load m board.tftp_load_addr (n*server.blksize) = server.file.take (n*server.blksize)) :
    load (store m (board.tftp_load_addr+n*server.blksize) (server.block (n+1))) board.tftp_load_addr
      (n*server.blksize+(server.block (n+1)).length) = server.file.take ((n+1)*server.blksize) := by
  rw [load_append,load_store,load_store_apart _ (.inl le_rfl),before,take_next]

/-- The numbers that the code computes with do not overflow. -/
structure Small (server : Server board) : Prop where
  length : server.file.length < 2^32
  product : ∀ k ≤ server.blocks, k%2^16*server.blksize < 2^31

variable {c : Client} {s : System}

theorem store_offset (small : Small server) {n : ℕ} (left : n < server.blocks)
    (cur : c.tftp_cur_block = (n+1)%2^16) (size : c.tftp_block_size = server.blksize)
    (wrap : c.tftp_block_wrap_offset = (n+1)/2^16*2^16*server.blksize) : block_offset c = n*server.blksize := by
  have product := small.product (n+1) left
  have length := small.length
  have before := blocks_before left
  have blksize := server.blksize_small
  have sum : (n+1)%2^16*server.blksize+(n+1)/2^16*2^16*server.blksize = n*server.blksize+server.blksize := by
    rw [← add_mul,Nat.mod_add_div']
    ring
  unfold block_offset int_to_ulong
  rw [cur,size,wrap]
  generalize (n+1)%2^16*server.blksize = x at sum product
  generalize (n+1)/2^16*2^16*server.blksize = y at sum
  generalize n*server.blksize = z at sum before
  rw [if_pos (by omega)]
  omega
end

/-! ## Taking a block -/

section
variable {board : Board} {server : Server board}

structure Taken (server : Server board) (n : ℕ) (c : Client) : Prop where
  memory : load c.memory board.tftp_load_addr (n*server.blksize) = server.file.take (n*server.blksize)
  file_size : c.net_boot_file_size = n*server.blksize

structure Delivered (server : Server board) (c : Client) : Prop where
  memory : load c.memory board.tftp_load_addr server.file.length = server.file
  file_size : c.net_boot_file_size = server.file.length

structure Counted (server : Server board) (n : ℕ) (c : Client) : Prop where
  cur : c.tftp_cur_block = n%2^16
  prev : c.tftp_prev_block = n%2^16
  wrap : c.tftp_block_wrap_offset = n/2^16*2^16*server.blksize
  size : c.tftp_block_size = server.blksize

/-- What comes of a block that is taken: the transfer goes on, fails or is complete. -/
inductive TakeResult (server : Server board) (n : ℕ) (c : Client) : Prop
  | goes_on : c.outcome = .running → n < server.blocks → c.tftp_state = .STATE_DATA → Taken server n c → Counted server n c →
    TakeResult server n c
  | fails : c.outcome = .failed → board.LMB = true → TakeResult server n c
  | completes : c.outcome = .complete → n = server.blocks → Delivered server c → TakeResult server n c

theorem update_block_number_same (c : Client) : (update_block_number c).tftp_cur_block = c.tftp_cur_block ∧
    (update_block_number c).tftp_block_size = c.tftp_block_size ∧ (update_block_number c).memory = c.memory ∧
    (update_block_number c).net_boot_file_size = c.net_boot_file_size ∧ (update_block_number c).tftp_state = c.tftp_state ∧
    (update_block_number c).outcome = c.outcome ∧ (update_block_number c).tftp_windowsize = c.tftp_windowsize := by
  unfold update_block_number
  split_ifs <;> simp

theorem store_block_next (small : Small server) {n : ℕ} (left : n < server.blocks)
    (offset : block_offset c = n*server.blksize) (file_size : c.net_boot_file_size = n*server.blksize) :
    store_block board c (server.block (n+1)) = none ∧ board.LMB = true ∨ store_block board c (server.block (n+1)) =
      some { c with
        memory := store c.memory (board.tftp_load_addr+n*server.blksize) (server.block (n+1))
        net_boot_file_size := n*server.blksize+(server.block (n+1)).length } := by
  have before := blocks_before left
  have length := small.length
  have room := server.fits
  have block := @block_length board server n
  have addr : (board.tftp_load_addr+n*server.blksize)%2^64 = board.tftp_load_addr+n*server.blksize :=
    Nat.mod_eq_of_lt (by omega)
  obtain ⟨size,sizeIs⟩ : ∃ size, size = n*server.blksize+(server.block (n+1)).length := ⟨_,rfl⟩
  have newsize : size%2^64 = size := Nat.mod_eq_of_lt (by omega)
  have truncated : size%2^32 = size := Nat.mod_eq_of_lt (by omega)
  have grows : (if n*server.blksize < size then size else n*server.blksize) = size := by
    split_ifs
    · rfl
    · omega
  simp only [store_block,offset,addr,← sizeIs,newsize,truncated,file_size,grows]
  split_ifs with refused
  · exact .inl ⟨rfl,refused.1⟩
  · exact .inr rfl

theorem take_block_next (small : Small server) {n : ℕ} (left : n < server.blocks)
    (running : c.outcome = .running) (state : c.tftp_state = .STATE_DATA) (cur : c.tftp_cur_block = (n+1)%2^16)
    (size : c.tftp_block_size = server.blksize) (new : c.tftp_cur_block ≠ c.tftp_prev_block)
    (wrap : (update_block_number c).tftp_block_wrap_offset = (n+1)/2^16*2^16*server.blksize) (taken : Taken server n c) :
    TakeResult server (n+1) (take_block board c (server.block (n+1))) := by
  obtain ⟨same_cur,same_size,same_memory,same_file_size,same_state,same_outcome,_⟩ := update_block_number_same c
  have valid : ¬ c.tftp_state = .STATE_INVALID_OPTION := by simp [state]
  have next := load_next taken.memory
  have short := block_short_iff left
  have block := @block_length board server n
  have before := blocks_before left
  have stored := store_block_next small (c := { update_block_number c with tftp_prev_block := (update_block_number c).tftp_cur_block })
    left (store_offset small left (same_cur.trans cur) (same_size.trans size) wrap) (same_file_size.trans taken.file_size)
  unfold take_block
  rw [if_neg new]
  simp only
  rcases stored with ⟨fails,checked⟩ | stored
  · rw [fails]
    exact .fails rfl checked
  rw [stored]
  simp only [same_size,size,tftp_send,same_state,valid,if_false,same_cur]
  by_cases last : (server.block (n+1)).length < server.blksize
  · rw [if_pos last]
    have total : n*server.blksize+(server.block (n+1)).length = server.file.length := by omega
    have spread : (n+1)*server.blksize = n*server.blksize+server.blksize := by ring
    have whole : server.file.take ((n+1)*server.blksize) = server.file := take_of_length_le (by omega)
    refine .completes rfl (short.1 last) ⟨?_,total⟩
    simp only [tftp_complete,same_memory]
    rw [← total,next,whole]
  · have full : (server.block (n+1)).length = server.blksize := by omega
    have spread : (n+1)*server.blksize = n*server.blksize+server.blksize := by ring
    rw [full,← spread] at next
    rw [if_neg last,full,same_memory,← spread]
    have not_last : n+1 < server.blocks := lt_of_le_of_ne left (fun is => last (short.2 is))
    split_ifs
    · exact .goes_on (same_outcome.trans running) not_last state ⟨next,rfl⟩ ⟨cur,cur,wrap,rfl⟩
    · exact .goes_on (same_outcome.trans running) not_last state ⟨next,rfl⟩ ⟨cur,cur,wrap,rfl⟩
end

/-! ## A transfer that goes on -/

section
variable {board : Board} {server : Server board}

/-- The transfer goes on: the blocks so far are in memory and the counters stand at the last
    one. -/
structure Going (server : Server board) (s : System) : Prop where
  order : s.received ≤ s.advanced
  window : s.advanced ≤ s.received+server.windowsize
  left : s.received < server.blocks
  cur : s.client.tftp_cur_block = s.received%2^16
  valid : s.client.tftp_state ≠ .STATE_INVALID_OPTION
  rrq : s.client.tftp_state = .STATE_SEND_RRQ →
    s.received = 0 ∧ s.client.tftp_block_size = TFTP_BLOCK_SIZE ∧ (server.oack ≠ none → s.advanced = 0)
  size : s.client.tftp_state ≠ .STATE_SEND_RRQ → s.client.tftp_block_size = server.blksize
  begun : s.client.tftp_state = .STATE_DATA → 0 < s.received
  counted : 0 < s.received → Counted server s.received s.client
  taken : Taken server s.received s.client
  at_wrap : s.client.tftp_state = .STATE_OACK → 0 < s.received → s.received%2^16 = 0 →
    server.file.length ≤ s.received*server.blksize
  get : s.client.tftp_state ≠ .STATE_SEND_WRQ

/-- A transfer that goes on is right so far, and one that is complete has delivered the file. -/
structure Inv (server : Server board) (s : System) : Prop where
  going : s.client.outcome = .running → Going server s
  delivered : s.client.outcome = .complete → Delivered server s.client

/-- An OACK does not come between two rounds of block numbers. -/
def Timely (server : Server board) (s : System) : Event → Prop
  | .oack => s.received%2^16 = 0 → 0 < s.received → server.file.length ≤ s.received*server.blksize
  | _ => True

structure Kept (c d : Client) : Prop where
  cur : d.tftp_cur_block = c.tftp_cur_block
  prev : d.tftp_prev_block = c.tftp_prev_block
  wrap : d.tftp_block_wrap_offset = c.tftp_block_wrap_offset
  memory : d.memory = c.memory
  file_size : d.net_boot_file_size = c.net_boot_file_size
  outcome : d.outcome = c.outcome

theorem oack_option_kept (c : Client) (option : OackOption) : Kept c (oack_option board c option) := by
  cases option with
  | blksize n => exact ⟨rfl,rfl,rfl,rfl,rfl,rfl⟩
  | timeout n =>
    simp only [oack_option]
    split_ifs <;> exact ⟨rfl,rfl,rfl,rfl,rfl,rfl⟩
  | tsize n | windowsize n => exact ⟨rfl,rfl,rfl,rfl,rfl,rfl⟩

/-- The options of the server are accepted one by one; the block size is that of the server once
    it was among them. The induction is on the options that are left. -/
theorem oack_options (whole : List OackOption) (is : server.oack = some whole) :
    ∀ (options : List OackOption) (c : Client), (∀ o ∈ options, o ∈ whole) → c.tftp_state = .STATE_OACK →
      (c.tftp_block_size = server.blksize ∨ .blksize server.blksize ∈ options) →
      Kept c (options.foldl (oack_option board) c) ∧
        (options.foldl (oack_option board) c).tftp_state = .STATE_OACK ∧
        (options.foldl (oack_option board) c).tftp_block_size = server.blksize := by
  obtain ⟨blksize,_,timeout⟩ := server.options whole is
  have accepted := server.accepted (by rw [is]; simp)
  have small := server.blksize_small
  intro options
  induction options with
  | nil =>
    intro c _ state size
    exact ⟨⟨rfl,rfl,rfl,rfl,rfl,rfl⟩,state,size.elim id (fun mem => absurd mem not_mem_nil)⟩
  | cons option rest following =>
    intro c known state size
    have kept := @oack_option_kept board c option
    have step : (oack_option board c option).tftp_state = .STATE_OACK ∧
        ((oack_option board c option).tftp_block_size = server.blksize ∨ .blksize server.blksize ∈ rest) := by
      cases option with
      | blksize n =>
        obtain rfl := blksize n (known _ (by simp))
        have fits : server.blksize%2^16 = server.blksize := Nat.mod_eq_of_lt small
        refine ⟨?_,.inl fits⟩
        simp only [oack_option,fits]
        rw [if_neg (not_lt.2 accepted),state]
      | timeout n =>
        have same : ¬ n%2^16 ≠ board.timeout_s := not_not.2 (timeout n (known _ (by simp)))
        simp only [oack_option,if_neg same]
        exact ⟨state,by simpa using size⟩
      | tsize n | windowsize n => exact ⟨state,by simpa [oack_option] using size⟩
    obtain ⟨rest_kept,rest_state,rest_size⟩ := following _ (fun o mem => known o (by simp [mem])) step.1 step.2
    exact ⟨⟨rest_kept.cur.trans kept.cur,rest_kept.prev.trans kept.prev,rest_kept.wrap.trans kept.wrap,
      rest_kept.memory.trans kept.memory,rest_kept.file_size.trans kept.file_size,rest_kept.outcome.trans kept.outcome⟩,
      rest_state,rest_size⟩

theorem handle_oack_spec {options : List OackOption} (is : server.oack = some options) (c : Client)
    (size : c.tftp_block_size = server.blksize ∨ c.tftp_block_size = TFTP_BLOCK_SIZE) :
    Kept c (handle_oack board c options) ∧ (handle_oack board c options).tftp_state = .STATE_OACK ∧
      (handle_oack board c options).tftp_block_size = server.blksize := by
  have start : c.tftp_block_size = server.blksize ∨ .blksize server.blksize ∈ options := by
    by_cases default : server.blksize = TFTP_BLOCK_SIZE
    · exact .inl (size.elim id (fun is => is.trans default.symm))
    · exact .inr ((server.options options is).2.1 default)
  obtain ⟨kept,state,block_size⟩ := oack_options options is options { c with tftp_state := .STATE_OACK } (fun o mem => mem) rfl start
  unfold handle_oack tftp_send
  simp only [state]
  exact ⟨⟨kept.cur,kept.prev,kept.wrap,kept.memory,kept.file_size,kept.outcome⟩,rfl,block_size⟩

theorem oack_going {options : List OackOption} (is : server.oack = some options) (going : Going server s)
    (timely : Timely server s .oack) :
    Going server { s with client := handle_oack board s.client options } := by
  have size : s.client.tftp_block_size = server.blksize ∨ s.client.tftp_block_size = TFTP_BLOCK_SIZE := by
    by_cases rrq : s.client.tftp_state = .STATE_SEND_RRQ
    · exact .inr (going.rrq rrq).2.1
    · exact .inl (going.size rrq)
  obtain ⟨kept,state,block_size⟩ := handle_oack_spec is s.client size
  refine ⟨going.order,going.window,going.left,kept.cur.trans going.cur,by simp [state],by simp [state],fun _ => block_size,
    by simp [state],fun begun => ?_,⟨?_,?_⟩,fun _ begun wraps => timely wraps begun,by simp [state]⟩
  · have counted := going.counted begun
    exact ⟨kept.cur.trans counted.cur,kept.prev.trans counted.prev,kept.wrap.trans counted.wrap,block_size⟩
  · exact kept.memory ▸ going.taken.memory
  · exact kept.file_size.trans going.taken.file_size
end

section
variable {board : Board} {server : Server board}

theorem unexpected_kept (valid : c.tftp_state ≠ .STATE_INVALID_OPTION) (number : ℕ) :
    Kept c (unexpected_block c number) ∧ (unexpected_block c number).tftp_state = c.tftp_state ∧
      (unexpected_block c number).tftp_block_size = c.tftp_block_size := by
  simp only [unexpected_block,tftp_send,if_neg valid]
  split_ifs <;> exact ⟨⟨rfl,rfl,rfl,rfl,rfl,rfl⟩,rfl,rfl⟩

theorem kept_going (going : Going server s) (kept : Kept s.client c)
    (state : c.tftp_state = s.client.tftp_state) (size : c.tftp_block_size = s.client.tftp_block_size) :
    Going server { s with client := c } := by
  refine ⟨going.order,going.window,going.left,kept.cur.trans going.cur,?_,?_,?_,?_,fun begun => ?_,⟨?_,?_⟩,?_,?_⟩
  · rw [state]
    exact going.valid
  · rw [state,size]
    exact going.rrq
  · rw [state,size]
    exact going.size
  · rw [state]
    exact going.begun
  · have counted := going.counted begun
    exact ⟨kept.cur.trans counted.cur,kept.prev.trans counted.prev,kept.wrap.trans counted.wrap,size.trans counted.size⟩
  · exact kept.memory ▸ going.taken.memory
  · exact kept.file_size.trans going.taken.file_size
  · rw [state]
    exact going.at_wrap
  · rw [state]
    exact going.get

theorem take_block_empty (state : c.tftp_state = .STATE_DATA)
    (size : c.tftp_block_size = server.blksize) (first : c.tftp_cur_block = 1) (prev : c.tftp_prev_block = 0)
    (wrap : c.tftp_block_wrap_offset = 0) {n : ℕ} (taken : Taken server n c) (whole : n*server.blksize = server.file.length) :
    TakeResult server (n+1) (take_block board c []) := by
  have pos := server.blksize_pos
  have small := server.blksize_small
  have same : update_block_number c = c := by simp [update_block_number,first]
  have offset : block_offset { c with tftp_prev_block := c.tftp_cur_block } = 0 := by
    simp only [block_offset,int_to_ulong,first,size,wrap,one_mul]
    rw [if_pos (by omega)]
    omega
  unfold take_block
  rw [if_neg (by rw [first,prev]; decide),same]
  simp only [store_block,offset,length_nil,store_nil,add_zero,Nat.zero_mod,Nat.not_lt_zero,if_false]
  split_ifs with refused
  · exact .fails rfl refused.1
  have valid : ¬ c.tftp_state = .STATE_INVALID_OPTION := by simp [state]
  simp only [size,pos,if_true,tftp_send,valid,if_false]
  have last : n+1 = server.blocks := by
    unfold Server.blocks
    rw [← whole,Nat.mul_div_cancel _ pos]
  refine .completes rfl last ⟨?_,?_⟩
  · change load c.memory board.tftp_load_addr server.file.length = server.file
    rw [← whole,taken.memory,take_of_length_le (le_of_eq whole.symm)]
  · exact taken.file_size.trans whole

/-- The first block of a transfer, or of a round of block numbers after an OACK. -/
theorem first_block (small : Small server) (going : Going server s) (sent : s.received < s.advanced)
    (before : s.client.tftp_state = .STATE_SEND_RRQ ∨ s.client.tftp_state = .STATE_OACK) (running : c.outcome = .running)
    (state : c.tftp_state = .STATE_DATA) (size : c.tftp_block_size = s.client.tftp_block_size)
    (first : c.tftp_cur_block = 1) (same : (s.received+1)%2^16 = 1) (prev : c.tftp_prev_block = 0)
    (wrap : c.tftp_block_wrap_offset = 0) (taken : Taken server s.received c) :
    TakeResult server (s.received+1) (take_block board c (server.block (s.received+1))) := by
  have block_size : c.tftp_block_size = server.blksize := by
    rw [size]
    rcases before with rrq | oack
    · obtain ⟨_,default,silent⟩ := going.rrq rrq
      have no_options : server.oack = none := by
        by_contra options
        have none_sent := silent options
        omega
      rw [default,(server.plain no_options).1]
    · exact going.size (by simp [oack])
  by_cases begun : 0 < s.received
  · -- only an empty block can follow an OACK here
    have oack : s.client.tftp_state = .STATE_OACK := by
      rcases before with rrq | oack
      · have none_received := (going.rrq rrq).1
        omega
      · exact oack
    have rest := going.at_wrap oack begun (by omega)
    have whole : s.received*server.blksize = server.file.length := le_antisymm (blocks_before going.left) rest
    have empty : server.block (s.received+1) = [] := by
      apply length_eq_zero_iff.1
      rw [block_length]
      omega
    rw [empty]
    exact take_block_empty state block_size first prev wrap taken whole
  · have none_received : s.received = 0 := by omega
    have same_wrap : update_block_number c = c := by simp [update_block_number,first]
    apply take_block_next small going.left running state (by rw [first,same]) block_size (by rw [first,prev]; decide) _ taken
    rw [same_wrap,wrap,none_received]
    simp

theorem later_block (small : Small server) (going : Going server s)
    (running : c.outcome = .running) (state : c.tftp_state = .STATE_DATA) (size : c.tftp_block_size = server.blksize)
    (cur : c.tftp_cur_block = (s.received+1)%2^16) (prev : c.tftp_prev_block = s.received%2^16)
    (wrap : c.tftp_block_wrap_offset = s.received/2^16*2^16*server.blksize) (taken : Taken server s.received c) :
    TakeResult server (s.received+1) (take_block board c (server.block (s.received+1))) := by
  have before := blocks_before going.left
  have length := small.length
  have blksize := server.blksize_small
  apply take_block_next small going.left running state cur size (by rw [cur,prev]; omega) _ taken
  unfold update_block_number
  split_ifs with wraps
  · have full : s.received%2^16 = 2^16-1 := by
      rw [cur] at wraps
      omega
    have round : (s.received+1)/2^16 = s.received/2^16+1 := by omega
    have fits : s.received/2^16*2^16*server.blksize ≤ s.received*server.blksize :=
      Nat.mul_le_mul_right _ (Nat.div_mul_le_self _ _)
    have sum : (s.received/2^16+1)*2^16*server.blksize = s.received/2^16*2^16*server.blksize+server.blksize*2^16 := by ring
    simp only [wrap,size,TFTP_SEQUENCE_SIZE]
    rw [round,sum]
    exact Nat.mod_eq_of_lt (by omega)
  · have same_round : (s.received+1)/2^16 = s.received/2^16 := by
      rw [cur,prev] at wraps
      omega
    rw [wrap,same_round]

theorem data_going (small : Small server) {s : System} (running : s.client.outcome = .running) (going : Going server s)
    (sent : s.received < s.advanced) :
    (handle_data board s.client ((s.received+1)%2^16) (server.block (s.received+1))).outcome = .restarted ∧
        s.client.tftp_state ≠ .STATE_DATA ∧ 0 < s.received ∨
      TakeResult server (s.received+1) (handle_data board s.client ((s.received+1)%2^16) (server.block (s.received+1))) := by
  have number : ¬ (s.received+1)%2^16 ≠ (s.client.tftp_cur_block+1)%2^16 := by
    rw [going.cur]
    omega
  have cur : (s.client.tftp_cur_block+1)%TFTP_SEQUENCE_SIZE = (s.received+1)%2^16 := by
    rw [going.cur]
    unfold TFTP_SEQUENCE_SIZE
    omega
  have taken := going.taken
  unfold handle_data
  rw [if_neg number]
  simp only [cur]
  cases state : s.client.tftp_state with
  | STATE_SEND_RRQ =>
    by_cases first : (s.received+1)%2^16 = 1
    · right
      simp only [if_true,true_or,new_transfer,first,ne_eq,not_true_eq_false,if_false]
      exact first_block small going sent (.inl state) running rfl rfl rfl first rfl rfl ⟨taken.memory,taken.file_size⟩
    · left
      simp only [if_true,true_or,new_transfer,ne_eq,first,not_false_eq_true,reduceCtorEq,true_and]
      omega
  | STATE_SEND_WRQ => exact absurd state going.get
  | STATE_OACK =>
    by_cases first : (s.received+1)%2^16 = 1
    · right
      simp only [reduceCtorEq,if_false,false_or,if_true,new_transfer,first,ne_eq,not_true_eq_false]
      exact first_block small going sent (.inr state) running rfl rfl rfl first rfl rfl ⟨taken.memory,taken.file_size⟩
    · left
      simp only [reduceCtorEq,if_false,false_or,if_true,new_transfer,ne_eq,first,not_false_eq_true,true_and]
      omega
  | STATE_DATA =>
    right
    have begun := going.begun state
    have counted := going.counted begun
    simp only [reduceCtorEq,if_false,or_self]
    exact later_block small going running rfl counted.size rfl counted.prev counted.wrap ⟨taken.memory,taken.file_size⟩
  | STATE_INVALID_OPTION => exact absurd state going.valid
end

/-! ## Runs -/

section
variable {board : Board} {server : Server board}

theorem inv_of_going (running : s.client.outcome = .running) (going : Going server s) : Inv server s :=
  ⟨fun _ => going,fun complete => absurd (running.symm.trans complete) (by simp)⟩

theorem inv_of_complete (complete : s.client.outcome = .complete) (delivered : Delivered server s.client) :
    Inv server s :=
  ⟨fun running => absurd (complete.symm.trans running) (by simp),fun _ => delivered⟩

theorem inv_of_given_up (given_up : s.client.outcome = .restarted ∨ s.client.outcome = .failed) : Inv server s := by
  constructor
  · intro running
    rcases given_up with is | is <;> rw [running] at is <;> cases is
  · intro complete
    rcases given_up with is | is <;> rw [complete] at is <;> cases is

theorem advance_going (going : Going server s) (may : MayAdvance server s) :
    Going server { s with advanced := s.advanced+1 } := by
  obtain ⟨answered,_,window⟩ := may
  refine ⟨?_,?_,going.left,going.cur,going.valid,fun rrq => ?_,going.size,going.begun,going.counted,going.taken,going.at_wrap,going.get⟩
  · have order := going.order
    simp only
    omega
  · simp only
    omega
  · obtain ⟨none_received,size,_⟩ := going.rrq rrq
    exact ⟨none_received,size,fun options => absurd rrq (answered options)⟩

theorem arrive_inv (small : Small server) {s : System} (running : s.client.outcome = .running) (going : Going server s) {k : ℕ}
    (may : MayArrive s k) : Inv server (step server s (.data k)) := by
  have unfolded : step server s (.data k) = { s with
      client := handle_data board s.client (k%2^16) (server.block k)
      received := if (handle_data board s.client (k%2^16) (server.block k)).tftp_cur_block = s.client.tftp_cur_block then s.received
        else s.received+1 } := by
    simp only [step,running,ne_eq,not_true_eq_false,if_false,if_pos may]
  obtain ⟨_,sent,young⟩ := may
  rw [unfolded]
  by_cases number : k%2^16 = (s.client.tftp_cur_block+1)%2^16
  · rw [going.cur] at number
    obtain rfl := number_next number sent young going.order going.window server.window.2
    have result := data_going small running going (by omega)
    generalize handle_data board s.client ((s.received+1)%2^16) (server.block (s.received+1)) = c at result
    rcases result with ⟨restarted,_⟩ | result
    · exact inv_of_given_up (.inl restarted)
    cases result with
    | goes_on still left state taken counted =>
      have new : ¬ c.tftp_cur_block = s.client.tftp_cur_block := by
        rw [counted.cur,going.cur]
        omega
      rw [if_neg new]
      refine inv_of_going still ⟨by omega,?_,left,counted.cur,by simp [state],by simp [state],fun _ => counted.size,
        fun _ => by simp,fun _ => counted,taken,by simp [state],by simp [state]⟩
      have window := going.window
      simp only
      omega
    | fails failed _ => exact inv_of_given_up (.inr failed)
    | completes complete _ delivered => exact inv_of_complete complete delivered
  · have other : handle_data board s.client (k%2^16) (server.block k) = unexpected_block s.client (k%2^16) := if_pos number
    obtain ⟨kept,state,size⟩ := unexpected_kept going.valid (k%2^16)
    rw [other,if_pos kept.cur]
    exact inv_of_going (kept.outcome.trans running) (kept_going going kept state size)

/-- One step keeps the invariant. -/
theorem step_inv (small : Small server) (s : System) (e : Event) (inv : Inv server s) (timely : Timely server s e) :
    Inv server (step server s e) := by
  by_cases running : s.client.outcome = .running
  · have going := inv.going running
    cases e with
    | advance =>
      simp only [step,running,ne_eq,not_true_eq_false,if_false]
      split_ifs with may
      · exact inv_of_going running (advance_going going may)
      · exact inv
    | oack =>
      simp only [step,running,ne_eq,not_true_eq_false,if_false]
      cases is : server.oack with
      | none => exact inv
      | some options =>
        have next := oack_going is going timely
        have size : s.client.tftp_block_size = server.blksize ∨ s.client.tftp_block_size = TFTP_BLOCK_SIZE := by
          by_cases rrq : s.client.tftp_state = .STATE_SEND_RRQ
          · exact .inr (going.rrq rrq).2.1
          · exact .inl (going.size rrq)
        obtain ⟨kept,_,_⟩ := handle_oack_spec is s.client size
        exact inv_of_going (kept.outcome.trans running) next
    | data k =>
      by_cases may : MayArrive s k
      · exact arrive_inv small running going may
      · simp only [step,running,ne_eq,not_true_eq_false,if_false,if_neg may]
        exact inv
    | timeout =>
      simp only [step,running,ne_eq,not_true_eq_false,if_false,tftp_timeout_handler,tftp_send,if_neg going.valid]
      split_ifs
      · exact inv_of_given_up (.inl rfl)
      · exact inv_of_going rfl (kept_going going ⟨rfl,rfl,rfl,rfl,rfl,running.symm⟩ rfl rfl)
  · simp only [step,running,ne_eq,not_false_eq_true,if_true]
    exact inv

def started (old : Client) : System := ⟨tftp_start old,0,0⟩

theorem started_inv (server : Server board) (old : Client) : Inv server (started old) := by
  apply inv_of_going rfl
  refine ⟨le_rfl,by simp [started],by simp [started,Server.blocks],by simp [started,tftp_start],by simp [started,tftp_start],
    fun _ => ⟨rfl,rfl,fun _ => rfl⟩,fun other => absurd rfl other,by simp [started,tftp_start],by simp [started],⟨?_,?_⟩,
    by simp [started,tftp_start],by simp [started,tftp_start]⟩
  · simp [started,load]
  · simp [started,tftp_start]

/-- In every run without an OACK between two rounds of block numbers, a get that is complete has
    delivered the file, if nothing overflows. -/
theorem completed_get_delivered (board : Board) (server : Server board) (old : Client) (events : List Event)
    (small : Small server) (timely : Along (step server) (Timely server) (started old) events)
    (complete : (run (step server) (started old) events).client.outcome = .complete) :
    load (run (step server) (started old) events).client.memory board.tftp_load_addr server.file.length = server.file ∧
      (run (step server) (started old) events).client.net_boot_file_size = server.file.length := by
  have inv := invariant (fun s e => step_inv small s e) (started_inv server old) timely
  have delivered := inv.delivered complete
  exact ⟨delivered.memory,delivered.file_size⟩
end

/-! ## An OACK between two rounds -/

section
variable {board : Board} {server : Server board}

def in_order (n : ℕ) : List Event := (List.range n).flatMap fun k => [.advance,.data (k+1)]

/-- The state after an answered OACK and the first blocks in their order. -/
structure InOrder (server : Server board) (n : ℕ) (s : System) : Prop where
  running : s.client.outcome = .running
  going : Going server s
  received : s.received = n
  advanced : s.advanced = n
  state : s.client.tftp_state = .STATE_DATA ∨ n = 0 ∧ s.client.tftp_state = .STATE_OACK

theorem in_order_step (small : Small server) (unchecked : board.LMB = false) {n : ℕ} (so_far : InOrder server n s)
    (left : n+1 < server.blocks) : InOrder server (n+1) (run (step server) s [.advance,.data (n+1)]) := by
  obtain ⟨running,going,received,advanced,state⟩ := so_far
  have answered : s.client.tftp_state ≠ .STATE_SEND_RRQ := by
    rcases state with is | ⟨_,is⟩ <;> simp [is]
  have window := server.window.1
  have may : MayAdvance server s := ⟨fun _ => answered,by omega,by omega⟩
  have sent : step server s .advance = { s with advanced := n+1 } := by
    simp only [step,running,ne_eq,not_true_eq_false,if_false,if_pos may,advanced]
  have next : Going server { s with advanced := n+1 } := advanced ▸ advance_going going may
  have arrives : MayArrive { s with advanced := n+1 } (n+1) := ⟨by omega,le_rfl,by simp only; omega⟩
  have result := @data_going board server small { s with advanced := n+1 } running next (by simp only; omega)
  simp only [received] at result
  have inv := @arrive_inv board server small { s with advanced := n+1 } running next (n+1) arrives
  rw [run_cons,run_cons,run_nil,sent]
  simp only [step,running,ne_eq,not_true_eq_false,if_false,if_pos arrives] at inv ⊢
  generalize handle_data board s.client ((n+1)%2^16) (server.block (n+1)) = c at result inv
  rcases result with ⟨_,restart,begun⟩ | result
  · rcases state with is | ⟨none_received,_⟩
    · exact absurd is restart
    · omega
  cases result with
  | goes_on still _ is_data _ counted =>
    have new : ¬ c.tftp_cur_block = s.client.tftp_cur_block := by
      rw [counted.cur,going.cur,received]
      omega
    rw [if_neg new] at inv ⊢
    exact ⟨still,inv.going still,by simp only [received],rfl,.inl is_data⟩
  | fails _ checked =>
    rw [unchecked] at checked
    cases checked
  | completes _ last _ => omega

theorem in_order_run (small : Small server) (unchecked : board.LMB = false) (start : InOrder server 0 s) (n : ℕ)
    (left : n < server.blocks) : InOrder server n (run (step server) s (in_order n)) := by
  induction n with
  | zero => exact start
  | succ n following =>
    have split : in_order (n+1) = in_order n ++ [.advance,.data (n+1)] := by
      simp [in_order,range_succ]
    rw [split,run_append]
    exact in_order_step small unchecked (following (by omega)) left

theorem first_block_again (unchecked : board.LMB = false) {c : Client} (state : c.tftp_state = .STATE_OACK)
    (cur : c.tftp_cur_block = 0) (size : c.tftp_block_size < 2^16) {src : List UInt8} (short : src.length < c.tftp_block_size)
    (more : src.length ≤ c.net_boot_file_size) :
    (handle_data board c 1 src).outcome = .complete ∧ (handle_data board c 1 src).net_boot_file_size = c.net_boot_file_size := by
  have offset (prev wrap : ℕ) (next last count : ℕ) (m : ℕ → UInt8) (f : ℕ) (o : Outcome) (w : ℕ) :
      block_offset ⟨.STATE_DATA,1,prev,wrap,0,c.tftp_block_size,w,next,last,count,f,m,o⟩ = 0 := by
    simp only [block_offset,int_to_ulong,one_mul]
    rw [if_pos (by omega)]
    omega
  have length : src.length%2^64 = src.length := Nat.mod_eq_of_lt (by omega)
  have number : ¬ 1 ≠ (c.tftp_cur_block+1)%2^16 := by simp [cur]
  have one : (0+1)%TFTP_SEQUENCE_SIZE = 1 := by decide
  unfold handle_data
  rw [if_neg number]
  simp only [state,cur,one,reduceCtorEq,if_false,false_or,if_true,new_transfer,ne_eq,not_true_eq_false,take_block,Nat.one_ne_zero,
    update_block_number,false_and,store_block,offset,zero_add,length,not_lt.2 more,unchecked,Bool.false_eq_true,short,tftp_send,
    tftp_complete,and_self]
end

theorem block_size_pos : 0 < TFTP_BLOCK_SIZE := by decide

theorem one_block : 1 ≤ 1 ∧ 1 < 2^16 := by decide

def open_board : Board := ⟨0,512,5,10,false,fun _ _ => false,by decide⟩

def long_file (n : ℕ) (few : n ≤ 2^16) : Server open_board where
  file := List.replicate (n*512+1) 1
  blksize := 512
  windowsize := 1
  oack := some [.timeout 5]
  blksize_pos := block_size_pos
  blksize_small := by decide
  window := one_block
  plain := by simp
  accepted := by simp [open_board]
  options := by
    intro l is
    obtain rfl := Option.some.inj is
    simp [TFTP_BLOCK_SIZE,open_board]
  fits := by
    rw [List.length_replicate]
    simp only [open_board]
    omega

def powered_up : Client := ⟨.STATE_SEND_RRQ,0,0,0,0,512,1,0,0,0,0,fun _ => 0,.running⟩

/-- A second copy of the OACK arrives before the last block. -/
def oack_between (n : ℕ) : List Event := .oack :: (in_order n ++ [.oack,.advance,.data (n+1)])

section
variable {n : ℕ} (few : n ≤ 2^16)

theorem long_file_length : (long_file n few).file.length = n*512+1 := length_replicate

theorem long_file_blocks : (long_file n few).blocks = n+1 := by
  unfold Server.blocks
  rw [long_file_length]
  change (n*512+1)/512+1 = n+1
  omega

theorem long_file_small : Small (long_file n few) := by
  constructor
  · rw [long_file_length]
    omega
  · intro k _
    have number : k%2^16 < 2^16 := Nat.mod_lt _ (by decide)
    change k%2^16*512 < 2^31
    omega

theorem round_lost (whole : n = 2^16) :
    (run (step (long_file n few)) (started powered_up) (oack_between n)).client.outcome = .complete ∧
      (run (step (long_file n few)) (started powered_up) (oack_between n)).client.net_boot_file_size = n*512 := by
  have start : InOrder (long_file n few) 0 (step (long_file n few) (started powered_up) .oack) := by
    have inv := step_inv (long_file_small few) (started powered_up) .oack (started_inv (long_file n few) powered_up)
      (by simp [Timely,started])
    exact ⟨rfl,inv.going rfl,rfl,rfl,.inr ⟨rfl,rfl⟩⟩
  have round := in_order_run (long_file_small few) rfl start n (by rw [long_file_blocks]; omega)
  rw [oack_between,run_cons,run_append]
  generalize run (step (long_file n few)) (step (long_file n few) (started powered_up) .oack) (in_order n) = s at round
  obtain ⟨running,going,received,advanced,state⟩ := round
  have is_data : s.client.tftp_state = .STATE_DATA := by
    rcases state with is | ⟨none_received,_⟩
    · exact is
    · omega
  obtain ⟨kept,oack_state,size⟩ := @handle_oack_spec open_board (long_file n few) _ rfl s.client (.inl (going.size (by simp [is_data])))
  have oack : step (long_file n few) s .oack = { s with client := handle_oack open_board s.client [.timeout 5] } := by
    simp only [step,running,ne_eq,not_true_eq_false,if_false]
    rfl
  generalize handle_oack open_board s.client [.timeout 5] = c at kept oack_state size oack
  have still : c.outcome = .running := kept.outcome.trans running
  have may : MayAdvance (long_file n few) { s with client := c } := by
    refine ⟨fun _ => by simp [oack_state],?_,?_⟩
    · rw [long_file_blocks]
      simp only
      omega
    · change s.advanced < s.received+1
      omega
  have arrives : MayArrive { s with client := c, advanced := s.advanced+1 } (n+1) := by
    refine ⟨by omega,?_,?_⟩ <;> simp only <;> omega
  have number : (n+1)%2^16 = 1 := by omega
  have last : ((long_file n few).block (n+1)).length = 1 := by
    rw [block_length,long_file_length]
    change min 512 (n*512+1-n*512) = 1
    omega
  have file_size : c.net_boot_file_size = n*512 := by
    rw [kept.file_size,going.taken.file_size,received]
    rfl
  have cur : c.tftp_cur_block = 0 := by
    rw [kept.cur,going.cur,received]
    omega
  have block_size : c.tftp_block_size = 512 := size
  obtain ⟨complete,lost⟩ := @first_block_again open_board rfl c oack_state cur (by omega)
    ((long_file n few).block (n+1)) (by omega) (by omega)
  simp only [run_cons,run_nil,oack]
  simp only [step,still,ne_eq,not_true_eq_false,if_false,if_pos may,if_pos arrives,number]
  exact ⟨complete,lost.trans file_size⟩
end

/-- A copy of the OACK after 65536 blocks: the get is complete with a size that is one byte
    short. -/
theorem oack_between_rounds :
    (run (step (long_file (2^16) (le_refl _))) (started powered_up) (oack_between (2^16))).client.outcome = .complete ∧
      (run (step (long_file (2^16) (le_refl _))) (started powered_up) (oack_between (2^16))).client.net_boot_file_size
        ≠ (long_file (2^16) (le_refl _)).file.length := by
  obtain ⟨complete,size⟩ := round_lost (le_refl (2^16)) rfl
  refine ⟨complete,?_⟩
  rw [size,long_file_length]
  omega

/-- A file of one byte is delivered, also if the OACK comes twice. -/
theorem short_file_delivered :
    load (run (step (long_file 0 (by decide))) (started powered_up) (oack_between 0)).client.memory
        open_board.tftp_load_addr (long_file 0 (by decide)).file.length = (long_file 0 (by decide)).file ∧
      (run (step (long_file 0 (by decide))) (started powered_up) (oack_between 0)).client.net_boot_file_size
        = (long_file 0 (by decide)).file.length :=
  completed_get_delivered open_board (long_file 0 (by decide)) powered_up (oack_between 0) (long_file_small _)
    ⟨fun _ begun => (Nat.lt_irrefl 0 begun).elim,fun _ begun => (Nat.lt_irrefl 0 begun).elim,trivial,trivial,trivial⟩ (by decide +kernel)

end UBoot.Tftp
