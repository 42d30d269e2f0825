import UBoot.Tftp

/-!
Putting a file by TFTP, `net/tftp.c`: the memory from `image_save_addr` on goes block by block to a
server that stores the blocks in their order. Any packet that was ever sent may arrive at any time.
The variables that a put shares with a get are those of `Client`; `ulong` has 64 bit and `unsigned`
has 32. `tftp_block_wrap` counts the rounds of the block numbers (`current`).
-/
namespace UBoot.Tftp
open UBoot.Memory UBoot.Runs List

structure Save where
  image_save_addr : ℕ
  image_save_size : ℕ
  memory : ℕ → UInt8
  ulong : image_save_size < 2^64
  inside : image_save_addr+image_save_size ≤ 2^64

def Save.area (save : Save) : List UInt8 := load save.memory save.image_save_addr save.image_save_size

/-- A packet that U-Boot sends. Of the number of a block the packet has 16 bit. -/
inductive Packet where
  | wrq
  | data (block : ℕ) (src : List UInt8)

/-- The variables of a put, the packets that were sent and what `load_block` has read: offsets
    from `image_save_addr` and lengths. -/
structure PutClient extends Client where
  tftp_put_final_block_sent : Bool
  sent : List Packet
  reads : List (ℕ × ℕ)

def PutClient.current (c : PutClient) : ℕ := c.tftp_block_wrap*2^16+c.tftp_cur_block

section
variable (board : Board) (save : Save)

/-- The offset and the length that `load_block` copies. -/
def load_block (c : PutClient) (block len : ℕ) : ℕ × ℕ :=
  let offset := (block%2^32*c.tftp_block_size%2^32+c.tftp_block_wrap_offset+(2^64-c.tftp_block_size))%2^64
  (offset,min ((c.net_boot_file_size+(2^64-offset))%2^64) len)

def put_send (c : PutClient) : PutClient :=
  match c.tftp_state with
  | .STATE_SEND_RRQ | .STATE_SEND_WRQ => { c with sent := c.sent ++ [.wrq] }
  | .STATE_OACK | .STATE_DATA =>
    let toload := c.tftp_block_size
    let loaded := load_block c c.tftp_cur_block toload
    { c with
      sent := c.sent ++ [.data c.current (load save.memory ((save.image_save_addr+loaded.1)%2^64) loaded.2)]
      reads := c.reads ++ [loaded]
      tftp_put_final_block_sent := loaded.2 < toload }
  | .STATE_INVALID_OPTION => { c with outcome := .failed }

/-- `tftp_handler` for an ACK in a put: the move to the block behind the acknowledged one. Our
    block count is to wrap just like the other end. -/
def move_behind (c : PutClient) (block : ℕ) : PutClient :=
  let c := { c with tftp_prev_block := c.tftp_cur_block, tftp_cur_block := (block+1)%2^16 }
  { c with toClient := update_block_number c.toClient }

def put_ack (c : PutClient) (block : ℕ) : PutClient :=
  let c := { c with timeout_count := 0 }
  if c.tftp_put_final_block_sent then { c with toClient := tftp_complete c.toClient }
  else
    let ack_ok : Bool := c.tftp_cur_block = block
    let c := move_behind c block
    if ack_ok then
      -- the connection's first ACK
      let c := if block = 0 ∧ c.tftp_state = .STATE_SEND_WRQ then { c with tftp_state := .STATE_DATA } else c
      put_send save { c with timeout_count := 0 }
    else c

def put_oack (c : PutClient) (options : List OackOption) : PutClient :=
  let c := { c with toClient := options.foldl (oack_option board) { c.toClient with tftp_state := .STATE_OACK } }
  let c := { c with tftp_next_ack := c.tftp_windowsize }
  -- Get ready to send the first block.
  let c := if c.tftp_state = .STATE_OACK then
      { c with tftp_state := .STATE_DATA, tftp_cur_block := (c.tftp_cur_block+1)%2^64 }
    else c
  put_send save c

def put_timeout (c : PutClient) : PutClient :=
  let c := { c with timeout_count := c.timeout_count+1 }
  if board.tftp_timeout_count_max < c.timeout_count then { c with outcome := .restarted } else put_send save c

/-- `tftp_start` for a put; nothing of this transfer was sent before. -/
def put_start (old : Client) : PutClient :=
  put_send save {
    new_transfer { old with
      net_boot_file_size := save.image_save_size%2^32
      tftp_state := .STATE_SEND_WRQ
      timeout_count := 0
      tftp_cur_block := 0
      tftp_windowsize := 1
      tftp_last_nack := 0
      tftp_block_size := TFTP_BLOCK_SIZE
      outcome := .running } with
    tftp_put_final_block_sent := false
    sent := []
    reads := [] }
end

/-! ## The server and the network -/

/-- A server that takes a file. It acknowledges options that U-Boot accepts with an OACK, or it
    acknowledges the request itself and takes blocks of 512 bytes. -/
structure Receiver (board : Board) where
  blksize : ℕ
  oack : Option (List OackOption)
  blksize_pos : 0 < blksize
  blksize_small : blksize < 2^16
  plain : oack = none → blksize = TFTP_BLOCK_SIZE
  accepted : oack ≠ none → blksize ≤ board.tftp_block_size_option
  options : ∀ l, oack = some l → (∀ n, .blksize n ∈ l → n = blksize) ∧ (blksize ≠ TFTP_BLOCK_SIZE → .blksize blksize ∈ l) ∧
    (∀ n, .timeout n ∈ l → n%2^16 = board.timeout_s)

/-- Both ends: U-Boot, whether the server has got the request, and the blocks that it has stored. -/
structure Transfer where
  client : PutClient
  greeted : Bool
  stored : ℕ
  file : List UInt8
  finished : Bool

inductive PutEvent where
  /-- A copy of the packet that was sent as number `i` arrives at the server. -/
  | serve (i : ℕ)
  /-- A copy of the acknowledgement of a block arrives, of block 0 for the request. -/
  | ack (k : ℕ)
  | oack
  | timeout

section
variable {board : Board} (save : Save) (server : Receiver board)

/-- The server stores the next block. Other blocks are old ones, which it acknowledges again. -/
def receive (s : Transfer) : Packet → Transfer
  | .wrq => { s with greeted := true }
  | .data block src =>
    if s.greeted ∧ ¬ s.finished ∧ block%2^16 = (s.stored+1)%2^16 then
      { s with stored := s.stored+1, file := s.file ++ src, finished := src.length < server.blksize }
    else s

def Acknowledged (s : Transfer) (k : ℕ) : Prop := s.greeted ∧ k ≤ s.stored ∧ (k = 0 → server.oack = none)

instance (s : Transfer) (k : ℕ) : Decidable (Acknowledged server s k) := inferInstanceAs (Decidable (_ ∧ _))

def put_step (s : Transfer) (e : PutEvent) : Transfer :=
  if s.client.outcome ≠ .running then s
  else
    match e with
    | .serve i => (s.client.sent[i]?).elim s (receive server s)
    | .ack k => if Acknowledged server s k then { s with client := put_ack save s.client (k%2^16) } else s
    | .oack => if s.greeted then server.oack.elim s fun options => { s with client := put_oack board save s.client options } else s
    | .timeout => { s with client := put_timeout board save s.client }

def put_started (old : Client) : Transfer := ⟨put_start save old,false,0,[],false⟩

def Receiver.blocks : ℕ := save.image_save_size/server.blksize+1

/-- No packet comes at a time at which U-Boot or the server takes it for another one:

    * after the final block was sent, and before it is stored, no acknowledgement comes;
    * the block behind an acknowledged one is of the round that U-Boot then is at;
    * no OACK comes again when U-Boot is at the final block, or at the last block of a round;
    * no copy of a block comes when the server waits for the block a round or more later. -/
def InStep (s : Transfer) : PutEvent → Prop
  | .serve i => ∀ block src, s.client.sent[i]? = some (.data block src) → ¬ s.finished →
      block%2^16 = (s.stored+1)%2^16 → block = s.stored+1
  | .ack k => Acknowledged server s k →
      if s.client.tftp_put_final_block_sent then s.stored = server.blocks save
      else (k+1)/2^16 = s.client.tftp_block_wrap+if (k+1)%2^16 = 0 ∧ s.client.tftp_cur_block ≠ 0 then 1 else 0
  | .oack => server.oack ≠ none → s.client.tftp_state ≠ .STATE_SEND_WRQ →
      s.client.current < server.blocks save ∧ s.client.tftp_cur_block+1 < 2^16
  | .timeout => True
end

/-! ## Blocks of the area -/

section
variable {board : Board} {save : Save} {server : Receiver board}

/-- The server of a get that would send the area in the same blocks. -/
def Receiver.as_server (server : Receiver board) (save : Save) : Server { board with tftp_load_addr := 0 } where
  file := save.area
  blksize := server.blksize
  windowsize := 1
  oack := server.oack
  blksize_pos := server.blksize_pos
  blksize_small := server.blksize_small
  window := one_block
  plain := fun none_sent => ⟨server.plain none_sent,rfl⟩
  accepted := server.accepted
  options := server.options
  fits := by
    have ulong := save.ulong
    rw [Save.area,load_length,Nat.zero_add]
    exact ulong

/-- A block of the area, counted from 1. -/
def Receiver.block (server : Receiver board) (save : Save) (k : ℕ) : List UInt8 := (server.as_server save).block k

theorem area_length (save : Save) : save.area.length = save.image_save_size := load_length _ _ _

theorem as_server_blocks : (server.as_server save).blocks = server.blocks save := by
  rw [Server.blocks,Receiver.blocks,← area_length save]
  rfl

variable {c : PutClient} {n : ℕ} {s : Transfer}

theorem area_blocks_before (left : n < server.blocks save) : n*server.blksize ≤ save.image_save_size := by
  rw [← as_server_blocks] at left
  have before := blocks_before left
  rwa [← area_length save]

theorem area_block_length (n : ℕ) :
    (server.block save (n+1)).length = min server.blksize (save.image_save_size-n*server.blksize) := by
  rw [← area_length save]
  exact block_length n

theorem area_block_short_iff (left : n < server.blocks save) :
    (server.block save (n+1)).length < server.blksize ↔ n+1 = server.blocks save := by
  rw [← as_server_blocks] at left ⊢
  exact block_short_iff left

theorem area_take_next (n : ℕ) : save.area.take (n*server.blksize) ++ server.block save (n+1) =
    save.area.take ((n+1)*server.blksize) :=
  @take_next _ (server.as_server save) n

theorem area_take_all : save.area.take (server.blocks save*server.blksize) = save.area := by
  refine take_of_length_le ?_
  have beyond := @Nat.lt_div_mul_add save.image_save_size server.blksize server.blksize_pos
  rw [area_length,Receiver.blocks,add_mul]
  omega

theorem load_area_block (left : n < server.blocks save) :
    load save.memory ((save.image_save_addr+n*server.blksize)%2^64) (server.block save (n+1)).length =
      server.block save (n+1) := by
  have before := area_blocks_before left
  have inside := save.inside
  have length := @area_block_length board save server n
  obtain ⟨rest,whole⟩ := Nat.exists_eq_add_of_le before
  have cut : server.block save (n+1) = (load save.memory (save.image_save_addr+n*server.blksize) rest).take server.blksize := by
    rw [← load_drop,← whole]
    rfl
  by_cases none_left : rest = 0
  · subst none_left
    have empty : (server.block save (n+1)).length = 0 := by omega
    rw [empty,eq_nil_of_length_eq_zero empty]
    rfl
  · rw [Nat.mod_eq_of_lt (show save.image_save_addr+n*server.blksize < 2^64 by omega),length,cut]
    have short : min server.blksize (save.image_save_size-n*server.blksize) ≤ rest := by omega
    rw [← load_take _ _ short,whole,Nat.add_sub_cancel_left]
    by_cases full : server.blksize ≤ rest
    · rw [min_eq_left full]
    · rw [min_eq_right (by omega),take_of_length_le (by rw [load_length]),
        take_of_length_le (by rw [load_length]; omega)]

/-! ## A put that goes on -/

structure AtBlock (save : Save) (server : Receiver board) (c : PutClient) : Prop where
  state : c.tftp_state = .STATE_DATA
  cur : c.tftp_cur_block < 2^16
  wrap : c.tftp_block_wrap_offset = c.tftp_block_wrap*2^16*server.blksize
  size : c.tftp_block_size = server.blksize
  file_size : c.net_boot_file_size = save.image_save_size
  first : 1 ≤ c.current
  last : c.current ≤ server.blocks save

structure Requested (save : Save) (c : PutClient) : Prop where
  state : c.tftp_state = .STATE_SEND_WRQ
  cur : c.tftp_cur_block = 0
  rounds : c.tftp_block_wrap = 0
  wrap : c.tftp_block_wrap_offset = 0
  size : c.tftp_block_size = TFTP_BLOCK_SIZE
  file_size : c.net_boot_file_size = save.image_save_size
  final : c.tftp_put_final_block_sent = false
  unsent : ∀ block src, .data block src ∉ c.sent

theorem load_block_at (small : save.image_save_size < 2^32) (at_block : AtBlock save server c) :
    load_block c c.tftp_cur_block c.tftp_block_size =
      ((c.current-1)*server.blksize,(server.block save c.current).length) := by
  obtain ⟨n,current⟩ : ∃ n, c.current = n+1 := ⟨c.current-1,by have := at_block.first; omega⟩
  have left : n < server.blocks save := by have := at_block.last; omega
  have before := area_blocks_before left
  have blksize := server.blksize_small
  have sum : c.tftp_cur_block*server.blksize+c.tftp_block_wrap*2^16*server.blksize = n*server.blksize+server.blksize := by
    have same := congrArg (· * server.blksize) current
    simp only [PutClient.current,add_mul] at same
    omega
  have product : c.tftp_cur_block*server.blksize < 2^32 := by
    have both : c.tftp_cur_block*server.blksize < 2^16*2^16 := Nat.mul_lt_mul'' at_block.cur blksize
    omega
  have number : c.tftp_cur_block%2^32 = c.tftp_cur_block := Nat.mod_eq_of_lt (by have := at_block.cur; omega)
  have offset : (c.tftp_cur_block%2^32*server.blksize%2^32+c.tftp_block_wrap*2^16*server.blksize+(2^64-server.blksize))%2^64 =
      n*server.blksize := by
    rw [number,Nat.mod_eq_of_lt product]
    generalize c.tftp_cur_block*server.blksize = x at sum
    generalize c.tftp_block_wrap*2^16*server.blksize = y at sum
    generalize n*server.blksize = z at sum before
    omega
  have rest : (save.image_save_size+(2^64-n*server.blksize))%2^64 = save.image_save_size-n*server.blksize := by
    generalize n*server.blksize = z at before
    omega
  rw [current,Nat.add_sub_cancel,area_block_length,load_block,at_block.size,at_block.wrap,at_block.file_size]
  simp only [offset,rest]
  rw [min_comm]

theorem put_send_at (small : save.image_save_size < 2^32) (at_block : AtBlock save server c) :
    put_send save c = { c with
      sent := c.sent ++ [.data c.current (server.block save c.current)]
      reads := c.reads ++ [((c.current-1)*server.blksize,(server.block save c.current).length)]
      tftp_put_final_block_sent := c.current = server.blocks save } := by
  have loaded := load_block_at small at_block
  obtain ⟨n,current⟩ : ∃ n, c.current = n+1 := ⟨c.current-1,by have := at_block.first; omega⟩
  have left : n < server.blocks save := by have := at_block.last; omega
  have source := load_area_block left
  have short := area_block_short_iff left
  rw [put_send,at_block.state]
  simp only [loaded]
  rw [current,Nat.add_sub_cancel,source,at_block.size]
  simp only [short]

/-- What the server has stored, what is on its way to it, and what was read for that. -/
structure StoredSoFar (save : Save) (server : Receiver board) (s : Transfer) : Prop where
  file : s.file = save.area.take (s.stored*server.blksize)
  left : s.stored ≤ server.blocks save
  finished : s.finished = true ↔ s.stored = server.blocks save
  final : s.stored = server.blocks save → s.client.tftp_put_final_block_sent = true
  sent : ∀ block src, .data block src ∈ s.client.sent → 1 ≤ block ∧ block ≤ server.blocks save ∧
    src = server.block save block ∧ (block = server.blocks save → s.client.tftp_put_final_block_sent = true)
  reads : ∀ r ∈ s.client.reads, r.1+r.2 ≤ save.image_save_size

/-- While U-Boot waits for the request to be acknowledged nothing is stored. Later the counters
    stand at a block, at the final one once it was sent. A put that is complete is stored. -/
structure PutInv (save : Save) (server : Receiver board) (s : Transfer) : Prop where
  stored : StoredSoFar save server s
  running : s.client.outcome = .running → Requested save s.client ∧ s.stored = 0 ∨
    AtBlock save server s.client ∧ (s.client.tftp_put_final_block_sent = true → s.client.current = server.blocks save)
  complete : s.client.outcome = .complete → s.stored = server.blocks save

theorem requested_inv (so_far : StoredSoFar save server s) (running : c.outcome = .running)
    (requested : Requested save c) (none_stored : s.stored = 0) (reads : c.reads = s.client.reads)
    (final : c.tftp_put_final_block_sent = s.client.tftp_put_final_block_sent) :
    PutInv save server { s with client := c } := by
  refine ⟨⟨so_far.file,so_far.left,so_far.finished,?_,?_,?_⟩,fun _ => .inl ⟨requested,none_stored⟩,?_⟩
  · rw [final]
    exact so_far.final
  · intro block src member
    exact absurd member (requested.unsent block src)
  · rw [reads]
    exact so_far.reads
  · intro complete
    rw [running] at complete
    cases complete

theorem moved_inv (so_far : StoredSoFar save server s) (running : c.outcome = .running)
    (at_block : AtBlock save server c) (sent : c.sent = s.client.sent) (reads : c.reads = s.client.reads)
    (final : c.tftp_put_final_block_sent = s.client.tftp_put_final_block_sent)
    (at_last : s.client.tftp_put_final_block_sent = true → c.current = server.blocks save) :
    PutInv save server { s with client := c } := by
  refine ⟨⟨so_far.file,so_far.left,so_far.finished,?_,?_,?_⟩,fun _ => .inr ⟨at_block,?_⟩,?_⟩
  · rw [final]
    exact so_far.final
  · rw [sent,final]
    exact so_far.sent
  · rw [reads]
    exact so_far.reads
  · rw [final]
    exact at_last
  · intro complete
    rw [running] at complete
    cases complete

theorem sent_inv (small : save.image_save_size < 2^32) (so_far : StoredSoFar save server s)
    (running : c.outcome = .running) (at_block : AtBlock save server c) (sent : c.sent = s.client.sent)
    (reads : c.reads = s.client.reads)
    (at_last : s.client.tftp_put_final_block_sent = true → c.current = server.blocks save) :
    PutInv save server { s with client := put_send save c } := by
  obtain ⟨n,current⟩ : ∃ n, c.current = n+1 := ⟨c.current-1,by have := at_block.first; omega⟩
  have left : n < server.blocks save := by have := at_block.last; omega
  have before := area_blocks_before left
  have length := @area_block_length board save server n
  rw [put_send_at small at_block]
  refine ⟨⟨so_far.file,so_far.left,so_far.finished,fun stored => ?_,?_,?_⟩,fun _ => .inr ⟨?_,fun final => ?_⟩,?_⟩
  · exact decide_eq_true (at_last (so_far.final stored))
  · intro block src member
    rw [sent] at member
    rcases mem_append.mp member with before | now
    · obtain ⟨first,last,source,final⟩ := so_far.sent block src before
      exact ⟨first,last,source,fun is => decide_eq_true (at_last (final is))⟩
    · obtain ⟨rfl,rfl⟩ := Packet.data.inj (mem_singleton.mp now)
      exact ⟨at_block.first,at_block.last,rfl,fun is => decide_eq_true is⟩
  · intro r member
    rw [reads] at member
    rcases mem_append.mp member with before | now
    · exact so_far.reads r before
    · obtain rfl := mem_singleton.mp now
      rw [current,Nat.add_sub_cancel]
      dsimp only
      omega
  · exact ⟨at_block.state,at_block.cur,at_block.wrap,at_block.size,at_block.file_size,at_block.first,at_block.last⟩
  · exact of_decide_eq_true final
  · intro complete
    rw [running] at complete
    cases complete

theorem move_behind_same (c : PutClient) (block : ℕ) : (move_behind c block).sent = c.sent ∧
    (move_behind c block).reads = c.reads ∧
    (move_behind c block).tftp_put_final_block_sent = c.tftp_put_final_block_sent ∧
    (move_behind c block).outcome = c.outcome :=
  ⟨rfl,rfl,rfl,(update_block_number_same _).2.2.2.2.2.1⟩

theorem moves_behind (small : save.image_save_size < 2^32) (at_block : AtBlock save server c) {k : ℕ}
    (left : k < server.blocks save)
    (round : (k+1)/2^16 = c.tftp_block_wrap+if (k+1)%2^16 = 0 ∧ c.tftp_cur_block ≠ 0 then 1 else 0) :
    AtBlock save server (move_behind c (k%2^16)) ∧ (move_behind c (k%2^16)).current = k+1 := by
  have number : (k%2^16+1)%2^16 = (k+1)%2^16 := by omega
  have before := area_blocks_before left
  have blksize := server.blksize_small
  have spread : (k+1)*server.blksize = k*server.blksize+server.blksize := by ring
  -- The rounds before the block fit into memory.
  have rounds : (k+1)/2^16*2^16*server.blksize ≤ (k+1)*server.blksize :=
    Nat.mul_le_mul_right _ (Nat.div_mul_le_self _ _)
  have position : (k+1)/2^16*2^16+(k+1)%2^16 = k+1 := Nat.div_add_mod' (k+1) (2^16)
  simp only [move_behind,number]
  by_cases wraps : (k+1)%2^16 = 0 ∧ c.tftp_cur_block ≠ 0
  · rw [if_pos wraps] at round
    have offset : (c.tftp_block_wrap*2^16*server.blksize+server.blksize*TFTP_SEQUENCE_SIZE)%2^64 =
        (c.tftp_block_wrap+1)*2^16*server.blksize := by
      have sum : c.tftp_block_wrap*2^16*server.blksize+server.blksize*TFTP_SEQUENCE_SIZE =
          (c.tftp_block_wrap+1)*2^16*server.blksize := by
        rw [TFTP_SEQUENCE_SIZE]
        ring
      rw [sum,← round]
      exact Nat.mod_eq_of_lt (by omega)
    simp only [update_block_number,wraps,ne_eq,not_false_eq_true,and_self,if_true,at_block.wrap,at_block.size,offset]
    have behind : (c.tftp_block_wrap+1)*2^16+0 = k+1 := by rw [← round,← wraps.1,position]
    refine ⟨⟨at_block.state,Nat.two_pow_pos 16,rfl,rfl,at_block.file_size,?_,?_⟩,behind⟩
    · exact Nat.le_of_lt_succ (Nat.succ_lt_succ (Nat.lt_of_lt_of_eq (Nat.succ_pos k) behind.symm))
    · exact le_trans (le_of_eq behind) left
  · rw [if_neg wraps,add_zero c.tftp_block_wrap] at round
    have behind : c.tftp_block_wrap*2^16+(k+1)%2^16 = k+1 := by rw [← round,position]
    simp only [update_block_number,ne_eq,wraps,if_false]
    refine ⟨⟨at_block.state,Nat.mod_lt _ (Nat.two_pow_pos 16),at_block.wrap,at_block.size,at_block.file_size,?_,?_⟩,behind⟩
    · exact Nat.le_of_lt_succ (Nat.succ_lt_succ (Nat.lt_of_lt_of_eq (Nat.succ_pos k) behind.symm))
    · exact le_trans (le_of_eq behind) left

theorem first_ack (small : save.image_save_size < 2^32) (so_far : StoredSoFar save server s)
    (running : s.client.outcome = .running) (requested : Requested save s.client) (plain : server.oack = none) :
    PutInv save server { s with client := put_ack save s.client (0%2^16) } := by
  have size : s.client.tftp_block_size = server.blksize := requested.size.trans (server.plain plain).symm
  have some_block : 1 ≤ server.blocks save := Nat.le_add_left 1 _
  have moved : put_ack save s.client (0%2^16) = put_send save
      { s.client with tftp_state := .STATE_DATA, tftp_cur_block := 1, tftp_prev_block := 0, timeout_count := 0 } := by
    simp only [put_ack,move_behind,requested.final,requested.cur,requested.state,update_block_number,Nat.zero_mod,Bool.false_eq_true,if_false,
      decide_true,if_true,zero_add,show ¬ 1%2^16 = 0 by omega,false_and,and_self]
    rfl
  rw [moved]
  refine sent_inv small so_far running ⟨rfl,by simp,?_,size,requested.file_size,?_,?_⟩ rfl rfl (fun final => ?_)
  · simp only [requested.wrap,requested.rounds]
    simp
  · simp only [PutClient.current,requested.rounds]
    simp
  · simp only [PutClient.current,requested.rounds]
    simpa using some_block
  · rw [requested.final] at final
    cases final

theorem put_ack_moves (save : Save) {block : ℕ} (unsent : ¬ c.tftp_put_final_block_sent = true)
    (data : (move_behind { c with timeout_count := 0 } block).tftp_state = .STATE_DATA) :
    put_ack save c block =
      if c.tftp_cur_block = block then
        put_send save { move_behind { c with timeout_count := 0 } block with timeout_count := 0 }
      else move_behind { c with timeout_count := 0 } block := by
  have begun : ¬ (block = 0 ∧ (move_behind { c with timeout_count := 0 } block).tftp_state = .STATE_SEND_WRQ) := by
    rw [data]
    simp
  rw [put_ack]
  dsimp only at begun ⊢
  rw [if_neg unsent]
  by_cases ok : c.tftp_cur_block = block
  · rw [if_pos (decide_eq_true ok),if_pos ok,if_neg begun]
  · rw [if_neg (by simpa using ok),if_neg ok]

theorem ack_inv (small : save.image_save_size < 2^32) (so_far : StoredSoFar save server s)
    (running : s.client.outcome = .running) (at_block : AtBlock save server s.client) {k : ℕ}
    (acknowledged : Acknowledged server s k) (in_step : InStep save server s (.ack k)) :
    PutInv save server { s with client := put_ack save s.client (k%2^16) } := by
  have round := in_step acknowledged
  by_cases final : s.client.tftp_put_final_block_sent = true
  · rw [if_pos final] at round
    have completes : put_ack save s.client (k%2^16) =
        { s.client with timeout_count := 0, outcome := .complete } := by
      simp only [put_ack,final,if_true,tftp_complete]
    rw [completes]
    exact ⟨⟨so_far.file,so_far.left,so_far.finished,so_far.final,so_far.sent,so_far.reads⟩,fun still => (by cases still),fun _ => round⟩
  rw [if_neg final] at round
  have left : k < server.blocks save := by
    have stored := so_far.left
    have not_all : s.stored ≠ server.blocks save := fun all => final (so_far.final all)
    have up_to := acknowledged.2.1
    omega
  have at_block' : AtBlock save server { s.client with timeout_count := 0 } :=
    ⟨at_block.state,at_block.cur,at_block.wrap,at_block.size,at_block.file_size,at_block.first,at_block.last⟩
  obtain ⟨behind,-⟩ := moves_behind small at_block' left round
  obtain ⟨sent,reads,same_final,outcome⟩ := move_behind_same { s.client with timeout_count := 0 } (k%2^16)
  rw [put_ack_moves save final behind.state]
  generalize move_behind { s.client with timeout_count := 0 } (k%2^16) = c at behind sent reads same_final outcome
  by_cases ok : s.client.tftp_cur_block = k%2^16
  · rw [if_pos ok]
    exact sent_inv small so_far (outcome.trans running) ⟨behind.state,behind.cur,behind.wrap,behind.size,behind.file_size,
      behind.first,behind.last⟩ sent reads (fun yes => absurd yes final)
  · rw [if_neg ok]
    exact moved_inv so_far (outcome.trans running) behind sent reads same_final (fun yes => absurd yes final)

theorem oack_options_rounds (options : List OackOption) (c : Client) :
    (options.foldl (oack_option board) c).tftp_block_wrap = c.tftp_block_wrap := by
  induction options generalizing c with
  | nil => rfl
  | cons option rest ih =>
    rw [foldl_cons,ih]
    cases option with
    | blksize n => rfl
    | timeout n =>
      rw [oack_option]
      split_ifs
      · rfl
      · rfl
    | tsize n => rfl
    | windowsize n => rfl

theorem put_oack_spec {options : List OackOption} (is : server.oack = some options) (save : Save) (c : PutClient)
    (size : c.tftp_block_size = server.blksize ∨ c.tftp_block_size = TFTP_BLOCK_SIZE) :
    ∃ d : PutClient, put_oack board save c options = put_send save d ∧ d.tftp_state = .STATE_DATA ∧
      d.tftp_cur_block = (c.tftp_cur_block+1)%2^64 ∧ d.tftp_block_wrap = c.tftp_block_wrap ∧
      d.tftp_block_wrap_offset = c.tftp_block_wrap_offset ∧ d.tftp_block_size = server.blksize ∧
      d.net_boot_file_size = c.net_boot_file_size ∧ d.outcome = c.outcome ∧ d.sent = c.sent ∧ d.reads = c.reads := by
  have start : c.tftp_block_size = server.blksize ∨ .blksize server.blksize ∈ options := by
    by_cases default : server.blksize = TFTP_BLOCK_SIZE
    · exact .inl (size.elim id (fun is => is.trans default.symm))
    · exact .inr ((server.options options is).2.1 default)
  obtain ⟨kept,state,block_size⟩ := @oack_options _ (server.as_server save) options is options
    { c.toClient with tftp_state := .STATE_OACK } (fun o member => member) rfl start
  have rounds := @oack_options_rounds board options { c.toClient with tftp_state := .STATE_OACK }
  have same : oack_option { board with tftp_load_addr := 0 } = oack_option board := rfl
  rw [same] at kept state block_size
  rw [put_oack]
  generalize options.foldl (oack_option board) { c.toClient with tftp_state := .STATE_OACK } = read
    at kept state block_size rounds
  simp only [state,if_true]
  exact ⟨_,rfl,rfl,congrArg (fun n => (n+1)%2^64) kept.cur,rounds,kept.wrap,block_size,kept.file_size,kept.outcome,rfl,rfl⟩

theorem oack_inv (small : save.image_save_size < 2^32) (inv : PutInv save server s)
    (running : s.client.outcome = .running) {options : List OackOption} (is : server.oack = some options)
    (in_step : InStep save server s .oack) :
    PutInv save server { s with client := put_oack board save s.client options } := by
  have so_far := inv.stored
  have timely := in_step (by rw [is]; exact Option.some_ne_none _)
  have some_block : 1 ≤ server.blocks save := Nat.le_add_left 1 _
  rcases inv.running running with ⟨requested,-⟩ | ⟨at_block,at_last⟩
  · obtain ⟨d,same,state,cur,rounds,wrap,size,file_size,outcome,sent,reads⟩ :=
      put_oack_spec is save s.client (.inr requested.size)
    rw [requested.cur] at cur
    have current : d.current = 1 := by
      rw [PutClient.current,cur,rounds,requested.rounds]
      rfl
    rw [same]
    refine sent_inv small so_far (outcome.trans running) ⟨state,by rw [cur]; omega,?_,size,file_size.trans requested.file_size,
      by rw [current],by rw [current]; exact some_block⟩ sent reads (fun final => ?_)
    · rw [wrap,rounds,requested.wrap,requested.rounds]
      simp
    · rw [requested.final] at final
      cases final
  · obtain ⟨d,same,state,cur,rounds,wrap,size,file_size,outcome,sent,reads⟩ :=
      put_oack_spec is save s.client (.inl at_block.size)
    obtain ⟨before,low⟩ := timely (by simp [at_block.state])
    have next : (s.client.tftp_cur_block+1)%2^64 = s.client.tftp_cur_block+1 := Nat.mod_eq_of_lt (by omega)
    rw [next] at cur
    have current : d.current = s.client.current+1 := by
      rw [PutClient.current,PutClient.current,cur,rounds,add_assoc]
    rw [same]
    refine sent_inv small so_far (outcome.trans running) ⟨state,by rw [cur]; exact low,?_,size,file_size.trans at_block.file_size,
      by rw [current]; omega,by rw [current]; omega⟩ sent reads (fun final => ?_)
    · rw [wrap,rounds,at_block.wrap]
    · have last := at_last final
      omega

theorem timeout_inv (small : save.image_save_size < 2^32) (inv : PutInv save server s)
    (running : s.client.outcome = .running) :
    PutInv save server { s with client := put_timeout board save s.client } := by
  have so_far := inv.stored
  rw [put_timeout]
  by_cases given_up : board.tftp_timeout_count_max < s.client.timeout_count+1
  · simp only [given_up,if_true]
    exact ⟨⟨so_far.file,so_far.left,so_far.finished,so_far.final,so_far.sent,so_far.reads⟩,nofun,nofun⟩
  simp only [given_up,if_false]
  rcases inv.running running with ⟨requested,none_stored⟩ | ⟨at_block,at_last⟩
  · -- The request is sent again.
    have resent : put_send save { s.client with timeout_count := s.client.timeout_count+1 } =
        { s.client with timeout_count := s.client.timeout_count+1, sent := s.client.sent ++ [.wrq] } := by
      rw [put_send]
      simp only [requested.state]
    rw [resent]
    refine requested_inv so_far running ⟨requested.state,requested.cur,requested.rounds,requested.wrap,requested.size,
      requested.file_size,requested.final,?_⟩ none_stored rfl rfl
    intro block src member
    rcases mem_append.mp member with before | now
    · exact requested.unsent block src before
    · cases mem_singleton.mp now
  · exact sent_inv small so_far running ⟨at_block.state,at_block.cur,at_block.wrap,at_block.size,at_block.file_size,
      at_block.first,at_block.last⟩ rfl rfl at_last

theorem serve_inv (inv : PutInv save server s) (running : s.client.outcome = .running) {i : ℕ}
    (in_step : InStep save server s (.serve i)) {packet : Packet} (sent : s.client.sent[i]? = some packet) :
    PutInv save server (receive server s packet) := by
  have so_far := inv.stored
  have uncomplete : s.client.outcome ≠ .complete := by
    rw [running]
    simp
  cases packet with
  | wrq =>
    exact ⟨⟨so_far.file,so_far.left,so_far.finished,so_far.final,so_far.sent,so_far.reads⟩,inv.running,inv.complete⟩
  | data block src =>
    rw [receive]
    by_cases takes : s.greeted = true ∧ ¬ s.finished = true ∧ block%2^16 = (s.stored+1)%2^16
    · rw [if_pos takes]
      obtain rfl := in_step block src sent takes.2.1 takes.2.2
      obtain ⟨-,last,rfl,final⟩ := so_far.sent _ src (mem_of_getElem? sent)
      have next := @area_take_next board save server s.stored
      have short := area_block_short_iff (show s.stored < server.blocks save from last)
      refine ⟨⟨?_,last,?_,final,so_far.sent,so_far.reads⟩,fun _ => ?_,fun complete => absurd complete uncomplete⟩
      · dsimp only
        rw [so_far.file,next]
      · dsimp only
        rw [decide_eq_true_iff,short]
      · rcases inv.running running with ⟨requested,-⟩ | later
        · exact absurd (mem_of_getElem? sent) (requested.unsent _ _)
        · exact .inr later
    · rw [if_neg takes]
      exact inv

/-! ## Runs -/

theorem put_step_inv (small : save.image_save_size < 2^32) (s : Transfer) (e : PutEvent) (inv : PutInv save server s)
    (in_step : InStep save server s e) : PutInv save server (put_step save server s e) := by
  by_cases running : s.client.outcome = .running
  · have goes_on : ¬ s.client.outcome ≠ .running := not_not.mpr running
    unfold put_step
    rw [if_neg goes_on]
    cases e with
    | serve i =>
      dsimp only
      cases sent : s.client.sent[i]? with
      | none => exact inv
      | some packet => exact serve_inv inv running in_step sent
    | ack k =>
      dsimp only
      by_cases acknowledged : Acknowledged server s k
      · rw [if_pos acknowledged]
        rcases inv.running running with ⟨requested,none_stored⟩ | ⟨at_block,-⟩
        · obtain ⟨-,up_to,plain⟩ := acknowledged
          obtain rfl : k = 0 := by omega
          exact first_ack small inv.stored running requested (plain rfl)
        · exact ack_inv small inv.stored running at_block acknowledged in_step
      · rw [if_neg acknowledged]
        exact inv
    | oack =>
      dsimp only
      by_cases greeted : s.greeted = true
      · rw [if_pos greeted]
        cases is : server.oack with
        | none => exact inv
        | some options => exact oack_inv small inv running is in_step
      · rw [if_neg greeted]
        exact inv
    | timeout => exact timeout_inv small inv running
  · unfold put_step
    rw [if_pos running]
    exact inv

theorem put_started_inv (small : save.image_save_size < 2^32) (server : Receiver board) (old : Client) :
    PutInv save server (put_started save old) := by
  have some_block : 1 ≤ server.blocks save := Nat.le_add_left 1 _
  have unstored : ¬ 0 = server.blocks save := by omega
  refine ⟨⟨?_,Nat.zero_le _,?_,fun all => absurd all unstored,?_,?_⟩,fun _ => .inl ⟨⟨rfl,rfl,rfl,rfl,rfl,?_,rfl,?_⟩,rfl⟩,nofun⟩
  · simp [put_started]
  · simp [put_started,unstored]
  · simp [put_started,put_start,put_send,new_transfer]
  · simp [put_started,put_start,put_send,new_transfer]
  · exact Nat.mod_eq_of_lt small
  · simp [put_started,put_start,put_send,new_transfer]

/-- In every run in which no packet is taken for another one, a put of less than 2^32 bytes that is
    complete is stored with its last block, and nothing outside the area is read. -/
theorem completed_put_stored (board : Board) (save : Save) (server : Receiver board) (old : Client) (events : List PutEvent)
    (small : save.image_save_size < 2^32)
    (in_step : Along (put_step save server) (InStep save server) (put_started save old) events) :
    ((run (put_step save server) (put_started save old) events).client.outcome = .complete →
      (run (put_step save server) (put_started save old) events).file = save.area ∧
      (run (put_step save server) (put_started save old) events).finished = true) ∧
    ∀ r ∈ (run (put_step save server) (put_started save old) events).client.reads, r.1+r.2 ≤ save.image_save_size := by
  have inv := invariant (fun s e => put_step_inv small s e) (put_started_inv small server old) in_step
  refine ⟨fun complete => ?_,inv.stored.reads⟩
  have all := inv.complete complete
  refine ⟨?_,inv.stored.finished.mpr all⟩
  rw [inv.stored.file,all,area_take_all]
end

/-! ## The final block is lost -/

section
variable {board : Board} (save : Save) (server : Receiver board)

instance (s : Transfer) (e : PutEvent) : Decidable (InStep save server s e) :=
  match e with
  | .serve i =>
    match found : s.client.sent[i]? with
    | none => .isTrue (by simp [InStep,found])
    | some .wrq => .isTrue (by simp [InStep,found])
    | some (.data block src) =>
      decidable_of_iff (¬ s.finished → block%2^16 = (s.stored+1)%2^16 → block = s.stored+1) (by simp [InStep,found])
  | .ack k =>
    inferInstanceAs (Decidable (Acknowledged server s k →
      if s.client.tftp_put_final_block_sent then s.stored = server.blocks save
      else (k+1)/2^16 = s.client.tftp_block_wrap+if (k+1)%2^16 = 0 ∧ s.client.tftp_cur_block ≠ 0 then 1 else 0))
  | .oack =>
    inferInstanceAs (Decidable (server.oack ≠ none → s.client.tftp_state ≠ .STATE_SEND_WRQ →
      s.client.current < server.blocks save ∧ s.client.tftp_cur_block+1 < 2^16))
  | .timeout => .isTrue trivial
end

def small_board : Board := ⟨0,1468,5,10,false,fun _ _ => false,by omega⟩

def three_bytes : Save := ⟨4096,3,fun a => UInt8.ofNat (a-4095),by omega,by omega⟩

def two_bytes : Receiver small_board where
  blksize := 2
  oack := some [.blksize 2]
  blksize_pos := by omega
  blksize_small := by omega
  plain := nofun
  accepted := fun _ => by simp [small_board]
  options := by
    rintro l is
    obtain rfl := Option.some.inj is
    simp

def earlier : Client := ⟨.STATE_DATA,7,7,0,0,512,1,0,0,0,0,fun _ => 0,.complete⟩

/-- Requests, blocks and acknowledgements that are lost or come twice. -/
def lossy_run : List PutEvent :=
  [.timeout,.serve 1,.oack,.timeout,.serve 3,.serve 2,.timeout,.ack 1,.timeout,.serve 3,.serve 6,.ack 2]

/-- The request is sent twice, the first block three times and the final one twice. -/
theorem three_bytes_stored : (run (put_step three_bytes two_bytes) (put_started three_bytes earlier) lossy_run).file = [1,2,3] ∧
    (run (put_step three_bytes two_bytes) (put_started three_bytes earlier) lossy_run).finished = true := by
  have stored := completed_put_stored small_board three_bytes two_bytes earlier lossy_run (by decide) (by decide +kernel)
  obtain ⟨file,finished⟩ := stored.1 (by decide +kernel)
  exact ⟨file.trans (by decide),finished⟩

/-- The acknowledgement of the first block comes twice and the final block not at all: the put is
    complete, but the server has two of three bytes. A second OACK instead makes U-Boot read at an
    offset of 4. -/
theorem acknowledged_twice :
    (run (put_step three_bytes two_bytes) (put_started three_bytes earlier)
      [.serve 0,.oack,.serve 1,.ack 1,.ack 1]).client.outcome = .complete ∧
    (run (put_step three_bytes two_bytes) (put_started three_bytes earlier)
      [.serve 0,.oack,.serve 1,.ack 1,.ack 1]).file = [1,2] ∧
    three_bytes.area = [1,2,3] ∧
    (run (put_step three_bytes two_bytes) (put_started three_bytes earlier)
      [.serve 0,.oack,.serve 1,.ack 1,.oack]).client.reads = [(0,2),(2,1),(4,2)] := by
  refine ⟨by decide +kernel,by decide +kernel,by decide,by decide +kernel⟩

end UBoot.Tftp
