import UBoot.RecoveryUpload

/-!
Where the buffer of an upload lies: `httpd_post_begin` of
`net/lwip/httpd_recovery.c` takes an address from the environment, or one near
the start of memory, and looks at the end of memory only. The program that
receives the upload runs at the upper end of the same memory.
-/
namespace UBoot.Recovery
open UBoot.Memory

/-- The memory that U-Boot needs to run, from the bottom of its stack over its
    heap to the end of its relocated image. -/
structure Running where
  stack_bottom : Nat
  relocaddr : Nat
  image_size : Nat
  grows_down : stack_bottom < relocaddr+image_size

def ram_end (board : Board) : Nat := (board.ram_base+board.ram_size)%2^64

/-- The first address that is set: `recovery_addr`, `loadaddr`, or the one of
    the configuration. -/
def buffer_candidate (board : Board) : Nat :=
  if board.recovery_addr ≠ 0 then board.recovery_addr
  else if board.loadaddr ≠ 0 then board.loadaddr else board.sys_load_addr

def buffer_fallback (board : Board) : Nat := (board.ram_base+0x01000000)%2^64

/-- Memory goes on for `len` bytes behind the address. -/
def HasRoom (board : Board) (base len : Nat) : Prop :=
  board.ram_base ≤ base ∧ base < ram_end board ∧ len ≤ ram_end board-base

/-- The bytes from the address on are below or above those of U-Boot. -/
def Clear (area : Running) (base len : Nat) : Prop :=
  base+len ≤ area.stack_bottom ∨ area.relocaddr+area.image_size ≤ base

def Apart (area : Running) (base len : Nat) : Prop :=
  ∀ addr, base ≤ addr → addr < base+len → ¬ (area.stack_bottom ≤ addr ∧ addr < area.relocaddr+area.image_size)

theorem apart_iff {area : Running} {base len : Nat} (some_ : 0 < len) : Apart area base len ↔ Clear area base len := by
  have nonempty := area.grows_down
  constructor
  · intro apart
    by_contra overlaps
    rw [Clear] at overlaps
    -- The first byte that both have.
    exact apart (max base area.stack_bottom) (by omega) (by omega) (by omega)
  · intro clear addr low high
    rw [Clear] at clear
    omega

theorem upload_base_cases {board : Board} {recv_total base : Nat} (found : upload_base board recv_total = some base) :
    (HasRoom board (buffer_candidate board) recv_total ∧ base = buffer_candidate board) ∨
      (¬ HasRoom board (buffer_candidate board) recv_total ∧ HasRoom board (buffer_fallback board) recv_total ∧
        base = buffer_fallback board) := by
  set picked := buffer_candidate board
  have candidate : upload_base board recv_total =
      if picked < board.ram_base ∨ picked ≥ ram_end board ∨
          recv_total > ram_end board-picked then
        if buffer_fallback board ≥ board.ram_base ∧ buffer_fallback board < ram_end board ∧
          recv_total ≤ ram_end board-buffer_fallback board then some (buffer_fallback board) else none
      else some picked := rfl
  rw [candidate] at found
  by_cases outside : picked < board.ram_base ∨ picked ≥ ram_end board ∨
      recv_total > ram_end board-picked
  · rw [if_pos outside] at found
    by_cases room : buffer_fallback board ≥ board.ram_base ∧ buffer_fallback board < ram_end board ∧
        recv_total ≤ ram_end board-buffer_fallback board
    · rw [if_pos room] at found
      refine .inr ⟨?_,room,(Option.some.inj found).symm⟩
      rintro ⟨low,high,rest⟩
      omega
    · rw [if_neg room] at found
      cases found
  · rw [if_neg outside] at found
    exact .inl ⟨⟨by omega,by omega,by omega⟩,(Option.some.inj found).symm⟩

theorem HasRoom.in_ram {board : Board} {base len : Nat} (room : HasRoom board base len) :
    board.ram_base ≤ base ∧ base+len ≤ board.ram_base+board.ram_size := by
  obtain ⟨low,high,rest⟩ := room
  have wrapped : ram_end board ≤ board.ram_base+board.ram_size := Nat.mod_le _ _
  exact ⟨low,by omega⟩

theorem begin_upload_base {g : Shared} {board : Board} {uri : List Char} {content_len : Int}
    (accepted : (begin_upload g board uri content_len).1 = ERR_OK) :
    0 < content_len ∧ (begin_upload g board uri content_len).2.recv_total = content_len.toNat ∧
      upload_base board content_len.toNat = some (begin_upload g board uri content_len).2.recv_base := by
  have argument : ERR_ARG ≠ ERR_OK := by decide
  have memory : ERR_MEM ≠ ERR_OK := by decide
  rw [begin_upload] at accepted ⊢
  cases aimed : upload_target uri with
  | none =>
    rw [aimed] at accepted
    exact absurd accepted argument
  | some target =>
    rw [aimed] at accepted
    dsimp only at accepted ⊢
    split at accepted
    · exact absurd accepted argument
    · next layout =>
      split at accepted
      · exact absurd accepted argument
      · next allowed =>
        cases base : upload_base board content_len.toNat with
        | none =>
          rw [base] at accepted
          exact absurd accepted memory
        | some base =>
          rw [if_neg layout,if_neg allowed]
          exact ⟨length_allowed_pos (by simpa using allowed),rfl,rfl⟩

/-- The buffer is always within memory. It is beside U-Boot when the address
    that is taken leaves the announced length below or starts above. -/
theorem upload_apart_iff (g : Shared) (board : Board) (uri : List Char) (content_len : Int) (area : Running)
    (upload : uri ≠ "/reboot".toList) (accepted : (httpd_post_begin g board uri content_len).1 = ERR_OK) :
    (board.ram_base ≤ (httpd_post_begin g board uri content_len).2.2.recv_base ∧
        (httpd_post_begin g board uri content_len).2.2.recv_base+
          (httpd_post_begin g board uri content_len).2.2.recv_total ≤ board.ram_base+board.ram_size ∧
        Apart area (httpd_post_begin g board uri content_len).2.2.recv_base
          (httpd_post_begin g board uri content_len).2.2.recv_total) ↔
      (HasRoom board (buffer_candidate board) content_len.toNat →
        Clear area (buffer_candidate board) content_len.toNat) ∧
      (¬ HasRoom board (buffer_candidate board) content_len.toNat →
        Clear area (buffer_fallback board) content_len.toNat) := by
  cases under_way : busy g with
  | true =>
    rw [httpd_post_begin_busy under_way] at accepted
    exact absurd accepted (show ERR_ARG ≠ ERR_OK by decide)
  | false =>
    rw [httpd_post_begin_upload under_way board upload] at accepted ⊢
    obtain ⟨pos,total,base⟩ := begin_upload_base accepted
    rw [total,apart_iff (by omega)]
    rcases upload_base_cases base with ⟨room,same⟩ | ⟨full,room,same⟩
    · obtain ⟨low,high⟩ := room.in_ram
      rw [same]
      exact ⟨fun held => ⟨fun _ => held.2.2,fun full => absurd room full⟩,fun clear => ⟨low,high,clear.1 room⟩⟩
    · obtain ⟨low,high⟩ := room.in_ram
      rw [same]
      exact ⟨fun held => ⟨fun room => absurd room full,fun _ => held.2.2⟩,fun clear => ⟨low,high,clear.2 full⟩⟩

/-- A board with 1 GiB of memory whose environment names an address. -/
def addressed_board (loadaddr : Nat) : Board where
  active := false
  version := []
  target_max := fun _ => 0x10000000
  recovery_max := 0
  recovery_addr := 0
  loadaddr := loadaddr
  sys_load_addr := 0x81800000
  ram_base := 0x80000000
  ram_size := 0x40000000

def upper_area : Running := ⟨0xbd000000,0xbff00000,0x100000,by decide⟩

theorem upload_apart_iff_low :
    Apart upper_area (httpd_post_begin idle_server (addressed_board 0x81800000) "/upload/firmware".toList
        0x100000).2.2.recv_base
      (httpd_post_begin idle_server (addressed_board 0x81800000) "/upload/firmware".toList 0x100000).2.2.recv_total :=
  ((upload_apart_iff idle_server (addressed_board 0x81800000) "/upload/firmware".toList 0x100000 upper_area
    (by decide) (by decide +kernel)).mpr
      ⟨fun _ => .inl (by decide),fun full => absurd ⟨by decide,by decide,by decide⟩ full⟩).2.2

/-- With a load address near the end of memory a firmware of 1 MiB is accepted
    to where U-Boot itself is. -/
theorem upload_into_running :
    ¬ ∀ (g : Shared) (board : Board) (uri : List Char) (content_len : Int) (area : Running),
      uri ≠ "/reboot".toList → (httpd_post_begin g board uri content_len).1 = ERR_OK →
        board.ram_base ≤ (httpd_post_begin g board uri content_len).2.2.recv_base ∧
          (httpd_post_begin g board uri content_len).2.2.recv_base+
            (httpd_post_begin g board uri content_len).2.2.recv_total ≤ board.ram_base+board.ram_size ∧
          Apart area (httpd_post_begin g board uri content_len).2.2.recv_base
            (httpd_post_begin g board uri content_len).2.2.recv_total := by
  intro always
  obtain ⟨-,-,apart⟩ := always idle_server (addressed_board 0xbff00000) "/upload/firmware".toList 0x100000 upper_area
    (by decide) (by decide +kernel)
  have base : (httpd_post_begin idle_server (addressed_board 0xbff00000) "/upload/firmware".toList
    0x100000).2.2.recv_base = 0xbff00000 := by decide +kernel
  have total : (httpd_post_begin idle_server (addressed_board 0xbff00000) "/upload/firmware".toList
    0x100000).2.2.recv_total = 0x100000 := by decide +kernel
  rw [base,total] at apart
  exact apart 0xbff00000 (by decide) (by decide) (by decide)

end UBoot.Recovery
