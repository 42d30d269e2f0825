import UBoot.Tftp

/-!
The request for blocks that were lost, `tftp_handler` of `net/tftp.c`: a block that is further on than
the next one is answered with an acknowledgement of the last one, once for each block. Packets
arrive in any order and with any number. Beside the state it is kept whether such a request was
made since the current block was received.
-/
namespace UBoot.TftpGaps
open UBoot.Tftp UBoot.Runs

/-- The block that `tftp_send` acknowledges, in the states in which it does. -/
def sent_ack (c : Client) : Option ℕ :=
  if c.tftp_state = .STATE_OACK ∨ c.tftp_state = .STATE_DATA then some (c.tftp_cur_block%2^16) else none

/-- `unexpected_block` with the acknowledgement that it sends. -/
def unexpected_ack (c : Client) (number : ℕ) : Client × Option ℕ :=
  let signed : ℤ := if number < 2^15 then number else number-2^16
  if ((c.tftp_cur_block+1)%2^16 : ℤ)-signed > 0 then (c,none)
  else if c.tftp_last_nack ≠ c.tftp_cur_block then
    ({ tftp_send c with
      tftp_last_nack := (tftp_send c).tftp_cur_block%2^16
      tftp_next_ack := ((tftp_send c).tftp_cur_block+(tftp_send c).tftp_windowsize)%2^16 },sent_ack c)
  else (c,none)

inductive Arrival where
  | oack (options : List OackOption)
  | data (number : UInt16) (src : List UInt8)
  | timeout

/-- The client, and whether a request was made since the current block was received. -/
structure Watched where
  client : Client
  asked : Bool

section
variable (board : Board)

def Next (c : Client) (number : UInt16) : Prop := number.toNat = (c.tftp_cur_block+1)%2^16

instance (c : Client) (number : UInt16) : Decidable (Next c number) := inferInstanceAs (Decidable (_ = _))

def arrive (s : Watched) (a : Arrival) : Watched :=
  if s.client.outcome ≠ .running then s
  else
    match a with
    | .oack options => { s with client := handle_oack board s.client options }
    | .timeout => { s with client := tftp_timeout_handler board s.client }
    | .data number src =>
      { client := handle_data board s.client number.toNat src
        asked := if Next s.client number then false else s.asked || (unexpected_ack s.client number.toNat).2.isSome }

/-- The number lies 1 to 32767 steps ahead of the next one. -/
def Ahead (c : Client) (number : UInt16) : Prop :=
  1 ≤ (number.toNat+2^16-(c.tftp_cur_block+1)%2^16)%2^16 ∧ (number.toNat+2^16-(c.tftp_cur_block+1)%2^16)%2^16 ≤ 32767

instance (c : Client) (number : UInt16) : Decidable (Ahead c number) := inferInstanceAs (Decidable (_ ∧ _))

/-- A packet is not stored, and the current block is acknowledged if it is ahead and nothing was
    asked for yet. -/
structure AsksOnce (s : Watched) (number : UInt16) (src : List UInt8) : Prop where
  memory : (handle_data board s.client number.toNat src).memory = s.client.memory
  size : (handle_data board s.client number.toNat src).net_boot_file_size = s.client.net_boot_file_size
  ack : (unexpected_ack s.client number.toNat).2 = if Ahead s.client number ∧ s.asked = false then some s.client.tftp_cur_block else none

structure Inv (s : Watched) : Prop where
  number : s.client.tftp_cur_block < 2^16
  asked : s.asked = true → s.client.tftp_last_nack = s.client.tftp_cur_block

variable {board} {c : Client} {s : Watched} {number : UInt16}

theorem unexpected_ack_state (c : Client) (number : ℕ) : (unexpected_ack c number).1 = unexpected_block c number := by
  unfold unexpected_ack unexpected_block
  simp only
  split_ifs <;> rfl

/-- A packet changes nothing, or the current block is acknowledged and kept in mind. -/
theorem unexpected_cases (c : Client) (number : ℕ) :
    unexpected_ack c number = (c,none) ∨ unexpected_ack c number = ({ tftp_send c with
      tftp_last_nack := (tftp_send c).tftp_cur_block%2^16
      tftp_next_ack := ((tftp_send c).tftp_cur_block+(tftp_send c).tftp_windowsize)%2^16 },sent_ack c) := by
  unfold unexpected_ack
  extract_lets signed
  split_ifs with late new
  · exact .inl rfl
  · exact .inr rfl
  · exact .inl rfl

theorem send_kept : (tftp_send c).tftp_cur_block = c.tftp_cur_block ∧ (tftp_send c).tftp_last_nack = c.tftp_last_nack ∧
    (tftp_send c).memory = c.memory ∧ (tftp_send c).net_boot_file_size = c.net_boot_file_size := by
  unfold tftp_send
  split_ifs <;> exact ⟨rfl,rfl,rfl,rfl⟩

theorem oack_kept (options : List OackOption) : (handle_oack board c options).tftp_cur_block = c.tftp_cur_block ∧
    (handle_oack board c options).tftp_last_nack = c.tftp_last_nack := by
  have folded : ∀ c : Client, (options.foldl (oack_option board) c).tftp_cur_block = c.tftp_cur_block ∧
      (options.foldl (oack_option board) c).tftp_last_nack = c.tftp_last_nack := by
    induction options with
    | nil => exact fun _ => ⟨rfl,rfl⟩
    | cons option options ih =>
      intro c
      have one : (oack_option board c option).tftp_cur_block = c.tftp_cur_block ∧ (oack_option board c option).tftp_last_nack = c.tftp_last_nack := by
        unfold oack_option
        cases option with
        | timeout n =>
          simp only
          split_ifs <;> exact ⟨rfl,rfl⟩
        | _ => exact ⟨rfl,rfl⟩
      exact ⟨(ih _).1.trans one.1,(ih _).2.trans one.2⟩
  exact ⟨send_kept.1.trans (folded _).1,send_kept.2.1.trans (folded _).2⟩

theorem take_kept (c : Client) (src : List UInt8) : (take_block board c src).tftp_cur_block = c.tftp_cur_block := by
  have updated : (update_block_number c).tftp_cur_block = c.tftp_cur_block := by
    unfold update_block_number
    split_ifs <;> rfl
  have stored : ∀ {c c' : Client}, store_block board c src = some c' → c'.tftp_cur_block = c.tftp_cur_block := by
    intro c c' done
    unfold store_block at done
    simp only at done
    split_ifs at done
    all_goals exact (congrArg Client.tftp_cur_block (Option.some.inj done)).symm
  unfold take_block
  split_ifs
  · rfl
  simp only
  cases done : store_block board { update_block_number c with tftp_prev_block := (update_block_number c).tftp_cur_block } src with
  | none => exact updated
  | some c' =>
    have same := (stored done).trans updated
    simp only
    split_ifs
    · exact send_kept.1.trans same
    · exact send_kept.1.trans same
    · exact same

theorem next_kept (src : List UInt8) (next : Next c number) :
    (handle_data board c number.toNat src).tftp_cur_block = (c.tftp_cur_block+1)%2^16 := by
  unfold Next at next
  unfold handle_data
  rw [if_neg (not_not_intro next)]
  simp only
  split_ifs <;> first | exact take_kept _ src | rfl

theorem other_kept (src : List UInt8) (other : ¬Next c number) :
    handle_data board c number.toNat src = (unexpected_ack c number.toNat).1 := by
  unfold Next at other
  unfold handle_data
  rw [if_pos other,unexpected_ack_state]

theorem arrive_inv (inv : Inv s) (a : Arrival) : Inv (arrive board s a) := by
  obtain ⟨small,asked⟩ := inv
  unfold arrive
  split_ifs
  · exact ⟨small,asked⟩
  cases a with
  | oack options =>
    obtain ⟨cur,nack⟩ := @oack_kept board s.client options
    exact ⟨by rw [cur]; exact small,fun already => nack.trans ((asked already).trans cur.symm)⟩
  | timeout =>
    have kept : (tftp_timeout_handler board s.client).tftp_cur_block = s.client.tftp_cur_block ∧
        (tftp_timeout_handler board s.client).tftp_last_nack = s.client.tftp_last_nack := by
      unfold tftp_timeout_handler
      simp only
      split_ifs
      · exact ⟨rfl,rfl⟩
      · exact ⟨send_kept.1,send_kept.2.1⟩
    exact ⟨by rw [kept.1]; exact small,fun already => kept.2.trans ((asked already).trans kept.1.symm)⟩
  | data number src =>
    by_cases next : Next s.client number
    · simp only [next,if_true]
      exact ⟨by rw [next_kept src next]; exact Nat.mod_lt _ (by decide),fun no => by simp at no⟩
    simp only [next,if_false,other_kept src next]
    rcases unexpected_cases s.client number.toNat with nothing | sent
    · rw [nothing]
      exact ⟨small,fun already => asked (by simpa using already)⟩
    · rw [sent]
      refine ⟨?_,fun _ => ?_⟩
      · simp only [send_kept.1]
        exact small
      · simp only [send_kept.1]
        exact Nat.mod_eq_of_lt small

theorem asks_once_iff (inv : Inv s) (receiving : s.client.tftp_state = .STATE_OACK ∨ s.client.tftp_state = .STATE_DATA)
    (other : ¬Next s.client number) (src : List UInt8) :
    AsksOnce board s number src ↔ (Ahead s.client number → s.asked = false →
      (s.client.tftp_cur_block+1)%2^16 < 2^15 ∧ number.toNat < 2^15 ∧ s.client.tftp_last_nack ≠ s.client.tftp_cur_block) := by
  have small := inv.number
  have bound := number.toNat_lt
  have answer : (unexpected_ack s.client number.toNat).2 = if (s.client.tftp_cur_block+1)%2^16 < number.toNat ∧ number.toNat < 2^15 ∧
      s.client.tftp_last_nack ≠ s.client.tftp_cur_block then some s.client.tftp_cur_block else none := by
    unfold unexpected_ack sent_ack
    simp only [receiving,if_true]
    unfold Next at other
    split_ifs <;> first | rfl | (rw [Nat.mod_eq_of_lt small]) | (exfalso; omega)
  have kept : ∀ c : Client, (unexpected_ack c number.toNat).1.memory = c.memory ∧
      (unexpected_ack c number.toNat).1.net_boot_file_size = c.net_boot_file_size := by
    intro c
    rcases unexpected_cases c number.toNat with nothing | sent
    · rw [nothing]
      exact ⟨rfl,rfl⟩
    · rw [sent]
      exact ⟨send_kept.2.2.1,send_kept.2.2.2⟩
  have step : AsksOnce board s number src ↔ (unexpected_ack s.client number.toNat).2 =
      if Ahead s.client number ∧ s.asked = false then some s.client.tftp_cur_block else none := by
    constructor
    · exact AsksOnce.ack
    · intro ack
      exact ⟨by rw [other_kept src other]; exact (kept _).1,by rw [other_kept src other]; exact (kept _).2,ack⟩
  have already := inv.asked
  rw [step,answer]
  unfold Ahead
  by_cases first : s.asked = true
  · have nack := already first
    simp [first,nack]
  · rw [Bool.not_eq_true] at first
    simp only [first,and_true,forall_const]
    split_ifs <;> simp <;> omega

/-- In every state that is reached while blocks are received, a packet with another number than the
    next one is answered as it should be just under this condition. -/
theorem gap_detection_iff (old : Client) (arrivals : List Arrival) (number : UInt16) (src : List UInt8) {s : Watched}
    (reached : s = run (arrive board) ⟨tftp_start old,false⟩ arrivals)
    (receiving : s.client.tftp_state = .STATE_OACK ∨ s.client.tftp_state = .STATE_DATA) (other : ¬Next s.client number) :
    AsksOnce board s number src ↔ (Ahead s.client number → s.asked = false →
      (s.client.tftp_cur_block+1)%2^16 < 2^15 ∧ number.toNat < 2^15 ∧ s.client.tftp_last_nack ≠ s.client.tftp_cur_block) := by
  have inv : Inv s := by
    rw [reached]
    refine @invariant _ _ (arrive board) Inv (fun _ _ => True) (fun s a inv _ => arrive_inv inv a) _ _ ⟨?_,fun no => absurd no (by simp)⟩ (along_of_forall (fun _ _ => trivial) _ _)
    show 0 < 2^16
    decide
  exact asks_once_iff inv receiving other src

end

def idle_client : Client := ⟨.STATE_DATA,0,0,0,0,512,1,1,0,0,0,fun _ => 0,.running⟩

/-- Blocks of 512 bytes in a window of four; the first one arrives, and then the third one. -/
theorem third_block_asks :
    let s := run (arrive open_board) ⟨tftp_start idle_client,false⟩ [.oack [.windowsize 4],.data 1 (List.replicate 512 7)]
    (unexpected_ack s.client 3).2 = some 1 := by
  intro s
  have asks := (@gap_detection_iff open_board idle_client [.oack [.windowsize 4],.data 1 (List.replicate 512 7)] 3 [] s rfl
    (by decide +kernel) (by decide +kernel)).mpr (by decide +kernel)
  rw [show 3 = (3 : UInt16).toNat from rfl,asks.ack]
  decide +kernel

/-- The first block of a window of four is lost, and nothing is asked for when the second arrives. -/
theorem first_block_lost :
    let s := run (arrive open_board) ⟨tftp_start idle_client,false⟩ [.oack [.windowsize 4]]
    Ahead s.client 2 ∧ ¬AsksOnce open_board s 2 [] := by
  intro s
  refine ⟨by decide +kernel,fun asks => ?_⟩
  have ack := asks.ack
  revert ack
  decide +kernel

end UBoot.TftpGaps
