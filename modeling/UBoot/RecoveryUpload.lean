import UBoot.RecoveryPosts

/-!
The body of an upload: after `httpd_post_begin` has opened the buffer, what the
calls of `httpd_post_receive_data` leave there and when they refuse, however the
body is cut into chains of buffers.
-/
namespace UBoot.Recovery
open UBoot.Memory List

/-- A chain as the server hands it over: there is a buffer, and none is empty. -/
def Chain (p : Pbuf) : Prop := p ≠ [] ∧ ∀ q ∈ p, q ≠ []

def receive_all (g : Shared) (calls : List Pbuf) : Shared :=
  calls.foldl (fun g p => (httpd_post_receive_data g p).2.2) g

def body (calls : List Pbuf) : List UInt8 := calls.flatten.flatten

/-- The bytes of those calls that found `post_ok` set. -/
def body_while_ok : Shared → List Pbuf → List UInt8
  | _, [] => []
  | g, p :: rest => (if g.post_ok then p.flatten else []) ++ body_while_ok (httpd_post_receive_data g p).2.2 rest

theorem copy_chain_eq (p : Pbuf) (g : Shared) (filled : ∀ q ∈ p, q ≠ []) (room : g.recv_off ≤ g.recv_total) :
    copy_chain p g = (decide (g.recv_total-g.recv_off < p.flatten.length),{ g with
      ram := store g.ram (g.recv_base+g.recv_off) (p.flatten.take (g.recv_total-g.recv_off)),
      recv_off := g.recv_off+(p.flatten.take (g.recv_total-g.recv_off)).length }) := by
  set missing := g.recv_total-g.recv_off
  induction p generalizing g with
  | nil => simp [copy_chain]
  | cons q rest ih =>
    have q_pos : 0 < q.length := length_pos_of_ne_nil (filled q mem_cons_self)
    by_cases full : g.recv_off ≥ g.recv_total
    · have no_room : missing = 0 := by omega
      rw [copy_chain,if_pos full]
      simp [no_room,q_pos]
    have part_le : (q.take missing).length ≤ missing := by simp
    let g' : Shared := { g with
      ram := store g.ram (g.recv_base+g.recv_off) (q.take missing),
      recv_off := g.recv_off+(q.take missing).length }
    have later := ih g' (fun r member => filled r (mem_cons_of_mem q member)) (by simp only [g']; omega)
    have unfolded : copy_chain (q :: rest) g =
        (decide (q.length > missing) || (copy_chain rest g').1,(copy_chain rest g').2) := by
      rw [copy_chain,if_neg full]
    -- What the rest of the chain may fill is what this buffer has left.
    have left : g'.recv_total-g'.recv_off = missing-q.length := by
      simp only [g',length_take]
      omega
    have cut : (q :: rest).flatten.take missing =
        q.take missing ++ rest.flatten.take (missing-q.length) := by
      rw [flatten_cons,take_append]
    rw [unfolded,later,left,cut,store_append,length_append]
    refine Prod.ext ?_ ?_
    · simp only [flatten_cons,length_append,gt_iff_lt,← Bool.decide_or]
      congr 1
      apply propext
      omega
    · simp only [g',add_assoc]

/-- The variables after the bytes `bytes` of the body of the upload that was
    opened as `opened`. -/
def with_body (opened : Shared) (bytes : List UInt8) : Shared :=
  { opened with
    ram := store opened.ram opened.recv_base (bytes.take opened.recv_total)
    recv_off := (bytes.take opened.recv_total).length
    post_ok := decide (bytes.length ≤ opened.recv_total)
    prog_phase := if bytes.length ≤ opened.recv_total then opened.prog_phase else -1 }

structure Opened (g : Shared) : Prop where
  nothing : g.recv_off = 0
  ok : g.post_ok = true
  announced : g.recv_total ≠ 0
  no_reboot : g.reboot_post_pending = false

variable {calls : List Pbuf} {opened : Shared}

theorem with_body_nil (fresh : Opened opened) : with_body opened [] = opened := by
  obtain ⟨base,off,total,target,ok,flash,pending,reboot,phase,timers,ram⟩ := opened
  have nothing := fresh.nothing
  have accepted := fresh.ok
  simp only at nothing accepted
  simp [with_body,nothing,accepted]

theorem httpd_post_receive_data_with_body (fresh : Opened opened) (bytes : List UInt8) {p : Pbuf}
    (chain : Chain p) :
    (httpd_post_receive_data (with_body opened bytes) p).2.2 = with_body opened (bytes ++ p.flatten) ∧
    ((httpd_post_receive_data (with_body opened bytes) p).1 = ERR_ARG ↔
      opened.recv_total < (bytes ++ p.flatten).length) := by
  set g := with_body opened bytes with gIs
  have differ : ERR_OK ≠ ERR_ARG := by decide
  have pending : g.reboot_post_pending = false := fresh.no_reboot
  by_cases fits : bytes.length ≤ opened.recv_total
  · have whole : bytes.take opened.recv_total = bytes := take_of_length_le fits
    have off : g.recv_off = bytes.length := by simp only [gIs,with_body,whole]
    have total : g.recv_total = opened.recv_total := rfl
    have ok : g.post_ok = true := decide_eq_true fits
    have joined : (bytes ++ p.flatten).take opened.recv_total =
        bytes ++ p.flatten.take (opened.recv_total-bytes.length) := by
      rw [take_append,whole]
    have new_off : ((bytes ++ p.flatten).take opened.recv_total).length =
        bytes.length+(p.flatten.take (opened.recv_total-bytes.length)).length := by
      rw [joined,length_append]
    have copied := copy_chain_eq p g chain.2 (by rw [off,total]; exact fits)
    rw [off,total] at copied
    have result : httpd_post_receive_data g p =
        if (copy_chain p g).1 then
          (ERR_ARG,tot_len p,
            { (copy_chain p g).2 with post_ok := false, prog_phase := -1 })
        else (ERR_OK,tot_len p,(copy_chain p g).2) := by
      rw [httpd_post_receive_data,if_neg (by simp [pending]),if_neg (by simp [ok]),if_neg (by rw [off,total]; omega)]
    have stored : store g.ram (g.recv_base+bytes.length)
        (p.flatten.take (opened.recv_total-bytes.length)) =
        store opened.ram opened.recv_base ((bytes ++ p.flatten).take opened.recv_total) := by
      simp only [gIs,with_body,whole]
      rw [joined,store_append]
    rw [result,copied,stored]
    by_cases long : opened.recv_total-bytes.length < p.flatten.length
    · have too_long : opened.recv_total < (bytes ++ p.flatten).length := by rw [length_append]; omega
      rw [if_pos (decide_eq_true long)]
      refine ⟨?_,iff_of_true rfl too_long⟩
      simp only [gIs,with_body,new_off,not_le.mpr too_long,decide_false,if_false]
    · have within : (bytes ++ p.flatten).length ≤ opened.recv_total := by rw [length_append]; omega
      rw [if_neg (by simp only [long,decide_false]; decide)]
      refine ⟨?_,iff_of_false differ (by omega)⟩
      simp only [gIs,with_body,new_off,fits,within,decide_true,if_true]
  · have ok : g.post_ok = false := decide_eq_false fits
    have result : httpd_post_receive_data g p = (ERR_ARG,0,g) := by
      rw [httpd_post_receive_data,if_neg (by simp [pending]),if_pos ok]
    have longer : ¬ (bytes ++ p.flatten).length ≤ opened.recv_total := by rw [length_append]; omega
    have same : (bytes ++ p.flatten).take opened.recv_total = bytes.take opened.recv_total :=
      take_append_of_le_length (by omega)
    rw [result]
    refine ⟨?_,iff_of_true rfl (by omega)⟩
    simp only [gIs,with_body,same,fits,longer]

theorem receive_all_with_body (fresh : Opened opened) (bytes : List UInt8)
    (chains : ∀ p ∈ calls, Chain p) :
    receive_all (with_body opened bytes) calls = with_body opened (bytes ++ body calls) := by
  induction calls generalizing bytes with
  | nil => simp [receive_all,body]
  | cons p rest ih =>
    have first := (httpd_post_receive_data_with_body fresh bytes (chains p mem_cons_self)).1
    have later := ih (bytes ++ p.flatten) (fun r member => chains r (mem_cons_of_mem p member))
    calc receive_all (with_body opened bytes) (p :: rest)
        = receive_all (httpd_post_receive_data (with_body opened bytes) p).2.2 rest := rfl
      _ = with_body opened (bytes ++ body (p :: rest)) := by
        rw [first,later]
        simp only [body,flatten_cons,flatten_append,append_assoc]

theorem body_while_ok_refused (fresh : Opened opened) {bytes : List UInt8}
    (too_long : opened.recv_total < bytes.length) (chains : ∀ p ∈ calls, Chain p) :
    body_while_ok (with_body opened bytes) calls = [] := by
  induction calls generalizing bytes with
  | nil => rfl
  | cons p rest ih =>
    have first := (httpd_post_receive_data_with_body fresh bytes (chains p mem_cons_self)).1
    have refused : (with_body opened bytes).post_ok = false := decide_eq_false (by omega)
    rw [body_while_ok,first,ih (by rw [length_append]; omega)
      (fun r member => chains r (mem_cons_of_mem p member)),refused]
    rfl

theorem body_while_ok_take (fresh : Opened opened) (bytes : List UInt8)
    (chains : ∀ p ∈ calls, Chain p) :
    (bytes ++ body_while_ok (with_body opened bytes) calls).take opened.recv_total =
      (bytes ++ body calls).take opened.recv_total := by
  induction calls generalizing bytes with
  | nil => rfl
  | cons p rest ih =>
    by_cases fits : bytes.length ≤ opened.recv_total
    · have first := (httpd_post_receive_data_with_body fresh bytes (chains p mem_cons_self)).1
      have ok : (with_body opened bytes).post_ok = true := decide_eq_true fits
      have later := ih (bytes ++ p.flatten) (fun r member => chains r (mem_cons_of_mem p member))
      rw [body_while_ok,first,ok,if_pos rfl,← append_assoc,later]
      simp only [body,flatten_cons,flatten_append,append_assoc]
    · have none_ok : body_while_ok (with_body opened bytes) (p :: rest) = [] :=
        body_while_ok_refused fresh (by omega) chains
      have cut : ∀ later, (bytes ++ later).take opened.recv_total = bytes.take opened.recv_total :=
        fun later => take_append_of_le_length (by omega)
      rw [none_ok,cut,cut]

theorem with_body_outside (opened : Shared) (bytes : List UInt8) {a : Nat}
    (outside : a < opened.recv_base ∨ opened.recv_base+opened.recv_total ≤ a) :
    (with_body opened bytes).ram a = opened.ram a := by
  have short : (bytes.take opened.recv_total).length ≤ opened.recv_total := by simp
  rcases outside with below | above
  · exact store_below opened.ram _ below
  · exact store_above opened.ram _ (by omega)

theorem with_body_inside (opened : Shared) (bytes : List UInt8) :
    load (with_body opened bytes).ram opened.recv_base (with_body opened bytes).recv_off =
      bytes.take opened.recv_total :=
  load_store opened.ram opened.recv_base (bytes.take opened.recv_total)

theorem finished_with_body (fresh : Opened opened) {bytes : List UInt8}
    (complete : (httpd_post_finished (with_body opened bytes)).post_ok = true) :
    bytes.length = opened.recv_total := by
  have pending : (with_body opened bytes).reboot_post_pending = false := fresh.no_reboot
  rw [httpd_post_finished,if_neg (by simp [pending])] at complete
  by_cases all_there : (with_body opened bytes).post_ok ∧ (with_body opened bytes).recv_total ≠ 0 ∧
      (with_body opened bytes).recv_off ≥ (with_body opened bytes).recv_total
  · have fits : bytes.length ≤ opened.recv_total := of_decide_eq_true all_there.1
    have enough := all_there.2.2
    simp only [with_body,length_take] at enough
    omega
  · rw [if_neg all_there] at complete
    cases complete

theorem httpd_post_begin_opened {g : Shared} {board : Board} {uri : List Char} {content_len : Int}
    (upload : uri ≠ "/reboot".toList) (accepted : (httpd_post_begin g board uri content_len).1 = ERR_OK) :
    Opened (httpd_post_begin g board uri content_len).2.2 ∧
    ((httpd_post_begin g board uri content_len).2.2.recv_total : Int) = content_len ∧
    (httpd_post_begin g board uri content_len).2.2.ram = g.ram := by
  have differ : ERR_ARG ≠ ERR_OK := by decide
  by_cases under_way : busy g = true
  · rw [httpd_post_begin_busy under_way] at accepted
    exact absurd accepted differ
  have idle : busy g = false := by simpa using under_way
  have no_reboot : g.reboot_post_pending = false := by
    simp only [busy,Bool.or_eq_false_iff] at idle
    exact idle.1.1.2
  rw [httpd_post_begin_upload idle board upload] at accepted ⊢
  rcases begin_upload_cases g board uri content_len with
    ⟨base,target,positive,result⟩ | ⟨err,total,target,failed,result⟩
  · rw [result]
    refine ⟨⟨rfl,rfl,?_,no_reboot⟩,Int.toNat_of_nonneg positive.le,rfl⟩
    show content_len.toNat ≠ 0
    omega
  · rw [result] at accepted
    exact absurd accepted failed

/-- What the upload of `content_len` bytes that was opened as `opened` is after
    some calls. -/
structure Intact (opened : Shared) (content_len : Int) (calls : List Pbuf) : Prop where
  announced : ((receive_all opened calls).recv_total : Int) = content_len
  same_buffer : (receive_all opened calls).recv_base = opened.recv_base
  bounded : (receive_all opened calls).recv_off ≤ (receive_all opened calls).recv_total
  /-- No byte outside the buffer is written. -/
  outside : ∀ a, a < opened.recv_base ∨ opened.recv_base+opened.recv_total ≤ a →
    (receive_all opened calls).ram a = opened.ram a
  /-- The buffer has the first bytes of what came while `post_ok` was set. -/
  inside : load (receive_all opened calls).ram opened.recv_base (receive_all opened calls).recv_off =
    (body_while_ok opened calls).take (receive_all opened calls).recv_off
  refuses : ∀ p, Chain p → ((httpd_post_receive_data (receive_all opened calls) p).1 = ERR_ARG ↔
    content_len < (body (calls ++ [p])).length)
  clears : ∀ p, Chain p → ((httpd_post_receive_data (receive_all opened calls) p).2.2.post_ok = false ↔
    content_len < (body (calls ++ [p])).length)
  /-- An upload that is reported as complete is the whole body and no more. -/
  complete : (httpd_post_finished (receive_all opened calls)).post_ok = true →
    ((body calls).length : Int) = content_len ∧
      load (receive_all opened calls).ram opened.recv_base opened.recv_total = body calls

/-- However the body of an accepted upload is cut and however long it is, the
    buffer has its beginning and the length decides. -/
theorem upload_intact (g : Shared) (board : Board) (uri : List Char) (content_len : Int) (calls : List Pbuf)
    (upload : uri ≠ "/reboot".toList) (accepted : (httpd_post_begin g board uri content_len).1 = ERR_OK)
    (chains : ∀ p ∈ calls, Chain p) :
    Intact (httpd_post_begin g board uri content_len).2.2 content_len calls ∧
      (httpd_post_begin g board uri content_len).2.2.ram = g.ram := by
  obtain ⟨fresh,announced,ram⟩ := httpd_post_begin_opened upload accepted
  generalize (httpd_post_begin g board uri content_len).2.2 = opened at fresh announced ram
  have now : receive_all opened calls = with_body opened (body calls) := by
    have from_nothing := receive_all_with_body fresh [] chains
    rwa [with_body_nil fresh] at from_nothing
  have counted : (body_while_ok opened calls).take opened.recv_total = (body calls).take opened.recv_total := by
    have from_nothing := body_while_ok_take fresh [] chains
    rwa [with_body_nil fresh,List.nil_append,List.nil_append] at from_nothing
  have short : (with_body opened (body calls)).recv_off ≤ opened.recv_total := by simp [with_body]
  have one_more : ∀ p, body calls ++ p.flatten = body (calls ++ [p]) := by
    intro p
    simp [body]
  refine ⟨⟨?_,?_,?_,?_,?_,?_,?_,?_⟩,ram⟩
  · rw [now]
    exact announced
  · rw [now]
    rfl
  · rw [now]
    exact short
  · intro a outside
    rw [now]
    exact with_body_outside opened (body calls) outside
  · rw [now,with_body_inside]
    calc (body calls).take opened.recv_total
        = ((body calls).take opened.recv_total).take (with_body opened (body calls)).recv_off :=
          (List.take_length).symm
      _ = ((body_while_ok opened calls).take opened.recv_total).take (with_body opened (body calls)).recv_off := by
          rw [counted]
      _ = (body_while_ok opened calls).take (with_body opened (body calls)).recv_off := by
          rw [List.take_take,Nat.min_eq_left short]
  · intro p chain
    rw [now,(httpd_post_receive_data_with_body fresh (body calls) chain).2,one_more,← announced]
    exact Int.ofNat_lt.symm
  · intro p chain
    rw [now,(httpd_post_receive_data_with_body fresh (body calls) chain).1,one_more,← announced]
    simp only [with_body,decide_eq_false_iff_not,Nat.not_le]
    exact Int.ofNat_lt.symm
  · intro complete
    rw [now] at complete ⊢
    have whole := finished_with_body fresh complete
    have all_read := with_body_inside opened (body calls)
    have off : (with_body opened (body calls)).recv_off = opened.recv_total := by
      simp [with_body,whole]
    rw [off,List.take_of_length_le whole.le] at all_read
    exact ⟨by rw [whole,announced],all_read⟩

def small_board : Board :=
  { active := false, version := [], target_max := fun _ => 2097152, recovery_max := 0, recovery_addr := 0,
    loadaddr := 0x50000000, sys_load_addr := 0x50000000, ram_base := 0x40000000, ram_size := 0x20000000 }

def idle_server : Shared :=
  { recv_base := 0, recv_off := 0, recv_total := 0, current_target := .TARGET_FIRMWARE, post_ok := false,
    flash_request := false, reboot_post_pending := false, reboot_request := false, prog_phase := 0, timers := 0,
    ram := fun _ => 0 }

theorem upload_intact_uboot :
    Intact (httpd_post_begin idle_server small_board "/upload/uboot".toList 2097152).2.2 2097152
      [[[0x27,0x05],[0x19]],[[0x56]]] ∧
    (httpd_post_begin idle_server small_board "/upload/uboot".toList 2097152).2.2.ram = idle_server.ram := by
  refine upload_intact idle_server small_board "/upload/uboot".toList 2097152 _ (by decide) (by decide) ?_
  simp [Chain]

end UBoot.Recovery
