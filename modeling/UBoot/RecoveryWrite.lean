import UBoot.RecoveryFlash

/-!
`recovery_write_mtd_region` of `net/lwip/httpd_recovery.c` on a device with bad
blocks, some of which turn bad under the write. A block that fails is marked and
its part of the image goes to the next one, so that in the end the blocks that
are still good hold the image one after the other.
-/
namespace UBoot.Recovery
open UBoot.Memory List

section
variable {World : Type}

/-- What the driver of a device keeps about its blocks: the answer for a block
    changes only when the block is marked, and a block that was marked with
    success is reported as bad. Marking a block leaves the others alone. -/
structure BlockStatus (mtd : Mtd World) where
  status : World → Nat → Int
  asks : ∀ w addr, (mtd.block_isbad w addr).1 = status w addr
  isbad_keeps : ∀ w addr, status (mtd.block_isbad w addr).2 = status w
  read_keeps : ∀ w addr len, status (mtd.read w addr len).2.2.2 = status w
  write_keeps : ∀ w addr bytes, status (mtd.write w addr bytes).2.2 = status w
  marks : ∀ w addr, (mtd.block_markbad w addr).1 = 0 → 0 < status (mtd.block_markbad w addr).2 addr
  marks_apart : ∀ w addr b, b+mtd.erasesize ≤ addr ∨ addr+mtd.erasesize ≤ b →
    status (mtd.block_markbad w addr).2 b = status w b
  markbad_apart : ∀ w addr i, i < addr ∨ addr+mtd.erasesize ≤ i →
    mtd.content (mtd.block_markbad w addr).2 i = mtd.content w i

def blocks (mtd : Mtd World) (k : Nat) : List Nat := (List.range k).map (· * mtd.erasesize)

theorem blocks_succ (mtd : Mtd World) (k : Nat) : blocks mtd (k+1) = blocks mtd k ++ [k*mtd.erasesize] := by
  simp [blocks,range_succ]

variable {mtd : Mtd World} (b : BlockStatus mtd)

/-- The contents of the blocks that are reported good, one after the other. -/
def good_bytes (ofs : Nat) (w : World) (addrs : List Nat) : List UInt8 :=
  (addrs.filter fun addr => b.status w (ofs+addr) = 0).flatMap fun addr => load (mtd.content w) (ofs+addr) mtd.erasesize

theorem good_bytes_append (ofs : Nat) (w : World) (front rest : List Nat) :
    good_bytes b ofs w (front ++ rest) = good_bytes b ofs w front ++ good_bytes b ofs w rest := by
  simp [good_bytes]

/-- Nothing below the limit has changed, neither a byte nor the state of a
    block. -/
structure Kept (limit : Nat) (w w' : World) : Prop where
  status : ∀ addr, addr+mtd.erasesize ≤ limit → b.status w' addr = b.status w addr
  content : ∀ i, i < limit → mtd.content w' i = mtd.content w i

section
variable {b} {limit : Nat} {w w' w'' : World}

theorem Kept.trans (first : Kept b limit w w') (second : Kept b limit w' w'') : Kept b limit w w'' where
  status addr below := (second.status addr below).trans (first.status addr below)
  content i below := (second.content i below).trans (first.content i below)

theorem Kept.good_bytes {ofs k : Nat} (kept : Kept b (ofs+k*mtd.erasesize) w w') :
    good_bytes b ofs w' (blocks mtd k) = good_bytes b ofs w (blocks mtd k) := by
  have below : ∀ addr ∈ blocks mtd k, ofs+addr+mtd.erasesize ≤ ofs+k*mtd.erasesize := by
    intro addr member
    obtain ⟨j,low,rfl⟩ := mem_map.mp member
    have up := Nat.mul_le_mul_right mtd.erasesize (Nat.succ_le_of_lt (mem_range.mp low))
    rw [Nat.succ_mul] at up
    omega
  have same : ∀ addrs : List Nat, (∀ addr ∈ addrs, ofs+addr+mtd.erasesize ≤ ofs+k*mtd.erasesize) →
      UBoot.Recovery.good_bytes b ofs w' addrs = UBoot.Recovery.good_bytes b ofs w addrs := by
    intro addrs
    induction addrs with
    | nil =>
      intro _
      rfl
    | cons addr rest ih =>
      intro low
      have later := ih (fun addr member => low addr (by simp [member]))
      have here := low addr (by simp)
      have bytes : load (mtd.content w') (ofs+addr) mtd.erasesize = load (mtd.content w) (ofs+addr) mtd.erasesize := by
        apply load_congr
        intro i inside
        exact kept.content _ (by omega)
      rw [← singleton_append,good_bytes_append,good_bytes_append,later]
      simp only [UBoot.Recovery.good_bytes,filter_cons,filter_nil,kept.status _ here]
      split
      · simp [bytes]
      · rfl
  exact same _ below

end

section
variable {b} {addr : Nat} {s : Session World}

theorem isbad_kept (limit : Nat) : Kept b limit s.world (mtd_block_isbad mtd addr s).2.world where
  status a _ := congrFun (b.isbad_keeps s.world addr) a
  content i _ := congrFun (mtd.isbad_keeps s.world addr) i

theorem write_kept (bytes : List UInt8) : Kept b addr s.world (mtd_write mtd addr bytes s).2.2.world where
  status a _ := congrFun (b.write_keeps s.world addr bytes) a
  content i below := mtd.write_apart s.world addr bytes i (.inl below)

theorem markbad_kept : Kept b addr s.world (recovery_mtd_mark_bad mtd addr s).2.world where
  status a below := b.marks_apart s.world addr a (.inl below)
  content i below := b.markbad_apart s.world addr i (.inl below)

theorem verify_world (src : List UInt8) :
    (recovery_mtd_verify_write mtd addr src s).2.world = (mtd.read s.world addr src.length).2.2.2 := by
  rw [recovery_mtd_verify_write]
  dsimp only
  split
  · rfl
  · split
    · rfl
    · rfl

theorem verify_kept (limit : Nat) (src : List UInt8) :
    Kept b limit s.world (recovery_mtd_verify_write mtd addr src s).2.world := by
  rw [verify_world]
  exact ⟨fun a _ => congrFun (b.read_keeps s.world addr src.length) a,
    fun i _ => congrFun (mtd.read_keeps s.world addr src.length) i⟩

theorem block_wrote_kept (bytes : List UInt8) : Kept b addr s.world (block_wrote mtd addr bytes s).2.2.world :=
  (isbad_kept addr).trans (write_kept bytes)

theorem block_checked_kept (bytes : List UInt8) : Kept b addr s.world (block_checked mtd addr bytes true s).2.world :=
  (block_wrote_kept bytes).trans (verify_kept addr bytes)

theorem isbad_status : b.status (mtd_block_isbad mtd addr s).2.world addr = (mtd_block_isbad mtd addr s).1 :=
  (congrFun (b.isbad_keeps s.world addr) addr).trans (b.asks s.world addr).symm

theorem block_checked_status (bytes : List UInt8) :
    b.status (block_checked mtd addr bytes true s).2.world addr = (mtd_block_isbad mtd addr s).1 := by
  have wrote := congrFun (b.write_keeps (mtd_block_isbad mtd addr s).2.world addr bytes) addr
  rw [block_checked,if_pos rfl,verify_world,b.read_keeps]
  exact wrote.trans isbad_status

end

/-- After `k` blocks: the good ones begin with what was written, and hold
    nothing else while there is more to write. -/
structure Placed (ofs : Nat) (image : List UInt8) (w : World) (k written : Nat) : Prop where
  low : written ≤ image.length
  held : image.take written <+: good_bytes b ofs w (blocks mtd k)
  exact_ : written < image.length → good_bytes b ofs w (blocks mtd k) = image.take written

section
variable {b} {ofs k written : Nat} {image : List UInt8} {w w' : World}

/-- A block that is bad in the end is passed. -/
theorem Placed.skip (placed : Placed b ofs image w k written) (kept : Kept b (ofs+k*mtd.erasesize) w w')
    (bad : 0 < b.status w' (ofs+k*mtd.erasesize)) : Placed b ofs image w' (k+1) written := by
  have same : good_bytes b ofs w' (blocks mtd (k+1)) = good_bytes b ofs w (blocks mtd k) := by
    have none_ : good_bytes b ofs w' [k*mtd.erasesize] = [] := by
      have out : ¬ b.status w' (ofs+k*mtd.erasesize) = 0 := by omega
      simp [good_bytes,out]
    rw [blocks_succ,good_bytes_append,none_,append_nil,kept.good_bytes]
  refine ⟨placed.low,?_,?_⟩
  · rw [same]
    exact placed.held
  · intro more
    rw [same]
    exact placed.exact_ more

/-- A good block takes the next part of the image, the whole of the block
    unless the image ends in it. -/
theorem Placed.store (placed : Placed b ofs image w k written) (kept : Kept b (ofs+k*mtd.erasesize) w w')
    (more : written < image.length) (good : b.status w' (ofs+k*mtd.erasesize) = 0) {bytes : List UInt8}
    (part : bytes = (image.drop written).take (min mtd.erasesize (image.length-written)))
    (stored : load (mtd.content w') (ofs+k*mtd.erasesize) bytes.length = bytes) :
    Placed b ofs image w' (k+1) (written+bytes.length) := by
  have length : bytes.length = min mtd.erasesize (image.length-written) := by
    rw [part]
    simp
  have next : image.take (written+bytes.length) = image.take written ++ bytes := by
    rw [take_add,length,← part]
  have block : good_bytes b ofs w' [k*mtd.erasesize] = load (mtd.content w') (ofs+k*mtd.erasesize) mtd.erasesize := by
    simp [good_bytes,good]
  have before := placed.exact_ more
  have all : good_bytes b ofs w' (blocks mtd (k+1)) =
      image.take written ++ load (mtd.content w') (ofs+k*mtd.erasesize) mtd.erasesize := by
    rw [blocks_succ,good_bytes_append,block,kept.good_bytes,before]
  have room : mtd.erasesize = bytes.length+(mtd.erasesize-bytes.length) := by omega
  refine ⟨by omega,?_,?_⟩
  · rw [all,next,room,load_append,← room,stored,← append_assoc]
    exact prefix_append _ _
  · intro still
    have full : mtd.erasesize = bytes.length := by omega
    have stored' := stored
    rw [← full] at stored'
    rw [all,next,stored']

/-- What the blocks hold so far is not touched by the rest of the region. -/
theorem Placed.done (placed : Placed b ofs image w k written) (all : ¬ written < image.length) (n : Nat) :
    image <+: good_bytes b ofs w (blocks mtd (k+n)) := by
  have held := placed.held
  rw [take_of_length_le (by omega)] at held
  have more : ∀ n, good_bytes b ofs w (blocks mtd k) <+: good_bytes b ofs w (blocks mtd (k+n)) := by
    intro n
    induction n with
    | zero => exact prefix_rfl
    | succ n ih =>
      rw [← add_assoc,blocks_succ,good_bytes_append]
      exact ih.trans (prefix_append _ _)
  exact held.trans (more n)

end

section
variable {b} {ofs : Nat} {image : List UInt8}

theorem write_loop_placed (short : image.length < 2^32) (n : Nat) :
    ∀ (k written : Nat) (s : Session World), Placed b ofs image s.world k written →
      ∀ s', write_loop mtd ofs image true false ((range' k n).map (· * mtd.erasesize)) written s = (0,s') →
        image <+: good_bytes b ofs s'.world (blocks mtd (k+n)) := by
  induction n with
  | zero =>
    intro k written s placed s' ends
    obtain ⟨code,rfl⟩ := Prod.mk.inj ends
    split at code
    · exact absurd code (by decide)
    · next all => exact placed.done all 0
  | succ n ih =>
    intro k written s placed s' ends
    rw [range'_succ,map_cons] at ends
    have next : k+1+n = k+(n+1) := by omega
    by_cases more : written < image.length
    · have round := @write_loop_round World mtd ofs image true false (k*mtd.erasesize)
        ((range' (k+1) n).map (· * mtd.erasesize)) written s more
      rw [ends] at round
      generalize part : (image.drop written).take (min mtd.erasesize (image.length-written)) = bytes at round
      have fits : written+bytes.length ≤ image.length := by
        have length := congrArg List.length part
        rw [length_take,length_drop] at length
        omega
      generalize ended : ((0,s') : Int × Session World) = r at round
      rw [← next]
      cases round with
      | stopped failed => exact absurd (Prod.mk.inj ended).1.symm failed
      | bad status =>
        have passed : Placed b ofs image (recovery_service_runtime (mtd_block_isbad mtd (ofs+k*mtd.erasesize) s).2).world
            (k+1) written := placed.skip (isbad_kept _) (by rw [service_world,isbad_status]; exact status)
        exact ih (k+1) written _ passed s' ended.symm
      | @marked t _ among _ status =>
        have kept : Kept b (ofs+k*mtd.erasesize) s.world t.world := by
          simp only [mem_cons,not_mem_nil,or_false] at among
          rcases among with rfl | rfl
          · exact block_wrote_kept bytes
          · exact block_checked_kept bytes
        have passed : Placed b ofs image
            (recovery_service_runtime (recovery_mtd_mark_bad mtd (ofs+k*mtd.erasesize) t).2).world (k+1) written :=
          placed.skip (kept.trans markbad_kept) (b.marks t.world (ofs+k*mtd.erasesize) status)
        exact ih (k+1) written _ passed s' ended.symm
      | stored good _ _ verified =>
        obtain ⟨same,stored⟩ := verify_write_spec (show recovery_mtd_verify_write mtd (ofs+k*mtd.erasesize) bytes
          (block_wrote mtd (ofs+k*mtd.erasesize) bytes s).2.2 = (0,_) from Prod.ext verified rfl)
        rw [← same] at stored
        have passed : Placed b ofs image
            (recovery_service_runtime (block_checked mtd (ofs+k*mtd.erasesize) bytes true s).2).world (k+1)
            (written+bytes.length) :=
          placed.store (block_checked_kept bytes) more (by rw [block_checked_status]; exact good) part.symm stored
        rw [Nat.mod_eq_of_lt (by omega)] at ended
        exact ih (k+1) _ _ passed s' ended.symm
    · rw [write_loop,if_neg more] at ends
      obtain ⟨-,rfl⟩ := Prod.mk.inj ends
      exact placed.done more (n+1)

end

/-- A block of the region is written or marked, and nothing is erased. -/
def Op.Inside (mtd : Mtd World) (ofs len : Nat) : Op → Prop
  | .write addr n => n ≤ mtd.erasesize ∧ ofs ≤ addr ∧ addr+mtd.erasesize ≤ ofs+len ∧ mtd.erasesize ∣ addr
  | .markbad addr => ofs ≤ addr ∧ addr+mtd.erasesize ≤ ofs+len ∧ mtd.erasesize ∣ addr
  | .erase _ _ => False
  | _ => True

def Since (P : Op → Prop) (s s' : Session World) : Prop := ∃ ops, s'.log = s.log ++ ops ∧ ∀ op ∈ ops, P op

section
variable {P : Op → Prop} {s s' s'' : Session World}

theorem Since.refl (s : Session World) : Since P s s := ⟨[],by simp,by simp⟩

theorem Since.trans (first : Since P s s') (second : Since P s' s'') : Since P s s'' := by
  obtain ⟨ops,logged,all⟩ := first
  obtain ⟨ops',logged',all'⟩ := second
  refine ⟨ops ++ ops',by rw [logged',logged,append_assoc],?_⟩
  intro op member
  rcases mem_append.mp member with before | after
  · exact all op before
  · exact all' op after

theorem since_one {op : Op} (logged : s'.log = s.log ++ [op]) (holds : P op) : Since P s s' := by
  refine ⟨[op],logged,?_⟩
  intro op' member
  rw [mem_singleton.mp member]
  exact holds

end

theorem verify_since (ofs len addr : Nat) (src : List UInt8) (s : Session World) :
    Since (Op.Inside mtd ofs len) s (recovery_mtd_verify_write mtd addr src s).2 := by
  rw [recovery_mtd_verify_write]
  dsimp only
  split
  · exact since_one rfl trivial
  · split
    · exact since_one rfl trivial
    · exact since_one rfl trivial

theorem write_loop_since (ofs len : Nat) (image : List UInt8) (verify strict : Bool) (addrs : List Nat)
    (inside : ∀ addr ∈ addrs, ofs+addr+mtd.erasesize ≤ ofs+len ∧ mtd.erasesize ∣ ofs+addr) :
    ∀ (written : Nat) (s : Session World),
      Since (Op.Inside mtd ofs len) s (write_loop mtd ofs image verify strict addrs written s).2 := by
  intro written s
  apply @write_loop_relates World (Since (Op.Inside mtd ofs len))
  · exact Since.refl
  · exact fun first second => first.trans second
  · exact fun s => since_one rfl trivial
  · exact fun addr _ s => since_one rfl trivial
  · intro addr member bytes short s
    obtain ⟨room,aligned⟩ := inside addr member
    exact since_one rfl ⟨short,Nat.le_add_right ofs addr,room,aligned⟩
  · exact fun addr _ bytes s => verify_since ofs len (ofs+addr) bytes s
  · intro addr member s
    obtain ⟨room,aligned⟩ := inside addr member
    exact since_one rfl ⟨Nat.le_add_right ofs addr,room,aligned⟩

/-- The write of a region, for every device. What skips bad blocks and reads
    back leaves the image in the good blocks, what is strict leaves it at the
    start of the region, and no block outside is written or marked. -/
theorem write_region_faithful (b : BlockStatus mtd) (ofs region_len : Nat) (image : List UInt8)
    (memory verify strict : Bool) (s : Session World) :
    (verify = true → strict = false →
        (recovery_write_mtd_region mtd ofs region_len image memory verify strict s).1 = 0 →
        image <+: good_bytes b ofs (recovery_write_mtd_region mtd ofs region_len image memory verify strict s).2.world
          (block_addrs mtd region_len)) ∧
      Since (Op.Inside mtd ofs region_len) s
        (recovery_write_mtd_region mtd ofs region_len image memory verify strict s).2 ∧
      (strict = true → (verify = true ∨ Stores mtd) →
        (recovery_write_mtd_region mtd ofs region_len image memory verify strict s).1 = 0 →
        load (mtd.content (recovery_write_mtd_region mtd ofs region_len image memory verify strict s).2.world) ofs
          image.length = image) := by
  refine ⟨?_,?_,?_⟩
  · rintro rfl rfl good
    rw [recovery_write_mtd_region] at good ⊢
    by_cases empty : image.length = 0
    · rw [List.length_eq_zero_iff.mp empty]
      exact List.nil_prefix
    · rw [if_neg empty] at good ⊢
      by_cases invalid : recovery_mtd_validate_region mtd ofs region_len ≠ 0
      · rw [if_pos invalid] at good
        exact absurd good invalid
      · rw [if_neg invalid] at good ⊢
        by_cases short_memory : (true && !memory) = true
        · rw [if_pos short_memory] at good
          exact absurd good (show -ENOMEM ≠ 0 by decide)
        · rw [if_neg short_memory] at good ⊢
          by_cases long : 2^32 ≤ image.length
          · exact absurd good (write_loop_endless long _ 0 s (by decide))
          · generalize ended : write_loop mtd ofs image true false (block_addrs mtd region_len) 0 s = r at good ⊢
            obtain ⟨ret,s'⟩ := r
            obtain rfl : ret = 0 := good
            rcases Nat.eq_zero_or_pos region_len with rfl | some_
            · rw [block_addrs_zero,write_loop,if_pos (by omega)] at ended
              exact absurd (Prod.mk.inj ended).1 (by decide)
            · obtain ⟨pos,-,-,aligned⟩ := validate_region_spec (not_not.mp invalid) (by omega)
              have start : Placed b ofs image s.world 0 0 := ⟨Nat.zero_le _,by simp,by simp [good_bytes,blocks]⟩
              rw [block_addrs_eq pos aligned] at ended ⊢
              have placed := write_loop_placed (by omega) _ 0 0 s start s' ended
              rwa [blocks,Nat.zero_add,List.range_eq_range'] at placed
  · rw [recovery_write_mtd_region]
    by_cases empty : image.length = 0
    · rw [if_pos empty]
      exact Since.refl s
    · rw [if_neg empty]
      by_cases invalid : recovery_mtd_validate_region mtd ofs region_len ≠ 0
      · rw [if_pos invalid]
        exact Since.refl s
      · rw [if_neg invalid]
        split
        · exact Since.refl s
        · refine write_loop_since ofs region_len image verify strict _ ?_ 0 s
          intro addr member
          rcases Nat.eq_zero_or_pos region_len with rfl | some_
          · rw [block_addrs_zero] at member
            cases member
          · obtain ⟨pos,-,start,aligned⟩ := validate_region_spec (not_not.mp invalid) (by omega)
            rw [block_addrs_eq pos aligned] at member
            obtain ⟨k,low,rfl⟩ := List.mem_map.mp member
            obtain ⟨n,rfl⟩ := aligned
            rw [Nat.mul_div_cancel_left n pos,List.mem_range'_1] at low
            have up := Nat.mul_le_mul_left mtd.erasesize (show k+1 ≤ n by omega)
            rw [Nat.mul_succ,Nat.mul_comm mtd.erasesize k] at up
            exact ⟨by omega,Nat.dvd_add start (Nat.dvd_mul_left _ _)⟩
  · rintro rfl sound good
    exact write_mtd_region_strict sound (Prod.ext good rfl)

end

structure Chip where
  bytes : Nat → UInt8
  bad : Nat → Bool

def nand (fails : Nat → Bool) : Mtd Chip where
  size := 16
  erasesize := 4
  content c := c.bytes
  block_isbad c addr := (if c.bad addr then 1 else 0,c)
  block_markbad c addr := (0,{ c with bad := Function.update c.bad addr true })
  unlock c _ _ := (0,c)
  erase c addr len := (0,{ c with bytes := store c.bytes addr (List.replicate len 0xff) })
  write c addr bytes :=
    if fails addr then (- EIO,0,c) else (0,bytes.length,{ c with bytes := store c.bytes addr bytes })
  read c addr len := (0,len,load c.bytes addr len,c)
  isbad_keeps _ _ := rfl
  read_keeps _ _ _ := rfl
  write_apart c addr bytes i apart := by
    cases fails addr with
    | true => rfl
    | false =>
      rcases apart with below | above
      · exact store_below _ _ below
      · exact store_above _ _ above
  read_stored _ _ _ _ _ := rfl

def nand_status (fails : Nat → Bool) : BlockStatus (nand fails) where
  status c addr := if c.bad addr then 1 else 0
  asks _ _ := rfl
  isbad_keeps _ _ := rfl
  read_keeps _ _ _ := rfl
  write_keeps c addr bytes := by
    simp only [nand]
    split <;> rfl
  marks c addr _ := by
    simp [nand]
  marks_apart c addr b apart := by
    have other : b ≠ addr := by
      simp only [nand] at apart
      omega
    simp [nand,other]
  markbad_apart _ _ _ _ := rfl

/-- The first block is bad from the start and the second fails. -/
theorem write_region_faithful_nand :
    [1,2,3,4,5] <+: good_bytes (nand_status (· == 4)) 0
      (recovery_write_mtd_region (nand (· == 4)) 0 16 [1,2,3,4,5] true true false
        ⟨⟨fun _ => 0xff,(· == 0)⟩,[]⟩).2.world (block_addrs (nand (· == 4)) 16) :=
  (write_region_faithful (nand_status (· == 4)) 0 16 [1,2,3,4,5] true true false
    ⟨⟨fun _ => 0xff,(· == 0)⟩,[]⟩).1 rfl rfl (by decide +kernel)

end UBoot.Recovery
