import UBoot.Buffers
import UBoot.Words
import UBoot.Runs

/-!
The expansion of Android sparse images, `lib/image-sparse.c`. The image is memory from the pointer
on, which has no end that the code knows of; the storage is a function from block numbers to blocks,
and its `write` and `reserve` handle exactly the blocks that they are asked for. `lbaint_t` has 64
bits. Allocations succeed and messages are left out.
-/
namespace UBoot.ImageSparse
open UBoot.Memory UBoot.Buffers UBoot.Words UBoot.Runs List Option

def CHUNK_TYPE_RAW : ℕ := 0xCAC1
def CHUNK_TYPE_FILL : ℕ := 0xCAC2
def CHUNK_TYPE_DONT_CARE : ℕ := 0xCAC3
def CHUNK_TYPE_CRC32 : ℕ := 0xCAC4

def FASTBOOT_MAX_BLK_WRITE : ℕ := 16384

/-- `sizeof(sparse_header_t)` and `sizeof(chunk_header_t)`. -/
def sparse_header_size : ℕ := 28
def chunk_header_size : ℕ := 12

/-- `struct sparse_storage`; blocks are whole 32 bit words and have numbers of type
    `lbaint_t`. -/
structure SparseStorage where
  blksz : ℕ
  start : ℕ
  size : ℕ
  some_bytes : 0 < blksz
  words : 4 ∣ blksz
  small : blksz < 2^32
  numbered : start+size < 2^64

/-- The build: the size of the buffer for fills, and whether the data cache is off. -/
structure Build where
  CONFIG_IMAGE_SPARSE_FILLBUF_SIZE : ℕ
  SYS_DCACHE_OFF : Bool

/-- `sparse_header_t`, the fields that are used. -/
structure SparseHeader where
  file_hdr_sz : ℕ
  chunk_hdr_sz : ℕ
  blk_sz : ℕ
  total_blks : ℕ
  total_chunks : ℕ
deriving DecidableEq

def sparse_header (image : ℕ → UInt8) : SparseHeader :=
  ⟨field image 8 2,field image 10 2,field image 12 4,field image 16 4,field image 20 4⟩

structure ChunkHeader where
  chunk_type : ℕ
  chunk_sz : ℕ
  total_sz : ℕ
deriving DecidableEq

def chunk_header (image : ℕ → UInt8) (data : ℕ) : ChunkHeader :=
  ⟨field image data 2,field image (data+4) 4,field image (data+8) 4⟩

/-- What the code has done so far: the pointers into the image and the storage, the
    blocks that it counted, the blocks of the storage and the writes it asked for. -/
structure Progress where
  data : ℕ
  blk : ℕ
  total_blocks : ℕ
  device : ℕ → List UInt8
  writes : List (ℕ × ℕ)

def lba (n : ℤ) : ℕ := (n%2^64).toNat

def DIV_ROUND_UP_ULL (n d : ℕ) : ℕ := (n+d-1)%2^64/d

def IS_ERR_VALUE (n : ℕ) : Prop := 2^64-4095 ≤ n

instance (n : ℕ) : Decidable (IS_ERR_VALUE n) := inferInstanceAs (Decidable (_ ≤ _))

section
variable (info : SparseStorage)

def write (p : Progress) (blk n : ℕ) (buffer : ℕ → UInt8) : Progress :=
  { p with
    device := fun b => if blk ≤ b ∧ b < blk+n then load buffer ((b-blk)*info.blksz) info.blksz else p.device b
    writes := p.writes ++ [(blk,n)] }

/-- The loop of `write_sparse_chunk_raw`, `blks` blocks of which are written. -/
def raw_loop (image : ℕ → UInt8) (blk : ℕ) : ℕ → ℕ → ℕ → ℕ → Progress → ℕ × Progress
  | 0, _, blks, _, p => (blks,p)
  | fuel+1, blkcnt, blks, data, p =>
    if 0 < blkcnt then
      let n := min FASTBOOT_MAX_BLK_WRITE blkcnt
      let p := write info p (lba (blk+blks)) n (fun i => image (data+i))
      raw_loop image blk fuel (blkcnt-n) (blks+n) (data+n*info.blksz) p
    else (blks,p)

/-- `write_sparse_chunk_raw`: each round of the loop writes a block, so the number of
    blocks bounds the rounds. -/
def write_sparse_chunk_raw (build : Build) (image : ℕ → UInt8) (p : Progress) (blk blkcnt data : ℕ) : ℕ × Progress :=
  if build.SYS_DCACHE_OFF then (blkcnt,write info p blk blkcnt (fun i => image (data+i)))
  else raw_loop info image blk blkcnt blkcnt 0 data p

/-- The loop of the fill chunk, with `int`s `i` and `j`; the flag says that it ended
    within the rounds. -/
def fill_loop (fill_buf : ℕ → UInt8) (fill_buf_num_blks : ℤ) (blkcnt : ℕ) : ℕ → ℤ → Progress → Bool × Progress
  | 0, _, p => (false,p)
  | rounds+1, i, p =>
    if lba i < blkcnt then
      let j := wrap ((blkcnt : ℤ)-lba i)
      let j := if fill_buf_num_blks < j then fill_buf_num_blks else j
      let p := write info p p.blk (lba j) fill_buf
      fill_loop fill_buf fill_buf_num_blks blkcnt rounds (wrap (i+j)) { p with blk := lba (p.blk+lba j) }
    else (true,p)

/-- Where the code stands: between two chunks, after a return, or in a loop that has
    not ended. -/
inductive Flashing where
  | goes_on (p : Progress)
  | returns (ret : ℤ) (p : Progress)
  | loops (p : Progress)

def Exceeds (blk blkcnt : ℕ) : Prop := lba (info.start+info.size) < lba (blk+blkcnt)

instance (blk blkcnt : ℕ) : Decidable (Exceeds info blk blkcnt) := inferInstanceAs (Decidable (_ < _))

def repeated (image : ℕ → UInt8) (data : ℕ) : ℕ → UInt8 := fun i => image (data+i%4)

def block_count (header : SparseHeader) (chunk : ChunkHeader) : ℕ :=
  DIV_ROUND_UP_ULL (header.blk_sz*chunk.chunk_sz) info.blksz

/-- A chunk of the loop in `write_sparse_image`; a fill may take `rounds` rounds. -/
def process_chunk (build : Build) (rounds : ℕ) (image : ℕ → UInt8) (p : Progress) : Flashing :=
  let header := sparse_header image
  let chunk := chunk_header image p.data
  let data := p.data+chunk_header_size
  let data := if chunk_header_size < header.chunk_hdr_sz then data+(header.chunk_hdr_sz-chunk_header_size) else data
  let chunk_data_sz := header.blk_sz*chunk.chunk_sz
  let blkcnt := block_count info header chunk
  if chunk.chunk_type = CHUNK_TYPE_RAW then
    if chunk.total_sz ≠ header.chunk_hdr_sz+chunk_data_sz then .returns (-1) p
    else if Exceeds info p.blk blkcnt then .returns (-1) p
    else
      let (blks,p) := write_sparse_chunk_raw info build image p p.blk blkcnt data
      if IS_ERR_VALUE blks then .returns (-1) p
      else
        .goes_on { p with
          data := data+chunk_data_sz
          blk := lba (p.blk+blks)
          total_blocks := (p.total_blocks+chunk.chunk_sz)%2^32 }
  else if chunk.chunk_type = CHUNK_TYPE_FILL then
    if chunk.total_sz ≠ header.chunk_hdr_sz+4 then .returns (-1) p
    else if Exceeds info p.blk blkcnt then .returns (-1) p
    else
      match fill_loop info (repeated image data) (build.CONFIG_IMAGE_SPARSE_FILLBUF_SIZE/info.blksz : ℕ) blkcnt rounds 0 p with
      | (false,p) => .loops p
      | (true,p) =>
        .goes_on { p with
          data := data+4
          total_blocks := (p.total_blocks+DIV_ROUND_UP_ULL chunk_data_sz header.blk_sz)%2^32 }
  else if chunk.chunk_type = CHUNK_TYPE_DONT_CARE then
    .goes_on { p with data, blk := lba (p.blk+blkcnt), total_blocks := (p.total_blocks+chunk.chunk_sz)%2^32 }
  else if chunk.chunk_type = CHUNK_TYPE_CRC32 then
    if chunk.total_sz ≠ header.chunk_hdr_sz+4 then .returns (-1) p
    else
      .goes_on { p with data := data+chunk_data_sz, total_blocks := (p.total_blocks+chunk.chunk_sz)%2^32 }
  else .returns (-1) p

def step (build : Build) (rounds : ℕ) (image : ℕ → UInt8) (s : Flashing) (_ : Unit) : Flashing :=
  match s with
  | .goes_on p => process_chunk info build rounds image p
  | s => s

/-- The first chunk of the image, behind a header that may be longer than expected. -/
def first_chunk (header : SparseHeader) : ℕ :=
  if sparse_header_size < header.file_hdr_sz then header.file_hdr_sz+(header.file_hdr_sz-sparse_header_size)
  else header.file_hdr_sz

def write_sparse_image (build : Build) (rounds : ℕ) (image : ℕ → UInt8) (device : ℕ → List UInt8) : Flashing :=
  let header := sparse_header image
  let p : Progress := ⟨first_chunk header,info.start,0,device,[]⟩
  if header.blk_sz%info.blksz ≠ 0 then .returns (-1) p
  else
    match run (step info build rounds image) (.goes_on p) (List.replicate header.total_chunks ()) with
    | .goes_on p => .returns (if p.total_blocks ≠ header.total_blks then -1 else 0) p
    | s => s
end

/-! ## Well-formed images -/

/-- The chunks of an image, by the number of blocks of the image that they make. -/
inductive Chunk where
  | raw (n : ℕ) (bytes : List UInt8)
  | fill (n : ℕ) (word : List UInt8)
  | dont_care (n : ℕ)
  | crc32 (word : List UInt8)

namespace Chunk

def chunk_type : Chunk → ℕ
  | raw _ _ => CHUNK_TYPE_RAW
  | fill _ _ => CHUNK_TYPE_FILL
  | dont_care _ => CHUNK_TYPE_DONT_CARE
  | crc32 _ => CHUNK_TYPE_CRC32

def chunk_sz : Chunk → ℕ
  | raw n _ => n
  | fill n _ => n
  | dont_care n => n
  | crc32 _ => 0

def payload : Chunk → List UInt8
  | raw _ bytes => bytes
  | fill _ word => word
  | dont_care _ => []
  | crc32 word => word

def Sized (blk_sz : ℕ) : Chunk → Prop
  | raw n bytes => bytes.length = blk_sz*n
  | fill _ word => word.length = 4
  | dont_care _ => True
  | crc32 word => word.length = 4

def word_block (blksz : ℕ) (word : List UInt8) : List UInt8 := (List.range blksz).map fun i => word.getD (i%4) 0

/-- What the chunk makes of the blocks of the storage, nothing where they stay. -/
def expand (info : SparseStorage) (blk_sz : ℕ) : Chunk → List (Option (List UInt8))
  | raw n bytes => (List.range (blk_sz/info.blksz*n)).map fun k => some ((bytes.drop (k*info.blksz)).take info.blksz)
  | fill n word => List.replicate (blk_sz/info.blksz*n) (some (word_block info.blksz word))
  | dont_care n => List.replicate (blk_sz/info.blksz*n) none
  | crc32 _ => []

/-- The bytes of the chunk, with what its header has behind the structure. -/
def bytes (chunk_hdr_sz : ℕ) (c : Chunk × List UInt8) : List UInt8 :=
  little 2 c.1.chunk_type ++ (little 2 0 ++ (little 4 c.1.chunk_sz ++ (little 4 (chunk_hdr_sz+c.1.payload.length) ++
    (c.2 ++ c.1.payload))))

end Chunk

/-- A sparse image: the sizes of its header, the bytes of the header that are not used,
    and the chunks, each with the rest of its header. -/
structure SparseImage where
  file_hdr_sz : ℕ
  chunk_hdr_sz : ℕ
  blk_sz : ℕ
  lead : List UInt8
  trail : List UInt8
  chunks : List (Chunk × List UInt8)

namespace SparseImage

def total_blks (s : SparseImage) : ℕ := (s.chunks.map fun c => c.1.chunk_sz).sum

def bytes (s : SparseImage) : List UInt8 :=
  s.lead ++ (little 2 s.file_hdr_sz ++ (little 2 s.chunk_hdr_sz ++ (little 4 s.blk_sz ++ (little 4 s.total_blks ++
    (little 4 s.chunks.length ++ (s.trail ++ s.chunks.flatMap (Chunk.bytes s.chunk_hdr_sz)))))))

def expansion (info : SparseStorage) (s : SparseImage) : List (Option (List UInt8)) :=
  s.chunks.flatMap fun c => c.1.expand info s.blk_sz

structure WellFormed (s : SparseImage) : Prop where
  file_hdr : sparse_header_size ≤ s.file_hdr_sz ∧ s.file_hdr_sz < 2^16
  chunk_hdr : chunk_header_size ≤ s.chunk_hdr_sz ∧ s.chunk_hdr_sz < 2^16
  blk_sz : 0 < s.blk_sz ∧ s.blk_sz < 2^32
  lead : s.lead.length = 8
  trail : s.trail.length+24 = s.file_hdr_sz
  total_blks : s.total_blks < 2^32
  total_chunks : s.chunks.length < 2^32
  sized : ∀ c ∈ s.chunks, c.1.Sized s.blk_sz
  headers : ∀ c ∈ s.chunks, c.2.length+chunk_header_size = s.chunk_hdr_sz
  total_sz : ∀ c ∈ s.chunks, s.chunk_hdr_sz+c.1.payload.length < 2^32

end SparseImage

/-- The blocks with those from `start` on replaced where something is given. -/
def overlay (device : ℕ → List UInt8) (start : ℕ) (blocks : List (Option (List UInt8))) : ℕ → List UInt8 :=
  fun b => if start ≤ b then (blocks[b-start]?.join).getD (device b) else device b

theorem overlay_nil (device : ℕ → List UInt8) (start : ℕ) : overlay device start [] = device := by
  funext b
  rw [overlay,getElem?_nil,join_none,getD_none,ite_self]

theorem overlay_append (device : ℕ → List UInt8) (start : ℕ) (a b : List (Option (List UInt8))) :
    overlay (overlay device start a) (start+a.length) b = overlay device start (a ++ b) := by
  funext i
  simp only [overlay]
  by_cases low : start ≤ i
  · by_cases high : start+a.length ≤ i
    · have outside : a[i-start]? = none := getElem?_eq_none (by omega)
      rw [if_pos high,if_pos low,if_pos low,outside,getElem?_append_right (by omega),join_none,getD_none,
        show i-(start+a.length) = i-start-a.length by omega]
    · rw [if_neg high,if_pos low,if_pos low,getElem?_append_left (by omega)]
  · rw [if_neg (by omega),if_neg low,if_neg low]

theorem lba_eq {n : ℕ} (small : n < 2^64) : lba n = n := by
  rw [lba]
  omega

/-! ## Writing blocks -/

/-- From `p` to `p'` the blocks of the storage from `blk` on became what is given, and all
    writes were among them. -/
structure Wrote (p p' : Progress) (blk : ℕ) (blocks : List (Option (List UInt8))) : Prop where
  device : p'.device = overlay p.device blk blocks
  total : p'.total_blocks = p.total_blocks
  inside : ∃ writes, p'.writes = p.writes ++ writes ∧
    ∀ w ∈ writes, w.2 = 0 ∨ blk ≤ w.1 ∧ w.1+w.2 ≤ blk+blocks.length

theorem Wrote.refl (p : Progress) (blk : ℕ) : Wrote p p blk [] :=
  ⟨(overlay_nil _ _).symm,rfl,[],(append_nil _).symm,fun _ member => absurd member not_mem_nil⟩

theorem Wrote.trans {p p' p'' : Progress} {blk : ℕ} {a b : List (Option (List UInt8))} (first : Wrote p p' blk a)
    (second : Wrote p' p'' (blk+a.length) b) : Wrote p p'' blk (a ++ b) := by
  obtain ⟨ws,ws_eq,ws_inside⟩ := first.inside
  obtain ⟨ws',ws'_eq,ws'_inside⟩ := second.inside
  refine ⟨?_,second.total.trans first.total,ws ++ ws',?_,?_⟩
  · rw [second.device,first.device,overlay_append]
  · rw [ws'_eq,ws_eq,append_assoc]
  · intro w member
    rw [length_append]
    rcases mem_append.mp member with early | late
    · rcases ws_inside w early with none | ⟨low,high⟩
      · exact .inl none
      · exact .inr ⟨low,by omega⟩
    · rcases ws'_inside w late with none | ⟨low,high⟩
      · exact .inl none
      · exact .inr ⟨by omega,by omega⟩

def buffer_blocks (info : SparseStorage) (buffer : ℕ → UInt8) (n : ℕ) : List (Option (List UInt8)) :=
  (List.range n).map fun k => some (load buffer (k*info.blksz) info.blksz)

theorem buffer_blocks_length (info : SparseStorage) (buffer : ℕ → UInt8) (n : ℕ) :
    (buffer_blocks info buffer n).length = n := by rw [buffer_blocks,length_map,length_range]

theorem write_wrote (info : SparseStorage) (p : Progress) (blk n : ℕ) (buffer : ℕ → UInt8) :
    Wrote p (write info p blk n buffer) blk (buffer_blocks info buffer n) := by
  refine ⟨?_,rfl,[(blk,n)],rfl,?_⟩
  · funext b
    rw [write,overlay]
    dsimp only
    by_cases low : blk ≤ b
    · by_cases high : b < blk+n
      · rw [if_pos ⟨low,high⟩,if_pos low,buffer_blocks,getElem?_map,getElem?_range (by omega)]
        rfl
      · rw [if_neg (fun inside => high inside.2),if_pos low,
          getElem?_eq_none (by rw [buffer_blocks_length]; omega)]
        rfl
    · rw [if_neg (fun inside => low inside.1),if_neg low]
  · intro w member
    rw [mem_singleton.mp member,buffer_blocks_length]
    exact .inr ⟨le_rfl,le_rfl⟩

theorem buffer_blocks_add (info : SparseStorage) (buffer : ℕ → UInt8) (m n : ℕ) :
    buffer_blocks info buffer (m+n) =
      buffer_blocks info buffer m ++ buffer_blocks info (fun i => buffer (m*info.blksz+i)) n := by
  rw [buffer_blocks,range_add,map_append,List.map_map,buffer_blocks,buffer_blocks]
  congr 1
  refine map_congr_left ?_
  intro k _
  refine congrArg some (load_congr ?_)
  intro i _
  dsimp only [Function.comp]
  congr 1
  ring

theorem raw_loop_wrote (info : SparseStorage) (image : ℕ → UInt8) {blk : ℕ} {fuel blkcnt : ℕ} (enough : blkcnt ≤ fuel)
    (blks data : ℕ) (p : Progress) (fits : blk+blks+blkcnt < 2^64) :
    ∃ p', raw_loop info image blk fuel blkcnt blks data p = (blks+blkcnt,p') ∧ p'.blk = p.blk ∧
      Wrote p p' (blk+blks) (buffer_blocks info (fun i => image (data+i)) blkcnt) := by
  induction fuel generalizing blkcnt blks data p with
  | zero =>
    obtain rfl : blkcnt = 0 := by omega
    exact ⟨p,rfl,rfl,Wrote.refl p _⟩
  | succ fuel ih =>
    rw [raw_loop]
    by_cases more : 0 < blkcnt
    · rw [if_pos more]
      dsimp only
      have piece : min FASTBOOT_MAX_BLK_WRITE blkcnt ≤ blkcnt := min_le_right _ _
      have some_blocks : 0 < min FASTBOOT_MAX_BLK_WRITE blkcnt := Nat.lt_min.mpr ⟨by decide,more⟩
      generalize min FASTBOOT_MAX_BLK_WRITE blkcnt = n at piece some_blocks
      have at_ : lba ((blk : ℤ)+blks) = blk+blks := by
        rw [lba]
        omega
      rw [at_]
      obtain ⟨p',runs,same,wrote⟩ := @ih (blkcnt-n) (by omega) (blks+n) (data+n*info.blksz)
        (write info p (blk+blks) n (fun i => image (data+i))) (by omega)
      refine ⟨p',?_,same,?_⟩
      · rw [runs,show blks+n+(blkcnt-n) = blks+blkcnt by omega]
      · have split := buffer_blocks_add info (fun i => image (data+i)) n (blkcnt-n)
        rw [show n+(blkcnt-n) = blkcnt by omega] at split
        rw [split]
        refine (write_wrote info p (blk+blks) n _).trans ?_
        rw [buffer_blocks_length,show blk+blks+n = blk+(blks+n) by omega]
        simp only [add_assoc] at wrote ⊢
        exact wrote
    · obtain rfl : blkcnt = 0 := by omega
      rw [if_neg (by omega)]
      exact ⟨p,rfl,rfl,Wrote.refl p _⟩

variable {blkcnt chunk_hdr_sz data : ℕ} {c : Chunk × List UInt8} {s : SparseImage}

theorem raw_wrote (info : SparseStorage) (build : Build) (image : ℕ → UInt8) (p : Progress) (data : ℕ)
    (fits : p.blk+blkcnt < 2^64) :
    ∃ p', write_sparse_chunk_raw info build image p p.blk blkcnt data = (blkcnt,p') ∧ p'.blk = p.blk ∧
      Wrote p p' p.blk (buffer_blocks info (fun i => image (data+i)) blkcnt) := by
  rw [write_sparse_chunk_raw]
  split
  · exact ⟨_,rfl,rfl,write_wrote info p p.blk blkcnt _⟩
  · obtain ⟨p',runs,same,wrote⟩ := @raw_loop_wrote info image p.blk blkcnt blkcnt le_rfl 0 data p (by omega)
    exact ⟨p',by rw [runs,zero_add],same,wrote⟩

theorem fill_round (info : SparseStorage) (fill_buf : ℕ → UInt8) (num : ℕ) {blkcnt k : ℕ} (int : blkcnt < 2^31)
    (upto : k ≤ blkcnt) (rounds : ℕ) (p : Progress) :
    fill_loop info fill_buf num blkcnt (rounds+1) k p =
      if k < blkcnt then
        fill_loop info fill_buf num blkcnt rounds ((k+min num (blkcnt-k) : ℕ) : ℤ)
          { write info p p.blk (min num (blkcnt-k)) fill_buf with blk := lba (p.blk+(min num (blkcnt-k) : ℕ)) }
      else (true,p) := by
  have counter : lba (k : ℤ) = k := lba_eq (by omega)
  rw [fill_loop,counter]
  by_cases more : k < blkcnt
  · have left : wrap ((blkcnt : ℤ)-k) = ((blkcnt-k : ℕ) : ℤ) := by
      rw [← Nat.cast_sub upto]
      exact wrap_of_int (by rw [intMax]; omega)
    have piece : (if (num : ℤ) < ((blkcnt-k : ℕ) : ℤ) then (num : ℤ) else ((blkcnt-k : ℕ) : ℤ)) =
        ((min num (blkcnt-k) : ℕ) : ℤ) := by
      rcases lt_or_ge num (blkcnt-k) with less | enough
      · rw [if_pos (by exact_mod_cast less),min_eq_left less.le]
      · rw [if_neg (by exact_mod_cast not_lt.mpr enough),min_eq_right enough]
    have bound : min num (blkcnt-k) ≤ blkcnt-k := min_le_right _ _
    rw [if_pos more,if_pos more]
    dsimp only
    rw [left,piece]
    generalize min num (blkcnt-k) = j at bound
    have sum : wrap ((k : ℤ)+(j : ℕ)) = ((k+j : ℕ) : ℤ) := by
      rw [← Nat.cast_add]
      exact wrap_of_int (by rw [intMax]; omega)
    rw [sum,lba_eq (show j < 2^64 by omega)]
    rfl
  · rw [if_neg more,if_neg more]

theorem fill_loop_inside (info : SparseStorage) (fill_buf : ℕ → UInt8) (num : ℕ) (int : blkcnt < 2^31)
    (rounds k : ℕ) (upto : k ≤ blkcnt) (p : Progress) (fits : p.blk+(blkcnt-k) < 2^64) :
    ∃ writes, (fill_loop info fill_buf num blkcnt rounds k p).2.writes = p.writes ++ writes ∧
      (∀ w ∈ writes, w.2 = 0 ∨ p.blk ≤ w.1 ∧ w.1+w.2 ≤ p.blk+(blkcnt-k)) ∧
      p.blk ≤ (fill_loop info fill_buf num blkcnt rounds k p).2.blk := by
  induction rounds generalizing k p with
  | zero => exact ⟨[],(append_nil _).symm,fun _ member => absurd member not_mem_nil,le_rfl⟩
  | succ rounds ih =>
    rw [fill_round info fill_buf num int upto]
    by_cases more : k < blkcnt
    · rw [if_pos more]
      have bound : min num (blkcnt-k) ≤ blkcnt-k := min_le_right _ _
      generalize min num (blkcnt-k) = j at bound
      have moved : lba ((p.blk : ℤ)+(j : ℕ)) = p.blk+j := by
        rw [lba]
        omega
      rw [moved]
      obtain ⟨writes,all,inside,above⟩ := ih (k+j) (by omega) { write info p p.blk j fill_buf with blk := p.blk+j }
        (by dsimp only; omega)
      refine ⟨(p.blk,j)::writes,?_,?_,?_⟩
      · rw [all,write,append_assoc]
        rfl
      · intro w member
        rcases mem_cons.mp member with rfl | behind
        · exact .inr ⟨le_rfl,by dsimp only; omega⟩
        · rcases inside w behind with none | ⟨low,high⟩
          · exact .inl none
          · dsimp only at low high
            exact .inr ⟨by omega,by omega⟩
      · exact (Nat.le_add_right _ _).trans above
    · rw [if_neg more]
      exact ⟨[],(append_nil _).symm,fun _ member => absurd member not_mem_nil,le_rfl⟩

theorem buffer_blocks_repeated (info : SparseStorage) (image : ℕ → UInt8) (data n : ℕ) :
    buffer_blocks info (repeated image data) n = replicate n (some (load (repeated image data) 0 info.blksz)) := by
  obtain ⟨words,whole⟩ := info.words
  rw [buffer_blocks,eq_replicate_iff]
  refine ⟨by rw [length_map,length_range],?_⟩
  intro block member
  obtain ⟨k,_,rfl⟩ := List.mem_map.mp member
  refine congrArg some (load_congr ?_)
  intro i _
  have phase : (k*info.blksz+i)%4 = (0+i)%4 := by
    rw [whole,show k*(4*words)+i = i+4*(k*words) by ring,Nat.add_mul_mod_self_left,zero_add]
  rw [repeated,repeated,phase]

theorem fill_loop_wrote (info : SparseStorage) (image : ℕ → UInt8) (data : ℕ) {num blkcnt : ℕ} (some_blocks : 0 < blkcnt → 0 < num)
    (int : blkcnt < 2^31) (rounds k : ℕ) (upto : k ≤ blkcnt) (enough : blkcnt-k < rounds) (p : Progress)
    (fits : p.blk+(blkcnt-k) < 2^64) :
    ∃ p', fill_loop info (repeated image data) num blkcnt rounds k p = (true,p') ∧ p'.blk = p.blk+(blkcnt-k) ∧
      Wrote p p' p.blk (replicate (blkcnt-k) (some (load (repeated image data) 0 info.blksz))) := by
  induction rounds generalizing k p with
  | zero => omega
  | succ rounds ih =>
    rw [fill_round info _ num int upto]
    by_cases more : k < blkcnt
    · rw [if_pos more]
      have bound : min num (blkcnt-k) ≤ blkcnt-k := min_le_right _ _
      have progress : 0 < min num (blkcnt-k) := Nat.lt_min.mpr ⟨some_blocks (by omega),by omega⟩
      generalize min num (blkcnt-k) = j at bound progress
      have moved : lba ((p.blk : ℤ)+(j : ℕ)) = p.blk+j := by
        rw [lba]
        omega
      rw [moved]
      obtain ⟨p',runs,at_,wrote⟩ := ih (k+j) (by omega) (by omega)
        { write info p p.blk j (repeated image data) with blk := p.blk+j } (by dsimp only; omega)
      refine ⟨p',runs,by rw [at_]; dsimp only; omega,?_⟩
      have first := write_wrote info p p.blk j (repeated image data)
      rw [buffer_blocks_repeated] at first
      have both : replicate (blkcnt-k) (some (load (repeated image data) 0 info.blksz)) =
          replicate j (some (load (repeated image data) 0 info.blksz)) ++
            replicate (blkcnt-(k+j)) (some (load (repeated image data) 0 info.blksz)) := by
        rw [← replicate_add,show j+(blkcnt-(k+j)) = blkcnt-k by omega]
      rw [both]
      refine first.trans ?_
      rw [length_replicate]
      exact ⟨wrote.device,wrote.total,wrote.inside⟩
    · rw [if_neg more,show blkcnt-k = 0 by omega]
      exact ⟨p,rfl,rfl,Wrote.refl p _⟩

/-! ## Chunks of well-formed images -/

theorem Chunk.type_lt (c : Chunk) : c.chunk_type < 256^2 := by cases c <;> (rw [Chunk.chunk_type]; decide)

theorem chunk_read {image : ℕ → UInt8}
    (holds : Holds image data (Chunk.bytes chunk_hdr_sz c)) (sz : c.1.chunk_sz < 2^32)
    (total : chunk_hdr_sz+c.1.payload.length < 2^32) (rest : c.2.length+chunk_header_size = chunk_hdr_sz) :
    chunk_header image data = ⟨c.1.chunk_type,c.1.chunk_sz,chunk_hdr_sz+c.1.payload.length⟩ ∧
      Holds image (data+chunk_hdr_sz) c.1.payload := by
  rw [Chunk.bytes] at holds
  simp only [holds_append,little_length] at holds
  obtain ⟨kind,_,blocks,size,_,payload⟩ := holds
  rw [chunk_header_size] at rest
  constructor
  · rw [chunk_header,field_little kind c.1.type_lt,show data+4 = data+2+2 by omega,field_little blocks sz,
      show data+8 = data+2+2+4 by omega,field_little size total]
  · rwa [show data+2+2+4+4+c.2.length = data+chunk_hdr_sz by omega] at payload

/-- The payload is found behind the header, however long. -/
theorem payload_offset (long : chunk_header_size ≤ chunk_hdr_sz) :
    (if chunk_header_size < chunk_hdr_sz then data+chunk_header_size+(chunk_hdr_sz-chunk_header_size)
      else data+chunk_header_size) = data+chunk_hdr_sz := by
  split <;> omega

theorem div_round_up_exact {n d : ℕ} (positive : 0 < d) (small : n*d+d < 2^64) : DIV_ROUND_UP_ULL (d*n) d = n := by
  rw [mul_comm] at small
  rw [DIV_ROUND_UP_ULL,Nat.mod_eq_of_lt (by omega),Nat.add_sub_assoc positive,Nat.mul_add_div positive,
    Nat.div_eq_of_lt (by omega),add_zero]

theorem product_small {a b : ℕ} (first : a < 2^32) (second : b < 2^32) : b*a+a < 2^64 := by
  calc b*a+a = (b+1)*a := by ring
    _ ≤ 2^32*a := Nat.mul_le_mul_right a second
    _ < 2^32*2^32 := Nat.mul_lt_mul_of_pos_left first (by decide)
    _ = 2^64 := by decide

theorem block_count_exact (info : SparseStorage) {header : SparseHeader} {chunk : ChunkHeader}
    (whole : info.blksz ∣ header.blk_sz) (blk_sz : header.blk_sz < 2^32) (chunk_sz : chunk.chunk_sz < 2^32) :
    block_count info header chunk = header.blk_sz/info.blksz*chunk.chunk_sz := by
  obtain ⟨k,times⟩ := whole
  have small := product_small blk_sz chunk_sz
  have positive := info.some_bytes
  rw [block_count,times,Nat.mul_div_cancel_left k positive,mul_assoc]
  refine div_round_up_exact positive ?_
  rcases Nat.eq_zero_or_pos k with rfl | some_blocks
  · have := info.small
    omega
  · have one : info.blksz ≤ info.blksz*k := Nat.le_mul_of_pos_right _ some_blocks
    rw [times] at small
    rw [show k*chunk.chunk_sz*info.blksz = chunk.chunk_sz*(info.blksz*k) by ring]
    omega

theorem expand_length (info : SparseStorage) (blk_sz : ℕ) (c : Chunk) :
    (c.expand info blk_sz).length = blk_sz/info.blksz*c.chunk_sz := by
  cases c with
  | raw n bytes => rw [Chunk.expand,length_map,length_range,Chunk.chunk_sz]
  | fill n word | dont_care n => rw [Chunk.expand,length_replicate,Chunk.chunk_sz]
  | crc32 word => rfl

theorem buffer_blocks_holds (info : SparseStorage) {image : ℕ → UInt8} {data n : ℕ} {bytes : List UInt8}
    (holds : Holds image data bytes) (size : bytes.length = n*info.blksz) :
    buffer_blocks info (fun i => image (data+i)) n =
      (List.range n).map fun k => some ((bytes.drop (k*info.blksz)).take info.blksz) := by
  rw [buffer_blocks]
  refine map_congr_left ?_
  intro k member
  have inside : (k+1)*info.blksz ≤ n*info.blksz := Nat.mul_le_mul_right _ (mem_range.mp member)
  rw [add_mul,one_mul] at inside
  have part := load_part image data (show k*info.blksz+info.blksz ≤ bytes.length by omega)
  rw [show load image data bytes.length = bytes from holds] at part
  rw [part]
  refine congrArg some (load_congr ?_)
  intro i _
  rw [add_assoc]

theorem repeated_holds {image : ℕ → UInt8} {word : List UInt8} (holds : Holds image data word)
    (size : word.length = 4) (blksz : ℕ) : load (repeated image data) 0 blksz = Chunk.word_block blksz word := by
  rw [load,Chunk.word_block]
  refine map_congr_left ?_
  intro i _
  have inside : i%4 < 4 := Nat.mod_lt _ (by decide)
  have at_ : (load image data word.length).getD (i%4) 0 = word.getD (i%4) 0 := by rw [show load _ _ _ = word from holds]
  rw [← at_,size,load,zero_add,repeated,getD_eq_getElem?_getD,getElem?_map,getElem?_range inside]
  rfl

section
variable (info : SparseStorage) (build : Build) (rounds : ℕ) (image : ℕ → UInt8)

/-- An `int` can count the blocks that a fill writes, and the buffer holds a block if
    there is one to write. -/
def Fillable (blk_sz : ℕ) : Chunk → Prop
  | .fill n _ => blk_sz/info.blksz*n < 2^31 ∧ (0 < blk_sz/info.blksz*n → info.blksz ≤ build.CONFIG_IMAGE_SPARSE_FILLBUF_SIZE)
  | _ => True

/-- A chunk is expanded. The code finds the next chunk behind it unless its payload is a
    checksum. -/
structure Expanded (s : SparseImage) (c : Chunk × List UInt8) (p p' : Progress) : Prop where
  blk : p'.blk = p.blk+(c.1.expand info s.blk_sz).length
  total : p'.total_blocks = (p.total_blocks+c.1.chunk_sz)%2^32
  device : p'.device = overlay p.device p.blk (c.1.expand info s.blk_sz)
  data : c.1.chunk_type ≠ CHUNK_TYPE_CRC32 → p'.data = p.data+(Chunk.bytes s.chunk_hdr_sz c).length

theorem chunk_length (rest : c.2.length+chunk_header_size = chunk_hdr_sz) :
    (Chunk.bytes chunk_hdr_sz c).length = chunk_hdr_sz+c.1.payload.length := by
  rw [chunk_header_size] at rest
  rw [Chunk.bytes]
  simp only [length_append,little_length]
  omega

variable {info build rounds image}

theorem not_exceeds {blk blkcnt : ℕ} (fits : blk+blkcnt ≤ info.start+info.size) : ¬ Exceeds info blk blkcnt := by
  have numbered := info.numbered
  rw [Exceeds,← Nat.cast_add,← Nat.cast_add,lba_eq numbered,lba_eq (by omega)]
  omega

theorem overlay_none (device : ℕ → List UInt8) (start n : ℕ) : overlay device start (replicate n none) = device := by
  funext b
  rw [overlay,getElem?_replicate]
  split_ifs <;> rfl

theorem process_chunk_expanded (formed : s.WellFormed) (whole : info.blksz ∣ s.blk_sz)
    (header : sparse_header image = ⟨s.file_hdr_sz,s.chunk_hdr_sz,s.blk_sz,s.total_blks,s.chunks.length⟩) (member : c ∈ s.chunks) (enough : 2^31 ≤ rounds) {p : Progress}
    (holds : Holds image p.data (Chunk.bytes s.chunk_hdr_sz c)) (fillable : Fillable info build s.blk_sz c.1)
    (fits : p.blk+(c.1.expand info s.blk_sz).length ≤ info.start+info.size) :
    ∃ p', process_chunk info build rounds image p = .goes_on p' ∧ Expanded info s c p p' := by
  have numbered := info.numbered
  have sz : c.1.chunk_sz < 2^32 :=
    (single_le_sum (fun _ _ => Nat.zero_le _) _ (List.mem_map_of_mem member)).trans_lt formed.total_blks
  obtain ⟨read,payload⟩ := chunk_read holds sz (formed.total_sz c member) (formed.headers c member)
  have count : block_count info (sparse_header image) (chunk_header image p.data) =
      (c.1.expand info s.blk_sz).length := by
    rw [expand_length,read,header]
    exact block_count_exact info whole formed.blk_sz.2 sz
  have length := chunk_length (formed.headers c member)
  have sized := formed.sized c member
  have total := formed.total_sz c member
  unfold process_chunk
  dsimp only
  rw [count,read,header]
  dsimp only
  rw [payload_offset formed.chunk_hdr.1]
  obtain ⟨kind,rest⟩ := c
  dsimp only at sz count payload length sized total fits fillable ⊢
  cases kind with
  | raw n bytes =>
    have size : bytes.length = (Chunk.expand info s.blk_sz (.raw n bytes)).length*info.blksz := by
      rw [expand_length,Chunk.chunk_sz,show bytes.length = s.blk_sz*n from sized]
      conv_lhs => rw [← Nat.div_mul_cancel whole]
      ring
    have blocks := buffer_blocks_holds info payload size
    have few : (Chunk.expand info s.blk_sz (.raw n bytes)).length ≤ bytes.length := by
      rw [size]
      exact Nat.le_mul_of_pos_right _ info.some_bytes
    rw [Chunk.chunk_type,if_pos rfl,Chunk.payload,Chunk.chunk_sz,show bytes.length = s.blk_sz*n from sized,
      if_neg (not_not.mpr rfl),if_neg (not_exceeds fits)]
    obtain ⟨p',written,same,wrote⟩ := raw_wrote info build image p (p.data+s.chunk_hdr_sz) (fits.trans_lt numbered)
    rw [written]
    dsimp only
    rw [Chunk.payload] at total
    rw [if_neg (by rw [IS_ERR_VALUE]; omega)]
    refine ⟨_,rfl,?_,?_,?_,?_⟩
    · dsimp only
      rw [same]
      exact lba_eq (fits.trans_lt numbered)
    · dsimp only
      rw [wrote.total]
      rfl
    · dsimp only
      rw [wrote.device,blocks,expand_length]
      rfl
    · intro _
      dsimp only
      rw [length,Chunk.payload,show bytes.length = s.blk_sz*n from sized,add_assoc]
  | fill n word =>
    obtain ⟨int,buffer⟩ := fillable
    have some_blocks : 0 < (Chunk.expand info s.blk_sz (.fill n word)).length →
        0 < build.CONFIG_IMAGE_SPARSE_FILLBUF_SIZE/info.blksz := by
      intro block
      rw [expand_length] at block
      exact Nat.div_pos (buffer block) info.some_bytes
    have few : (Chunk.expand info s.blk_sz (.fill n word)).length < 2^31 := by
      rw [expand_length]
      exact int
    rw [Chunk.chunk_type,if_neg (by decide),if_pos rfl,Chunk.payload,show word.length = 4 from sized,
      if_neg (not_not.mpr rfl),if_neg (not_exceeds fits)]
    obtain ⟨p',written,same,wrote⟩ := fill_loop_wrote info image (p.data+s.chunk_hdr_sz) some_blocks few rounds 0
      (Nat.zero_le _) (by omega) p (by omega)
    rw [Nat.cast_zero] at written
    rw [written]
    refine ⟨_,rfl,same,?_,?_,?_⟩
    · dsimp only
      rw [wrote.total,div_round_up_exact formed.blk_sz.1 (product_small formed.blk_sz.2 sz)]
    · dsimp only
      rw [wrote.device,repeated_holds payload sized,Nat.sub_zero,expand_length]
      rfl
    · intro _
      dsimp only
      rw [length,Chunk.payload,show word.length = 4 from sized,add_assoc]
  | dont_care n =>
    rw [Chunk.chunk_type,if_neg (by decide),if_neg (by decide),if_pos rfl]
    refine ⟨_,rfl,lba_eq (fits.trans_lt numbered),rfl,?_,fun _ => length.symm ▸ rfl⟩
    rw [Chunk.expand,overlay_none]
  | crc32 word =>
    rw [Chunk.chunk_type,if_neg (by decide),if_neg (by decide),if_neg (by decide),if_pos rfl,
      Chunk.payload,show word.length = 4 from sized,if_neg (not_not.mpr rfl)]
    refine ⟨_,rfl,rfl,rfl,(overlay_nil _ _).symm,fun other => absurd rfl other⟩

theorem chunks_expanded {s : SparseImage} (formed : s.WellFormed) (whole : info.blksz ∣ s.blk_sz)
    (header : sparse_header image = ⟨s.file_hdr_sz,s.chunk_hdr_sz,s.blk_sz,s.total_blks,s.chunks.length⟩)
    (enough : 2^31 ≤ rounds) (chunks : List (Chunk × List UInt8)) (members : ∀ c ∈ chunks, c ∈ s.chunks)
    (fillable : ∀ c ∈ chunks, Fillable info build s.blk_sz c.1)
    (crc : chunks.Pairwise fun c _ => c.1.chunk_type ≠ CHUNK_TYPE_CRC32) {p : Progress}
    (holds : Holds image p.data (chunks.flatMap (Chunk.bytes s.chunk_hdr_sz)))
    (total : p.total_blocks+(chunks.map fun c => c.1.chunk_sz).sum < 2^32)
    (fits : p.blk+(chunks.flatMap fun c => c.1.expand info s.blk_sz).length ≤ info.start+info.size) :
    ∃ p', run (step info build rounds image) (.goes_on p) (replicate chunks.length ()) = .goes_on p' ∧
      p'.total_blocks = p.total_blocks+(chunks.map fun c => c.1.chunk_sz).sum ∧
      p'.device = overlay p.device p.blk (chunks.flatMap fun c => c.1.expand info s.blk_sz) := by
  -- on the chunks that are left
  induction chunks generalizing p with
  | nil => exact ⟨p,rfl,rfl,(overlay_nil _ _).symm⟩
  | cons c chunks ih =>
    rw [flatMap_cons,holds_append] at holds
    rw [flatMap_cons,length_append] at fits
    rw [map_cons,sum_cons] at total
    rw [pairwise_cons] at crc
    obtain ⟨q,goes,done⟩ := process_chunk_expanded formed whole header (members c mem_cons_self) enough holds.1
      (fillable c mem_cons_self) (by omega)
    have counted : q.total_blocks = p.total_blocks+c.1.chunk_sz := by
      rw [done.total]
      exact Nat.mod_eq_of_lt (by omega)
    have behind : Holds image q.data (chunks.flatMap (Chunk.bytes s.chunk_hdr_sz)) := by
      cases chunks with
      | nil => exact rfl
      | cons d chunks =>
        rw [done.data (crc.1 d mem_cons_self)]
        exact holds.2
    obtain ⟨p',ran,sum,device⟩ := ih (fun d member => members d (mem_cons_of_mem c member))
      (fun d member => fillable d (mem_cons_of_mem c member)) crc.2 behind (by rw [counted]; omega)
      (by rw [done.blk]; omega)
    refine ⟨p',?_,?_,?_⟩
    · rw [length_cons,replicate_succ,run_cons,step,goes]
      exact ran
    · rw [sum,counted,map_cons,sum_cons,add_assoc]
    · rw [device,done.device,done.blk,overlay_append,flatMap_cons]

theorem header_read (formed : s.WellFormed) (holds : Holds image 0 s.bytes) :
    sparse_header image = ⟨s.file_hdr_sz,s.chunk_hdr_sz,s.blk_sz,s.total_blks,s.chunks.length⟩ ∧
      Holds image s.file_hdr_sz (s.chunks.flatMap (Chunk.bytes s.chunk_hdr_sz)) := by
  rw [SparseImage.bytes] at holds
  simp only [holds_append,little_length,formed.lead,zero_add] at holds
  obtain ⟨_,file_hdr,chunk_hdr,blk_sz,total_blks,total_chunks,_,chunks⟩ := holds
  have trail := formed.trail
  constructor
  · rw [sparse_header,field_little file_hdr formed.file_hdr.2,field_little chunk_hdr formed.chunk_hdr.2,
      field_little blk_sz formed.blk_sz.2,field_little total_blks formed.total_blks,
      field_little total_chunks formed.total_chunks]
  · rwa [show 8+2+2+4+4+4+s.trail.length = s.file_hdr_sz by omega] at chunks

end

structure Fits (info : SparseStorage) (s : SparseImage) : Prop where
  whole : info.blksz ∣ s.blk_sz
  fits : (s.expansion info).length ≤ info.size

/-- What the code asks of an image to read it as it is meant: it skips the rest of a
    long file header twice, takes no payload of a CRC32 chunk and counts the blocks of a
    fill with an `int`. -/
structure Plain (info : SparseStorage) (build : Build) (s : SparseImage) : Prop where
  file_hdr : s.file_hdr_sz = sparse_header_size ∨ s.chunks = []
  crc32_last : s.chunks.Pairwise fun c _ => c.1.chunk_type ≠ CHUNK_TYPE_CRC32
  fillable : ∀ c ∈ s.chunks, Fillable info build s.blk_sz c.1

/-- The code returns 0 and the storage holds the expansion. -/
def Expands (info : SparseStorage) (build : Build) (rounds : ℕ) (image : ℕ → UInt8) (device : ℕ → List UInt8)
    (s : SparseImage) : Prop :=
  ∃ p, write_sparse_image info build rounds image device = .returns 0 p ∧
    p.device = overlay device info.start (s.expansion info)

theorem write_sparse_image_expands {info : SparseStorage} {build : Build} {rounds : ℕ} (enough : 2^31 ≤ rounds)
    {image : ℕ → UInt8} (device : ℕ → List UInt8) (formed : s.WellFormed) (fits : Fits info s)
    (plain : Plain info build s) (holds : Holds image 0 s.bytes) : Expands info build rounds image device s := by
  obtain ⟨header,chunks⟩ := header_read formed holds
  have first : Holds image (first_chunk (sparse_header image)) (s.chunks.flatMap (Chunk.bytes s.chunk_hdr_sz)) := by
    rcases plain.file_hdr with short | none
    · rw [header,first_chunk,if_neg (by dsimp only; omega)]
      exact chunks
    · rw [none]
      exact rfl
  obtain ⟨p,ran,total,blocks⟩ := @chunks_expanded info build rounds image s formed fits.whole header enough s.chunks
    (fun _ member => member) plain.fillable plain.crc32_last ⟨first_chunk (sparse_header image),info.start,0,device,[]⟩
    first (by rw [zero_add]; exact formed.total_blks) (Nat.add_le_add_left fits.fits _)
  refine ⟨p,?_,blocks⟩
  rw [zero_add] at total
  unfold write_sparse_image
  rw [header] at ran ⊢
  dsimp only at ran ⊢
  rw [if_neg (by rw [Nat.mod_eq_zero_of_dvd fits.whole]; exact not_not.mpr rfl),ran]
  dsimp only
  rw [if_neg (not_not.mpr (show p.total_blocks = s.total_blks from total))]

/-! ## Writes inside the target -/

section
variable (info : SparseStorage) (build : Build) (rounds : ℕ) (image : ℕ → UInt8)

def Flashing.progress : Flashing → Progress
  | .goes_on p => p
  | .returns _ p => p
  | .loops p => p

def WriteInside (w : ℕ × ℕ) : Prop := w.2 = 0 ∨ info.start ≤ w.1 ∧ w.1+w.2 ≤ info.start+info.size

instance (w : ℕ × ℕ) : Decidable (WriteInside info w) := inferInstanceAs (Decidable (_ ∨ _))

/-- The block number does not wrap at the next chunk, and an `int` can count the blocks
    of a fill. -/
def Bounded (p : Progress) : Prop :=
  let chunk := chunk_header image p.data
  let blkcnt := block_count info (sparse_header image) chunk
  (chunk.chunk_type ≠ CHUNK_TYPE_CRC32 → p.blk+blkcnt < 2^64) ∧ (chunk.chunk_type = CHUNK_TYPE_FILL → blkcnt < 2^31)

instance (p : Progress) : Decidable (Bounded info image p) := inferInstanceAs (Decidable (_ ∧ _))

def BoundedStep (s : Flashing) (_ : Unit) : Prop :=
  match s with
  | .goes_on p => Bounded info image p
  | _ => True

instance (s : Flashing) (e : Unit) : Decidable (BoundedStep info image s e) :=
  match s with
  | .goes_on p => inferInstanceAs (Decidable (Bounded info image p))
  | .returns _ _ => .isTrue trivial
  | .loops _ => .isTrue trivial

/-- The pointer into the storage is not below the target, and all writes were inside. -/
structure Inside (p : Progress) : Prop where
  above : info.start ≤ p.blk
  writes : ∀ w ∈ p.writes, WriteInside info w

variable {info build rounds image}

theorem within_target {p : Progress} (small : p.blk+blkcnt < 2^64) (fits : ¬ Exceeds info p.blk blkcnt) :
    p.blk+blkcnt ≤ info.start+info.size := by
  rw [Exceeds,← Nat.cast_add,← Nat.cast_add,lba_eq info.numbered,lba_eq small] at fits
  omega

/-- Writes of blocks that do not exceed the target. -/
theorem inside_append {p : Progress} (inside : Inside info p) {writes : List (ℕ × ℕ)} {n : ℕ}
    (fits : p.blk+n ≤ info.start+info.size)
    (all : ∀ w ∈ writes, w.2 = 0 ∨ p.blk ≤ w.1 ∧ w.1+w.2 ≤ p.blk+n) : ∀ w ∈ p.writes ++ writes, WriteInside info w := by
  intro w member
  rcases mem_append.mp member with before | new
  · exact inside.writes w before
  · have above := inside.above
    rcases all w new with none | ⟨low,high⟩
    · exact .inl none
    · exact .inr ⟨by omega,by omega⟩

theorem process_chunk_inside {p : Progress} (inside : Inside info p) (bounded : Bounded info image p) :
    Inside info (process_chunk info build rounds image p).progress := by
  obtain ⟨small,int⟩ := bounded
  have above := inside.above
  unfold process_chunk
  dsimp only
  generalize (if chunk_header_size < (sparse_header image).chunk_hdr_sz then
    p.data+chunk_header_size+((sparse_header image).chunk_hdr_sz-chunk_header_size) else p.data+chunk_header_size) = data
  generalize block_count info (sparse_header image) (chunk_header image p.data) = blkcnt at small int
  by_cases raw : (chunk_header image p.data).chunk_type = CHUNK_TYPE_RAW
  · rw [if_pos raw]
    split
    · exact inside
    split
    · exact inside
    next fits =>
    have small := small (by rw [raw]; decide)
    have fits := within_target small fits
    obtain ⟨p',written,same,wrote⟩ := raw_wrote info build image p data small
    obtain ⟨writes,all,new⟩ := wrote.inside
    rw [buffer_blocks_length] at new
    have kept : ∀ w ∈ p'.writes, WriteInside info w := all ▸ inside_append inside fits new
    rw [written]
    dsimp only
    split
    · exact ⟨same.symm ▸ above,kept⟩
    · refine ⟨?_,kept⟩
      dsimp only [Flashing.progress]
      rw [same,← Nat.cast_add,lba_eq small]
      omega
  rw [if_neg raw]
  by_cases fill : (chunk_header image p.data).chunk_type = CHUNK_TYPE_FILL
  · rw [if_pos fill]
    split
    · exact inside
    split
    · exact inside
    next fits =>
    have small := small (by rw [fill]; decide)
    have fits := within_target small fits
    obtain ⟨writes,all,new,higher⟩ := fill_loop_inside info (repeated image data)
      (build.CONFIG_IMAGE_SPARSE_FILLBUF_SIZE/info.blksz) (int fill) rounds 0 (Nat.zero_le _) p (by omega)
    have kept := inside_append inside fits new
    rw [Nat.cast_zero] at all higher
    rw [← all] at kept
    split
    · next ended =>
      rw [ended] at kept higher
      exact ⟨above.trans higher,kept⟩
    · next ended =>
      rw [ended] at kept higher
      exact ⟨above.trans higher,kept⟩
  rw [if_neg fill]
  split
  · next care =>
    have small := small (by rw [care]; decide)
    refine ⟨?_,inside.writes⟩
    dsimp only [Flashing.progress]
    rw [← Nat.cast_add,lba_eq small]
    omega
  split
  · split
    · exact inside
    · exact ⟨above,inside.writes⟩
  · exact inside

theorem flashing_inside {p : Progress} (inside : Inside info p) {chunks : List Unit}
    (bounded : Along (step info build rounds image) (BoundedStep info image) (.goes_on p) chunks) :
    Inside info (run (step info build rounds image) (.goes_on p) chunks).progress := by
  refine @invariant _ _ (step info build rounds image) (fun s => Inside info s.progress) (BoundedStep info image) ?_ _ _
    inside bounded
  intro s _ inside bounded
  cases s with
  | goes_on p => exact process_chunk_inside inside bounded
  | returns ret p | loops p => exact inside

end

/-! ## Flashing -/

def begun (info : SparseStorage) (image : ℕ → UInt8) (device : ℕ → List UInt8) : Progress :=
  ⟨first_chunk (sparse_header image),info.start,0,device,[]⟩

theorem write_sparse_image_progress (info : SparseStorage) (build : Build) (rounds : ℕ) (image : ℕ → UInt8)
    (device : ℕ → List UInt8) :
    (write_sparse_image info build rounds image device).progress = begun info image device ∨
      (write_sparse_image info build rounds image device).progress = (run (step info build rounds image)
        (.goes_on (begun info image device)) (replicate (sparse_header image).total_chunks ())).progress := by
  unfold write_sparse_image
  dsimp only
  split
  · exact .inl rfl
  · right
    rw [← begun]
    cases run (step info build rounds image) (.goes_on (begun info image device))
      (replicate (sparse_header image).total_chunks ()) <;> rfl

/-- A partition of 100 blocks. -/
theorem sector_pos : 0 < 512 := by decide

def partition : SparseStorage := ⟨512,64,100,sector_pos,by decide,by decide,by decide⟩

def usual_build : Build := ⟨0x80000,false⟩

def mixed_image : SparseImage :=
  ⟨28,12,512,[0x3a,0xff,0x26,0xed,1,0,0,0],[0,0,0,0],
    [(.fill 1 [1,2,3,4],[]),(.dont_care 3,[]),(.raw 1 (List.replicate 512 5),[]),(.crc32 [0,0,0,0],[])]⟩

/-- The image with a fill behind a file header of 32 bytes. -/
def long_header_image : SparseImage :=
  ⟨32,12,4096,[0x3a,0xff,0x26,0xed,1,0,0,0],[0,0,0,0,0,0,0,0],[(.fill 1 [1,2,3,4],[])]⟩

def in_memory (s : SparseImage) : ℕ → UInt8 := fun i => s.bytes.getD i 0

theorem holds_in_memory (s : SparseImage) : Holds (in_memory s) 0 s.bytes := by
  refine ext_getElem (load_length _ _ _) ?_
  intro i first second
  simp only [load,getElem_map,getElem_range,zero_add,in_memory]
  rw [getD_eq_getElem?_getD,getElem?_eq_getElem second,getD_some]

end UBoot.ImageSparse
