import UBoot.EfiLoadOptions

/-!
Device paths with several instances, `lib/efi_loader/efi_device_path.c`. A pointer is an allocation
and an offset into it; a read outside the allocation gives nothing, and so does a walk that never
ends. Allocations succeed. Only the last instance has an end of the entire path.
-/
namespace UBoot.EfiDevicePath
open UBoot.Buffers UBoot.EfiLoadOptions List

def DEVICE_PATH_SUB_TYPE_INSTANCE_END : ℕ := 0x01

/-- `EFI_DP_END`, which has 4 bytes. -/
def EFI_DP_END : List UInt8 := [0x7f,0xff,4,0]

/-- The node behind another one; a node of length 0 is never left. -/
def node_behind (data : List UInt8) (dp : ℕ) : Option ℕ :=
  match read 2 data (dp+2) with
  | none => none
  | some length => if length = 0 then none else some (dp+length)

variable {data : List UInt8} (path : InstancePath) (sub_type : UInt8) (rest : List InstancePath)

theorem node_behind_later {dp next : ℕ} (behind : node_behind data dp = some next) :
    dp < data.length ∧ dp < next := by
  unfold node_behind at behind
  split at behind
  · cases behind
  · next length is =>
    have inside := read_header is
    split at behind
    · cases behind
    · obtain rfl := Option.some.inj behind
      omega

/-- `efi_dp_instance_size` from a node that is no end node, with `efi_dp_next`. -/
def instance_size_loop (data : List UInt8) (dp sz : ℕ) : Option ℕ :=
  match _behind : node_behind data dp with
  | none => none
  | some next =>
    match read 1 data next with
    | none => none
    | some type => if type = DEVICE_PATH_TYPE_END then some (sz+(next-dp)) else instance_size_loop data next (sz+(next-dp))
termination_by data.length-dp
decreasing_by
  have later := node_behind_later _behind
  omega

def efi_dp_instance_size (data : List UInt8) (dp : ℕ) : Option ℕ :=
  match read 1 data dp with
  | none => none
  | some type => if type = DEVICE_PATH_TYPE_END then some 0 else instance_size_loop data dp 0

/-- The loop of `efi_dp_size`, which finds the end of the entire path. -/
def size_loop (data : List UInt8) (p : ℕ) : Option ℕ :=
  match read 1 data p, read 1 data (p+1) with
  | some type, some sub_type =>
    if type ≠ DEVICE_PATH_TYPE_END ∨ sub_type ≠ DEVICE_PATH_SUB_TYPE_END then
      match _behind : node_behind data p with
      | none => none
      | some next => size_loop data next
    else some p
  | _, _ => none
termination_by data.length-p
decreasing_by
  have later := node_behind_later _behind
  omega

def efi_dp_size (data : List UInt8) (dp : ℕ) : Option ℕ := (size_loop data dp).map (· - dp)

def copy (data : List UInt8) (dp sz : ℕ) : Option (List UInt8) :=
  if dp+sz ≤ data.length then some ((data.drop dp).take sz) else none

def efi_dp_dup (data : List UInt8) (dp : ℕ) : Option (List UInt8) :=
  match efi_dp_size data dp with
  | none => none
  | some sz => copy data dp (sz+EFI_DP_END.length)

/-- `efi_dp_append_instance`; the first path may be `NULL`. -/
def efi_dp_append_instance (dp : Option (List UInt8)) (dpi : List UInt8) : Option (List UInt8) :=
  match dp with
  | none => efi_dp_dup dpi 0
  | some dp =>
    match efi_dp_size dp 0, efi_dp_instance_size dpi 0 with
    | some sz, some szi =>
      match copy dp 0 (sz+EFI_DP_END.length), copy dpi 0 szi with
      | some front, some back => some (front.set (sz+1) (.ofNat DEVICE_PATH_SUB_TYPE_INSTANCE_END) ++ back ++ EFI_DP_END)
      | _, _ => none
    | _, _ => none

/-- What `efi_dp_get_next_instance` returns: the path, what is left and the size. -/
structure NextInstance where
  path : List UInt8
  dp : Option ℕ
  size : ℕ

def efi_dp_get_next_instance (data : List UInt8) (dp : ℕ) : Option NextInstance :=
  match efi_dp_instance_size data dp with
  | none => none
  | some sz =>
    match copy data dp (sz+EFI_DP_END.length), read 1 data (dp+sz+1) with
    | some p, some sub_type =>
      some ⟨p,if sub_type = DEVICE_PATH_SUB_TYPE_INSTANCE_END then some (dp+sz+EFI_DP_END.length) else none,
        sz+EFI_DP_END.length⟩
    | _, _ => none

/-- The calls until nothing is left: the paths with their sizes. -/
def next_instances (data : List UInt8) : ℕ → ℕ → Option (List (List UInt8 × ℕ))
  | 0, _ => none
  | calls+1, dp =>
    match efi_dp_get_next_instance data dp with
    | none => none
    | some ⟨path,none,size⟩ => some [(path,size)]
    | some ⟨path,some dp,size⟩ => (next_instances data calls dp).map ((path,size) :: ·)

/-! ## Instances -/

structure InstancePath where
  nodes : List Node
  inner : ∀ node ∈ nodes, node.type.toNat ≠ DEVICE_PATH_TYPE_END

def InstancePath.body (path : InstancePath) : List UInt8 := path.nodes.flatMap Node.bytes

def InstancePath.bytes (path : InstancePath) : List UInt8 := path.body ++ EFI_DP_END

theorem end_node_fits : 4+([] : List UInt8).length < 2^16 := by decide

def end_node (sub_type : UInt8) : Node := ⟨0x7f,sub_type,[],end_node_fits⟩

def joined : InstancePath → List InstancePath → List UInt8
  | path, [] => path.body ++ (end_node 0xff).bytes
  | path, next :: rest => path.body ++ ((end_node 0x01).bytes ++ joined next rest)

theorem end_type : (end_node sub_type).type.toNat = DEVICE_PATH_TYPE_END := rfl

theorem end_bytes : (end_node 0xff).bytes = EFI_DP_END := by decide

theorem node_behind_node (node : Node) (front rest : List UInt8) :
    node_behind (front ++ (node.bytes ++ rest)) front.length = some (front.length+node.bytes.length) := by
  obtain ⟨length,_,_⟩ := read_node node front rest
  have some_bytes := node.bytes_length
  rw [node_behind,length]
  exact if_neg (by omega)

theorem instance_size_loop_next {dp next type : ℕ} (behind : node_behind data dp = some next)
    (read_type : read 1 data next = some type) (sz : ℕ) :
    instance_size_loop data dp sz =
      if type = DEVICE_PATH_TYPE_END then some (sz+(next-dp)) else instance_size_loop data next (sz+(next-dp)) := by
  rw [instance_size_loop]
  split
  · next absent =>
    rw [behind] at absent
    cases absent
  · next other is =>
    obtain rfl := Option.some.inj (behind.symm.trans is)
    rw [read_type]

theorem size_loop_next {p next type sub_type : ℕ} (behind : node_behind data p = some next)
    (read_type : read 1 data p = some type) (read_sub : read 1 data (p+1) = some sub_type) :
    size_loop data p = if type ≠ DEVICE_PATH_TYPE_END ∨ sub_type ≠ DEVICE_PATH_SUB_TYPE_END then size_loop data next else some p := by
  rw [size_loop,read_type,read_sub]
  dsimp only
  split
  · split
    · next absent =>
      rw [behind] at absent
      cases absent
    · next other is =>
      obtain rfl := Option.some.inj (behind.symm.trans is)
      rfl
  · rfl

theorem instance_size_nodes {nodes : List Node} (inner : ∀ node ∈ nodes, node.type.toNat ≠ DEVICE_PATH_TYPE_END) (first : Node)
    (sub_type : UInt8) (front rest : List UInt8) (sz : ℕ) :
    instance_size_loop (front ++ (first.bytes ++ (nodes.flatMap Node.bytes ++ ((end_node sub_type).bytes ++ rest)))) front.length sz =
      some (sz+(first.bytes ++ nodes.flatMap Node.bytes).length) := by
  induction nodes generalizing first front sz with
  | nil =>
    have behind := node_behind_node first front ([] ++ ((end_node sub_type).bytes ++ rest))
    obtain ⟨_,type,_⟩ := read_node (end_node sub_type) (front ++ first.bytes) rest
    rw [append_assoc,length_append] at type
    rw [flatMap_nil,instance_size_loop_next behind type,if_pos (end_type sub_type),Nat.add_sub_cancel_left,append_nil]
  | cons second nodes ih =>
    have behind := node_behind_node first front
      ((second :: nodes).flatMap Node.bytes ++ ((end_node sub_type).bytes ++ rest))
    obtain ⟨_,type,_⟩ := read_node second (front ++ first.bytes) (nodes.flatMap Node.bytes ++ ((end_node sub_type).bytes ++ rest))
    have later := ih (fun node member => inner node (mem_cons_of_mem second member)) second (front ++ first.bytes)
      (sz+first.bytes.length)
    rw [append_assoc,length_append] at type later
    rw [flatMap_cons,append_assoc] at behind ⊢
    rw [instance_size_loop_next behind type,if_neg (inner second mem_cons_self),Nat.add_sub_cancel_left,later]
    simp only [length_append]
    congr 1
    omega

theorem instance_size_path (front rest : List UInt8) :
    efi_dp_instance_size (front ++ (path.body ++ ((end_node sub_type).bytes ++ rest))) front.length = some path.body.length := by
  obtain ⟨nodes,inner⟩ := path
  simp only [InstancePath.body]
  unfold efi_dp_instance_size
  cases nodes with
  | nil =>
    obtain ⟨_,type,_⟩ := read_node (end_node sub_type) front rest
    rw [flatMap_nil,nil_append,type]
    rfl
  | cons first nodes =>
    obtain ⟨_,type,_⟩ := read_node first front (nodes.flatMap Node.bytes ++ ((end_node sub_type).bytes ++ rest))
    rw [flatMap_cons,append_assoc,type]
    dsimp only
    rw [if_neg (inner first mem_cons_self),
      instance_size_nodes (fun node member => inner node (mem_cons_of_mem first member)),zero_add]

theorem size_loop_nodes {nodes : List Node} (inner : ∀ node ∈ nodes, ¬ node.IsEnd) (front rest : List UInt8) :
    size_loop (front ++ (nodes.flatMap Node.bytes ++ (EFI_DP_END ++ rest))) front.length =
      some (front.length+(nodes.flatMap Node.bytes).length) := by
  induction nodes generalizing front with
  | nil =>
    have behind := node_behind_node (end_node 0xff) front rest
    obtain ⟨_,type,sub_type⟩ := read_node (end_node 0xff) front rest
    rw [end_bytes] at behind type sub_type
    rw [flatMap_nil,nil_append,size_loop_next behind type sub_type,if_neg (by decide)]
    rfl
  | cons first nodes ih =>
    have behind := node_behind_node first front (nodes.flatMap Node.bytes ++ (EFI_DP_END ++ rest))
    obtain ⟨_,type,sub_type⟩ := read_node first front (nodes.flatMap Node.bytes ++ (EFI_DP_END ++ rest))
    have later := ih (fun node member => inner node (mem_cons_of_mem first member)) (front ++ first.bytes)
    rw [append_assoc,length_append] at later
    have goes_on : first.type.toNat ≠ DEVICE_PATH_TYPE_END ∨ first.sub_type.toNat ≠ DEVICE_PATH_SUB_TYPE_END :=
      Classical.not_and_iff_not_or_not.mp (inner first mem_cons_self)
    rw [flatMap_cons,append_assoc,size_loop_next behind type sub_type,if_pos goes_on,later,length_append]
    congr 1
    omega

/-! ## Joined instances -/

/-- The nodes of joined instances, with the ends between them. -/
def joined_nodes : InstancePath → List InstancePath → List Node
  | path, [] => path.nodes
  | path, next :: rest => path.nodes ++ end_node 0x01 :: joined_nodes next rest

theorem joined_eq :
    joined path rest = (joined_nodes path rest).flatMap Node.bytes ++ EFI_DP_END := by
  induction rest generalizing path with
  | nil => rw [joined,joined_nodes,end_bytes]; rfl
  | cons next rest ih =>
    rw [joined,joined_nodes,ih,flatMap_append,flatMap_cons]
    simp only [InstancePath.body,append_assoc]

theorem joined_inner : ∀ node ∈ joined_nodes path rest, ¬ node.IsEnd := by
  induction rest generalizing path with
  | nil =>
    intro node member ends
    exact path.inner node member ends.1
  | cons next rest ih =>
    intro node member
    rw [joined_nodes,mem_append,mem_cons] at member
    rcases member with early | rfl | late
    · intro ends
      exact path.inner node early ends.1
    · rintro ⟨_,sub_type⟩
      revert sub_type
      decide
    · exact ih next node late

theorem efi_dp_size_joined :
    efi_dp_size (joined path rest) 0 = some ((joined_nodes path rest).flatMap Node.bytes).length := by
  have walked := size_loop_nodes (joined_inner path rest) [] []
  rw [nil_append,append_nil,← joined_eq,length_nil,zero_add] at walked
  rw [efi_dp_size,walked]
  rfl

theorem efi_dp_dup_joined :
    efi_dp_dup (joined path rest) 0 = some (joined path rest) := by
  have size : (joined path rest).length = ((joined_nodes path rest).flatMap Node.bytes).length+EFI_DP_END.length := by
    rw [joined_eq,length_append]
  rw [efi_dp_dup,efi_dp_size_joined]
  dsimp only
  rw [copy,if_pos (by omega),drop_zero,take_of_length_le (by omega)]

theorem joined_nodes_append (last : InstancePath) :
    joined_nodes path (rest ++ [last]) = joined_nodes path rest ++ end_node 0x01 :: last.nodes := by
  induction rest generalizing path with
  | nil => rfl
  | cons next rest ih => rw [cons_append,joined_nodes,joined_nodes,ih,append_assoc,cons_append]

theorem append_joined (last : InstancePath) :
    efi_dp_append_instance (some (joined path rest)) last.bytes = some (joined path (rest ++ [last])) := by
  have size := efi_dp_size_joined path rest
  have instance_size := instance_size_path last 0xff [] []
  rw [nil_append,append_nil,length_nil,end_bytes] at instance_size
  unfold efi_dp_append_instance
  dsimp only
  rw [size,InstancePath.bytes,instance_size,joined_eq]
  dsimp only
  generalize nodes_is : (joined_nodes path rest).flatMap Node.bytes = nodes
  have front : copy (nodes ++ EFI_DP_END) 0 (nodes.length+EFI_DP_END.length) = some (nodes ++ EFI_DP_END) := by
    rw [copy,if_pos (by rw [length_append]; omega),drop_zero,take_of_length_le (by rw [length_append])]
  have back : copy (last.body ++ EFI_DP_END) 0 last.body.length = some last.body := by
    rw [copy,if_pos (by rw [length_append]; omega),drop_zero,take_left]
  have changed : (nodes ++ EFI_DP_END).set (nodes.length+1) (.ofNat DEVICE_PATH_SUB_TYPE_INSTANCE_END) =
      nodes ++ (end_node 0x01).bytes := by
    rw [set_append_right _ _ (by omega),Nat.add_sub_cancel_left]
    rfl
  rw [front,back]
  dsimp only
  rw [changed,joined_eq,joined_nodes_append,flatMap_append,flatMap_cons,nodes_is,InstancePath.body]
  simp only [append_assoc]

/-- The path that is built from instances, the first of which is put behind `NULL`. -/
def built (first : InstancePath) (rest : List InstancePath) : Option (List UInt8) :=
  rest.foldl (fun dp next => dp.bind fun dp => efi_dp_append_instance (some dp) next.bytes)
    (efi_dp_append_instance none first.bytes)

theorem built_joined (first : InstancePath) (rest : List InstancePath) : built first rest = some (joined first rest) := by
  induction rest using reverseRecOn with
  | nil =>
    have dup := efi_dp_dup_joined first []
    rw [joined,end_bytes] at dup
    rw [joined,end_bytes]
    exact dup
  | append_singleton rest last ih =>
    rw [built] at ih ⊢
    rw [foldl_append,ih]
    exact append_joined first rest last

/-- What comes back: the nodes of each instance with the end node behind them. -/
def taken : InstancePath → List InstancePath → List (List UInt8 × ℕ)
  | path, [] => [(path.body ++ EFI_DP_END,(path.body ++ EFI_DP_END).length)]
  | path, next :: rest =>
    (path.body ++ (end_node 0x01).bytes,(path.body ++ (end_node 0x01).bytes).length) :: taken next rest

theorem get_next_instance_eq (front rest : List UInt8) :
    efi_dp_get_next_instance (front ++ (path.body ++ ((end_node sub_type).bytes ++ rest))) front.length =
      some ⟨path.body ++ (end_node sub_type).bytes,
        if sub_type.toNat = DEVICE_PATH_SUB_TYPE_INSTANCE_END then
          some (front ++ (path.body ++ (end_node sub_type).bytes)).length else none,
        (path.body ++ (end_node sub_type).bytes).length⟩ := by
  have four : (end_node sub_type).bytes.length = EFI_DP_END.length := rfl
  have copied : copy (front ++ (path.body ++ ((end_node sub_type).bytes ++ rest))) front.length (path.body.length+EFI_DP_END.length) =
      some (path.body ++ (end_node sub_type).bytes) := by
    rw [copy,if_pos (by simp only [length_append]; omega),drop_left,← append_assoc path.body]
    rw [take_left' (by rw [length_append,four])]
  obtain ⟨_,_,sub⟩ := read_node (end_node sub_type) (front ++ path.body) rest
  rw [append_assoc,length_append] at sub
  unfold efi_dp_get_next_instance
  rw [instance_size_path]
  dsimp only
  rw [copied,sub]
  simp only [length_append,four,add_assoc]
  rfl

theorem next_instances_joined (front : List UInt8) (calls : ℕ) :
    next_instances (front ++ joined path rest) calls front.length = if rest.length < calls then some (taken path rest) else none := by
  induction rest generalizing path front calls with
  | nil =>
    cases calls with
    | zero => rfl
    | succ calls =>
      have next := get_next_instance_eq path 0xff front []
      rw [append_nil,if_neg (by decide)] at next
      rw [joined,next_instances,next]
      rw [if_pos (by simp),taken,end_bytes]
  | cons second rest ih =>
    cases calls with
    | zero => rfl
    | succ calls =>
      have next := get_next_instance_eq path 0x01 front (joined second rest)
      rw [if_pos (by decide)] at next
      have later := ih second (front ++ (path.body ++ (end_node 0x01).bytes)) calls
      rw [append_assoc,append_assoc] at later
      rw [joined,next_instances,next]
      dsimp only
      rw [later,taken,length_cons]
      split
      · rw [if_pos (by omega)]
        rfl
      · rw [if_neg (by omega)]
        rfl

/-- The instances come back in order, as paths with the right sizes that can be measured
    and copied. -/
def InstancesComeBack (first : InstancePath) (rest : List InstancePath) : Prop :=
  ∃ dp calls results, built first rest = some dp ∧ next_instances dp calls 0 = some results ∧
    results.map (·.1) = (first :: rest).map InstancePath.bytes ∧
    ∀ path size, (path,size) ∈ results → size = path.length ∧ (efi_dp_size path 0).isSome ∧ efi_dp_dup path 0 = some path

/-- Only a single instance comes back as a path: the others have the end of an instance. -/
theorem instances_come_back (first : InstancePath) (rest : List InstancePath) : InstancesComeBack first rest ↔ rest = [] := by
  constructor
  · rintro ⟨dp,calls,results,is_built,next,same,_⟩
    rw [built_joined] at is_built
    obtain rfl := Option.some.inj is_built
    have all := next_instances_joined first rest [] calls
    rw [List.nil_append,List.length_nil,next] at all
    split at all
    · cases rest with
      | nil => rfl
      | cons second rest =>
        rw [Option.some.inj all,taken,List.map_cons,List.map_cons] at same
        exact absurd (List.append_cancel_left (List.cons.inj same).1) (by decide)
    · cases all
  · rintro rfl
    have all := next_instances_joined first [] [] 1
    rw [List.nil_append,List.length_nil,if_pos (by decide)] at all
    refine ⟨_,1,_,built_joined first [],all,rfl,?_⟩
    intro path size member
    rw [taken,List.mem_singleton] at member
    obtain ⟨rfl,rfl⟩ := Prod.mk.inj member
    have measured := efi_dp_size_joined first []
    have copied := efi_dp_dup_joined first []
    rw [joined,end_bytes] at measured copied
    exact ⟨rfl,by rw [measured]; rfl,copied⟩

theorem size_loop_overruns {nodes : List Node} (inner : ∀ node ∈ nodes, ¬ node.IsEnd) (front : List UInt8) :
    size_loop (front ++ nodes.flatMap Node.bytes) front.length = none := by
  induction nodes generalizing front with
  | nil =>
    have outside : read 1 (front ++ []) front.length = none := read_outside (by simp)
    rw [flatMap_nil,size_loop,outside]
  | cons first nodes ih =>
    have behind := node_behind_node first front (nodes.flatMap Node.bytes)
    obtain ⟨_,type,sub_type⟩ := read_node first front (nodes.flatMap Node.bytes)
    have later := ih (fun node member => inner node (mem_cons_of_mem first member)) (front ++ first.bytes)
    rw [append_assoc,length_append] at later
    have goes_on : first.type.toNat ≠ DEVICE_PATH_TYPE_END ∨ first.sub_type.toNat ≠ DEVICE_PATH_SUB_TYPE_END :=
      Classical.not_and_iff_not_or_not.mp (inner first mem_cons_self)
    rw [flatMap_cons,size_loop_next behind type sub_type,if_pos goes_on,later]

/-- A path of one node, with the type and sub-type of a file path. -/
def file_instance : InstancePath := ⟨[⟨4,4,[0x61,0,0,0],by decide⟩],by decide⟩

/-- The first of two instances cannot be measured: the walk leaves its allocation. -/
theorem two_instances_overrun :
    ∃ dp results path size, built file_instance [file_instance] = some dp ∧ next_instances dp 2 0 = some results ∧
      results.map (·.1) ≠ [file_instance,file_instance].map InstancePath.bytes ∧ (path,size) ∈ results ∧
      efi_dp_size path 0 = none := by
  have all := next_instances_joined file_instance [file_instance] [] 2
  rw [List.nil_append,List.length_nil,if_pos (by decide)] at all
  refine ⟨_,_,_,_,built_joined _ _,all,by decide,List.mem_cons_self,?_⟩
  have overrun := @size_loop_overruns (file_instance.nodes ++ [end_node 0x01]) (by
    intro node member
    simp only [file_instance,List.cons_append,List.nil_append,List.mem_cons,List.not_mem_nil,or_false] at member
    rcases member with rfl | rfl <;> rintro ⟨type,sub_type⟩
    · exact absurd type (by decide)
    · exact absurd sub_type (by decide)) []
  rw [efi_dp_size]
  exact congrArg (Option.map (· - 0)) overrun
end UBoot.EfiDevicePath
