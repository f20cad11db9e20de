import SimpOS.PathParser

/-!
What the path parser reads. The names of a path are its parts up to the first empty one;
every run that stays inside its buffers links exactly these, each with two blocks of the
heap. The grammar asks more: the separator, short names, and nothing behind the last one.
-/
namespace SimpOS.ParsedPaths
open SimpOS.Machine SimpOS.Strings SimpOS.Memory SimpOS.Extents SimpOS.KernelHeap SimpOS.PathParser

/-! ### Names -/

def firstName (path : CString) : CString := path.takeWhile (· ≠ 47)
/-- The path behind its first name and the slash that ends it. -/
def behind (path : CString) : CString := (path.dropWhile (· ≠ 47)).tail

theorem firstName_append_dropWhile (path : CString) : firstName path ++ path.dropWhile (· ≠ 47) = path :=
  List.takeWhile_append_dropWhile

theorem behind_length {path : CString} (named : firstName path ≠ []) : (behind path).length < path.length := by
  have whole := congrArg List.length (firstName_append_dropWhile path)
  have positive := List.length_pos_iff.mpr named
  rw [List.length_append] at whole
  rw [behind,List.length_tail]
  omega

/-- The parts of a path up to its first empty one. -/
def names (path : CString) : List CString :=
  if _named : firstName path = [] then [] else firstName path :: names (behind path)
termination_by path.length
decreasing_by exact behind_length _named

/-- The path from its first empty part on. -/
def leftover (path : CString) : CString :=
  if _named : firstName path = [] then path else leftover (behind path)
termination_by path.length
decreasing_by exact behind_length _named

theorem names_length (path : CString) : 2 * (names path).length ≤ path.length + 1 := by
  fun_induction names path with
  | case1 path unnamed =>
    rw [List.length_nil]
    omega
  | case2 path named ih =>
    have shorter := behind_length named
    have whole := congrArg List.length (firstName_append_dropWhile path)
    have positive := List.length_pos_iff.mpr named
    rw [List.length_append] at whole
    rw [behind,List.length_tail] at ih
    rw [List.length_cons]
    by_cases last : path.dropWhile (· ≠ 47) = []
    · have none : names (behind path) = [] := by
        rw [behind,last,List.tail_nil,names,dif_pos (by rfl)]
      rw [none]
      simp only [List.length_nil]
      omega
    · have some := List.length_pos_iff.mpr last
      rw [behind]
      omega

/-! ### The grammar -/

/-- A name a path can hold. -/
structure Name (p : CString) : Prop where
  nonempty : p ≠ []
  slash : 47 ∉ p
  terminated : 0 ∉ p
  short : p.length < SIMPOS_MAX_PATH

def joined : List CString → CString
  | [] => []
  | [p] => p
  | p :: q :: rest => p ++ 47 :: joined (q :: rest)

/-- The path of the names on the drive, with or without a slash at its end. -/
def written (drive : UInt8) (parts : List CString) (trailing : Bool) : CString :=
  drive :: 58 :: 47 :: (joined parts ++ if trailing then [47] else [])

/-- A digit, the separator, and one name at least. -/
def Grammar (s : CString) : Prop :=
  ∃ drive parts trailing, isdigit drive ∧ parts ≠ [] ∧ (∀ p ∈ parts, Name p) ∧ s = written drive parts trailing

/-! ### One part -/

private theorem copy_part_eq (path : CString) : ∀ (i : Nat) (copied : CString), i ≤ 4096 →
    copy_part path i copied = if i + (firstName path).length ≤ 4096 then
      .ok (copied ++ firstName path,path.dropWhile (· ≠ 47)) else .error .overflow := by
  induction path with
  | nil =>
    intro i copied small
    rw [copy_part,firstName,List.takeWhile_nil,List.dropWhile_nil,List.append_nil,List.length_nil,if_pos (by omega)]
  | cons c path ih =>
    intro i copied small
    rw [copy_part]
    by_cases slash : c = 47
    · subst slash
      have none : firstName (47 :: path) = [] := rfl
      rw [if_pos rfl,none,List.append_nil,List.length_nil,if_pos (by omega)]
      rfl
    · have name : firstName (c :: path) = c :: firstName path := List.takeWhile_cons_of_pos (by simpa using slash)
      have rest : (c :: path).dropWhile (· ≠ 47) = path.dropWhile (· ≠ 47) :=
        List.dropWhile_cons_of_pos (by simpa using slash)
      rw [if_neg slash,name,rest,List.length_cons]
      by_cases full : SIMPOS_HEAP_BLOCK_SIZE ≤ i
      · rw [if_pos full,if_neg]
        simp only [SIMPOS_HEAP_BLOCK_SIZE] at full
        omega
      · simp only [SIMPOS_HEAP_BLOCK_SIZE] at full
        rw [if_neg full,ih (i + 1) (copied ++ [c]) (by omega),List.append_assoc,List.singleton_append,
          show i + 1 + (firstName path).length = i + ((firstName path).length + 1) by omega]

private theorem skip_slash (path : CString) :
    (if (path.dropWhile (· ≠ 47)).headD 0 = 47 then (path.dropWhile (· ≠ 47)).tail
      else path.dropWhile (· ≠ 47)) = behind path := by
  rw [behind]
  cases rest : path.dropWhile (· ≠ 47) with
  | nil => rfl
  | cons c tail =>
    have stopped := List.head?_dropWhile_not (· ≠ (47 : UInt8)) path
    rw [rest] at stopped
    rw [List.headD_cons,if_pos (by simpa using stopped)]

section
variable {live : List Extent} {k : Kernel}

/-- Reading a name takes one block, and reading none takes nothing. -/
theorem get_path_part_named (laid : Laid k.kernel_heap live) (room : 0 < freeBlocks k.kernel_heap) (path : CString)
    (named : firstName path ≠ []) :
    (4096 < (firstName path).length ∧ pathparser_get_path_part (some path) k = .error .overflow) ∨
    ∃ c k', Took k k' live c ∧
      pathparser_get_path_part (some path) k = .ok (some (blockAddress c,firstName path),some (behind path),k') := by
  rcases kzalloc_single laid (by decide : 0 < SIMPOS_MAX_PATH) (by decide) with ⟨full,_⟩ | ⟨c,k',granted,took⟩
  · omega
  · have pointer : blockAddress c ≠ 0 := by have := blockAddress_pos c; omega
    have length : (firstName path).length ≠ 0 := fun zero => named (List.length_eq_zero_iff.mp zero)
    simp only [pathparser_get_path_part,granted,pointer,if_false,copy_part_eq path 0 [] (by omega)]
    by_cases fits : 0 + (firstName path).length ≤ 4096
    · refine .inr ⟨c,k',took,?_⟩
      rw [if_pos fits,List.nil_append]
      simp only [Except.map,length,if_false,skip_slash]
    · exact .inl ⟨by omega,by rw [if_neg fits]; rfl⟩

theorem get_path_part_unnamed (laid : Laid k.kernel_heap live) (path : CString) (unnamed : firstName path = []) :
    ∃ path' k', pathparser_get_path_part (some path) k = .ok (none,path',k') ∧ Laid k'.kernel_heap live ∧
      freeBlocks k'.kernel_heap = freeBlocks k.kernel_heap := by
  rcases kzalloc_single laid (by decide : 0 < SIMPOS_MAX_PATH) (by decide) with ⟨_,refused⟩ | ⟨c,k',granted,took⟩
  · refine ⟨some path,k,?_,laid,rfl⟩
    simp only [pathparser_get_path_part,refused,if_true]
  · have pointer : blockAddress c ≠ 0 := by have := blockAddress_pos c; omega
    have freed := kfree_single took.laid
    refine ⟨some (behind path),kfree k' (blockAddress c),?_,freed.1,by have := took.count; omega⟩
    simp only [pathparser_get_path_part,granted,pointer,if_false,copy_part_eq path 0 [] (by omega),unnamed,
      List.length_nil,Nat.zero_le,Nat.add_zero,if_true,List.nil_append,Except.map,skip_slash]


/-- Where a part and its name lie in the heap. -/
structure Place where
  node : Int
  string : Int
  name : CString

def Place.part (place : Place) : PathPart := ⟨blockAddress place.node,blockAddress place.string,place.name⟩
def Place.extents (place : Place) : List Extent := [⟨place.string,1⟩,⟨place.node,1⟩]

theorem parse_path_part_named (laid : Laid k.kernel_heap live) (room : 2 ≤ freeBlocks k.kernel_heap)
    (parts : List PathPart) (path : CString) (named : firstName path ≠ []) :
    (4096 < (firstName path).length ∧ pathparser_parse_path_part parts (some path) k = .error .overflow) ∨
    ∃ (place : Place) (k' : Kernel), place.name = firstName path ∧
      Laid k'.kernel_heap (place.extents ++ live) ∧ freeBlocks k'.kernel_heap + 2 = freeBlocks k.kernel_heap ∧
      pathparser_parse_path_part parts (some path) k = .ok (some (parts ++ [place.part]),some (behind path),k') := by
  rcases get_path_part_named laid (by omega) path named with ⟨long,overflow⟩ | ⟨c,k',took,read⟩
  · exact .inl ⟨long,by rw [pathparser_parse_path_part,overflow]; rfl⟩
  · have count := took.count
    rcases kzalloc_single took.laid (by decide : 0 < 8) (by decide) with ⟨full,_⟩ | ⟨b,k₂,granted,took'⟩
    · omega
    · have count' := took'.count
      have pointer : blockAddress b ≠ 0 := by have := blockAddress_pos b; omega
      refine .inr ⟨⟨b,c,firstName path⟩,k₂,rfl,took'.laid.perm (List.Perm.swap ..),by omega,?_⟩
      simp only [pathparser_parse_path_part,read,Except.map,granted,pointer,if_false,Place.part]

theorem parse_path_part_unnamed (laid : Laid k.kernel_heap live) (parts : List PathPart) (path : CString)
    (unnamed : firstName path = []) :
    ∃ path' k', pathparser_parse_path_part parts (some path) k = .ok (none,path',k') ∧ Laid k'.kernel_heap live ∧
      freeBlocks k'.kernel_heap = freeBlocks k.kernel_heap := by
  obtain ⟨path',k',read,laid',count⟩ := get_path_part_unnamed laid path unnamed
  refine ⟨path',k',?_,laid',count⟩
  rw [pathparser_parse_path_part,read]
  rfl

end

/-! ### The whole path -/

/-- The loop links the names it meets, in their order. -/
theorem parse_rest_correct {live : List Extent} (path : CString) :
    ∀ (remaining : Nat) (parts : List PathPart) (k : Kernel), (names path).length < remaining → Laid k.kernel_heap live → 2 * (names path).length ≤ freeBlocks k.kernel_heap →
    (∀ p ∈ names path, p.length ≤ 4096) →
    ∃ (places : List Place) (k' : Kernel), places.map Place.name = names path ∧ Laid k'.kernel_heap (places.flatMap Place.extents ++ live) ∧
      parse_rest remaining parts (some path) k = .ok (parts ++ places.map Place.part,k') := by
  fun_induction names path generalizing live with
  | case1 path unnamed =>
    intro remaining parts k enough laid room short
    obtain ⟨remaining,rfl⟩ : ∃ n, remaining = n + 1 := ⟨remaining - 1,by omega⟩
    obtain ⟨path',k',read,laid',_⟩ := parse_path_part_unnamed laid parts path unnamed
    refine ⟨[],k',rfl,laid',?_⟩
    rw [parse_rest,read,List.map_nil,List.append_nil]
    rfl
  | case2 path named ih =>
    intro remaining parts k enough laid room short
    rw [List.length_cons] at enough room
    obtain ⟨remaining,rfl⟩ : ∃ n, remaining = n + 1 := ⟨remaining - 1,by omega⟩
    rcases parse_path_part_named laid (by omega) parts path named with ⟨long,_⟩ | ⟨place,k',name,laid',count,read⟩
    · have fits := short _ (List.mem_cons_self ..)
      omega
    · obtain ⟨places,k₂,same,laid₂,linked⟩ := ih remaining (parts ++ [place.part]) k' (by omega) laid' (by omega)
        fun p member => short p (List.mem_cons_of_mem _ member)
      refine ⟨place :: places,k₂,by rw [List.map_cons,name,same],laid₂.perm ?_,?_⟩
      · rw [List.flatMap_cons,List.append_assoc]
        exact List.perm_append_comm_assoc ..
      · rw [List.append_assoc,List.singleton_append] at linked
        rw [parse_rest,read,List.map_cons]
        exact linked

/-- The comparison never finds a difference: a digit is all the format check asks for. -/
theorem path_valid_format_eq (path : CString) :
    pathparser_path_valid_format path = .ok (isdigit (path.headD 0)) := by
  have length : 0 ≤ strnlen path SIMPOS_MAX_PATH := by
    generalize SIMPOS_MAX_PATH = bound
    fun_induction strnlen path bound with
    | case1 => omega
    | case2 => omega
    | case3 _ _ _ ih => omega
  rw [pathparser_path_valid_format]
  by_cases digit : isdigit (path.headD 0) = true
  · obtain ⟨c,rest,rfl⟩ : ∃ c rest, path = c :: rest := by
      cases path with
      | nil => exact absurd digit (by decide)
      | cons c rest => exact ⟨c,rest,rfl⟩
    have same : memcmp ((c :: rest) ++ [0]).tail [58,47,0] 2 = some 0 := by
      cases rest with
      | nil => rfl
      | cons separator rest =>
        by_cases colon : separator = 58
        · subst colon
          cases rest with
          | nil => rfl
          | cons slash rest =>
            by_cases is_slash : slash = 47
            · simp [memcmp,is_slash]
            · simp [memcmp,is_slash]
        · simp [memcmp,colon]
    simp only [length,digit,and_self,if_true,same]
    rfl
  · rw [Bool.not_eq_true] at digit
    rw [digit]
    exact if_neg fun both => Bool.false_ne_true both.2

theorem get_drive_number_digit {path : CString} (digit : isdigit (path.headD 0) = true) :
    pathparser_get_drive_number path = .ok (tonumericdigit (path.headD 0),
      if 3 ≤ path.length then some (path.drop 3) else none) ∧ 0 ≤ tonumericdigit (path.headD 0) := by
  refine ⟨?_,?_⟩
  · rw [pathparser_get_drive_number,path_valid_format_eq,digit]
    rfl
  · simp only [isdigit,decide_eq_true_eq,UInt8.le_iff_toNat_le] at digit
    have low : 48 ≤ (path.headD 0).toNat := digit.1
    rw [tonumericdigit]
    omega

theorem parse_not_digit {path : CString} (other : isdigit (path.headD 0) = false) (k : Kernel) :
    pathparser_parse path k = .ok (none,k) := by
  rw [pathparser_parse,pathparser_get_drive_number,path_valid_format_eq,other]
  rfl

private theorem ok_bind {α β : Type} (a : α) (f : α → Except Fault β) : (Except.ok a).bind f = f a := rfl

section
variable {live : List Extent} {k : Kernel} {path : CString}

private theorem create_root_granted (laid : Laid k.kernel_heap live) (room : 0 < freeBlocks k.kernel_heap)
    (drive_number : Int) : ∃ r k', Took k k' live r ∧
      pathparser_create_root drive_number k = (some ⟨blockAddress r,drive_number,[]⟩,k') := by
  rcases kzalloc_single laid (by decide : 0 < 8) (by decide) with ⟨full,_⟩ | ⟨r,k',granted,took⟩
  · omega
  · have pointer : blockAddress r ≠ 0 := by have := blockAddress_pos r; omega
    refine ⟨r,k',took,?_⟩
    simp only [pathparser_create_root,granted,pointer,if_false]

/-- What the parser goes on to do with a path that starts with a digit. -/
theorem parse_digit (laid : Laid k.kernel_heap live) (room : 0 < freeBlocks k.kernel_heap)
    (digit : isdigit (path.headD 0) = true) :
    ∃ r k', Took k k' live r ∧ pathparser_parse path k =
      (pathparser_parse_path_part [] (if 3 ≤ path.length then some (path.drop 3) else none) k').bind
        (parse_parts (path.length + 1) ⟨blockAddress r,tonumericdigit (path.headD 0),[]⟩) := by
  obtain ⟨valid,positive⟩ := get_drive_number_digit digit
  obtain ⟨r,k',took,created⟩ := create_root_granted laid room (tonumericdigit (path.headD 0))
  refine ⟨r,k',took,?_⟩
  have positive : ¬ tonumericdigit (path.headD 0) < 0 := by omega
  simp only [pathparser_parse,valid,ok_bind,positive,if_false,created]

/-- A path of which something is read comes back with exactly its names, each block of the
    result on the heap beside what was there. -/
theorem parse_names (path : CString) (laid : Laid k.kernel_heap live) (digit : isdigit (path.headD 0) = true)
    (long : 3 ≤ path.length) (named : names (path.drop 3) ≠ [])
    (room : 2 * (names (path.drop 3)).length + 1 ≤ freeBlocks k.kernel_heap)
    (short : ∀ p ∈ names (path.drop 3), p.length ≤ 4096) :
    ∃ (r : Int) (places : List Place) (k' : Kernel), places.map Place.name = names (path.drop 3) ∧
      Laid k'.kernel_heap (places.flatMap Place.extents ++ ⟨r,1⟩ :: live) ∧
      pathparser_parse path k =
        .ok (some ⟨blockAddress r,tonumericdigit (path.headD 0),places.map Place.part⟩,k') := by
  obtain ⟨r,k',took,parsed⟩ := parse_digit laid (by omega) digit
  have count := took.count
  have first : firstName (path.drop 3) ≠ [] := by
    intro unnamed
    rw [names,dif_pos unnamed] at named
    exact named rfl
  rw [names,dif_neg first] at room short ⊢
  rw [List.length_cons] at room
  have fits := short _ (List.mem_cons_self ..)
  have fuel := names_length (behind (path.drop 3))
  have shorter := behind_length first
  rw [List.length_drop] at shorter
  rcases parse_path_part_named took.laid (by omega) [] (path.drop 3) first with
    ⟨tooLong,_⟩ | ⟨place,k₂,name,laid₂,count',read⟩
  · omega
  · obtain ⟨places,k₃,same,laid₃,linked⟩ := parse_rest_correct (behind (path.drop 3)) (path.length + 1)
      [place.part] k₂ (by omega) laid₂ (by omega) fun p member => short p (List.mem_cons_of_mem _ member)
    refine ⟨r,place :: places,k₃,by rw [List.map_cons,name,same],laid₃.perm ?_,?_⟩
    · rw [List.flatMap_cons,List.append_assoc]
      exact List.perm_append_comm_assoc ..
    · simp only [parsed,long,if_true,read,ok_bind,parse_parts,List.nil_append,linked,Except.map,List.map_cons,
        List.singleton_append]

end

/-! ### Reading what was written -/

private theorem no_slash {p : CString} (slash : 47 ∉ p) : ∀ c ∈ p, decide (c ≠ 47) = true :=
  fun _ member => decide_eq_true fun same => slash (same ▸ member)

theorem firstName_of_slash (p rest : CString) (slash : 47 ∉ p) : firstName (p ++ 47 :: rest) = p := by
  rw [firstName,List.takeWhile_append_of_pos (no_slash slash)]
  simp

theorem behind_of_slash (p rest : CString) (slash : 47 ∉ p) : behind (p ++ 47 :: rest) = rest := by
  rw [behind,List.dropWhile_append_of_pos (no_slash slash)]
  simp

theorem firstName_of_last (p : CString) (slash : 47 ∉ p) : firstName p = p :=
  List.takeWhile_eq_self_iff.mpr (no_slash slash)

theorem behind_of_last (p : CString) (slash : 47 ∉ p) : behind p = [] := by
  rw [behind,List.dropWhile_eq_nil_iff.mpr (no_slash slash)]
  rfl

theorem names_nil : names [] = [] := by
  rw [names,dif_pos (by rfl)]
theorem leftover_nil : leftover [] = [] := by
  rw [leftover,dif_pos (by rfl)]

/-- The names of a written path are those it was written from, and nothing is left behind. -/
theorem names_joined {parts : List CString} (valid : ∀ p ∈ parts, Name p) (trailing : Bool) (nonempty : parts ≠ []) :
    names (joined parts ++ if trailing then [47] else []) = parts ∧
    leftover (joined parts ++ if trailing then [47] else []) = [] := by
  induction parts with
  | nil => exact absurd rfl nonempty
  | cons p rest ih =>
    have own := valid p (List.mem_cons_self ..)
    have read : ∀ tail, names (p ++ 47 :: tail) = p :: names tail ∧ leftover (p ++ 47 :: tail) = leftover tail := by
      intro tail
      have named : ¬ firstName (p ++ 47 :: tail) = [] := by
        rw [firstName_of_slash p tail own.slash]
        exact own.nonempty
      rw [names,dif_neg named,leftover,dif_neg named,firstName_of_slash p tail own.slash,
        behind_of_slash p tail own.slash]
      exact ⟨rfl,rfl⟩
    cases rest with
    | nil =>
      cases trailing with
      | true =>
        obtain ⟨same,none⟩ := read []
        rw [names_nil] at same
        rw [leftover_nil] at none
        exact ⟨same,none⟩
      | false =>
        have named : ¬ firstName p = [] := by
          rw [firstName_of_last p own.slash]
          exact own.nonempty
        simp only [joined,Bool.false_eq_true,if_false,List.append_nil]
        rw [names,dif_neg named,leftover,dif_neg named,firstName_of_last p own.slash,behind_of_last p own.slash,
          names_nil,leftover_nil]
        exact ⟨rfl,rfl⟩
    | cons q rest =>
      obtain ⟨same,none⟩ := ih (fun p member => valid p (List.mem_cons_of_mem _ member)) (List.cons_ne_nil q rest)
      rw [joined,List.append_assoc,List.cons_append,(read _).1,(read _).2,same,none]
      exact ⟨rfl,rfl⟩

/-- Parsing undoes writing, within the string and for every heap that has the blocks. -/
theorem parse_written {live : List Extent} {k : Kernel} {d : Nat} {parts : List CString} (digit : d < 10)
    (nonempty : parts ≠ []) (valid : ∀ p ∈ parts, Name p) (trailing : Bool) (laid : Laid k.kernel_heap live)
    (room : 2 * parts.length + 1 ≤ freeBlocks k.kernel_heap) :
    ∃ root k', pathparser_parse (written (UInt8.ofNat (48 + d)) parts trailing) k = .ok (some root,k') ∧
      root.drive_no = d ∧ root.first.map PathPart.part = parts := by
  have value : (UInt8.ofNat (48 + d)).toNat = 48 + d := by
    rw [UInt8.toNat_ofNat']
    omega
  have is_digit : isdigit (UInt8.ofNat (48 + d)) = true := by
    simp only [isdigit,decide_eq_true_eq,UInt8.le_iff_toNat_le,value]
    exact ⟨Nat.le_add_right 48 d,by show 48 + d ≤ 57; omega⟩
  have rest : names ((written (UInt8.ofNat (48 + d)) parts trailing).drop 3) = parts :=
    (names_joined valid trailing nonempty).1
  obtain ⟨r,places,k',named,_,parsed⟩ := parse_names (written (UInt8.ofNat (48 + d)) parts trailing) laid
    is_digit (by simp [written]) (by rwa [rest]) (by rwa [rest]) (fun p member => by
      rw [rest] at member
      have short := (valid p member).short
      simp only [SIMPOS_MAX_PATH] at short
      omega)
  refine ⟨_,k',parsed,?_,?_⟩
  · show tonumericdigit (UInt8.ofNat (48 + d)) = d
    rw [tonumericdigit,value]
    omega
  · rw [rest] at named
    rw [List.map_map]
    exact named

theorem parse_written_binary : ∃ root k', pathparser_parse (written (UInt8.ofNat (48 + 1)) [[98,105,110],[115,104]] true)
    ⟨fun _ => 0,kernel_heap_init fun _ => 0⟩ = .ok (some root,k') ∧
    root.drive_no = (1 : Nat) ∧ root.first.map PathPart.part = [[98,105,110],[115,104]] := by
  have names : ∀ p ∈ ([[98,105,110],[115,104]] : List CString), Name p := by
    intro p member
    rcases List.mem_cons.mp member with rfl | last
    · exact ⟨by decide,by decide,by decide,by decide⟩
    · rw [List.mem_singleton.mp last]
      exact ⟨by decide,by decide,by decide,by decide⟩
  refine parse_written (d := 1) (by decide) (by decide) names true (kernel_heap_init_laid _) ?_
  rw [freeBlocks_empty (kernel_heap_init_laid _)]
  decide

/-! ### Which strings are accepted -/

private theorem names_valid (path : CString) (terminated : 0 ∉ path) :
    ∀ p ∈ names path, p ≠ [] ∧ 47 ∉ p ∧ 0 ∉ p := by
  fun_induction names path with
  | case1 path unnamed => exact fun p member => nomatch member
  | case2 path named ih =>
    have whole := firstName_append_dropWhile path
    have rest : 0 ∉ behind path := by
      intro member
      refine terminated ?_
      rw [← whole]
      exact List.mem_append_right _ (List.mem_of_mem_tail member)
    intro p member
    rcases List.mem_cons.mp member with rfl | later
    · refine ⟨named,fun slash => ?_,fun zero => terminated ?_⟩
      · have kept := List.mem_takeWhile_imp slash
        simp at kept
      · rw [← whole]
        exact List.mem_append_left _ zero
    · exact ih rest p later

private theorem joined_names (path : CString) (whole : leftover path = []) (named : names path ≠ []) :
    ∃ trailing : Bool, path = joined (names path) ++ if trailing then [47] else [] := by
  fun_induction names path with
  | case1 path unnamed => exact absurd rfl named
  | case2 path first ih =>
    have split := firstName_append_dropWhile path
    rw [leftover,dif_neg first] at whole
    rw [behind] at whole ih ⊢
    cases rest : path.dropWhile (· ≠ 47) with
    | nil =>
      rw [rest,List.append_nil] at split
      rw [List.tail_nil,names_nil]
      exact ⟨false,by simpa [joined] using split.symm⟩
    | cons slash tail =>
      have stopped := List.head?_dropWhile_not (· ≠ (47 : UInt8)) path
      rw [rest] at stopped split whole ih
      have stopped : slash = 47 := by simpa using stopped
      subst stopped
      rw [List.tail_cons] at whole ih ⊢
      by_cases last : names tail = []
      · have unnamed : firstName tail = [] := by
          by_contra more
          rw [names,dif_neg more] at last
          exact List.cons_ne_nil _ _ last
        rw [leftover,dif_pos unnamed] at whole
        refine ⟨true,?_⟩
        rw [last,joined,if_pos rfl,← whole]
        exact split.symm
      · obtain ⟨trailing,same⟩ := ih whole last
        refine ⟨trailing,?_⟩
        obtain ⟨q,qs,more⟩ := List.exists_cons_of_ne_nil last
        rw [more] at same ⊢
        rw [joined,List.append_assoc,List.cons_append,← same]
        exact split.symm

/-- The separator stands, the names are short and nothing is left behind the last one. -/
structure WellFormed (s : CString) : Prop where
  separator : s.take 3 = [s.headD 0,58,47]
  short : ∀ p ∈ names (s.drop 3), p.length < SIMPOS_MAX_PATH
  whole : leftover (s.drop 3) = []

/-- The grammar, read off the string. -/
theorem grammar_iff {s : CString} (terminated : 0 ∉ s) :
    Grammar s ↔ isdigit (s.headD 0) ∧ names (s.drop 3) ≠ [] ∧ WellFormed s := by
  constructor
  · rintro ⟨drive,parts,trailing,digit,nonempty,valid,rfl⟩
    obtain ⟨same,none⟩ := names_joined valid trailing nonempty
    have same : names ((written drive parts trailing).drop 3) = parts := same
    refine ⟨digit,by rwa [same],rfl,fun p member => ?_,none⟩
    rw [same] at member
    exact (valid p member).short
  · rintro ⟨digit,named,separator,short,whole⟩
    obtain ⟨trailing,same⟩ := joined_names (s.drop 3) whole named
    have rest : 0 ∉ s.drop 3 := fun member => terminated (List.mem_of_mem_drop member)
    refine ⟨s.headD 0,names (s.drop 3),trailing,digit,named,fun p member => ?_,?_⟩
    · obtain ⟨nonempty,slash,zero⟩ := names_valid (s.drop 3) rest p member
      exact ⟨nonempty,slash,zero,short p member⟩
    · rw [written,← same]
      have split := (List.take_append_drop 3 s).symm
      rwa [separator] at split

/-- The parser stays inside the string and accepts it exactly when the grammar has it. -/
def Judged (s : CString) (k : Kernel) : Prop :=
  ∃ root k', pathparser_parse s k = .ok (root,k') ∧ (root ≠ none ↔ Grammar s)

section
variable {live : List Extent} {k : Kernel} {s : CString}

private theorem judged_not_digit (terminated : 0 ∉ s) (other : isdigit (s.headD 0) = false) : Judged s k := by
  refine ⟨none,k,parse_not_digit other k,fun accepted => absurd rfl accepted,fun grammar => ?_⟩
  have digit := ((grammar_iff terminated).mp grammar).1
  rw [other] at digit
  exact absurd digit Bool.false_ne_true

/-- Behind a string of one byte or two the cursor has passed the NUL. -/
private theorem parse_past_nul (laid : Laid k.kernel_heap live) (room : 2 ≤ freeBlocks k.kernel_heap)
    (digit : isdigit (s.headD 0) = true) (small : ¬ 3 ≤ s.length) : pathparser_parse s k = .error .overread := by
  obtain ⟨r,k',took,parsed⟩ := parse_digit laid (by omega) digit
  have count := took.count
  rcases kzalloc_single took.laid (by decide : 0 < SIMPOS_MAX_PATH) (by decide) with ⟨full,_⟩ | ⟨c,k₂,granted,_⟩
  · omega
  · have pointer : blockAddress c ≠ 0 := by have := blockAddress_pos c; omega
    have read : pathparser_parse_path_part [] none k' = .error .overread := by
      simp only [pathparser_parse_path_part,pathparser_get_path_part,granted,pointer,if_false]
      rfl
    rw [parsed,if_neg small,read]
    rfl

private theorem parse_unnamed (laid : Laid k.kernel_heap live) (room : 0 < freeBlocks k.kernel_heap)
    (digit : isdigit (s.headD 0) = true) (long : 3 ≤ s.length) (unnamed : names (s.drop 3) = []) :
    ∃ k', pathparser_parse s k = .ok (none,k') := by
  obtain ⟨r,k',took,parsed⟩ := parse_digit laid room digit
  have first : firstName (s.drop 3) = [] := by
    by_contra more
    rw [names,dif_neg more] at unnamed
    exact List.cons_ne_nil _ _ unnamed
  obtain ⟨path',k₂,read,_⟩ := parse_path_part_unnamed took.laid [] (s.drop 3) first
  refine ⟨kfree k₂ (blockAddress r),?_⟩
  rw [parsed,if_pos long,read]
  rfl

/-- Once a first part is read no later part can make the parser refuse. -/
private theorem parse_named (laid : Laid k.kernel_heap live) (room : 3 ≤ freeBlocks k.kernel_heap)
    (digit : isdigit (s.headD 0) = true) (long : 3 ≤ s.length) (named : names (s.drop 3) ≠ [])
    {root : Option PathRoot} {k' : Kernel} (accepted : pathparser_parse s k = .ok (root,k')) : root ≠ none := by
  obtain ⟨r,k₁,took,parsed⟩ := parse_digit laid (by omega) digit
  have count := took.count
  have first : firstName (s.drop 3) ≠ [] := by
    intro unnamed
    rw [names,dif_pos unnamed] at named
    exact named rfl
  rw [parsed,if_pos long] at accepted
  rcases parse_path_part_named took.laid (by omega) [] (s.drop 3) first with
    ⟨_,overflow⟩ | ⟨place,k₂,_,_,_,read⟩
  · rw [overflow] at accepted
    cases accepted
  · rw [read,ok_bind] at accepted
    cases rest : parse_rest (s.length + 1) [place.part] (some (behind (s.drop 3))) k₂ with
    | error fault =>
      simp only [parse_parts,List.nil_append,rest,Except.map] at accepted
      cases accepted
    | ok result =>
      simp only [parse_parts,List.nil_append,rest,Except.map,Except.ok.injEq,Prod.mk.injEq] at accepted
      rw [← accepted.1]
      exact Option.some_ne_none _

/-- The parser judges a string as the grammar does exactly when it does not start with a
    digit, or has three bytes at least and no name is read behind them unless the whole
    string is well formed. -/
theorem parse_judged_iff (terminated : 0 ∉ s) (laid : Laid k.kernel_heap live)
    (room : s.length + 1 ≤ freeBlocks k.kernel_heap) :
    Judged s k ↔
      (isdigit (s.headD 0) = true → 3 ≤ s.length ∧ (names (s.drop 3) ≠ [] → WellFormed s)) := by
  have drop : (s.drop 3).length = s.length - 3 := List.length_drop
  have fewNames := names_length (s.drop 3)
  rw [drop] at fewNames
  constructor
  · rintro ⟨root,k',parsed,judged⟩ digit
    have some : 0 < s.length := by
      cases s with
      | nil => exact absurd digit (by decide)
      | cons c rest => exact Nat.succ_pos _
    have long : 3 ≤ s.length := by
      by_contra small
      rw [parse_past_nul laid (by omega) digit small] at parsed
      cases parsed
    refine ⟨long,fun named => ?_⟩
    have more := List.length_pos_iff.mpr named
    have accepted := parse_named laid (by omega) digit long named parsed
    exact ((grammar_iff terminated).mp (judged.mp accepted)).2.2
  · intro meant
    by_cases digit : isdigit (s.headD 0) = true
    · obtain ⟨long,wellFormed⟩ := meant digit
      by_cases named : names (s.drop 3) = []
      · obtain ⟨k',parsed⟩ := parse_unnamed laid (by omega) digit long named
        refine ⟨none,k',parsed,fun accepted => absurd rfl accepted,fun grammar => ?_⟩
        exact absurd named ((grammar_iff terminated).mp grammar).2.1
      · have whole := wellFormed named
        obtain ⟨r,places,k',_,_,parsed⟩ := parse_names s laid digit long named (by omega) fun p member => by
          have short := whole.short p member
          simp only [SIMPOS_MAX_PATH] at short
          omega
        refine ⟨_,k',parsed,fun _ => (grammar_iff terminated).mpr ⟨digit,named,whole⟩,fun _ => ?_⟩
        exact Option.some_ne_none _
    · exact judged_not_digit terminated (Bool.not_eq_true _ ▸ digit)

end

/-- A path without a slash has one name. -/
private theorem names_single {path : CString} (first : firstName path = path) (rest : behind path = []) (nonempty : path ≠ []) :
    names path = [path] ∧ leftover path = [] := by
  have named : ¬firstName path = [] := by rwa [first]
  constructor
  · rw [names,dif_neg named,first,rest,names_nil]
  · rw [leftover,dif_neg named,rest,leftover_nil]

private theorem blank_room {n : Nat} (few : n ≤ 25600) : n ≤ freeBlocks (kernel_heap_init fun _ => 0) := by
  rw [freeBlocks_empty (kernel_heap_init_laid _)]
  exact few

/-- The path 0:/sh is accepted. -/
theorem parse_judged_shell : Judged [48,58,47,115,104] ⟨fun _ => 0,kernel_heap_init fun _ => 0⟩ := by
  refine (parse_judged_iff (k := ⟨fun _ => 0,kernel_heap_init fun _ => 0⟩) (by decide) (kernel_heap_init_laid _)
    (blank_room (by simp))).mpr fun _ => ⟨by decide,fun _ => ?_⟩
  obtain ⟨one,whole⟩ := @names_single [115,104] (by decide) (by decide) (by decide)
  refine ⟨rfl,fun p member => ?_,whole⟩
  have own : p ∈ names [115,104] := member
  rw [one,List.mem_singleton] at own
  rw [own]
  decide

/-- The separator is never looked at: 0--a is read as the name a on drive 0. -/
theorem separator_unread : 0 ∉ ([48,45,45,97] : CString) ∧ Laid (kernel_heap_init fun _ => 0) [] ∧
    ¬Judged [48,45,45,97] ⟨fun _ => 0,kernel_heap_init fun _ => 0⟩ := by
  refine ⟨by decide,kernel_heap_init_laid _,?_⟩
  rintro ⟨root,k',parsed,accepted⟩
  have named : names (([48,45,45,97] : CString).drop 3) = [[97]] := (names_single (by decide) (by decide) (by decide)).1
  have is_some := parse_named (k := ⟨fun _ => 0,kernel_heap_init fun _ => 0⟩) (kernel_heap_init_laid _) (blank_room (by simp))
    (by decide) (by decide) (by rw [named]; exact List.cons_ne_nil _ _) parsed
  have separator := ((grammar_iff (by decide)).mp (accepted.mp is_some)).2.2.separator
  exact absurd separator (by decide)

end SimpOS.ParsedPaths
