import SimpOS.PageDirectories
import SimpOS.TaskMemory

/-!
What `paging_map_to` does to a page directory that `paging_new_4gb` has made, at any later
time, and the entries such a directory starts with: every page of the address space leads to
itself.
-/
namespace SimpOS.PageMapping
open SimpOS.Machine SimpOS.Memory SimpOS.Extents SimpOS.Paging SimpOS.AddressSpaces SimpOS.KernelHeap SimpOS.PageDirectories
open SimpOS.TaskMemory

/-- The memory at a later time: calls have mapped pages of the chunk's directory, and other
    writes have missed the chunk, the directory and its tables. -/
inductive Later (chunk : Nat) (start : Bytes) : Bytes → Prop
  | start : Later chunk start start
  | call {m : Bytes} (mapping : MapCall) : Later chunk start m → Later chunk start (mapping.apply chunk m)
  | elsewhere {m m' : Bytes} : Later chunk start m →
      (∀ x, InSpace m (read32 m chunk) x ∨ (chunk ≤ x ∧ x < chunk + 4) → m' x = m x) → Later chunk start m'

/-- The n pages from virt on, around the end of the address space, lead to those from phys on with
    the flags; no other entry and no word of the directory is another. -/
structure MapsPages (m m' : Bytes) (directory virt phys n flags : Nat) : Prop where
  page : ∀ i < n, paging_get m' directory (offset virt (4096 * i)) = (phys + 4096 * i) ||| flags
  others : ∀ v, v % 4096 = 0 → v < 4294967296 → (∀ i < n, v ≠ offset virt (4096 * i)) →
    paging_get m' directory v = paging_get m directory v
  words : ∀ i < 1024, read32 m' (offset directory (4 * i)) = read32 m (offset directory (4 * i))
  physical : ∀ d < 4096 * n, paging_get_physical_address m' directory (offset virt d) = phys + d

/-! ### A directory that was made -/

private theorem kzalloc_counts {k : Kernel} {live : List Extent} {size : Nat} (laid : Laid k.kernel_heap live)
    (positive : 0 < size) (small : size ≤ 4096) :
    (∃ live', Laid (kzalloc k size).2.kernel_heap live') ∧
      freeBlocks (kzalloc k size).2.kernel_heap = freeBlocks k.kernel_heap - 1 ∧
      (freeBlocks k.kernel_heap = 0 → (kzalloc k size).1 = 0) := by
  rcases kzalloc_single laid positive small with ⟨full,refused⟩ | ⟨b,k',granted,took⟩
  · rw [refused]
    exact ⟨⟨live,laid⟩,by simp only; omega,fun _ => rfl⟩
  · have count := took.count
    rw [granted]
    exact ⟨⟨_,took.laid⟩,by simp only; omega,fun full => by omega⟩

private theorem paging_new_4gb_tables_counts (directory flags remaining : Nat) :
    ∀ (i : Nat) (base : Int) (k : Kernel), (∃ live, Laid k.kernel_heap live) →
      (∃ live, Laid (paging_new_4gb_tables directory flags remaining i base k).kernel_heap live) ∧
      freeBlocks (paging_new_4gb_tables directory flags remaining i base k).kernel_heap =
        freeBlocks k.kernel_heap - remaining := by
  induction remaining with
  | zero => exact fun i base k laid => ⟨laid,rfl⟩
  | succ remaining ih =>
    rintro i base k ⟨live,laid⟩
    obtain ⟨laid',count,_⟩ := kzalloc_counts laid (by decide : 0 < 4 * PAGING_TOTAL_ENTRIES_PER_TABLE) (by decide)
    have heap : (paging_new_4gb_table directory flags i base k).kernel_heap =
        (kzalloc k (4 * PAGING_TOTAL_ENTRIES_PER_TABLE)).2.kernel_heap := rfl
    rw [← heap] at laid' count
    rw [paging_new_4gb_tables]
    obtain ⟨laid'',count'⟩ := ih (i + 1) (i32 (base + PAGING_TOTAL_ENTRIES_PER_TABLE * PAGING_PAGE_SIZE)) _ laid'
    refine ⟨laid'',?_⟩
    rw [count',count]
    omega

/-- A directory is only made where the heap had a block for each of its parts. -/
theorem paging_new_4gb_room {k : Kernel} {live : List Extent} (laid : Laid k.kernel_heap live) (flags : UInt8)
    (made : (paging_new_4gb k flags).1 ≠ 0) : 1026 ≤ freeBlocks k.kernel_heap := by
  by_contra short
  obtain ⟨laid₁,count₁,_⟩ := kzalloc_counts laid (by decide : 0 < 4 * PAGING_TOTAL_ENTRIES_PER_TABLE) (by decide)
  obtain ⟨n,thousand⟩ : ∃ n, n = PAGING_TOTAL_ENTRIES_PER_TABLE := ⟨_,rfl⟩
  obtain ⟨k₁,first⟩ : ∃ k₁, (kzalloc k (4 * PAGING_TOTAL_ENTRIES_PER_TABLE)).2 = k₁ := ⟨_,rfl⟩
  obtain ⟨directory,pointer⟩ : ∃ directory, (kzalloc k (4 * PAGING_TOTAL_ENTRIES_PER_TABLE)).1 = directory := ⟨_,rfl⟩
  rw [first] at laid₁ count₁
  obtain ⟨⟨live₂,laid₂⟩,count₂⟩ := paging_new_4gb_tables_counts directory flags.toNat n 0 0 k₁ laid₁
  obtain ⟨k₂,second⟩ : ∃ k₂, paging_new_4gb_tables directory flags.toNat n 0 0 k₁ = k₂ := ⟨_,rfl⟩
  rw [second] at laid₂ count₂
  obtain ⟨_,_,refused⟩ := kzalloc_counts laid₂ (by decide : 0 < 4) (by decide)
  refine made ?_
  have parts : paging_new_4gb k flags = paging_new_4gb_chunk directory k₂ := by
    rw [paging_new_4gb,← second,thousand,← first,← pointer]
  have chunk : (paging_new_4gb_chunk directory k₂).1 = (kzalloc k₂ 4).1 := rfl
  rw [parts,chunk]
  have thousand : n = 1024 := thousand
  exact refused (by omega)

theorem paging_new_4gb_made {k k' : Kernel} {live : List Extent} {chunk : Nat} {flags : UInt8} (laid : Laid k.kernel_heap live)
    (made : paging_new_4gb k flags = (chunk,k')) (success : chunk ≠ 0) :
    ∃ tables d c, chunk = blockAddress c ∧ 0 ≤ c ∧ c < 25600 ∧ Created k' live tables d c := by
  have room := paging_new_4gb_room laid flags (by rw [made]; exact success)
  obtain ⟨tables,d,c,k'',result,created⟩ := paging_new_4gb_created laid room flags
  obtain ⟨rfl,rfl⟩ := Prod.mk.inj (made.symm.trans result)
  have free := (laid_singles created.laid).2 c (List.mem_append_right _ (List.mem_cons_of_mem _ (List.mem_cons_self ..)))
  exact ⟨tables,d,c,rfl,free.low,free.high,created⟩

/-- The directory stays one whose tables are pages of their own. -/
theorem Later.space {chunk : Nat} {start m : Bytes} (high : chunk + 4 ≤ 4294967296) (later : Later chunk start m)
    (space : AddressSpace start (read32 start chunk)) (outside : Outside start chunk) :
    AddressSpace m (read32 m chunk) ∧ Outside m chunk := by
  induction later with
  | start => exact ⟨space,outside⟩
  | @call m mapping _ ih =>
    obtain ⟨same,entry,remapped⟩ := mapCalls_remapped high [mapping] ih.1 ih.2
    rw [List.foldl_cons,List.foldl_nil] at same remapped
    refine ⟨same ▸ remapped.space,fun x low below inTables => ?_⟩
    rw [same,remapped.inTables] at inTables
    exact ih.2 x low below inTables
  | @elsewhere m m' _ kept ih =>
    have same : read32 m' chunk = read32 m chunk :=
      read32_congr high fun x low below => kept x (.inr ⟨low,below⟩)
    have unchanged := ih.1.agree fun x inside => kept x (.inl inside)
    rw [Outside,same]
    refine ⟨unchanged.space,fun x low below inTables => ?_⟩
    obtain ⟨i,inside,bounds⟩ := inTables
    refine ih.2 x low below ⟨i,inside,?_⟩
    rwa [pageTable,unchanged.words i inside] at bounds

/-! ### What a new directory maps -/

private theorem entries_written {entry flags : Nat} (high : entry + 4096 ≤ 4294967296) (small : flags < 256)
    (remaining : Nat) : ∀ (base : Int) (b : Nat) (m : Bytes) (j : Nat), b + remaining ≤ 1024 → j < 1024 →
      read32 (paging_new_4gb_entries entry flags base remaining b m) (entry + 4 * j) =
        if b ≤ j ∧ j < b + remaining then u32 (base + j * PAGING_PAGE_SIZE) ||| flags else read32 m (entry + 4 * j) := by
  induction remaining with
  | zero =>
    intro base b m j _ _
    rw [paging_new_4gb_entries,if_neg (by omega)]
  | succ remaining ih =>
    intro base b m j inside below
    have value : u32 (base + b * PAGING_PAGE_SIZE) ||| flags < 4294967296 :=
      Nat.or_lt_two_pow (n := 32) (u32_lt _) (by omega)
    rw [paging_new_4gb_entries,ih base (b + 1) _ j (by omega) below,offset_of_lt (by omega)]
    by_cases here : j = b
    · rw [if_neg (by omega),if_pos (by omega),here]
      exact read32_write32_same (by omega) value m
    · rw [read32_write32_apart (by omega) (by omega) (by omega)]
      exact if_congr (by omega) rfl rfl

section
variable {live : List Extent} {d : Int} {flags : Nat}

/-- The entries of the table behind word i, the pages from base on. -/
def TableFrom (m : Bytes) (directory i flags : Nat) (base : Int) : Prop :=
  ∀ j < 1024, read32 m (pageTable m directory i + 4 * j) = u32 (base + j * PAGING_PAGE_SIZE) ||| flags

private theorem paging_new_4gb_table_from {k : Kernel} (laid : Laid k.kernel_heap live)
    (room : 0 < freeBlocks k.kernel_heap) (member : single d ∈ live) (dLow : 0 ≤ d) (dHigh : d < 25600)
    (small : flags < 256) {i : Nat} (inside : i < 1024) (base : Int) :
    TableFrom (paging_new_4gb_table (blockAddress d) flags i base k).memory (blockAddress d) i flags base := by
  have dPage := blockAddress_high dHigh
  rcases kzalloc_single laid (by decide : 0 < 4 * PAGING_TOTAL_ENTRIES_PER_TABLE) (by decide) with
    ⟨full,_⟩ | ⟨t,k₁,granted,took⟩
  · omega
  have tPage := blockAddress_high took.free.high
  have slot : offset (blockAddress d) (4 * i) = blockAddress d + 4 * i := offset_of_lt (by omega)
  have word : blockAddress t ||| flags ||| PAGING_IS_WRITEABLE < 4294967296 :=
    Nat.or_lt_two_pow (n := 32) (Nat.or_lt_two_pow (n := 32) (by omega) (by omega)) (by decide)
  have apart : t ≠ d := by
    rintro rfl
    exact took.free.uncovered ⟨_,member,mem_single.mpr rfl⟩
  have pages : blockAddress d + 4096 ≤ blockAddress t ∨ blockAddress t + 4096 ≤ blockAddress d := by
    have low := took.free.low
    simp only [blockAddress,SIMPOS_HEAP_ADDRESS]
    omega
  intro j below
  have table : pageTable (write32 (paging_new_4gb_entries (blockAddress t) flags base PAGING_TOTAL_ENTRIES_PER_TABLE 0
      k₁.memory) (blockAddress d + 4 * i) (blockAddress t ||| flags ||| PAGING_IS_WRITEABLE)) (blockAddress d) i =
      blockAddress t := by
    rw [pageTable,slot,read32_write32_same (by omega) word]
    exact masked (blockAddress_aligned t) tPage small
  rw [paging_new_4gb_table,granted]
  simp only [slot]
  rw [table,read32_write32_apart (by omega) (by omega) (by omega),
    entries_written tPage small _ base 0 _ j (by decide) below,if_pos (by simpa using below)]

/-- What lies outside the words and the tables that filling adds stays in a table filled before. -/
private theorem TableFrom.kept {m m' : Bytes} {i : Nat} {base : Int} {t : Int} (table : TableFrom m (blockAddress d) i flags base)
    (place : pageTable m (blockAddress d) i = blockAddress t) (dPage : blockAddress d + 4096 ≤ 4294967296) (inside : i < 1024)
    (word : ∀ x, blockAddress d + 4 * i ≤ x → x < blockAddress d + 4 * i + 4 → m' x = m x)
    (same : ∀ x, InBlock t x → m' x = m x) : TableFrom m' (blockAddress d) i flags base := by
  have tPage := pageTable_high m (blockAddress d) i
  rw [place] at tPage
  have slot : offset (blockAddress d) (4 * i) = blockAddress d + 4 * i := offset_of_lt (by omega)
  have place' : pageTable m' (blockAddress d) i = blockAddress t := by
    rw [← place,pageTable,pageTable,slot,read32_congr (by omega) word]
  intro j below
  rw [place',← table j below,place]
  exact read32_congr (by omega) fun x low high => same x ⟨by omega,by omega⟩

private theorem paging_new_4gb_tables_from (dLow : 0 ≤ d) (dHigh : d < 25600) (small : flags < 256) (remaining : Nat) :
    ∀ (live : List Extent) (i : Nat) (base : Int) (k : Kernel), Laid k.kernel_heap live →
      remaining ≤ freeBlocks k.kernel_heap → i + remaining ≤ 1024 → single d ∈ live →
      ∀ n < remaining, TableFrom (paging_new_4gb_tables (blockAddress d) flags remaining i base k).memory
        (blockAddress d) (i + n) flags (base + n * 4194304) := by
  induction remaining with
  | zero => exact fun live i base k _ _ _ _ n below => absurd below (Nat.not_lt_zero n)
  | succ remaining ih =>
    intro live i base k laid room inside member n below
    have dPage := blockAddress_high dHigh
    have table := paging_new_4gb_table_from laid (by omega) member dLow dHigh small (by omega : i < 1024) base
    obtain ⟨t,first⟩ := paging_new_4gb_table_filled laid (by omega) dHigh small (by omega : i < 1024) base
    have count := first.count
    rw [List.length_singleton] at count
    have word := first.words 0 t rfl
    rw [Nat.add_zero] at word
    rw [paging_new_4gb_tables]
    obtain ⟨k₁,made⟩ : ∃ k₁, paging_new_4gb_table (blockAddress d) flags i base k = k₁ := ⟨_,rfl⟩
    rw [made] at table first word count ⊢
    have tFree := first.table_free (List.mem_singleton.mpr rfl)
    have tPage := blockAddress_high tFree.high
    have place : pageTable k₁.memory (blockAddress d) i = blockAddress t := by
      rw [pageTable,offset_of_lt (by omega),word]
      exact masked (blockAddress_aligned t) tPage small
    obtain ⟨base',next⟩ : ∃ base', i32 (base + PAGING_TOTAL_ENTRIES_PER_TABLE * PAGING_PAGE_SIZE) = base' := ⟨_,rfl⟩
    rw [next]
    cases n with
    | zero =>
      obtain ⟨tables,_,rest⟩ := paging_new_4gb_tables_filled dLow dHigh small remaining (single t :: live) (i + 1) base' k₁
        first.laid (by omega) (by omega) (List.mem_cons_of_mem _ member)
      have apart : ∀ x, InBlock d x ∨ InBlock t x → ∀ u ∈ tables, ¬ InBlock u x := by
        rintro x own u listed inU
        have free := rest.table_free listed
        rcases own with inD | inT
        · exact free.uncovered ⟨_,List.mem_cons_of_mem _ member,mem_single.mpr (inU.unique inD free.low dLow)⟩
        · exact free.uncovered ⟨_,List.mem_cons_self ..,mem_single.mpr (inU.unique inT free.low tFree.low)⟩
      rw [Nat.add_zero,show base + (0 : Nat) * 4194304 = base by omega]
      refine table.kept place dPage (by omega) (fun x low high => ?_) fun x inT => ?_
      · exact rest.frame x (by omega) (apart x (.inl ⟨by omega,by omega⟩))
      · refine rest.frame x (fun inWords => ?_) (apart x (.inr inT))
        have inD : InBlock d x := ⟨by omega,by omega⟩
        exact tFree.uncovered ⟨_,member,mem_single.mpr (inT.unique inD tFree.low dLow)⟩
    | succ n =>
      have rest := ih (single t :: live) (i + 1) base' k₁ first.laid (by omega) (by omega) (List.mem_cons_of_mem _ member)
        n (by omega)
      intro j inTable
      rw [show i + (n + 1) = i + 1 + n by omega,rest j inTable,← next]
      refine congrArg (· ||| flags) ?_
      simp only [u32,i32,PAGING_TOTAL_ENTRIES_PER_TABLE,PAGING_PAGE_SIZE]
      omega

end

private theorem page_of_indexes {v : Nat} (aligned : v % 4096 = 0) (high : v < 4294967296) :
    u32 ((v / 4194304 : Nat) * 4194304 + (v % 4194304 / 4096 : Nat) * PAGING_PAGE_SIZE) = v := by
  unfold u32
  simp only [PAGING_PAGE_SIZE]
  omega

/-- A new directory leads every page of the address space to itself, with the flags asked for. -/
theorem paging_new_4gb_identity {k k' : Kernel} {live : List Extent} {chunk : Nat} {flags : UInt8}
    (laid : Laid k.kernel_heap live) (made : paging_new_4gb k flags = (chunk,k')) (success : chunk ≠ 0) {v : Nat}
    (aligned : v % 4096 = 0) (high : v < 4294967296) :
    paging_get k'.memory (read32 k'.memory chunk) v = v ||| flags.toNat := by
  have small := flags.toNat_lt
  have room := paging_new_4gb_room laid flags (by rw [made]; exact success)
  rcases kzalloc_single laid (by decide : 0 < 4 * PAGING_TOTAL_ENTRIES_PER_TABLE) (by decide) with
    ⟨full,_⟩ | ⟨d,k₁,granted,took⟩
  · omega
  have count := took.count
  have dPage := blockAddress_high took.free.high
  obtain ⟨n,entries⟩ : ∃ n, n = PAGING_TOTAL_ENTRIES_PER_TABLE := ⟨_,rfl⟩
  have thousand : n = 1024 := entries
  have tables := paging_new_4gb_tables_from took.free.low took.free.high small n (single d :: live) 0 0 k₁ took.laid
    (by omega) (by omega) (List.mem_cons_self ..) (v / 4194304) (by omega)
  obtain ⟨listed,length,filled⟩ := paging_new_4gb_tables_filled took.free.low took.free.high small n (single d :: live) 0 0
    k₁ took.laid (by omega) (by omega) (List.mem_cons_self ..)
  obtain ⟨k₂,filling⟩ : ∃ k₂, paging_new_4gb_tables (blockAddress d) flags.toNat n 0 0 k₁ = k₂ := ⟨_,rfl⟩
  rw [filling] at filled tables
  have count' := filled.count
  rcases kzalloc_single filled.laid (by decide : 0 < 4) (by decide) with ⟨full,_⟩ | ⟨c,k₃,granted',took'⟩
  · omega
  have cPage := blockAddress_high took'.free.high
  have parts : paging_new_4gb k flags = (blockAddress c,
      { k₃ with memory := write32 k₃.memory (blockAddress c) (blockAddress d) }) := by
    rw [paging_new_4gb_eq granted,← entries,filling,paging_new_4gb_chunk,granted']
  obtain ⟨rfl,rfl⟩ := Prod.mk.inj (made.symm.trans parts)
  clear made parts
  obtain ⟨m,written⟩ : ∃ m, m = write32 k₃.memory (blockAddress c) (blockAddress d) := ⟨_,rfl⟩
  show paging_get (write32 k₃.memory (blockAddress c) (blockAddress d)) (read32 (write32 k₃.memory (blockAddress c)
    (blockAddress d)) (blockAddress c)) v = _
  rw [← written]
  have elsewhere : ∀ b, 0 ≤ b → single b ∈ listed.map single ++ single d :: live → ∀ x, InBlock b x →
      m x = k₂.memory x := by
    intro b low member x inB
    have other : ¬ InBlock c x := by
      intro inC
      exact took'.free.uncovered ⟨_,member,mem_single.mpr (inC.unique inB took'.free.low low)⟩
    rw [written,write32_apply (by omega),if_neg fun inWord => other ⟨inWord.1,by omega⟩]
    exact took'.frame x other
  have inside : v / 4194304 < 1024 := by omega
  obtain ⟨t,found⟩ : ∃ t, listed[v / 4194304]? = some t := ⟨_,List.getElem?_eq_getElem (by omega)⟩
  have tFree := filled.table_free (List.mem_of_getElem? found)
  have tPage := blockAddress_high tFree.high
  have place : pageTable k₂.memory (blockAddress d) (v / 4194304) = blockAddress t := by
    rw [pageTable,offset_of_lt (by omega),← masked (blockAddress_aligned t) tPage small,
      ← filled.words _ t found,Nat.zero_add]
  have kept : TableFrom m (blockAddress d) (v / 4194304) flags.toNat
      ((v / 4194304 : Nat) * 4194304) := by
    rw [Nat.zero_add,Int.zero_add] at tables
    refine tables.kept place dPage inside (fun x low below => ?_) fun x inT => ?_
    · exact elsewhere d took.free.low (List.mem_append_right _ (List.mem_cons_self ..)) x ⟨by omega,by omega⟩
    · exact elsewhere t tFree.low (List.mem_append_left _ (List.mem_map_of_mem (List.mem_of_getElem? found))) x inT
  have directory : read32 m (blockAddress c) = blockAddress d := by
    rw [written]
    exact read32_write32_same (by omega) (by omega) _
  have slot : v % 4194304 / 4096 < 1024 := by omega
  rw [directory,paging_get_aligned _ _ aligned,kept _ slot,page_of_indexes aligned high]

/-! ### Mapping -/

theorem offset_above {virt v : Nat} (high : v < 4294967296) : offset virt (above virt v) = v := by
  unfold offset above u32
  omega
theorem above_offset {virt d : Nat} (small : d < 4294967296) : above virt (offset virt d) = d := by
  unfold above offset u32
  omega
theorem offset_steps {virt d : Nat} (aligned : virt % 4096 = 0) : offset virt d % 4096 = d % 4096 := by
  unfold offset u32
  omega

/-- The page an address lies in, and its distance from there. -/
theorem paging_get_physical_address_eq {m : Bytes} {directory v page frame flags : Nat} (high : v < 4294967296)
    (lower : v - v % 4096 = page) (entry : paging_get m directory page = frame + flags) (aligned : frame % 4096 = 0)
    (inside : frame + 4096 ≤ 4294967296) (low : flags < 4096) :
    paging_get_physical_address m directory v = frame + v % 4096 := by
  have distance : u32 ((v : Int) - (v - v % 4096 : Nat)) = v % 4096 := by
    unfold u32
    omega
  simp only [paging_get_physical_address,paging_align_to_lower_page,PAGING_PAGE_SIZE,distance]
  rw [lower,entry,and_page (by omega),show frame + flags - (frame + flags) % 4096 = frame by omega,
    offset_of_lt (by omega)]

theorem mapsPages {m m' : Bytes} {directory virt phys n flags : Nat} (virtAligned : virt % 4096 = 0)
    (physAligned : phys % 4096 = 0) (fits : phys + 4096 * n < 4294967296) (low : flags < 4096)
    (remapped : Remapped m m' directory fun w => if above virt w < 4096 * n then phys + above virt w + flags
      else paging_get m directory w) : MapsPages m m' directory virt phys n flags := by
  have page : ∀ i < n, paging_get m' directory (offset virt (4096 * i)) = phys + 4096 * i + flags := by
    intro i inside
    have aligned := offset_steps (d := 4096 * i) virtAligned
    have distance : above virt (offset virt (4096 * i)) = 4096 * i := above_offset (by omega)
    rw [remapped.entries _ (by omega) (offset_lt ..),distance,if_pos (by omega)]
  refine ⟨fun i inside => ?_,fun v aligned high apart => ?_,remapped.words,fun d inside => ?_⟩
  · rw [page i inside,or_flags (by omega) low]
  · rw [remapped.entries v aligned high,if_neg]
    intro inside
    have steps : above virt v % 4096 = 0 := by unfold above u32; omega
    refine apart (above virt v / 4096) (by omega) ?_
    rw [show 4096 * (above virt v / 4096) = above virt v by omega,offset_above high]
  · have rest := offset_steps (d := d) virtAligned
    have start : offset virt d - offset virt d % 4096 = offset virt (4096 * (d / 4096)) := by
      unfold offset u32 at rest ⊢
      omega
    rw [paging_get_physical_address_eq (offset_lt ..) start (page (d / 4096) (by omega)) (by omega) (by omega) low]
    omega

/-- What a call to `paging_map_to` comes to: it fails, with nothing changed, exactly on arguments
    that are not page aligned or run backwards, and otherwise maps its pages. -/
structure ExactlyMaps (m : Bytes) (directory virt phys phys_end flags : Nat) (result : Int × Bytes) : Prop where
  fails : result.1 < 0 ↔ virt % 4096 ≠ 0 ∨ phys % 4096 ≠ 0 ∨ phys_end % 4096 ≠ 0 ∨ phys_end < phys
  unchanged : result.1 < 0 → result.2 = m
  maps : 0 ≤ result.1 → result.1 = 0 ∧ MapsPages m result.2 directory virt phys ((phys_end - phys) / 4096) flags

/-- At any time after a page directory was made, mapping takes exactly the pages it is asked for. -/
theorem paging_map_to_exact {k k' : Kernel} {live : List Extent} {chunk : Nat} {new_flags : UInt8}
    (laid : Laid k.kernel_heap live) (made : paging_new_4gb k new_flags = (chunk,k')) (success : chunk ≠ 0)
    {m : Bytes} (later : Later chunk k'.memory m) (virt phys phys_end : UInt32) {flags : Nat} (low : flags < 4096) :
    ExactlyMaps m (read32 m chunk) virt.toNat phys.toNat phys_end.toNat flags
      (paging_map_to m ⟨read32 m chunk⟩ virt.toNat phys.toNat phys_end.toNat flags) := by
  obtain ⟨tables,d,c,rfl,cLow,cHigh,created⟩ := paging_new_4gb_made laid made success
  have page := blockAddress_high cHigh
  obtain ⟨space,_⟩ := later.space (by omega) created.space.1 created.space.2
  by_cases accepted : Mappable virt.toNat phys.toNat phys_end.toNat
  · have endHigh := phys_end.toNat_lt
    obtain ⟨m',mapped,remapped⟩ := @paging_map_to_correct m ⟨read32 m (blockAddress c)⟩ _ _ _ flags space accepted
      virt.toNat_lt endHigh low
    obtain ⟨virtAligned,physAligned,endAligned,forward⟩ := accepted
    have length : phys_end.toNat - phys.toNat = 4096 * ((phys_end.toNat - phys.toNat) / 4096) := by omega
    rw [length] at remapped
    rw [mapped]
    constructor
    · exact ⟨fun failed => absurd failed (Int.lt_irrefl 0),fun refused => by omega⟩
    · exact fun failed => absurd failed (Int.lt_irrefl 0)
    · exact fun _ => ⟨rfl,mapsPages virtAligned physAligned (by omega) low remapped⟩
  · rw [paging_map_to_refused accepted]
    have failed : (-EINVARG : Int) < 0 := by decide
    constructor
    · refine ⟨fun _ => ?_,fun _ => failed⟩
      unfold Mappable at accepted
      omega
    · exact fun _ => rfl
    · exact fun fine => absurd failed (Int.not_lt.mpr fine)

theorem paging_map_to_exact_fresh : ∃ (chunk : Nat) (k' : Kernel),
    paging_new_4gb ⟨fun _ => 0,kernel_heap_init fun _ => 0⟩ 5 = (chunk,k') ∧
    ExactlyMaps k'.memory (read32 k'.memory chunk) 0xfffff000 0x01000000 0x01002000 7
      (paging_map_to k'.memory ⟨read32 k'.memory chunk⟩ 0xfffff000 0x01000000 0x01002000 7) := by
  have laid := kernel_heap_init_laid fun _ => 0
  obtain ⟨tables,d,c,k',made,created⟩ := paging_new_4gb_created
    (k := ⟨fun _ => 0,kernel_heap_init fun _ => 0⟩) laid (by rw [freeBlocks_empty laid]; decide) 5
  have nonnull : blockAddress c ≠ 0 := by have := blockAddress_pos c; omega
  exact ⟨_,k',made,paging_map_to_exact laid made nonnull .start 0xfffff000 0x01000000 0x01002000 (by decide)⟩

end SimpOS.PageMapping
