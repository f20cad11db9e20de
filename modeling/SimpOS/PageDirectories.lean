import SimpOS.AddressSpaces
import SimpOS.KernelHeap

/-!
The life of a page directory in `memory/paging/paging.c`: `paging_new_4gb` takes 1026
blocks of the heap, mapping calls write into the tables only, and `paging_free_4gb` finds
the tables again behind the flags of the directory's words.
-/
namespace SimpOS.PageDirectories
open SimpOS.Machine SimpOS.Memory SimpOS.Paging SimpOS.AddressSpaces SimpOS.Extents SimpOS.HeapBlocks
open SimpOS.KernelHeap

/-- The loop over one table's entries, from the address its first page has. -/
def paging_new_4gb_entries (entry flags : Nat) (base : Int) : Nat → Nat → Bytes → Bytes
  | 0, _, m => m
  | remaining + 1, b, m =>
    paging_new_4gb_entries entry flags base remaining (b + 1)
      (write32 m (offset entry (4 * b)) (u32 (base + b * PAGING_PAGE_SIZE) ||| flags))

/-- The loop's body: one table, and the directory's word for it. -/
def paging_new_4gb_table (directory flags i : Nat) (base : Int) (k : Kernel) : Kernel :=
  let (entry, k) := kzalloc k (4 * PAGING_TOTAL_ENTRIES_PER_TABLE)
  let memory := paging_new_4gb_entries entry flags base PAGING_TOTAL_ENTRIES_PER_TABLE 0 k.memory
  { k with memory := write32 memory (offset directory (4 * i)) (entry ||| flags ||| PAGING_IS_WRITEABLE) }

def paging_new_4gb_tables (directory flags : Nat) : Nat → Nat → Int → Kernel → Kernel
  | 0, _, _, k => k
  | remaining + 1, i, base, k =>
    paging_new_4gb_tables directory flags remaining (i + 1)
      (i32 (base + PAGING_TOTAL_ENTRIES_PER_TABLE * PAGING_PAGE_SIZE)) (paging_new_4gb_table directory flags i base k)

/-- The chunk, whose only field is the directory's address. -/
def paging_new_4gb_chunk (directory : Nat) (k : Kernel) : Nat × Kernel :=
  let (chunk_4gb, k) := kzalloc k 4
  (chunk_4gb, { k with memory := write32 k.memory chunk_4gb directory })

def paging_new_4gb (k : Kernel) (flags : UInt8) : Nat × Kernel :=
  let (directory, k) := kzalloc k (4 * PAGING_TOTAL_ENTRIES_PER_TABLE)
  paging_new_4gb_chunk directory
    (paging_new_4gb_tables directory flags.toNat PAGING_TOTAL_ENTRIES_PER_TABLE 0 0 k)

def paging_free_4gb_tables (chunk : Nat) : Nat → Nat → Kernel → Kernel
  | 0, _, k => k
  | remaining + 1, i, k =>
    let entry := read32 k.memory (offset (read32 k.memory chunk) (4 * i))
    let table := entry &&& 0xfffff000
    paging_free_4gb_tables chunk remaining (i + 1) (kfree k table)

def paging_free_4gb (k : Kernel) (chunk : Nat) : Kernel :=
  let k := paging_free_4gb_tables chunk 1024 0 k
  let k := kfree k (read32 k.memory chunk)
  kfree k chunk

/-- A mapping call on a chunk, with any arguments of its types. -/
inductive MapCall
  | map (virt phys flags : UInt32)
  | map_range (virt phys : UInt32) (count : Int) (flags : UInt32)
  | map_to (virt phys phys_end flags : UInt32)
  | set (virtual_address physical_address : UInt32)

def MapCall.apply (chunk : Nat) (m : Bytes) : MapCall → Bytes
  | .map virt phys flags => (paging_map m ⟨read32 m chunk⟩ virt.toNat phys.toNat flags.toNat).2
  | .map_range virt phys count flags =>
    (paging_map_range m ⟨read32 m chunk⟩ virt.toNat phys.toNat count flags.toNat).2
  | .map_to virt phys phys_end flags =>
    (paging_map_to m ⟨read32 m chunk⟩ virt.toNat phys.toNat phys_end.toNat flags.toNat).2
  | .set virtual_address physical_address =>
    (paging_set m (read32 m chunk) virtual_address.toNat physical_address.toNat).2

/-! ### Mapping calls stay in the tables -/

private theorem paging_set_remapped {m : Bytes} {directory v e : Nat} (space : AddressSpace m directory)
    (high : v < 4294967296) (value : e < 4294967296) :
    ∃ entry, Remapped m (paging_set m directory v e).2 directory entry := by
  by_cases aligned : v % 4096 = 0
  · obtain ⟨m',set,remapped⟩ := paging_set_correct space aligned high value
    rw [set]
    exact ⟨_,remapped⟩
  · have refused : validate_paging_alignment v = false := by
      simpa [validate_paging_alignment] using aligned
    rw [paging_set,refused]
    exact ⟨_,Remapped.refl space⟩

private theorem paging_map_remapped (directory : Paging4gbChunk) {m : Bytes} {virt phys flags : Nat}
    (space : AddressSpace m directory.directory_entry) (virtHigh : virt < 4294967296) (physHigh : phys < 4294967296)
    (flagsHigh : flags < 4294967296) :
    ∃ entry, Remapped m (paging_map m directory virt phys flags).2 directory.directory_entry entry := by
  rw [paging_map]
  by_cases refused : virt % PAGING_PAGE_SIZE ≠ 0 ∨ phys % PAGING_PAGE_SIZE ≠ 0
  · rw [if_pos refused]
    exact ⟨_,Remapped.refl space⟩
  · rw [if_neg refused]
    exact paging_set_remapped space virtHigh (Nat.or_lt_two_pow (n := 32) physHigh flagsHigh)

private theorem paging_map_range_loop_remapped (directory : Paging4gbChunk) {flags : Nat}
    (flagsHigh : flags < 4294967296) (remaining : Nat) :
    ∀ (res : Int) (m : Bytes) (virt phys : Nat), AddressSpace m directory.directory_entry → virt < 4294967296 →
      phys < 4294967296 →
      ∃ entry, Remapped m (paging_map_range_loop directory flags remaining res m virt phys).2
        directory.directory_entry entry := by
  induction remaining with
  | zero => exact fun res m virt phys space _ _ => ⟨_,Remapped.refl space⟩
  | succ remaining ih =>
    intro res m virt phys space virtHigh physHigh
    obtain ⟨entry,remapped⟩ := paging_map_remapped directory space virtHigh physHigh flagsHigh
    rw [paging_map_range_loop]
    generalize paging_map m directory virt phys flags = mapped at remapped
    obtain ⟨res',m'⟩ := mapped
    by_cases failed : res' < 0
    · simp only [failed,if_true]
      exact ⟨entry,remapped⟩
    · simp only [failed,if_false]
      obtain ⟨entry',remapped'⟩ := ih res' m' (offset virt PAGING_PAGE_SIZE) (offset phys PAGING_PAGE_SIZE)
        remapped.space (offset_lt ..) (offset_lt ..)
      exact ⟨entry',remapped.trans remapped'⟩

private theorem paging_map_range_remapped (directory : Paging4gbChunk) {m : Bytes} {virt phys flags : Nat}
    (space : AddressSpace m directory.directory_entry) (virtHigh : virt < 4294967296) (physHigh : phys < 4294967296)
    (flagsHigh : flags < 4294967296) (count : Int) :
    ∃ entry, Remapped m (paging_map_range m directory virt phys count flags).2 directory.directory_entry entry := by
  rw [paging_map_range]
  exact paging_map_range_loop_remapped directory flagsHigh count.toNat 0 m virt phys space virtHigh physHigh

theorem paging_map_to_remapped (directory : Paging4gbChunk) {m : Bytes} {virt phys flags : Nat} (phys_end : Nat)
    (space : AddressSpace m directory.directory_entry) (virtHigh : virt < 4294967296) (physHigh : phys < 4294967296)
    (flagsHigh : flags < 4294967296) :
    ∃ entry, Remapped m (paging_map_to m directory virt phys phys_end flags).2 directory.directory_entry entry := by
  by_cases accepted : Mappable virt phys phys_end
  · obtain ⟨virtAligned,physAligned,endAligned,forward⟩ := accepted
    simp only [paging_map_to,PAGING_PAGE_SIZE,virtAligned,physAligned,endAligned,ne_eq,not_true_eq_false,if_false,
      Nat.not_lt.mpr forward]
    apply paging_map_range_remapped directory space virtHigh physHigh flagsHigh
  · rw [paging_map_to_refused accepted]
    exact ⟨_,Remapped.refl space⟩

/-- Every mapping call, whatever its arguments, writes into the directory's tables only. -/
theorem mapCall_remapped {m : Bytes} {chunk : Nat} (space : AddressSpace m (read32 m chunk)) (call : MapCall) :
    ∃ entry, Remapped m (call.apply chunk m) (read32 m chunk) entry := by
  cases call with
  | map virt phys flags =>
    exact paging_map_remapped ⟨read32 m chunk⟩ space virt.toNat_lt phys.toNat_lt flags.toNat_lt
  | map_range virt phys count flags =>
    exact paging_map_range_remapped ⟨read32 m chunk⟩ space virt.toNat_lt phys.toNat_lt flags.toNat_lt count
  | map_to virt phys phys_end flags =>
    exact paging_map_to_remapped ⟨read32 m chunk⟩ phys_end.toNat space virt.toNat_lt phys.toNat_lt flags.toNat_lt
  | set virtual_address physical_address =>
    exact paging_set_remapped space virtual_address.toNat_lt physical_address.toNat_lt

/-- The word that holds the directory's address lies outside its tables. -/
def Outside (m : Bytes) (chunk : Nat) : Prop :=
  ∀ x, chunk ≤ x → x < chunk + 4 → ¬ InTables m (read32 m chunk) x

/-- After any calls the chunk still names the directory, whose words are as they were. -/
theorem mapCalls_remapped {chunk : Nat} (high : chunk + 4 ≤ 4294967296) (calls : List MapCall) :
    ∀ {m : Bytes}, AddressSpace m (read32 m chunk) → Outside m chunk →
      read32 (calls.foldl (MapCall.apply chunk) m) chunk = read32 m chunk ∧
      ∃ entry, Remapped m (calls.foldl (MapCall.apply chunk) m) (read32 m chunk) entry := by
  induction calls with
  | nil => exact fun space _ => ⟨rfl,_,Remapped.refl space⟩
  | cons call calls ih =>
    intro m space outside
    obtain ⟨entry,remapped⟩ := mapCall_remapped space call
    have same : read32 (call.apply chunk m) chunk = read32 m chunk :=
      read32_congr high fun x low below => remapped.frame x (outside x low below)
    have outside' : Outside (call.apply chunk m) chunk := by
      intro x low below inTables
      rw [same,remapped.inTables] at inTables
      exact outside x low below inTables
    obtain ⟨same',entry',remapped'⟩ := ih (same ▸ remapped.space) outside'
    rw [same] at same' remapped'
    exact ⟨same',entry',remapped.trans remapped'⟩

/-! ### What a new directory takes -/

/-- The extent of one block. -/
def single (b : Int) : Extent := ⟨b,1⟩

theorem mem_single {b i : Int} : i ∈ single b ↔ i = b := by rw [single,mem_mk]; omega

/-- Blocks that are live one by one are all different, and free of the other extents. -/
theorem laid_singles {heap : Heap} {live : List Extent} {blocks : List Int}
    (laid : Laid heap (blocks.map single ++ live)) : blocks.Nodup ∧ ∀ b ∈ blocks, FreeAt live b := by
  have total := laid.total_eq
  obtain ⟨own,_,others⟩ := List.pairwise_append.mp laid.layout.disjoint
  refine ⟨?_,fun b member => ?_⟩
  · refine (List.pairwise_map.mp own).imp fun {a b} apart same => ?_
    exact apart a (mem_single.mpr rfl) (mem_single.mpr same)
  · have listed : single b ∈ blocks.map single := List.mem_map_of_mem member
    have start := laid.layout.start _ (List.mem_append_left _ listed)
    refine ⟨start.1,by have := start.2.1; rwa [total] at this,?_⟩
    rintro ⟨e,inLive,inside⟩
    exact others _ listed e inLive b (mem_single.mpr rfl) inside

/-- The addresses of a block. -/
def InBlock (b : Int) (x : Nat) : Prop := blockAddress b ≤ x ∧ x < blockAddress b + 4096

theorem InBlock.unique {a b : Int} {x : Nat} (inA : InBlock a x) (inB : InBlock b x) (lowA : 0 ≤ a) (lowB : 0 ≤ b) :
    a = b := by
  obtain ⟨lowX,highX⟩ := inA
  obtain ⟨lowX',highX'⟩ := inB
  simp only [blockAddress,SIMPOS_HEAP_ADDRESS] at lowX highX lowX' highX'
  omega

private theorem entries_frame {entry flags : Nat} (high : entry + 4096 ≤ 4294967296) (remaining : Nat) :
    ∀ (base : Int) (b : Nat) (m : Bytes) (x : Nat), b + remaining ≤ 1024 → ¬ (entry ≤ x ∧ x < entry + 4096) →
      paging_new_4gb_entries entry flags base remaining b m x = m x := by
  induction remaining with
  | zero => exact fun base b m x _ _ => rfl
  | succ remaining ih =>
    intro base b m x inside outside
    rw [paging_new_4gb_entries,ih base (b + 1) _ x (by omega) outside,offset_of_lt (by omega),
      write32_apply (by omega),if_neg (by omega)]

/-- The tables a directory has from word i on, and everything else as it was. -/
structure Filled (k k' : Kernel) (live : List Extent) (d : Int) (flags i : Nat) (tables : List Int) : Prop where
  laid : Laid k'.kernel_heap (tables.map single ++ live)
  count : freeBlocks k'.kernel_heap + tables.length = freeBlocks k.kernel_heap
  words : ∀ n t, tables[n]? = some t →
    read32 k'.memory (blockAddress d + 4 * (i + n)) = blockAddress t ||| flags ||| PAGING_IS_WRITEABLE
  frame : ∀ x, ¬ (blockAddress d + 4 * i ≤ x ∧ x < blockAddress d + 4 * (i + tables.length)) →
    (∀ t ∈ tables, ¬ InBlock t x) → k'.memory x = k.memory x

theorem Filled.table_free {k k' : Kernel} {live : List Extent} {d : Int} {flags i : Nat} {tables : List Int}
    (filled : Filled k k' live d flags i tables) {t : Int} (member : t ∈ tables) : FreeAt live t :=
  (laid_singles filled.laid).2 t member

section
variable {live : List Extent} {d : Int} {flags : Nat}

theorem paging_new_4gb_table_filled {k : Kernel} (laid : Laid k.kernel_heap live)
    (room : 0 < freeBlocks k.kernel_heap) (dHigh : d < 25600) (small : flags < 256) {i : Nat} (inside : i < 1024)
    (base : Int) :
    ∃ t, Filled k (paging_new_4gb_table (blockAddress d) flags i base k) live d flags i [t] := by
  have dPage := blockAddress_high dHigh
  rcases kzalloc_single laid (by decide : 0 < 4 * PAGING_TOTAL_ENTRIES_PER_TABLE) (by decide) with
    ⟨full,_⟩ | ⟨t,k₁,granted,took⟩
  · omega
  · have tPage := blockAddress_high took.free.high
    have tAligned := blockAddress_aligned t
    have value : blockAddress t ||| flags ||| PAGING_IS_WRITEABLE < 4294967296 :=
      Nat.or_lt_two_pow (n := 32) (Nat.or_lt_two_pow (n := 32) (by omega) (by omega)) (by decide)
    have slot : offset (blockAddress d) (4 * i) = blockAddress d + 4 * i := offset_of_lt (by omega)
    have word : blockAddress d + 4 * i + 4 ≤ 4294967296 := by omega
    refine ⟨t,?_⟩
    rw [paging_new_4gb_table,granted,slot]
    refine ⟨took.laid,took.count,fun n found same => ?_,fun x outside apart => ?_⟩
    · obtain ⟨rfl,rfl⟩ : n = 0 ∧ t = found := by
        cases n with
        | zero => exact ⟨rfl,by simpa using same⟩
        | succ n => simp at same
      exact read32_write32_same word value _
    · have apart := apart t (List.mem_cons_self ..)
      simp only [List.length_singleton] at outside
      refine (write32_apply word ..).trans ?_
      rw [if_neg (by omega)]
      exact (entries_frame tPage _ _ _ _ x (by decide) apart).trans (took.frame x apart)

/-- Filling goes on behind the tables there are. -/
private theorem Filled.cons {k k' k'' : Kernel} {i : Nat} {t : Int} {tables : List Int}
    (first : Filled k k' live d flags i [t]) (rest : Filled k' k'' (single t :: live) d flags (i + 1) tables)
    (dLow : 0 ≤ d) (dHigh : d < 25600) (inside : i < 1024) (member : single d ∈ live) :
    Filled k k'' live d flags i (t :: tables) := by
  have dPage := blockAddress_high dHigh
  refine ⟨rest.laid.perm ?_,?_,fun n found same => ?_,fun x outside apart => ?_⟩
  · rw [List.map_cons,List.cons_append]
    exact List.perm_middle
  · have count := first.count
    have count' := rest.count
    rw [List.length_cons]
    rw [List.length_singleton] at count
    omega
  · cases n with
    | zero =>
      rw [← first.words 0 found (by simpa using same)]
      refine read32_congr (by omega) fun x low below => rest.frame x (by omega) fun other listed inOther => ?_
      have free := rest.table_free listed
      have inD : InBlock d x := ⟨by omega,by omega⟩
      exact free.uncovered ⟨_,List.mem_cons_of_mem _ member,mem_single.mpr (inOther.unique inD free.low dLow)⟩
    | succ n =>
      rw [← rest.words n found (by simpa using same),show i + 1 + n = i + (n + 1) by omega]
  · rw [List.length_cons] at outside
    rw [rest.frame x (by omega) fun other listed => apart other (List.mem_cons_of_mem _ listed)]
    refine first.frame x ?_ fun other listed => apart other ?_
    · rw [List.length_singleton]
      omega
    · rw [List.mem_singleton.mp listed]
      exact List.mem_cons_self ..

theorem paging_new_4gb_tables_filled (dLow : 0 ≤ d) (dHigh : d < 25600) (small : flags < 256) (remaining : Nat) :
    ∀ (live : List Extent) (i : Nat) (base : Int) (k : Kernel), Laid k.kernel_heap live →
      remaining ≤ freeBlocks k.kernel_heap → i + remaining ≤ 1024 → single d ∈ live →
      ∃ tables, tables.length = remaining ∧ Filled k
        (paging_new_4gb_tables (blockAddress d) flags remaining i base k) live d flags i tables := by
  induction remaining with
  | zero =>
    intro live i base k laid _ _ _
    exact ⟨[],rfl,laid,rfl,fun n t found => by simp at found,fun x _ _ => rfl⟩
  | succ remaining ih =>
    intro live i base k laid room inside member
    obtain ⟨t,first⟩ := paging_new_4gb_table_filled laid (by omega) dHigh small (by omega : i < 1024) base
    have count := first.count
    rw [List.length_singleton] at count
    obtain ⟨tables,length,rest⟩ := ih (single t :: live) (i + 1)
      (i32 (base + PAGING_TOTAL_ENTRIES_PER_TABLE * PAGING_PAGE_SIZE))
      (paging_new_4gb_table (blockAddress d) flags i base k) first.laid (by omega) (by omega)
      (List.mem_cons_of_mem _ member)
    exact ⟨t :: tables,congrArg Nat.succ length,first.cons rest dLow dHigh (by omega) member⟩

end

/-! ### The whole life -/

/-- The mask undoes the packing of an address with any flags. -/
theorem masked {a flags : Nat} (aligned : a % 4096 = 0) (high : a + 4096 ≤ 4294967296) (small : flags < 256) :
    (a ||| flags ||| PAGING_IS_WRITEABLE) &&& 0xfffff000 = a := by
  have packed : flags ||| PAGING_IS_WRITEABLE < 256 := Nat.or_lt_two_pow (n := 8) small (by decide)
  rw [Nat.or_assoc,or_flags aligned (by omega),and_page (by omega)]
  omega

/-- A chunk in block c, its directory in block d and the tables' blocks. -/
structure Created (k : Kernel) (live : List Extent) (tables : List Int) (d c : Int) : Prop where
  length : tables.length = 1024
  laid : Laid k.kernel_heap ((tables ++ [d,c]).map single ++ live)
  directory : read32 k.memory (blockAddress c) = blockAddress d
  table : ∀ n t, tables[n]? = some t → pageTable k.memory (blockAddress d) n = blockAddress t

theorem paging_new_4gb_eq {k k₁ : Kernel} {flags : UInt8} {directory : Nat}
    (granted : kzalloc k (4 * PAGING_TOTAL_ENTRIES_PER_TABLE) = (directory,k₁)) :
    paging_new_4gb k flags = paging_new_4gb_chunk directory
      (paging_new_4gb_tables directory flags.toNat PAGING_TOTAL_ENTRIES_PER_TABLE 0 0 k₁) := by
  rw [paging_new_4gb,granted]

theorem paging_new_4gb_created {k : Kernel} {live : List Extent} (laid : Laid k.kernel_heap live)
    (room : 1026 ≤ freeBlocks k.kernel_heap) (flags : UInt8) :
    ∃ tables d c k', paging_new_4gb k flags = (blockAddress c,k') ∧ Created k' live tables d c := by
  have small := flags.toNat_lt
  rcases kzalloc_single laid (by decide : 0 < 4 * PAGING_TOTAL_ENTRIES_PER_TABLE) (by decide) with
    ⟨full,_⟩ | ⟨d,k₁,granted,took⟩
  · omega
  have count := took.count
  have dPage := blockAddress_high took.free.high
  obtain ⟨n,entries⟩ : ∃ n, n = PAGING_TOTAL_ENTRIES_PER_TABLE := ⟨_,rfl⟩
  have thousand : n = 1024 := entries
  obtain ⟨tables,length,filled⟩ := paging_new_4gb_tables_filled took.free.low took.free.high small n
    (single d :: live) 0 0 k₁ took.laid (by omega) (by omega) (List.mem_cons_self ..)
  obtain ⟨k₂,filling⟩ : ∃ k₂, paging_new_4gb_tables (blockAddress d) flags.toNat n 0 0 k₁ = k₂ := ⟨_,rfl⟩
  rw [filling] at filled
  have count' := filled.count
  rcases kzalloc_single filled.laid (by decide : 0 < 4) (by decide) with ⟨full,_⟩ | ⟨c,k₃,granted',took'⟩
  · omega
  have cPage := blockAddress_high took'.free.high
  refine ⟨tables,d,c,{ k₃ with memory := write32 k₃.memory (blockAddress c) (blockAddress d) },
    ?_,by omega,took'.laid.perm ?_,read32_write32_same (by omega) (by omega) _,fun index t found => ?_⟩
  · rw [paging_new_4gb_eq granted,← entries,filling,paging_new_4gb_chunk,granted']
  · rw [List.map_append,List.append_assoc]
    exact List.perm_middle.symm.trans ((List.Perm.swap ..).append_left _)
  · have inside : index < tables.length := (List.getElem?_eq_some_iff.mp found).1
    have tFree := filled.table_free (List.mem_of_getElem? found)
    have tPage := blockAddress_high tFree.high
    have word := filled.words index t found
    rw [pageTable,offset_of_lt (by omega),← masked (blockAddress_aligned t) tPage small,← word,Nat.zero_add]
    refine congrArg (· &&& 0xfffff000) (read32_congr (by omega) fun x low below => ?_)
    have inD : InBlock d x := ⟨by omega,by omega⟩
    have other : ¬ InBlock c x := by
      intro inC
      refine took'.free.uncovered ⟨single d,List.mem_append_right _ (List.mem_cons_self ..),?_⟩
      exact mem_single.mpr (inC.unique inD took'.free.low took.free.low)
    refine (write32_apply (by omega) ..).trans ?_
    rw [if_neg fun written => other ⟨written.1,by omega⟩]
    exact took'.frame x other

/-- A chunk whose directory is a page of its own, with a table of its own behind each word. -/
theorem Created.space {k : Kernel} {live : List Extent} {tables : List Int} {d c : Int}
    (created : Created k live tables d c) : AddressSpace k.memory (read32 k.memory (blockAddress c)) ∧
      Outside k.memory (blockAddress c) := by
  obtain ⟨distinct,free⟩ := laid_singles created.laid
  have dFree : FreeAt live d := free d (List.mem_append_right _ (List.mem_cons_self ..))
  have cFree : FreeAt live c := free c (List.mem_append_right _ (List.mem_cons_of_mem _ (List.mem_cons_self ..)))
  obtain ⟨tablesDistinct,_,apart⟩ := List.nodup_append.mp distinct
  have listed : ∀ i < 1024, ∃ t ∈ tables, tables[i]? = some t ∧ FreeAt live t ∧
      pageTable k.memory (blockAddress d) i = blockAddress t := by
    intro i inside
    have found : tables[i]? = some (tables.get ⟨i,by rw [created.length]; exact inside⟩) := List.getElem?_eq_getElem _
    have member := List.mem_of_getElem? found
    exact ⟨_,member,found,free _ (List.mem_append_left _ member),created.table i _ found⟩
  rw [Outside,created.directory]
  refine ⟨⟨blockAddress_aligned d,blockAddress_high dFree.high,fun i inside same => ?_,fun i insideI j insideJ same => ?_⟩,
    fun x low below => ?_⟩
  · obtain ⟨t,member,_,tFree,table⟩ := listed i inside
    rw [table,blockAddress_inj tFree.low dFree.low] at same
    exact apart t member d (List.mem_cons_self ..) same
  · obtain ⟨t,_,found,tFree,table⟩ := listed i insideI
    obtain ⟨t',_,found',tFree',table'⟩ := listed j insideJ
    rw [table,table',blockAddress_inj tFree.low tFree'.low] at same
    exact (List.getElem?_inj (by rw [created.length]; exact insideI) tablesDistinct).mp (by rw [found,found',same])
  · rintro ⟨i,inside,inTable⟩
    obtain ⟨t,member,_,tFree,table⟩ := listed i inside
    rw [table] at inTable
    have same : t = c := InBlock.unique (x := x) inTable ⟨low,by omega⟩ tFree.low cFree.low
    exact apart t member c (List.mem_cons_of_mem _ (List.mem_cons_self ..)) same

/-- The loop releases the tables the directory's words name, which it leaves as they are. -/
private theorem paging_free_4gb_tables_eq (chunk : Nat) (remaining : Nat) : ∀ (i : Nat) (k : Kernel),
    paging_free_4gb_tables chunk remaining i k =
      ((List.range' i remaining).map (pageTable k.memory (read32 k.memory chunk))).foldl kfree k := by
  induction remaining with
  | zero => exact fun i k => rfl
  | succ remaining ih =>
    intro i k
    rw [paging_free_4gb_tables,ih]
    rfl

private theorem kfree_memory (pointers : List Nat) : ∀ k : Kernel, (pointers.foldl kfree k).memory = k.memory := by
  induction pointers with
  | nil => exact fun k => rfl
  | cons pointer pointers ih =>
    intro k
    rw [List.foldl_cons,ih]
    rfl

/-- Releasing live blocks one after the other leaves the other extents. -/
theorem kfree_blocks {live : List Extent} (blocks : List Int) : ∀ {k : Kernel},
    Laid k.kernel_heap (blocks.map single ++ live) →
      Laid ((blocks.map blockAddress).foldl kfree k).kernel_heap live := by
  induction blocks with
  | nil => exact fun laid => laid
  | cons b blocks ih =>
    intro k laid
    rw [List.map_cons,List.foldl_cons]
    exact ih (kfree_single laid).1

/-- The release of a chunk, given by the blocks of its tables, its directory and its own. -/
theorem paging_free_4gb_blocks {k : Kernel} {tables : List Int} {d c : Int} (length : tables.length = 1024)
    (directory : read32 k.memory (blockAddress c) = blockAddress d)
    (table : ∀ n t, tables[n]? = some t → pageTable k.memory (blockAddress d) n = blockAddress t) :
    paging_free_4gb k (blockAddress c) = ((tables ++ [d,c]).map blockAddress).foldl kfree k := by
  have pointers : (List.range' 0 1024).map (pageTable k.memory (blockAddress d)) = tables.map blockAddress := by
    refine List.ext_getElem? fun i => ?_
    by_cases inside : i < 1024
    · have found : tables[i]? = some (tables.get ⟨i,by rw [length]; exact inside⟩) := List.getElem?_eq_getElem _
      rw [List.getElem?_map,List.getElem?_map,found,List.getElem?_range' inside,Option.map_some,Option.map_some,
        Nat.one_mul,Nat.zero_add,table i _ found]
    · rw [List.getElem?_eq_none (by simpa using inside),List.getElem?_eq_none (by simp [length]; omega)]
  have tablesFreed := paging_free_4gb_tables_eq (blockAddress c) 1024 0 k
  rw [directory,pointers] at tablesFreed
  simp only [paging_free_4gb,tablesFreed,kfree_memory,directory,List.map_append,List.foldl_append]
  rfl

theorem Created.free {k : Kernel} {live : List Extent} {tables : List Int} {d c : Int}
    (created : Created k live tables d c) :
    paging_free_4gb k (blockAddress c) = ((tables ++ [d,c]).map blockAddress).foldl kfree k :=
  paging_free_4gb_blocks created.length created.directory created.table

/-- Whatever is mapped in between, the release gives back each of the 1026 blocks the new
    directory took, once each and no other, and the heap's table is what it was before. -/
theorem paging_life_cycle {k : Kernel} {live : List Extent} (laid : Laid k.kernel_heap live)
    (room : 1026 ≤ freeBlocks k.kernel_heap) (flags : UInt8) (calls : List MapCall) :
    ∃ (chunk : Nat) (k' : Kernel) (blocks : List Int), paging_new_4gb k flags = (chunk,k') ∧ blocks.length = 1026 ∧ blocks.Nodup ∧
      (∀ b ∈ blocks, FreeAt live b) ∧ Laid k'.kernel_heap (blocks.map single ++ live) ∧
      ∀ mapped, mapped = { k' with memory := calls.foldl (MapCall.apply chunk) k'.memory } →
        paging_free_4gb mapped chunk = (blocks.map blockAddress).foldl kfree mapped ∧
        ∀ i : Int, 0 ≤ i → i < k.kernel_heap.table.total →
          (paging_free_4gb mapped chunk).kernel_heap.table.entries i = k.kernel_heap.table.entries i := by
  obtain ⟨tables,d,c,k',result,created⟩ := paging_new_4gb_created laid room flags
  obtain ⟨distinct,free⟩ := laid_singles created.laid
  refine ⟨blockAddress c,k',tables ++ [d,c],result,?_,distinct,free,created.laid,?_⟩
  · rw [List.length_append,created.length]
    rfl
  · rintro mapped rfl
    obtain ⟨space,outside⟩ := created.space
    have cPage := blockAddress_high (free c (List.mem_append_right _ (List.mem_cons_of_mem _ (List.mem_cons_self ..)))).high
    obtain ⟨same,entry,remapped⟩ := mapCalls_remapped (by omega) calls space outside
    rw [created.directory] at same remapped
    have kept : Created { k' with memory := calls.foldl (MapCall.apply (blockAddress c)) k'.memory } live tables d c := by
      refine ⟨created.length,created.laid,same,fun n t found => ?_⟩
      have inside : n < tables.length := (List.getElem?_eq_some_iff.mp found).1
      rw [created.length] at inside
      exact (remapped.tables inside).trans (created.table n t found)
    rw [kept.free]
    refine ⟨rfl,fun i low high => ?_⟩
    exact laid.entries_eq (kfree_blocks _ kept.laid) low high

theorem paging_life_cycle_fresh :
    ∃ (chunk : Nat) (k' : Kernel) (blocks : List Int), paging_new_4gb ⟨fun _ => 0,kernel_heap_init fun _ => 0⟩ 0xff = (chunk,k') ∧
      blocks.length = 1026 ∧ blocks.Nodup ∧ (∀ b ∈ blocks, FreeAt [] b) ∧
      Laid k'.kernel_heap (blocks.map single ++ []) ∧
      ∀ mapped, mapped = { k' with memory := [MapCall.set 0x400000 0xffffffff].foldl (MapCall.apply chunk) k'.memory } →
        paging_free_4gb mapped chunk = (blocks.map blockAddress).foldl kfree mapped ∧
        ∀ i : Int, 0 ≤ i → i < (kernel_heap_init fun _ => 0).table.total →
          (paging_free_4gb mapped chunk).kernel_heap.table.entries i =
            (kernel_heap_init fun _ => 0).table.entries i := by
  refine paging_life_cycle (kernel_heap_init_laid _) ?_ 0xff [.set 0x400000 0xffffffff]
  rw [freeBlocks_empty (kernel_heap_init_laid _)]
  decide

end SimpOS.PageDirectories
