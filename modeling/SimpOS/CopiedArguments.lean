import SimpOS.ArgumentWalks
import SimpOS.FailedCommands
import SimpOS.NewProcesses

/-!
The copies of a command's arguments that a new process gets. Each lies in a block of the process's own
that its pages lead to themselves, and the vector has their addresses in the order of the list.
-/
namespace SimpOS.CopiedArguments
open SimpOS.Machine SimpOS.Strings SimpOS.Memory SimpOS.Extents SimpOS.Paging SimpOS.HeapBlocks SimpOS.HeapLayout SimpOS.KernelHeap
open SimpOS.AddressSpaces SimpOS.PageDirectories SimpOS.Isolation SimpOS.FlatBinaries SimpOS.LinkedLists SimpOS.TaskMemory SimpOS.ProcessMemory
open SimpOS.FatSystem SimpOS.Processes SimpOS.ProcessLoads SimpOS.ProcessCalls SimpOS.LoadFrames SimpOS.NewProcesses

variable {φ : Type}

/-! ### Strings -/

section
variable {m m' : Bytes} {place place' : Place}

/-- A string that is cut to n bytes depends on n bytes only. -/
theorem string_at_congr (n : Nat) : ∀ v v', (∀ j, j < n → byte_at place' m' (offset v' j) = byte_at place m (offset v j)) →
    string_at place' m' (offset v' 0) n = string_at place m (offset v 0) n := by
  induction n with
  | zero => exact fun v v' same => rfl
  | succ n ih =>
    intro v v' same
    have rest := ih (offset v 1) (offset v' 1) fun j inside => by
      rw [offset_offset,offset_offset]
      exact same (1 + j) (by omega)
    rw [offset_offset,offset_offset,Nat.add_zero] at rest
    rw [string_at,string_at,same 0 (by omega),offset_offset,offset_offset,Nat.zero_add,rest]

/-- What copying a string writes: the bytes up to its end or to the limit, and a null byte. -/
theorem strncpy_loop_copies (dest src : Nat) (remaining : Nat) : ∀ (i : Nat) (m : Bytes), i + remaining < 4294967296 →
    (∀ j k, j ≤ i + remaining → k ≤ i + remaining → offset src j ≠ offset dest k) →
    string_at kernel_page (strncpy_loop kernel_page dest src remaining i m) (offset dest i) (remaining + 1) =
      string_at kernel_page m (offset src i) remaining ∧
    ∀ x, (∀ k, i ≤ k → k ≤ i + remaining → x ≠ offset dest k) → strncpy_loop kernel_page dest src remaining i m x = m x := by
  induction remaining with
  | zero =>
    intro i m _ _
    refine ⟨?_,fun x outside => Function.update_of_ne (outside i (Nat.le_refl i) (by omega)) _ _⟩
    have null : byte_at kernel_page (Function.update m (kernel_page m (offset dest i)) 0x00) (offset dest i) = 0 :=
      Function.update_self ..
    exact if_pos null
  | succ remaining ih =>
    intro i m small apart
    rw [strncpy_loop]
    by_cases last : byte_at kernel_page m (offset src i) = 0x00
    · rw [if_pos last]
      refine ⟨?_,fun x outside => Function.update_of_ne (outside i (Nat.le_refl i) (by omega)) _ _⟩
      have null : byte_at kernel_page (Function.update m (kernel_page m (offset dest i)) 0x00) (offset dest i) = 0 :=
        Function.update_self ..
      rw [string_at,if_pos null,string_at,if_pos last]
    · rw [if_neg last]
      obtain ⟨copied,frame⟩ := ih (i + 1) (Function.update m (kernel_page m (offset dest i)) (byte_at kernel_page m (offset src i)))
        (by omega) (fun j k boundJ boundK => apart j k (by omega) (by omega))
      have byte : byte_at kernel_page (strncpy_loop kernel_page dest src remaining (i + 1)
          (Function.update m (kernel_page m (offset dest i)) (byte_at kernel_page m (offset src i)))) (offset dest i) =
          byte_at kernel_page m (offset src i) := by
        refine (frame (offset dest i) fun k low high same => ?_).trans (Function.update_self ..)
        have := offset_inj (by omega) (by omega) same
        omega
      have unread : string_at kernel_page (Function.update m (kernel_page m (offset dest i)) (byte_at kernel_page m (offset src i)))
          (offset src (i + 1)) remaining = string_at kernel_page m (offset src (i + 1)) remaining := by
        have same := @string_at_congr m (Function.update m (kernel_page m (offset dest i)) (byte_at kernel_page m (offset src i)))
          kernel_page kernel_page remaining (offset src (i + 1)) (offset src (i + 1)) fun j inside => by
            rw [offset_offset]
            exact Function.update_of_ne (apart (i + 1 + j) i (by omega) (by omega)) _ _
        rw [offset_offset,Nat.add_zero] at same
        exact same
      refine ⟨?_,fun x outside => ?_⟩
      · rw [string_at,byte,if_neg last,offset_offset,copied,unread,string_at,if_neg last,offset_offset]
      · rw [frame x fun k low high => outside k (by omega) (by omega)]
        exact Function.update_of_ne (outside i (Nat.le_refl i) (by omega)) _ _

end

/-! ### Memory of the process -/

/-- A request of the process has been served from an extent that its pages lead to itself; nothing else that was settled
    has changed but the tables. -/
structure Given (p : Nat) (fixed more : List Extent) (size ptr : Nat) (e : Extent) (s t : World φ) : Prop where
  low : 0 ≤ e.first
  start : ptr = blockAddress e.first
  fits : size ≤ 4096 * e.count
  high : ptr + size ≤ 0xFFFFF000
  housed : Housed p fixed (e :: more) t
  memory : ∀ x, Settled (more ++ fixed) x → ¬InTables s.kernel.memory (directoryOf p s) x → t.kernel.memory x = s.kernel.memory x
  tables : ∀ x, InTables t.kernel.memory (directoryOf p t) x ↔ InTables s.kernel.memory (directoryOf p s) x
  own : ∀ v, v < 4294967296 → blockOf v ∈ e → leads p t v = v
  others : ∀ v, v < 4294967296 → blockOf v ∉ e → leads p t v = leads p s v

section
variable {s t u : World φ} {p : Nat} {fixed more : List Extent} {size : Nat}

/-- A request of the process that is served. -/
theorem process_malloc_given (housed : Housed p fixed more s) (low : 0 < size) (small : size ≤ 0xF8C00000)
    (some : (s.process_malloc p size).1 ≠ 0) :
    ∃ e, Given p fixed more size (s.process_malloc p size).1 e s (s.process_malloc p size).2 := by
  unfold World.process_malloc at some ⊢
  rcases process_malloc_cases housed.laid (s.memoryOf p) size with
    ⟨_,refused⟩ | ⟨b,heap,_,free,marked,laid',⟨_,refused⟩ | ⟨⟨_,accepted⟩,granted⟩⟩
  · rw [refused] at some
    exact absurd rfl some
  · rw [refused] at some
    exact absurd rfl some
  rw [granted]
  dsimp only
  have bLow := free.low
  have bHigh := free.high
  have address : blockAddress b ≤ 0x01000000 + 4096 * 25599 := by
    simp only [blockAddress,SIMPOS_HEAP_ADDRESS]
    omega
  obtain ⟨whole,stop⟩ := @request_pages b size (by omega)
  obtain ⟨stop,high⟩ := stop accepted
  have count : requestBlocks size ≠ 0 := by
    intro none
    rw [none] at whole
    omega
  rw [withGranted,if_neg count] at laid'
  generalize requestBlocks size = n at *
  have aligned := blockAddress_aligned b
  -- the block is cleared first, which misses what translates addresses
  obtain ⟨s₁,cleared⟩ : ∃ s₁ : World φ, s₁ = s.withKernel ⟨memset s.kernel.memory (blockAddress b) 0x00 size,s.kernel.kernel_heap⟩ :=
    ⟨_,rfl⟩
  have filled : ∀ x, blockOf x ∉ Extent.mk b n → s₁.kernel.memory x = s.kernel.memory x := by
    intro x outside
    rw [blockOf_mem bLow] at outside
    rw [cleared]
    change memset _ _ _ _ x = _
    rw [memset_apply (by omega),if_neg (by omega)]
  have beside : ∀ x, Settled (more ++ fixed) x → blockOf x ∉ Extent.mk b n := fun x settled => guarded_outside laid' settled
  have translating : ∀ x, InSpace s.kernel.memory (directoryOf p s) x ∨ (chunkOf p s ≤ x ∧ x < chunkOf p s + 4) →
      s₁.kernel.memory x = s.kernel.memory x := by
    intro x byte
    have covered : Covered fixed (blockOf x) := by
      rcases byte with inside | ⟨first,last⟩
      · exact housed.inside x inside
      · exact housed.chunk x first last
    refine filled x (beside x (.inr ?_))
    obtain ⟨e,member,inside⟩ := covered
    exact ⟨e,List.mem_append_right _ member,inside⟩
  obtain ⟨housed₁,tables₁,leads₁⟩ := housed.write (t := s₁) (by rw [cleared]; exact ⟨rfl,rfl⟩) (by rw [cleared]; rfl) translating
  have chunk₁ : chunkOf p s₁ = chunkOf p s := by
    rw [cleared]
    rfl
  obtain ⟨m',mapped,remapped⟩ := @identity_mapped _ ⟨directoryOf p s₁⟩ (blockAddress b) n 7
    housed₁.space aligned high (by decide)
  dsimp only at remapped
  obtain ⟨t,named⟩ : ∃ t : World φ, t = (s.withKernel ⟨(paging_map_to (memset s.kernel.memory (blockAddress b) 0x00 size)
      (s.memoryOf p).page_directory (blockAddress b) (blockAddress b) (paging_align_address (offset (blockAddress b) size)) 7).2,
      heap⟩).setProcess p fun v =>
        { v with allocations := Function.update (s.memoryOf p).allocations 1 ⟨blockAddress b,size⟩ } := ⟨_,rfl⟩
  have memory : t.kernel.memory = m' := by
    have directory : (s.memoryOf p).page_directory = ⟨directoryOf p s₁⟩ := by
      have same : directoryOf p s₁ = directoryOf p s := by
        unfold directoryOf
        rw [chunk₁]
        exact read32_congr housed.high fun x low below => translating x (.inr ⟨low,below⟩)
      rw [same]
      rfl
    have bytes : s₁.kernel.memory = memset s.kernel.memory (blockAddress b) 0x00 size := by
      rw [cleared]
      rfl
    rw [named,← mapped,stop,directory,bytes]
    rfl
  have chunk : chunkOf p t = chunkOf p s₁ := by
    rw [named,cleared]
    unfold chunkOf
    simp only [World.setProcess,World.withKernel,Function.update_self]
  have directory : directoryOf p t = directoryOf p s₁ := by
    unfold directoryOf
    rw [chunk,memory]
    exact chunk_kept housed₁.high housed₁.outside remapped
  have same_heap : t.kernel.kernel_heap = heap := by
    rw [named]
    rfl
  have slots : ((t.process p).allocations 0).ptr = 0 := by
    rw [named]
    simp only [World.setProcess,Function.update_self]
    rw [Function.update_of_ne (by decide)]
    exact housed.empty
  have tables : ∀ x, InTables t.kernel.memory (directoryOf p t) x ↔ InTables s.kernel.memory (directoryOf p s) x := by
    intro x
    rw [directory,memory,remapped.inTables,tables₁]
  rw [← named]
  refine ⟨⟨b,n⟩,⟨bLow,rfl,whole,by omega,⟨?_,?_,?_,?_,?_,?_,slots⟩,?_,tables,?_,?_⟩⟩
  · rw [same_heap]
    exact laid'
  · rw [directory,memory]
    exact remapped.space
  · intro x inside
    rw [directory,memory,remapped.inSpace] at inside
    exact housed₁.inside x inside
  · rw [chunk]
    exact housed₁.chunk
  · intro x first last inTables
    rw [chunk] at first last
    exact housed₁.outside x first last ((tables₁ x).mpr ((tables x).mp inTables))
  · rw [chunk]
    exact housed₁.high
  · intro x settled outside
    rw [memory,remapped.frame x fun inTables => outside ((tables₁ x).mp inTables)]
    exact filled x (beside x settled)
  · intro v below inside
    rw [blockOf_mem bLow] at inside
    have place : above (blockAddress b) (v - v % 4096) = v - v % 4096 - blockAddress b := by
      unfold above u32
      omega
    unfold leads
    rw [physical_eq _ _ below,directory,memory,remapped.entries _ (by omega) (by omega),place,if_pos (by omega),
      and_page (by omega)]
    rw [show blockAddress b + (v - v % 4096 - blockAddress b) + 7 -
      (blockAddress b + (v - v % 4096 - blockAddress b) + 7) % 4096 = v - v % 4096 by omega,offset_of_lt (by omega)]
    omega
  · intro v below outside
    rw [blockOf_mem bLow] at outside
    have place : ¬above (blockAddress b) (v - v % 4096) < 4096 * n := by
      unfold above u32
      omega
    rw [← leads₁ v below]
    unfold leads
    rw [physical_eq _ _ below,physical_eq _ _ below,directory,memory,remapped.entries _ (by omega) (by omega),if_neg place]

/-- A request of a block is served where there is one. -/
theorem process_malloc_single (housed : Housed p fixed more s) (low : 0 < size) (small : size ≤ 4096)
    (free : 0 < freeBlocks s.kernel.kernel_heap) : (s.process_malloc p size).1 ≠ 0 ∧
      freeBlocks (s.process_malloc p size).2.kernel.kernel_heap + 1 = freeBlocks s.kernel.kernel_heap := by
  have some : (s.process_malloc p size).1 ≠ 0 := by
    rcases kzalloc_single housed.laid low small with ⟨full,_⟩ | ⟨b,k,granted,took⟩
    · omega
    have page : blockAddress b ≤ 0x01000000 + 4096 * 25599 := by
      have high := took.free.high
      simp only [blockAddress,SIMPOS_HEAP_ADDRESS]
      omega
    unfold World.process_malloc
    rcases heap_malloc_kernel housed.laid size with ⟨_,refused⟩ | ⟨b',search,free',marked,_⟩
    · rw [KernelHeap.kzalloc,kmalloc,refused] at granted
      exact absurd (congrArg Prod.fst granted).symm (blockAddress_pos b).ne'
    · rw [KernelHeap.kzalloc,kmalloc,marked] at granted
      dsimp only at granted
      rw [if_neg (blockAddress_pos b').ne'] at granted
      have same : blockAddress b' = blockAddress b := congrArg Prod.fst granted
      obtain ⟨_,_,served⟩ := process_malloc_served housed.laid free'.low search
        (@acceptable_of_null (s.memoryOf p) _ _ ⟨0,by decide,housed.empty⟩ (by omega))
      rw [served]
      exact (blockAddress_pos b').ne'
  obtain ⟨_,_,count⟩ := (@ArgumentWalks.process_malloc_blocks _ s _ p size housed.laid).resolve_left some
  exact ⟨some,count (requestBlocks_single low small)⟩

/-! ### One argument -/

/-- The word at a is the address of a copy of the string, null byte and all, whose bytes the process's pages lead to
    themselves. -/
structure Copy (p : Nat) (s : World φ) (a str : Nat) (text : CString) : Prop where
  word : read32 s.kernel.memory a = str
  high : str + 512 ≤ 0xFFFFF000
  own : ∀ l, l < 512 → leads p s (str + l) = str + l
  text : string_at kernel_page s.kernel.memory str 512 = text

theorem Copy.kept {a str : Nat} {text : CString} (copy : Copy p s a str text) (fits : a + 4 ≤ 4294967296)
    (word : ∀ x, a ≤ x → x < a + 4 → t.kernel.memory x = s.kernel.memory x)
    (bytes : ∀ l, l < 512 → t.kernel.memory (str + l) = s.kernel.memory (str + l))
    (own : ∀ l, l < 512 → leads p t (str + l) = leads p s (str + l)) : Copy p t a str text := by
  have high := copy.high
  refine ⟨(read32_congr fits word).trans copy.word,high,fun l inside => (own l inside).trans (copy.own l inside),?_⟩
  have same := @string_at_congr s.kernel.memory t.kernel.memory kernel_page kernel_page 512 str str fun j inside => by
    rw [offset_of_lt (by omega)]
    exact bytes j inside
  rw [offset_of_lt (by omega),Nat.add_zero] at same
  rw [same]
  exact copy.text

/-- The vector lies in an extent that the process has taken. -/
structure VectorHeld (more : List Extent) (argv n : Nat) : Prop where
  high : argv + 4 * n ≤ 0xFFFFF000
  inside : ∃ e ∈ more, ∀ l, l < 4 * n → blockOf (argv + l) ∈ e

/-- The bytes of a node are none of those that the copying changes. -/
structure Readable (p : Nat) (live : List Extent) (argv n : Nat) (s : World φ) (node : Nat) : Prop where
  pointer : node < 4294967296
  settled : ∀ j, j < 516 → Settled live (offset node j)
  outside : ∀ j, j < 516 → ¬InTables s.kernel.memory (directoryOf p s) (offset node j)
  beside : ∀ j, j < 516 → ¬(argv ≤ offset node j ∧ offset node j < argv + 4 * n)

/-- One round of the copying, with the extent that the copy has got. -/
structure Round (p : Nat) (fixed more : List Extent) (argv i current : Nat) (s t : World φ) (e : Extent) (str : Nat) : Prop where
  housed : Housed p fixed (e :: more) t
  memory : ∀ x, Settled (more ++ fixed) x → ¬InTables s.kernel.memory (directoryOf p s) x →
    ¬(argv + 4 * i ≤ x ∧ x < argv + 4 * i + 4) → t.kernel.memory x = s.kernel.memory x
  tables : ∀ x, InTables t.kernel.memory (directoryOf p t) x ↔ InTables s.kernel.memory (directoryOf p s) x
  others : ∀ v, v < 4294967296 → blockOf v ∉ e → leads p t v = leads p s v
  inside : ∀ l, l < 512 → blockOf (str + l) ∈ e
  copy : Copy p t (argv + 4 * i) str (string_at kernel_page s.kernel.memory current 511)

private theorem copy_round {argv i n current str : Nat} (housed : Housed p fixed more s) (vector : VectorHeld more argv n) (below : i < n)
    (readable : Readable p (more ++ fixed) argv n s current)
    (granted : s.process_malloc p 512 = (str,t)) (some : str ≠ 0) :
    ∃ e, Round p fixed more argv i current s (FailedCommands.copied argv i current str t) e str := by
  have malloc := @process_malloc_given _ s p fixed more 512 housed (by decide) (by decide)
  rw [granted] at malloc
  obtain ⟨e,given⟩ := malloc some
  dsimp only at given
  obtain ⟨b,count⟩ := e
  have low := given.low
  have start := given.start
  have fits := given.fits
  have high := given.high
  have argvHigh := vector.high
  obtain ⟨ev,listed,slots⟩ := vector.inside
  dsimp only at low start fits
  have inside : ∀ l, l < 512 → blockOf (str + l) ∈ Extent.mk b count := fun l inside => (blockOf_mem low).mpr (by omega)
  have beside : ∀ x, Settled (more ++ fixed) x → blockOf x ∉ Extent.mk b count := fun x settled =>
    guarded_outside given.housed.laid settled
  have slot : ∀ x, argv + 4 * i ≤ x → x < argv + 4 * i + 4 → blockOf x ∈ ev := by
    intro x first last
    have place := slots (x - argv) (by omega)
    rwa [show argv + (x - argv) = x by omega] at place
  have settled_slot : ∀ x, argv + 4 * i ≤ x → x < argv + 4 * i + 4 → blockOf x ∉ Extent.mk b count := fun x first last =>
    beside x (.inr ⟨ev,List.mem_append_left _ listed,slot x first last⟩)
  -- the string is copied, and then its address is stored
  obtain ⟨copied,frame⟩ := strncpy_loop_copies str current 511 0 t.kernel.memory (by decide) fun j k boundJ boundK same => by
    refine beside _ (readable.settled j (by omega)) ?_
    rw [same,offset_of_lt (by omega)]
    exact inside k (by omega)
  obtain ⟨m,stored⟩ : ∃ m, m = strncpy kernel_page t.kernel.memory str current 512 := ⟨_,rfl⟩
  have loop : m = strncpy_loop kernel_page str current 511 0 t.kernel.memory := stored
  rw [← loop] at copied frame
  have place : offset argv (4 * i) = argv + 4 * i := offset_of_lt (by omega)
  obtain ⟨u,named⟩ : ∃ u, u = FailedCommands.copied argv i current str t := ⟨_,rfl⟩
  have memory : u.kernel.memory = write32 m (argv + 4 * i) str := by
    rw [named,stored,← place]
    rfl
  have kept : ∀ x, blockOf x ∉ Extent.mk b count → ¬(argv + 4 * i ≤ x ∧ x < argv + 4 * i + 4) →
      u.kernel.memory x = t.kernel.memory x := by
    intro x outside other
    rw [memory,write32_apply (by omega),if_neg other]
    refine frame x fun k _ bound same => outside ?_
    rw [same,offset_of_lt (by omega)]
    exact inside k (by omega)
  have translating : ∀ x, InSpace t.kernel.memory (directoryOf p t) x ∨ (chunkOf p t ≤ x ∧ x < chunkOf p t + 4) →
      u.kernel.memory x = t.kernel.memory x := by
    intro x byte
    have apart : ∀ e' ∈ (⟨b,count⟩ :: more : List Extent), blockOf x ∉ e' := by
      intro e' member within
      obtain ⟨notSpace,notChunk⟩ := given.housed.apart member within
      exact byte.elim notSpace notChunk
    exact kept x (apart _ (List.mem_cons_self ..)) fun within =>
      apart ev (List.mem_cons_of_mem _ listed) (slot x within.1 within.2)
  obtain ⟨housed',tables,others⟩ := given.housed.write (t := u) (by rw [named]; exact ⟨rfl,rfl⟩) (by rw [named]; rfl) translating
  rw [← named]
  refine ⟨⟨b,count⟩,housed',fun x settled outside other => ?_,fun x => ?_,fun v below outside => ?_,inside,⟨?_,high,fun l bound => ?_,?_⟩⟩
  · rw [kept x (beside x settled) other,given.memory x settled outside]
  · rw [tables,given.tables]
  · rw [others v below,given.others v below outside]
  · rw [memory]
    exact read32_write32_same (by omega) (by omega) m
  · rw [others _ (by omega),given.own _ (by omega) (inside l bound)]
  · have unstored : string_at kernel_page u.kernel.memory str 512 = string_at kernel_page m str 512 := by
      have same := @string_at_congr m u.kernel.memory kernel_page kernel_page 512 str str fun j bound => by
        rw [offset_of_lt (by omega)]
        change u.kernel.memory (str + j) = m (str + j)
        rw [memory,write32_apply (by omega),if_neg fun within => settled_slot _ within.1 within.2 (inside j bound)]
      rw [offset_of_lt (by omega),Nat.add_zero] at same
      exact same
    have unread : string_at kernel_page t.kernel.memory (offset current 0) 511 =
        string_at kernel_page s.kernel.memory (offset current 0) 511 :=
      @string_at_congr s.kernel.memory t.kernel.memory kernel_page kernel_page 511 current current fun j bound =>
        given.memory _ (readable.settled j (by omega)) (readable.outside j (by omega))
    have pointer := readable.pointer
    rw [offset_of_lt (by omega),Nat.add_zero,unread,offset_of_lt (by omega),Nat.add_zero] at copied
    exact unstored.trans copied

/-! ### The list -/

/-- A node whose bytes are the same has the same next node and the same string. -/
theorem node_same {m m' : Bytes} {node : Nat} (pointer : node < 4294967296) (same : ∀ j, j < 516 → m' (offset node j) = m (offset node j)) :
    command_argument_next m' node = command_argument_next m node ∧
      string_at kernel_page m' node 511 = string_at kernel_page m node 511 := by
  constructor
  · unfold command_argument_next read32
    rw [offset_offset,offset_offset,offset_offset,same 512 (by decide),same (512 + 1) (by decide),same (512 + 2) (by decide),
      same (512 + 3) (by decide)]
  · have bytes := @string_at_congr m m' kernel_page kernel_page 511 node node fun j bound => same j (by omega)
    rwa [offset_of_lt (by omega),Nat.add_zero] at bytes

/-- After a round the rest of the list is as it was, and can still be read. -/
private theorem Round.onward {argv i n current str : Nat} {e : Extent} {rest : List Nat} (round : Round p fixed more argv i current s t e str)
    (vector : VectorHeld more argv n) (below : i < n) (readable : ∀ node ∈ current :: rest, Readable p (more ++ fixed) argv n s node)
    (visits : Visits (command_argument_next s.kernel.memory) 0 (command_argument_next s.kernel.memory current) rest) :
    VectorHeld (e :: more) argv n ∧
    Visits (command_argument_next t.kernel.memory) 0 (command_argument_next t.kernel.memory current) rest ∧
    (∀ node ∈ rest, Readable p (e :: more ++ fixed) argv n t node) ∧
    ∀ node ∈ rest, string_at kernel_page t.kernel.memory node 511 = string_at kernel_page s.kernel.memory node 511 := by
  obtain ⟨ev,listed,slots⟩ := vector.inside
  have same : ∀ node ∈ current :: rest, command_argument_next t.kernel.memory node = command_argument_next s.kernel.memory node ∧
      string_at kernel_page t.kernel.memory node 511 = string_at kernel_page s.kernel.memory node 511 := by
    intro node member
    refine node_same (readable node member).pointer fun j bound => ?_
    have beside := (readable node member).beside j bound
    exact round.memory _ ((readable node member).settled j bound) ((readable node member).outside j bound) (by omega)
  refine ⟨⟨vector.high,ev,List.mem_cons_of_mem _ listed,slots⟩,?_,fun node member => ?_,fun node member =>
    (same node (List.mem_cons_of_mem _ member)).2⟩
  · rw [(same current (List.mem_cons_self ..)).1]
    exact visits.congr fun node member => (same node (List.mem_cons_of_mem _ member)).1
  · obtain ⟨pointer,settled,outside,beside⟩ := readable node (List.mem_cons_of_mem _ member)
    exact ⟨pointer,fun j bound => (settled j bound).mono fun e member => List.mem_cons_of_mem _ member,
      fun j bound inTables => outside j bound ((round.tables _).mp inTables),beside⟩

/-- The copies of a list, the first of them in slot i. -/
structure Copies (p : Nat) (fixed more : List Extent) (argv i : Nat) (nodes : List Nat) (s w : World φ) (taken : List Extent) :
    Prop where
  housed : Housed p fixed (taken ++ more) w
  memory : ∀ x, Settled (more ++ fixed) x → ¬InTables s.kernel.memory (directoryOf p s) x →
    ¬(argv + 4 * i ≤ x ∧ x < argv + 4 * (i + nodes.length)) → w.kernel.memory x = s.kernel.memory x
  others : ∀ v, v < 4294967296 → ¬Covered taken (blockOf v) → leads p w v = leads p s v
  copies : ∀ j node, nodes[j]? = some node → ∃ str, Copy p w (argv + 4 * (i + j)) str (string_at kernel_page s.kernel.memory node 511)

/-- The copies of the rest of a list with that of its first node. -/
private theorem Round.copies {argv i n current str : Nat} {e : Extent} {rest : List Nat} {taken : List Extent}
    (round : Round p fixed more argv i current s t e str) (vector : VectorHeld more argv n) (below : i + (rest.length + 1) ≤ n)
    (unchanged : ∀ node ∈ rest, string_at kernel_page t.kernel.memory node 511 = string_at kernel_page s.kernel.memory node 511)
    (copies : Copies p fixed (e :: more) argv (i + 1) rest t u taken) :
    Copies p fixed more argv i (current :: rest) s u (taken ++ [e]) := by
  obtain ⟨ev,listed,slots⟩ := vector.inside
  have argvHigh := vector.high
  have strHigh := round.copy.high
  have slot : ∀ x, argv ≤ x → x < argv + 4 * n → blockOf x ∈ ev := by
    intro x first last
    have place := slots (x - argv) (by omega)
    rwa [show argv + (x - argv) = x by omega] at place
  have settled_slot : ∀ x, argv ≤ x → x < argv + 4 * n → Settled (more ++ fixed) x := fun x first last =>
    .inr ⟨ev,List.mem_append_left _ listed,slot x first last⟩
  refine ⟨?_,fun x settled outside other => ?_,fun v high uncovered => ?_,fun j node found => ?_⟩
  · have housed' := copies.housed
    rwa [List.append_cons] at housed'
  · rw [List.length_cons] at other
    rw [copies.memory x (settled.mono fun e member => List.mem_cons_of_mem _ member)
      (fun inTables => outside ((round.tables x).mp inTables)) (by omega)]
    exact round.memory x settled outside (by omega)
  · have inTaken : ¬Covered taken (blockOf v) := by
      rintro ⟨e',member,inside⟩
      exact uncovered ⟨e',List.mem_append_left _ member,inside⟩
    have inOwn : blockOf v ∉ e := fun inside => uncovered ⟨e,List.mem_append_right _ (List.mem_cons_self ..),inside⟩
    rw [copies.others v high inTaken,round.others v high inOwn]
  · cases j with
    | zero =>
      rw [List.getElem?_cons_zero,Option.some.injEq] at found
      subst found
      have disjoint : ∀ l, l < 512 → ¬Covered taken (blockOf (str + l)) := by
        rintro l bound ⟨e',member,inside⟩
        have laid := copies.housed.laid
        rw [List.append_assoc] at laid
        exact (List.pairwise_append.mp laid.layout.disjoint).2.2 e' member e (List.mem_cons_self ..) _ inside (round.inside l bound)
      refine ⟨str,round.copy.kept (by omega) (fun x low high => ?_) (fun l bound => ?_) fun l bound =>
        copies.others _ (by omega) (disjoint l bound)⟩
      · refine copies.memory x ((settled_slot x (by omega) (by omega)).mono fun e member => List.mem_cons_of_mem _ member)
          (fun inTables => ?_) (by omega)
        exact (round.housed.apart (List.mem_cons_of_mem _ listed) (slot x (by omega) (by omega))).1 (.inr inTables)
      · refine copies.memory _ (.inr ⟨e,List.mem_cons_self ..,round.inside l bound⟩)
          (fun inTables => (round.housed.apart (List.mem_cons_self ..) (round.inside l bound)).1 (.inr inTables)) fun within => ?_
        exact guarded_outside round.housed.laid (settled_slot _ (by omega) (by omega)) (round.inside l bound)
    | succ j =>
      rw [List.getElem?_cons_succ] at found
      obtain ⟨str',copy⟩ := copies.copies j node found
      rw [unchanged node (List.mem_of_getElem? found),show i + 1 + j = i + (j + 1) by omega] at copy
      exact ⟨str',copy⟩

theorem inject_loop_copies {argv n : Nat} (remaining : Nat) : ∀ {i current : Nat} {more : List Extent} {s w : World φ} {nodes : List Nat}
    {res : Int}, Housed p fixed more s → VectorHeld more argv n → i + nodes.length ≤ n →
    Visits (command_argument_next s.kernel.memory) 0 current nodes → (∀ node ∈ nodes, Readable p (more ++ fixed) argv n s node) →
    process_inject_arguments_loop p argv remaining i current s = .ok (res,w) → 0 ≤ res →
    ∃ taken, Copies p fixed more argv i nodes s w taken := by
  induction remaining with
  | zero =>
    intro i current more s w nodes res _ _ _ _ _ ran
    cases ran
  | succ remaining ih =>
    intro i current more s w nodes res housed vector below visits readable ran positive
    rw [process_inject_arguments_loop] at ran
    cases visits with
    | done =>
      rw [if_pos rfl] at ran
      cases ran
      exact ⟨[],housed,fun x _ _ _ => rfl,fun v _ _ => rfl,fun j node found => by simp at found⟩
    | @step _ rest nonnull visits =>
      rw [if_neg nonnull] at ran
      rcases granting : s.process_malloc p 512 with ⟨str,t⟩
      rw [granting] at ran
      dsimp only at ran
      by_cases null : str = 0
      · rw [if_pos null] at ran
        cases ran
        exact absurd positive (by decide)
      rw [if_neg null] at ran
      rw [List.length_cons] at below
      obtain ⟨e,round⟩ := copy_round (i := i) housed vector (by omega) (readable current (List.mem_cons_self ..)) granting null
      change process_inject_arguments_loop p argv remaining (i + 1) (command_argument_next
        (FailedCommands.copied argv i current str t).kernel.memory current) (FailedCommands.copied argv i current str t) = _ at ran
      obtain ⟨vector',onward,readable',unchanged⟩ := round.onward vector (by omega) readable visits
      obtain ⟨taken,copies⟩ := ih round.housed vector' (by omega) onward readable' ran positive
      exact ⟨_,round.copies vector (by omega) unchanged copies⟩

/-- With a free block for each, the nodes are copied. -/
theorem inject_loop_served {argv n : Nat} {nodes : List Nat} : ∀ {i current remaining : Nat} {more : List Extent} {s : World φ},
    Housed p fixed more s → VectorHeld more argv n → i + nodes.length ≤ n → nodes.length < remaining →
    nodes.length ≤ freeBlocks s.kernel.kernel_heap →
    Visits (command_argument_next s.kernel.memory) 0 current nodes → (∀ node ∈ nodes, Readable p (more ++ fixed) argv n s node) →
    ∃ w, process_inject_arguments_loop p argv remaining i current s = .ok (0,w) := by
  induction nodes with
  | nil =>
    intro i current remaining more s _ _ _ enough _ visits _
    obtain ⟨remaining,rfl⟩ : ∃ n, remaining = n + 1 := ⟨remaining - 1,by omega⟩
    cases visits with
    | done => exact ⟨s,rfl⟩
  | cons node rest ih =>
    intro i current remaining more s housed vector below enough free visits readable
    rw [List.length_cons] at below enough free
    obtain ⟨remaining,rfl⟩ : ∃ n, remaining = n + 1 := ⟨remaining - 1,by omega⟩
    cases visits with
    | step nonnull visits =>
      obtain ⟨some,count⟩ := @process_malloc_single _ s p _ _ 512 housed (by decide) (by decide) (by omega)
      rw [process_inject_arguments_loop,if_neg nonnull]
      rcases granting : s.process_malloc p 512 with ⟨str,t⟩
      rw [granting] at some count
      dsimp only at some count ⊢
      rw [if_neg some]
      obtain ⟨e,round⟩ := copy_round (i := i) housed vector (by omega) (readable node (List.mem_cons_self ..)) granting some
      obtain ⟨vector',onward,readable',_⟩ := round.onward vector (by omega) readable visits
      refine ih round.housed vector' (by omega) (by omega) ?_ onward readable'
      change rest.length ≤ freeBlocks t.kernel.kernel_heap
      omega

end

/-! ### The vector -/

/-- A walk of fewer nodes than an int can count is counted. -/
theorem count_visits {m : Bytes} {node rounds : Nat} {nodes : List Nat} (visits : Visits (command_argument_next m) 0 node nodes)
    (enough : nodes.length < rounds) : ∀ i : Nat, i + nodes.length < 2147483648 →
    process_count_command_arguments_loop m rounds i node = some ((i + nodes.length : Nat) : Int) := by
  induction visits generalizing rounds with
  | done =>
    intro i _
    obtain ⟨rounds,rfl⟩ : ∃ n, rounds = n + 1 := ⟨rounds - 1,by omega⟩
    rfl
  | @step node rest nonnull _ ih =>
    intro i small
    rw [List.length_cons] at enough small
    obtain ⟨rounds,rfl⟩ : ∃ n, rounds = n + 1 := ⟨rounds - 1,by omega⟩
    have next : i32 ((i : Int) + 1) = ((i + 1 : Nat) : Int) := by
      unfold i32
      omega
    rw [process_count_command_arguments_loop,if_neg nonnull,next,ih (by omega) (i + 1) (by omega),List.length_cons,
      Nat.add_right_comm,Nat.add_assoc]

/-- The process has a vector of copies of the arguments. -/
structure Passed (p : Nat) (s w : World φ) (nodes : List Nat) (argv : Nat) : Prop where
  arguments : (w.process p).arguments = ⟨nodes.length,argv⟩
  high : argv + 4 * nodes.length ≤ 0xFFFFF000
  own : ∀ l, l < 4 * nodes.length → leads p w (argv + l) = argv + l
  copies : ∀ i node, nodes[i]? = some node → ∃ str, Copy p w (argv + 4 * i) str (string_at kernel_page s.kernel.memory node 511)

/-- The nodes that the kernel's walk visits, none of whose bytes taking memory for the process changes. -/
structure Listed (p : Nat) (fixed : List Extent) (s : World φ) (root : Nat) (nodes : List Nat) : Prop where
  visits : Visits (command_argument_next s.kernel.memory) 0 root nodes
  below : ∀ node ∈ nodes, node < 134217728
  settled : ∀ node ∈ nodes, ∀ j, j < 516 → Settled fixed (offset node j)
  outside : ∀ node ∈ nodes, ∀ j, j < 516 → ¬InTables s.kernel.memory (directoryOf p s) (offset node j)

section
variable {s t w : World φ} {p root : Nat} {fixed : List Extent} {nodes : List Nat} {res : Int}

theorem Listed.short (listed : Listed p fixed s root nodes) : nodes.length < 134217728 :=
  listed.visits.length_lt_of_mem (by decide) listed.below

/-- Behind the request for the vector the list is as it was, and can still be read. -/
private theorem Listed.vector {argv : Nat} {e : Extent} (listed : Listed p fixed s root nodes)
    (given : Given p fixed [] (4 * nodes.length) argv e s t) :
    (∀ l, l < 4 * nodes.length → blockOf (argv + l) ∈ e) ∧ VectorHeld [e] argv nodes.length ∧
    Visits (command_argument_next t.kernel.memory) 0 root nodes ∧
    (∀ node ∈ nodes, Readable p ([e] ++ fixed) argv nodes.length t node) ∧
    ∀ node ∈ nodes, string_at kernel_page t.kernel.memory node 511 = string_at kernel_page s.kernel.memory node 511 := by
  have low := given.low
  have start := given.start
  have fits := given.fits
  have high := given.high
  have inside : ∀ l, l < 4 * nodes.length → blockOf (argv + l) ∈ e := fun l inside => (blockOf_mem low).mpr (by omega)
  have pointers : ∀ node ∈ nodes, node < 4294967296 := fun node member => (listed.below node member).trans (by decide)
  have same : ∀ node ∈ nodes, command_argument_next t.kernel.memory node = command_argument_next s.kernel.memory node ∧
      string_at kernel_page t.kernel.memory node 511 = string_at kernel_page s.kernel.memory node 511 := fun node member =>
    node_same (pointers node member) fun j bound => given.memory _ (listed.settled node member j bound)
      (listed.outside node member j bound)
  refine ⟨inside,⟨high,e,List.mem_cons_self ..,inside⟩,listed.visits.congr fun node member => (same node member).1,
    fun node member => ⟨pointers node member,fun j bound => ?_,fun j bound inTables => ?_,fun j bound within => ?_⟩,
    fun node member => (same node member).2⟩
  · exact (listed.settled node member j bound).mono fun e member => List.mem_cons_of_mem _ member
  · exact listed.outside node member j bound ((given.tables _).mp inTables)
  · refine guarded_outside given.housed.laid (listed.settled node member j bound) ?_
    have place := inside (offset node j - argv) (by omega)
    rwa [show argv + (offset node j - argv) = offset node j by omega] at place

/-- What copying the arguments does with a list of such nodes. -/
private theorem process_inject_arguments_eq (listed : Listed p fixed s root nodes) :
    process_inject_arguments p root s = if nodes.length = 0 then .ok (-Machine.EIO,s)
      else if (s.process_malloc p (4 * nodes.length)).1 = 0 then .ok (-ENOMEM,(s.process_malloc p (4 * nodes.length)).2)
      else do
        let (res, w) ← process_inject_arguments_loop p (s.process_malloc p (4 * nodes.length)).1 4294967296 0 root
          (s.process_malloc p (4 * nodes.length)).2
        if res < 0 then return (res, w)
        return (res, w.setProcess p fun v => { v with arguments := ⟨nodes.length,(s.process_malloc p (4 * nodes.length)).1⟩ }) := by
  have short := listed.short
  have counted : process_count_command_arguments s.kernel.memory root = some (nodes.length : Int) := by
    have count := @count_visits _ _ 4294967296 _ listed.visits (by omega) 0 (by omega)
    rwa [Nat.zero_add] at count
  have size : u32 (4 * (nodes.length : Int)) = 4 * nodes.length := by
    unfold u32
    omega
  unfold process_inject_arguments
  rw [counted]
  dsimp only
  rw [size]
  by_cases none : nodes.length = 0
  · rw [if_pos none,if_pos (by omega)]
  · rw [if_neg none,if_neg (by omega)]

/-- Such nodes are copied once each, and the vector has the addresses of the copies. -/
theorem process_inject_arguments_passed (housed : Housed p fixed [] s) (listed : Listed p fixed s root nodes)
    (ran : process_inject_arguments p root s = .ok (res,w)) (succeeded : 0 ≤ res) : ∃ argv, Passed p s w nodes argv := by
  have short := listed.short
  rw [process_inject_arguments_eq listed] at ran
  by_cases none : nodes.length = 0
  · rw [if_pos none] at ran
    cases ran
    exact absurd succeeded (by decide)
  rw [if_neg none] at ran
  by_cases null : (s.process_malloc p (4 * nodes.length)).1 = 0
  · rw [if_pos null] at ran
    cases ran
    exact absurd succeeded (by decide)
  rw [if_neg null] at ran
  obtain ⟨e,given⟩ := process_malloc_given housed (by omega) (by omega) null
  generalize s.process_malloc p (4 * nodes.length) = granted at ran given
  obtain ⟨argv,t⟩ := granted
  dsimp only at ran given
  obtain ⟨⟨res₁,u⟩,copied,ran⟩ := bind_ok ran
  dsimp only at ran
  split_ifs at ran with failed
  · cases ran
    exact absurd succeeded (by omega)
  cases ran
  obtain ⟨inside,vector,onward,readable,unchanged⟩ := listed.vector given
  have high := vector.high
  obtain ⟨taken,copies⟩ := inject_loop_copies 4294967296 given.housed vector (Nat.le_of_eq (Nat.zero_add _)) onward readable copied
    (by omega)
  have disjoint : ∀ l, l < 4 * nodes.length → ¬Covered taken (blockOf (argv + l)) := by
    rintro l bound ⟨e',member,within⟩
    have laid := copies.housed.laid
    rw [List.append_assoc] at laid
    exact (List.pairwise_append.mp laid.layout.disjoint).2.2 e' member e (List.mem_cons_self ..) _ within (inside l bound)
  obtain ⟨w,noted⟩ : ∃ w, w = u.setProcess p fun v => { v with arguments := ⟨nodes.length,argv⟩ } := ⟨_,rfl⟩
  have memory : w.kernel.memory = u.kernel.memory := by
    rw [noted]
    rfl
  have unled : ∀ v, leads p w v = leads p u v := by
    intro v
    rw [noted]
    unfold leads directoryOf chunkOf
    simp only [World.setProcess,Function.update_self]
  rw [← noted]
  refine ⟨argv,?_,high,fun l bound => ?_,fun i node found => ?_⟩
  · rw [noted]
    simp only [World.setProcess,Function.update_self]
  · rw [unled,copies.others _ (by omega) (disjoint l bound),given.own _ (by omega) (inside l bound)]
  · obtain ⟨str,copy⟩ := copies.copies i node found
    have index := (List.getElem?_eq_some_iff.mp found).1
    rw [Nat.zero_add,unchanged node (List.mem_of_getElem? found)] at copy
    exact ⟨str,copy.kept (by omega) (fun x _ _ => by rw [memory]) (fun l _ => by rw [memory]) fun l _ => unled _⟩

/-- With a free block for the vector and for each node, they are copied. -/
theorem process_inject_arguments_served (housed : Housed p fixed [] s) (listed : Listed p fixed s root nodes) (some : nodes ≠ [])
    (most : nodes.length ≤ 1024) (free : nodes.length + 1 ≤ freeBlocks s.kernel.kernel_heap) :
    ∃ w, process_inject_arguments p root s = .ok (0,w) := by
  have positive := List.length_pos_of_ne_nil some
  obtain ⟨granted,count⟩ := @process_malloc_single _ s p _ _ (4 * nodes.length) housed (by omega) (by omega) (by omega)
  rw [process_inject_arguments_eq listed,if_neg (by omega),if_neg granted]
  obtain ⟨e,given⟩ := process_malloc_given housed (by omega) (by omega) granted
  generalize s.process_malloc p (4 * nodes.length) = served at given count
  obtain ⟨argv,t⟩ := served
  dsimp only at given count ⊢
  obtain ⟨_,vector,onward,readable,_⟩ := listed.vector given
  obtain ⟨u,copied⟩ := inject_loop_served given.housed vector (Nat.le_of_eq (Nat.zero_add _)) (by omega : nodes.length < 4294967296)
    (by omega) onward readable
  rw [copied]
  exact ⟨_,rfl⟩

end

end SimpOS.CopiedArguments
