import SimpOS.FlatBinaries

/-!
What a task finds at the addresses of an ELF file's segments once `process_map_elf` has mapped
them: the file's image as it lies in the buffer, page by page, behind the page directory of the
task. The mapping covers the p_memsz bytes of a segment, so that what a program reads behind its
p_filesz bytes is whatever follows them in the buffer.
-/
namespace SimpOS.ElfSegments
open SimpOS.Machine SimpOS.Memory SimpOS.Paging SimpOS.AddressSpaces SimpOS.ElfLoader SimpOS.Isolation SimpOS.ElfMapping
open SimpOS.KernelHeap SimpOS.PageDirectories SimpOS.PageMapping SimpOS.TaskMemory SimpOS.Processes

/-- The pages of a segment: as many from the page of its first byte on, around the end of the address
    space, as its p_memsz bytes touch. -/
def SegmentPage (phdr : Elf32Phdr) (v : Nat) : Prop :=
  above (phdr.p_vaddr - phdr.p_vaddr % 4096) v < (phdr.p_vaddr % 4096 + phdr.p_memsz + 4095) / 4096 * 4096
instance (phdr : Elf32Phdr) (v : Nat) : Decidable (SegmentPage phdr v) := inferInstanceAs (Decidable (_ < _))

/-- A segment inside a file of this size, as a page of the file for a page of memory. -/
structure Loadable (file_size : Nat) (phdr : Elf32Phdr) : Prop where
  type : phdr.p_type = PT_LOAD
  inFile : phdr.p_offset + phdr.p_filesz ≤ file_size
  sizes : phdr.p_filesz ≤ phdr.p_memsz
  congruent : phdr.p_vaddr % 4096 = phdr.p_offset % 4096

/-- Every program header is loadable, and no two have a page in common. -/
structure Segments (m : Bytes) (elf_file : ElfFile) (file_size : Nat) : Prop where
  each : ∀ i < e_phnum m (elf_header elf_file), Loadable file_size (header_at m elf_file i)
  disjoint : ∀ i < e_phnum m (elf_header elf_file), ∀ j < e_phnum m (elf_header elf_file), i ≠ j →
    ∀ v, SegmentPage (header_at m elf_file i) v → ¬ SegmentPage (header_at m elf_file j) v

/-- The end of the segment in the file's buffer can be rounded up without passing 2^32. -/
def Ends (elf_file : ElfFile) (phdr : Elf32Phdr) : Prop :=
  elf_file.elf_memory + phdr.p_offset + phdr.p_memsz ≤ 0xFFFFF000
/-- No segment's end wraps. -/
def EachEnds (m : Bytes) (elf_file : ElfFile) : Prop :=
  ∀ i < e_phnum m (elf_header elf_file), Ends elf_file (header_at m elf_file i)

/-- The entry that a segment's page gets. -/
def segmentEntry (elf_file : ElfFile) (phdr : Elf32Phdr) (v : Nat) : Nat :=
  elf_file.elf_memory + (phdr.p_offset - phdr.p_offset % 4096) + above (phdr.p_vaddr - phdr.p_vaddr % 4096) v +
    pageFlags phdr

/-- An address leads where the entry of its page says. -/
private theorem paging_get_physical_address_congr {m m' : Bytes} {directory v : Nat}
    (same : paging_get m' directory (v - v % 4096) = paging_get m directory (v - v % 4096)) :
    paging_get_physical_address m' directory v = paging_get_physical_address m directory v := by
  simp only [paging_get_physical_address,paging_align_to_lower_page,PAGING_PAGE_SIZE,same]

/-! ### One header -/

section
variable {directory : Paging4gbChunk} {elf_file : ElfFile} {phdr : Elf32Phdr} {m start : Bytes} {file_size : Nat}

/-- The three roundings agree: the range has as many pages as the segment. -/
private theorem pages_range (aligned : elf_file.elf_memory % 4096 = 0) (loadable : Loadable file_size phdr)
    (ends : Ends elf_file phdr) :
    pagesFrom elf_file phdr = elf_file.elf_memory + (phdr.p_offset - phdr.p_offset % 4096) ∧
    pagesFrom elf_file phdr ≤ pagesTo elf_file phdr ∧
    pagesTo elf_file phdr - pagesFrom elf_file phdr = (phdr.p_vaddr % 4096 + phdr.p_memsz + 4095) / 4096 * 4096 := by
  have congruent := loadable.congruent
  unfold Ends at ends
  have place : elf_phdr_phys_address elf_file phdr = elf_file.elf_memory + phdr.p_offset := offset_of_lt (by omega)
  have lower : pagesFrom elf_file phdr = elf_file.elf_memory + (phdr.p_offset - phdr.p_offset % 4096) := by
    rw [pagesFrom,place,paging_align_to_lower_page,PAGING_PAGE_SIZE]
    omega
  have upper : pagesTo elf_file phdr = (elf_file.elf_memory + phdr.p_offset + phdr.p_memsz + 4095) / 4096 * 4096 := by
    rw [pagesTo,place,offset_of_lt (by omega),paging_align_address_eq ends]
  exact ⟨lower,by omega,by omega⟩

private theorem segment_mapped (space : AddressSpace m directory.directory_entry)
    (aligned : elf_file.elf_memory % 4096 = 0) (loadable : Loadable file_size phdr) (ends : Ends elf_file phdr)
    (virtHigh : phdr.p_vaddr < 4294967296) :
    ∃ m', process_map_elf_header directory elf_file phdr m = (0,m') ∧ Remapped m m' directory.directory_entry
      (fun v => if SegmentPage phdr v then segmentEntry elf_file phdr v else paging_get m directory.directory_entry v) := by
  obtain ⟨lower,forward,length⟩ := pages_range aligned loadable ends
  rcases process_map_elf_header_cases elf_file space virtHigh with ⟨backward,_⟩ | ⟨_,m',mapped,remapped⟩
  · omega
  · rw [length,lower] at remapped
    exact ⟨m',mapped,remapped⟩

/-! ### The headers in turn -/

/-- The pages of the segments from header i on have their entries, and the other pages those they had. -/
structure MappedFrom (start m m' : Bytes) (directory : Nat) (elf_file : ElfFile) (i : Nat) : Prop where
  remapped : Remapped m m' directory (paging_get m' directory)
  segment : ∀ j, i ≤ j → j < e_phnum start (elf_header elf_file) → ∀ v, v % 4096 = 0 → v < 4294967296 →
    SegmentPage (header_at start elf_file j) v → paging_get m' directory v = segmentEntry elf_file (header_at start elf_file j) v
  others : ∀ v, v % 4096 = 0 → v < 4294967296 →
    (∀ j, i ≤ j → j < e_phnum start (elf_header elf_file) → ¬ SegmentPage (header_at start elf_file j) v) →
    paging_get m' directory v = paging_get m directory v

private theorem process_map_elf_loop_mapped (aligned : elf_file.elf_memory % 4096 = 0)
    (apart : HeadersApart start directory.directory_entry elf_file) (segments : Segments start elf_file file_size)
    (ends : EachEnds start elf_file) (remaining : Nat) :
    ∀ (i : Nat) (m : Bytes), e_phnum start (elf_header elf_file) ≤ i + remaining →
      Remapped start m directory.directory_entry (paging_get m directory.directory_entry) →
      ∃ m', process_map_elf_loop directory elf_file (elf_pheader start (elf_header elf_file)) remaining i 0 m = (0,m') ∧
        MappedFrom start m m' directory.directory_entry elf_file i := by
  induction remaining with
  | zero =>
    intro i m enough remapped
    refine ⟨m,rfl,Remapped.refl remapped.space,fun j low below => by omega,fun v _ _ _ => rfl⟩
  | succ remaining ih =>
    intro i m enough remapped
    obtain ⟨count,same⟩ := headers_kept apart remapped
    rw [process_map_elf_loop,count]
    by_cases below : i < e_phnum start (elf_header elf_file)
    · rw [if_pos below,same i below]
      have virtHigh : (header_at start elf_file i).p_vaddr < 4294967296 := read32_lt ..
      obtain ⟨m₁,mapped,one⟩ := segment_mapped remapped.space aligned (segments.each i below) (ends i below)
        virtHigh
      have so_far := (remapped.trans one).congr fun v vAligned high => (one.entries v vAligned high).symm
      obtain ⟨m',rest,later⟩ := ih (i + 1) m₁ (by omega) so_far
      rw [mapped]
      simp only [Int.lt_irrefl,if_false]
      have both : Remapped m m' directory.directory_entry (paging_get m' directory.directory_entry) :=
        (one.trans later.remapped).congr fun _ _ _ => rfl
      refine ⟨m',rest,both,fun j low inside v vAligned high own => ?_,fun v vAligned high outside => ?_⟩
      · by_cases here : j = i
        · subst here
          have first := one.entries v vAligned high
          rw [if_pos own] at first
          rw [← first]
          exact later.others v vAligned high fun k lowK insideK => segments.disjoint j below k insideK (by omega) v own
        · exact later.segment j (by omega) inside v vAligned high own
      · have first := one.entries v vAligned high
        rw [if_neg (outside i (Nat.le_refl i) below)] at first
        rw [← first]
        exact later.others v vAligned high fun k lowK insideK => outside k (by omega) insideK
    · rw [if_neg below]
      exact ⟨m,rfl,Remapped.refl remapped.space,fun j low inside => by omega,fun v _ _ _ => rfl⟩

/-- Every header is mapped, and the mapping succeeds. -/
theorem process_map_elf_mapped (directory : Paging4gbChunk) (space : AddressSpace start directory.directory_entry)
    (aligned : elf_file.elf_memory % 4096 = 0) (apart : HeadersApart start directory.directory_entry elf_file)
    (segments : Segments start elf_file file_size) (ends : EachEnds start elf_file) :
    ∃ m', process_map_elf start directory elf_file = (0,m') ∧
      MappedFrom start start m' directory.directory_entry elf_file 0 := by
  have few : e_phnum start (elf_header elf_file) < 65536 := read16_lt ..
  exact process_map_elf_loop_mapped aligned apart segments ends 65536 0 start (by omega) (Remapped.refl space)

/-- Where a byte of a segment is found, and the flags of its page. -/
theorem MappedFrom.byte {i : Nat} (mapped : MappedFrom start start m directory.directory_entry elf_file 0)
    (aligned : elf_file.elf_memory % 4096 = 0) (segments : Segments start elf_file file_size)
    (ends : EachEnds start elf_file) (below : i < e_phnum start (elf_header elf_file)) {k : Nat}
    (inside : k < (header_at start elf_file i).p_memsz) :
    paging_get_physical_address m directory.directory_entry (offset (header_at start elf_file i).p_vaddr k) =
      elf_file.elf_memory + (header_at start elf_file i).p_offset + k ∧
    paging_get m directory.directory_entry (paging_align_to_lower_page (offset (header_at start elf_file i).p_vaddr k)) % 8 =
      pageFlags (header_at start elf_file i) := by
  have congruent := (segments.each i below).congruent
  have last := ends i below
  have entries := mapped.segment i (Nat.zero_le i) below
  have virtHigh : (header_at start elf_file i).p_vaddr < 4294967296 := read32_lt ..
  generalize header_at start elf_file i = phdr at congruent last entries inside virtHigh ⊢
  unfold Ends at last
  have low : pageFlags phdr < 8 := by
    unfold pageFlags
    split_ifs <;> decide
  obtain ⟨v,address⟩ : ∃ v, v = offset phdr.p_vaddr k := ⟨_,rfl⟩
  have high : v < 4294967296 := address ▸ offset_lt ..
  have distance : above (phdr.p_vaddr - phdr.p_vaddr % 4096) (v - v % 4096) =
      phdr.p_vaddr % 4096 + k - (phdr.p_vaddr % 4096 + k) % 4096 ∧ v % 4096 = (phdr.p_vaddr % 4096 + k) % 4096 := by
    unfold offset u32 at address
    unfold above u32
    omega
  have entry := entries (v - v % 4096) (by omega) (by omega) (by rw [SegmentPage,distance.1]; omega)
  rw [segmentEntry,distance.1] at entry
  rw [← address]
  constructor
  · rw [paging_get_physical_address_eq high rfl entry (by omega) (by omega) (by omega)]
    omega
  · rw [paging_align_to_lower_page,PAGING_PAGE_SIZE,entry]
    omega

/-- What the program finds of its file, and what the other pages keep. -/
structure FileMapped (m m' : Bytes) (directory : Nat) (elf_file : ElfFile) : Prop where
  physical : ∀ i < e_phnum m (elf_header elf_file), ∀ k < (header_at m elf_file i).p_filesz,
    paging_get_physical_address m' directory (offset (header_at m elf_file i).p_vaddr k) =
      elf_file.elf_memory + (header_at m elf_file i).p_offset + k
  flags : ∀ i < e_phnum m (elf_header elf_file), ∀ k < (header_at m elf_file i).p_filesz,
    ∀ entry, entry = paging_get m' directory (paging_align_to_lower_page (offset (header_at m elf_file i).p_vaddr k)) →
      entry &&& PAGING_IS_PRESENT ≠ 0 ∧ entry &&& PAGING_ACCESS_FROM_ALL ≠ 0 ∧
      (entry &&& PAGING_IS_WRITEABLE ≠ 0 ↔ (header_at m elf_file i).p_flags &&& PF_W ≠ 0)
  others : ∀ v, v % 4096 = 0 → v < 4294967296 →
    (∀ i < e_phnum m (elf_header elf_file), ¬ SegmentPage (header_at m elf_file i) v) →
    paging_get m' directory v = paging_get m directory v

private theorem flag_of_low {x flags bit : Nat} (low : x % 8 = flags) (small : 7 &&& bit = bit) :
    x &&& bit = flags &&& bit := by
  have three : x &&& 7 = x % 8 := Nat.and_two_pow_sub_one_eq_mod x 3
  calc x &&& bit
    _ = x &&& (7 &&& bit) := by rw [small]
    _ = x &&& 7 &&& bit := (Nat.and_assoc ..).symm
    _ = flags &&& bit := by rw [three,low]

/-- The segments of a file whose headers lie outside the page tables are mapped as they are in the
    file, with the rights that their headers ask for, and no other page is. -/
theorem process_map_elf_faithful (space : AddressSpace start directory.directory_entry)
    (aligned : elf_file.elf_memory % 4096 = 0) (apart : HeadersApart start directory.directory_entry elf_file)
    (segments : Segments start elf_file file_size) (ends : EachEnds start elf_file) :
    (process_map_elf start directory elf_file).1 = 0 ∧
    FileMapped start (process_map_elf start directory elf_file).2 directory.directory_entry elf_file := by
  obtain ⟨m',result,mapped⟩ := process_map_elf_mapped directory space aligned apart segments ends
  rw [result]
  refine ⟨rfl,fun i below k inside => ?_,fun i below k inside => ?_,fun v vAligned high outside => ?_⟩
  · have sizes := (segments.each i below).sizes
    exact (mapped.byte aligned segments ends below (by omega)).1
  · rintro entry rfl
    have sizes := (segments.each i below).sizes
    have low := (mapped.byte aligned segments ends below (k := k) (by omega)).2
    rw [flag_of_low low rfl,flag_of_low low rfl,flag_of_low low rfl]
    unfold pageFlags
    by_cases writes : (header_at start elf_file i).p_flags &&& PF_W ≠ 0
    · rw [if_pos writes]
      exact ⟨by decide,by decide,fun _ => writes,fun _ => by decide⟩
    · rw [if_neg writes]
      exact ⟨by decide,by decide,fun bit => absurd rfl bit,fun wants => absurd wants writes⟩
  · exact mapped.others v vAligned high fun i _ below => outside i below

end

/-! ### Segments that wrap -/

section
variable {directory : Paging4gbChunk} {elf_file : ElfFile} {phdr : Elf32Phdr} {start : Bytes} {file_size : Nat}

/-- A segment whose end wraps gets one page at most, and is accepted only with nearly all of memory. -/
private theorem pages_wrapped (aligned : elf_file.elf_memory % 4096 = 0) (loadable : Loadable file_size phdr)
    (heap : 0x01000000 ≤ elf_file.elf_memory ∧ elf_file.elf_memory + file_size ≤ 0x07400000)
    (wraps : ¬ Ends elf_file phdr) (memsz : phdr.p_memsz < 4294967296) :
    pagesTo elf_file phdr - pagesFrom elf_file phdr ≤ 4096 ∧ 0xF8BFF000 < phdr.p_memsz ∧
    (pagesFrom elf_file phdr ≤ pagesTo elf_file phdr → 4294959104 < phdr.p_memsz) := by
  have inFile := loadable.inFile
  unfold Ends at wraps
  have place : elf_phdr_phys_address elf_file phdr = elf_file.elf_memory + phdr.p_offset := offset_of_lt (by omega)
  have lower : pagesFrom elf_file phdr = elf_file.elf_memory + phdr.p_offset - (elf_file.elf_memory + phdr.p_offset) % 4096 := by
    rw [pagesFrom,place,paging_align_to_lower_page,PAGING_PAGE_SIZE]
  by_cases last : elf_file.elf_memory + phdr.p_offset + phdr.p_memsz < 4294967296
  · have upper : pagesTo elf_file phdr = 0 := by
      rw [pagesTo,place,offset_of_lt last,paging_align_address_wraps (by omega) last]
    omega
  · have sum : offset (elf_file.elf_memory + phdr.p_offset) phdr.p_memsz =
        elf_file.elf_memory + phdr.p_offset + phdr.p_memsz - 4294967296 := by
      unfold offset u32
      omega
    have upper : pagesTo elf_file phdr =
        (elf_file.elf_memory + phdr.p_offset + phdr.p_memsz - 4294967296 + 4095) / 4096 * 4096 := by
      rw [pagesTo,place,sum,paging_align_address_eq (by omega)]
    omega

/-- What a header maps are pages of its segment. -/
private theorem range_inside (aligned : elf_file.elf_memory % 4096 = 0) (loadable : Loadable file_size phdr)
    (heap : 0x01000000 ≤ elf_file.elf_memory ∧ elf_file.elf_memory + file_size ≤ 0x07400000)
    (memsz : phdr.p_memsz < 4294967296) {v : Nat}
    (covered : above (pagesAt phdr) v < pagesTo elf_file phdr - pagesFrom elf_file phdr) : SegmentPage phdr v := by
  have bottom : pagesAt phdr = phdr.p_vaddr - phdr.p_vaddr % 4096 := rfl
  rw [bottom] at covered
  unfold SegmentPage
  by_cases ends : Ends elf_file phdr
  · obtain ⟨_,_,length⟩ := pages_range aligned loadable ends
    omega
  · obtain ⟨short,long,_⟩ := pages_wrapped aligned loadable heap ends memsz
    omega

private theorem process_map_elf_loop_accepts (directory : Paging4gbChunk) (apart : HeadersApart start directory.directory_entry elf_file)
    (remaining : Nat) :
    ∀ (i : Nat) (m : Bytes), e_phnum start (elf_header elf_file) ≤ i + remaining →
      Remapped start m directory.directory_entry (paging_get m directory.directory_entry) →
      (process_map_elf_loop directory elf_file (elf_pheader start (elf_header elf_file)) remaining i 0 m).1 = 0 →
      ∀ j, i ≤ j → j < e_phnum start (elf_header elf_file) →
        pagesFrom elf_file (header_at start elf_file j) ≤ pagesTo elf_file (header_at start elf_file j) := by
  induction remaining with
  | zero =>
    intro i m enough _ _ j low below
    omega
  | succ remaining ih =>
    intro i m enough remapped accepted j low below
    obtain ⟨count,same⟩ := headers_kept apart remapped
    have here : i < e_phnum start (elf_header elf_file) := by omega
    have virtHigh : (header_at start elf_file i).p_vaddr < 4294967296 := read32_lt ..
    rw [process_map_elf_loop,count,if_pos here,same i here] at accepted
    rcases process_map_elf_header_cases elf_file remapped.space virtHigh with ⟨_,refused⟩ | ⟨forward,m',mapped,one⟩
    · rw [refused] at accepted
      have code : (if (-EINVARG : Int) < 0 then ((-EINVARG : Int),m) else process_map_elf_loop directory elf_file
          (elf_pheader start (elf_header elf_file)) remaining (i + 1) (-EINVARG) m).1 = 0 := accepted
      rw [if_pos (by decide)] at code
      exact absurd (show (-EINVARG : Int) = 0 from code) (by decide)
    · rw [mapped] at accepted
      by_cases this : j = i
      · exact this ▸ forward
      · have so_far := (remapped.trans one).congr fun v vAligned high => (one.entries v vAligned high).symm
        exact ih (i + 1) m' (by omega) so_far accepted j (by omega) below

/-- A page that no segment maps keeps its entry. -/
private theorem entry_kept (directory : Paging4gbChunk) (space : AddressSpace start directory.directory_entry)
    (apart : HeadersApart start directory.directory_entry elf_file) {v : Nat} (vAligned : v % 4096 = 0)
    (high : v < 4294967296)
    (uncovered : ∀ j < e_phnum start (elf_header elf_file), ¬ above (pagesAt (header_at start elf_file j)) v <
      pagesTo elf_file (header_at start elf_file j) - pagesFrom elf_file (header_at start elf_file j)) :
    paging_get (process_map_elf start directory elf_file).2 directory.directory_entry v =
      paging_get start directory.directory_entry v := by
  rcases @process_map_elf_entries directory elf_file start space v vAligned high with kept | ⟨i,m,phdr,maps,gives⟩
  · exact kept
  · obtain ⟨comes,below,rfl⟩ := maps
    obtain ⟨count,same⟩ := apart_headers space apart comes
    rw [same i (by omega)] at gives
    exact absurd gives.2.2.1 (uncovered i (by omega))

/-- Of two addresses far apart one lies inside a segment that has nearly all of memory. -/
private theorem far_address {p_vaddr p_filesz p_memsz : Nat} (virtHigh : p_vaddr < 4294967296)
    (small : p_filesz ≤ 0x07400000) (large : 4294959104 < p_memsz) :
    ∃ v, (v = 0x40000000 ∨ v = 0xC0000000) ∧ 8192 ≤ above p_vaddr v ∧ p_filesz ≤ above p_vaddr v ∧
      above p_vaddr v < p_memsz ∧
      above (p_vaddr - p_vaddr % 4096) v = above p_vaddr v + p_vaddr % 4096 := by
  by_cases near : above p_vaddr 0x40000000 < 0x07400000 ∨ 4294950912 < above p_vaddr 0x40000000
  · refine ⟨0xC0000000,.inr rfl,?_⟩
    unfold above u32 at near ⊢
    omega
  · refine ⟨0x40000000,.inl rfl,?_⟩
    unfold above u32 at near ⊢
    omega

end

/-! ### Behind the bytes of the file -/

/-- The blocks that a process has got for its file and its stack. -/
def Owned (elf_memory file_size stack x : Nat) : Prop :=
  (elf_memory ≤ x ∧ x < elf_memory + 4096 * ((file_size + 4095) / 4096)) ∨ (stack ≤ x ∧ x < stack + 16384)

/-- A range of the kernel's heap. -/
def InHeap (ptr length : Nat) : Prop :=
  ptr % 4096 = 0 ∧ SIMPOS_HEAP_ADDRESS ≤ ptr ∧ ptr + length ≤ SIMPOS_HEAP_ADDRESS + SIMPOS_HEAP_SIZE_BYTES

/-- A file of these bytes is loaded for the process, accepted, and its task has a new page directory,
    apart from what the process owns. -/
structure LoadedElf {φ : Type} (s : World φ) (process : Nat) (elf_file : ElfFile) (file : List UInt8) (chunk : Nat) : Prop where
  filetype : (s.process process).filetype = .ELF
  record : elf_file = s.elf_file (s.process process).ptr
  task : chunk = (s.task (s.process process).task).page_directory
  high : chunk + 4 ≤ 4294967296
  space : AddressSpace s.kernel.memory (read32 s.kernel.memory chunk)
  outside : Outside s.kernel.memory chunk
  identity : ∀ v, v % 4096 = 0 → v < 4294967296 → paging_get s.kernel.memory (read32 s.kernel.memory chunk) v = v ||| 5
  buffer : InHeap elf_file.elf_memory (4096 * ((file.length + 4095) / 4096))
  image : ∀ o (inside : o < file.length), s.kernel.memory (elf_file.elf_memory + o) = file.get ⟨o,inside⟩
  accepted : elf_validate_loaded s.kernel.memory elf_file.elf_memory = 0
  segments : Segments s.kernel.memory elf_file file.length
  headers : HeadersApart s.kernel.memory (read32 s.kernel.memory chunk) elf_file
  stack : InHeap (s.process process).stack SIMPOS_USER_PROGRAM_STACK_SIZE
  own : ∀ x, Owned elf_file.elf_memory file.length (s.process process).stack x →
    ¬ InTables s.kernel.memory (read32 s.kernel.memory chunk) x

/-- Every byte of a segment behind its part of the file reads as zero through the directory, from
    memory of the process. -/
def StartsZero (start m : Bytes) (directory : Nat) (elf_file : ElfFile) (file_size stack : Nat) : Prop :=
  ∀ i < e_phnum start (elf_header elf_file), ∀ k, (header_at start elf_file i).p_filesz ≤ k →
    k < (header_at start elf_file i).p_memsz →
    byte_at (task_page directory) m (offset (header_at start elf_file i).p_vaddr k) = 0 ∧
    Owned elf_file.elf_memory file_size stack (task_page directory m (offset (header_at start elf_file i).p_vaddr k))

/-- The address is one of the stack's. -/
def OnStack (v : Nat) : Prop := SIMPOS_PROGRAM_VIRTUAL_STACK_ADDRESS_END ≤ v ∧ v < SIMPOS_PROGRAM_VIRTUAL_STACK_ADDRESS_START
instance (v : Nat) : Decidable (OnStack v) := inferInstanceAs (Decidable (_ ∧ _))

/-- What the file has at the place of the segment's byte k: a zero, or nothing where the process owns
    a zero behind the file; or the stack lies over the place, and is zero there. -/
def ZeroByte (m : Bytes) (elf_file : ElfFile) (file : List UInt8) (stack : Nat) (phdr : Elf32Phdr) (k : Nat) : Prop :=
  if OnStack (offset phdr.p_vaddr k) then
    m (stack + (offset phdr.p_vaddr k - SIMPOS_PROGRAM_VIRTUAL_STACK_ADDRESS_END)) = 0
  else match file[phdr.p_offset + k]? with
    | some b => b = 0
    | none => Owned elf_file.elf_memory file.length stack (elf_file.elf_memory + phdr.p_offset + k) ∧
      m (elf_file.elf_memory + phdr.p_offset + k) = 0

/-- No segment's end wraps, and its image is zero behind its p_filesz bytes. -/
def ZeroTails (m : Bytes) (elf_file : ElfFile) (file : List UInt8) (stack : Nat) : Prop :=
  EachEnds m elf_file ∧ ∀ i < e_phnum m (elf_header elf_file), ∀ k, (header_at m elf_file i).p_filesz ≤ k →
    k < (header_at m elf_file i).p_memsz → ZeroByte m elf_file file stack (header_at m elf_file i) k

private theorem onStack_iff (v : Nat) : OnStack v ↔ 0x3FB000 ≤ v ∧ v < 0x3FF000 := Iff.rfl

/-- An address on the stack is in a page of the stack, and no other address is. -/
private theorem OnStack.page {v : Nat} (onStack : OnStack v) :
    above SIMPOS_PROGRAM_VIRTUAL_STACK_ADDRESS_END (v - v % 4096) =
      v - v % 4096 - SIMPOS_PROGRAM_VIRTUAL_STACK_ADDRESS_END ∧
    v - v % 4096 - SIMPOS_PROGRAM_VIRTUAL_STACK_ADDRESS_END < 16384 ∧
    v - v % 4096 - SIMPOS_PROGRAM_VIRTUAL_STACK_ADDRESS_END + v % 4096 = v - SIMPOS_PROGRAM_VIRTUAL_STACK_ADDRESS_END ∧
    (v - v % 4096 - SIMPOS_PROGRAM_VIRTUAL_STACK_ADDRESS_END) % 4096 = 0 := by
  rw [onStack_iff] at onStack
  rw [FlatBinaries.stack_end]
  unfold above u32
  omega
private theorem off_stack_page {v : Nat} (high : v < 4294967296) (offStack : ¬ OnStack v) :
    ¬ above SIMPOS_PROGRAM_VIRTUAL_STACK_ADDRESS_END (v - v % 4096) < 16384 := by
  rw [onStack_iff] at offStack
  rw [FlatBinaries.stack_end]
  unfold above u32
  omega

section
variable {φ : Type} {s u : World φ} {process chunk : Nat} {elf_file : ElfFile} {file : List UInt8}

private theorem process_map_memory_elf (filetype : (s.process process).filetype = .ELF) {m : Bytes}
    (mapped : process_map_elf s.kernel.memory (s.chunk (s.task (s.process process).task).page_directory)
      (s.elf_file (s.process process).ptr) = (0,m)) :
    (process_map_memory process s).2.kernel.memory = (paging_map_to m
      ⟨read32 m (s.task (s.process process).task).page_directory⟩ SIMPOS_PROGRAM_VIRTUAL_STACK_ADDRESS_END
      (s.process process).stack (paging_align_address (offset (s.process process).stack SIMPOS_USER_PROGRAM_STACK_SIZE)) 7).2 ∧
    (process_map_memory process s).2.task = s.task := by
  have program : process_map_program process s = (0,s.withKernel { s.kernel with memory := m }) := by
    rw [process_map_program,filetype]
    simp only [map_elf_file,mapped]
  rw [process_map_memory,program]
  dsimp only
  rw [if_neg (Int.lt_irrefl 0)]
  exact ⟨rfl,rfl⟩

private theorem process_map_memory_result (filetype : (s.process process).filetype = .ELF) :
    (process_map_memory process s).1 = (process_map_elf s.kernel.memory
      (s.chunk (s.task (s.process process).task).page_directory) (s.elf_file (s.process process).ptr)).1 := by
  have program : (process_map_program process s).1 = (process_map_elf s.kernel.memory
      (s.chunk (s.task (s.process process).task).page_directory) (s.elf_file (s.process process).ptr)).1 := by
    rw [process_map_program,filetype]
    rfl
  rw [process_map_memory,← program]
  generalize process_map_program process s = mapped
  obtain ⟨res,t⟩ := mapped
  dsimp only
  split_ifs <;> rfl

/-- The memory after a mapping that succeeds: the stack lies over what the headers have mapped. -/
private theorem loaded_stack (loaded : LoadedElf s process elf_file file chunk) (mapped : u = (process_map_memory process s).2)
    {m : Bytes} (result : process_map_elf s.kernel.memory ⟨read32 s.kernel.memory chunk⟩ elf_file = (0,m)) :
    (u.chunk (u.task (s.process process).task).page_directory).directory_entry = read32 s.kernel.memory chunk ∧
    (∀ x, ¬ InTables s.kernel.memory (read32 s.kernel.memory chunk) x → u.kernel.memory x = s.kernel.memory x) ∧
    ∀ v < 4294967296, task_page (read32 s.kernel.memory chunk) u.kernel.memory v =
      if OnStack v then (s.process process).stack + (v - SIMPOS_PROGRAM_VIRTUAL_STACK_ADDRESS_END)
      else task_page (read32 s.kernel.memory chunk) m v := by
  have first := @process_map_elf_remapped ⟨read32 s.kernel.memory chunk⟩ elf_file s.kernel.memory loaded.space
  rw [result] at first
  have own := result
  rw [loaded.record,loaded.task] at own
  obtain ⟨memory,tasks⟩ := process_map_memory_elf loaded.filetype own
  rw [← mapped] at memory tasks
  rw [← loaded.task,FlatBinaries.chunk_kept loaded.high loaded.outside first] at memory
  obtain ⟨stackAligned,_,stackHigh⟩ := loaded.stack
  simp only [SIMPOS_HEAP_ADDRESS,SIMPOS_HEAP_SIZE_BYTES,SIMPOS_USER_PROGRAM_STACK_SIZE] at stackHigh
  rcases FlatBinaries.overlay ⟨read32 s.kernel.memory chunk⟩ SIMPOS_PROGRAM_VIRTUAL_STACK_ADDRESS_END
      SIMPOS_USER_PROGRAM_STACK_SIZE first.space rfl (by decide) stackAligned (by omega) (by decide)
      (by decide) with ⟨_,_,second⟩ | ⟨wraps,_⟩
  · rw [← memory] at second
    have both := first.trans second
    refine ⟨by rw [tasks,← loaded.task,World.chunk,FlatBinaries.chunk_kept loaded.high loaded.outside both],both.frame,fun v high => ?_⟩
    have entry := second.entries (v - v % 4096) (by omega) (by omega)
    have pages : 4096 * ((SIMPOS_USER_PROGRAM_STACK_SIZE + 4095) / 4096) = 16384 := rfl
    rw [pages] at entry
    by_cases onStack : OnStack v
    · obtain ⟨distance,near,whole,steps⟩ := onStack.page
      rw [if_pos (by rw [distance]; exact near),distance] at entry
      rw [if_pos onStack,task_page,paging_get_physical_address_eq high rfl entry (by omega) (by omega) (by decide),
        ← whole,Nat.add_assoc]
    · rw [if_neg (off_stack_page high onStack)] at entry
      rw [if_neg onStack,task_page,task_page,paging_get_physical_address_congr entry]
  · simp only [SIMPOS_USER_PROGRAM_STACK_SIZE] at wraps
    omega

/-- A program whose segment wraps finds other memory than its own in it. -/
private theorem starts_ends (loaded : LoadedElf s process elf_file file chunk) (mapped : u = (process_map_memory process s).2)
    (success : (process_map_memory process s).1 = 0)
    (starts : StartsZero s.kernel.memory u.kernel.memory (read32 s.kernel.memory chunk) elf_file file.length
      (s.process process).stack) : EachEnds s.kernel.memory elf_file := by
  intro i below
  by_contra wraps
  obtain ⟨aligned,heapLow,heapHigh⟩ := loaded.buffer
  simp only [SIMPOS_HEAP_ADDRESS,SIMPOS_HEAP_SIZE_BYTES] at heapLow heapHigh
  have heap : 0x01000000 ≤ elf_file.elf_memory ∧ elf_file.elf_memory + file.length ≤ 0x07400000 := by omega
  have sizeHigh : ∀ j, (header_at s.kernel.memory elf_file j).p_memsz < 4294967296 := fun j => read32_lt ..
  have virtHigh : (header_at s.kernel.memory elf_file i).p_vaddr < 4294967296 := read32_lt ..
  have loadable := loaded.segments.each i below
  rw [process_map_memory_result loaded.filetype,← loaded.record,← loaded.task] at success
  have few : e_phnum s.kernel.memory (elf_header elf_file) < 65536 := read16_lt ..
  have forward := process_map_elf_loop_accepts ⟨read32 s.kernel.memory chunk⟩ loaded.headers 65536 0
    s.kernel.memory (by omega) (Remapped.refl loaded.space) success i (Nat.zero_le i) below
  obtain ⟨short,_,large⟩ := pages_wrapped aligned loadable heap wraps (sizeHigh i)
  have large := large forward
  have inFile := loadable.inFile
  obtain ⟨v,candidate,far,behind,inside,lower⟩ := far_address virtHigh
    (by omega : (header_at s.kernel.memory elf_file i).p_filesz ≤ 0x07400000) large
  have vAligned : v % 4096 = 0 := by rcases candidate with rfl | rfl <;> rfl
  have high : v < 4294967296 := by omega
  have own : SegmentPage (header_at s.kernel.memory elf_file i) v := by
    rw [SegmentPage,lower]
    omega
  have unmapped : paging_get (process_map_elf s.kernel.memory ⟨read32 s.kernel.memory chunk⟩ elf_file).2
      (read32 s.kernel.memory chunk) v = v + 5 := by
    rw [entry_kept ⟨read32 s.kernel.memory chunk⟩ loaded.space loaded.headers vAligned high fun j belowJ covered => ?_]
    · rw [loaded.identity v vAligned high,or_flags vAligned (by decide)]
    · by_cases same : j = i
      · subst same
        have bottom : pagesAt (header_at s.kernel.memory elf_file j) = (header_at s.kernel.memory elf_file j).p_vaddr -
          (header_at s.kernel.memory elf_file j).p_vaddr % 4096 := rfl
        rw [bottom,lower] at covered
        omega
      · exact loaded.segments.disjoint i below j belowJ (Ne.symm same) v own
          (range_inside aligned (loaded.segments.each j belowJ) heap (sizeHigh j) covered)
  obtain ⟨m,result⟩ : ∃ m, process_map_elf s.kernel.memory ⟨read32 s.kernel.memory chunk⟩ elf_file = (0,m) :=
    ⟨_,Prod.ext success rfl⟩
  obtain ⟨_,_,place⟩ := loaded_stack loaded mapped result
  have offStack : ¬ OnStack v := by
    rw [onStack_iff]
    omega
  have found := place v high
  rw [result] at unmapped
  rw [if_neg offStack,task_page,task_page,paging_get_physical_address_eq high
    (show v - v % 4096 = v by omega) unmapped vAligned (by omega) (show 5 < 4096 by decide),vAligned,Nat.add_zero] at found
  have reads := (starts i below (above (header_at s.kernel.memory elf_file i).p_vaddr v) behind inside).2
  rw [offset_above high,task_page,found] at reads
  obtain ⟨_,_,stackHigh⟩ := loaded.stack
  simp only [SIMPOS_HEAP_ADDRESS,SIMPOS_HEAP_SIZE_BYTES,SIMPOS_USER_PROGRAM_STACK_SIZE] at stackHigh
  unfold Owned at reads
  omega

/-- With ends that do not wrap, each segment is found in the file's buffer or under the stack. -/
private theorem loaded_mapped (loaded : LoadedElf s process elf_file file chunk) (ends : EachEnds s.kernel.memory elf_file)
    (mapped : u = (process_map_memory process s).2) :
    (u.chunk (u.task (s.process process).task).page_directory).directory_entry = read32 s.kernel.memory chunk ∧
    (∀ x, ¬ InTables s.kernel.memory (read32 s.kernel.memory chunk) x → u.kernel.memory x = s.kernel.memory x) ∧
    ∀ i < e_phnum s.kernel.memory (elf_header elf_file), ∀ k < (header_at s.kernel.memory elf_file i).p_memsz,
      task_page (read32 s.kernel.memory chunk) u.kernel.memory (offset (header_at s.kernel.memory elf_file i).p_vaddr k) =
        if OnStack (offset (header_at s.kernel.memory elf_file i).p_vaddr k) then
          (s.process process).stack + (offset (header_at s.kernel.memory elf_file i).p_vaddr k -
            SIMPOS_PROGRAM_VIRTUAL_STACK_ADDRESS_END)
        else elf_file.elf_memory + (header_at s.kernel.memory elf_file i).p_offset + k := by
  obtain ⟨m,result,first⟩ := process_map_elf_mapped ⟨read32 s.kernel.memory chunk⟩ loaded.space
    loaded.buffer.1 loaded.headers loaded.segments ends
  obtain ⟨directory,frame,place⟩ := loaded_stack loaded mapped result
  refine ⟨directory,frame,fun i below k inside => ?_⟩
  have byte := (first.byte loaded.buffer.1 loaded.segments ends below inside).1
  rw [place _ (offset_lt ..),task_page,byte]

/-- What a byte behind the file's part of its segment is, once the segments are mapped. -/
private theorem byte_zero_iff (loaded : LoadedElf s process elf_file file chunk) (ends : EachEnds s.kernel.memory elf_file)
    (mapped : u = (process_map_memory process s).2) {i k : Nat} (below : i < e_phnum s.kernel.memory (elf_header elf_file))
    (inside : k < (header_at s.kernel.memory elf_file i).p_memsz) :
    (byte_at (task_page (read32 s.kernel.memory chunk)) u.kernel.memory
        (offset (header_at s.kernel.memory elf_file i).p_vaddr k) = 0 ∧
      Owned elf_file.elf_memory file.length (s.process process).stack (task_page (read32 s.kernel.memory chunk)
        u.kernel.memory (offset (header_at s.kernel.memory elf_file i).p_vaddr k))) ↔
    ZeroByte s.kernel.memory elf_file file (s.process process).stack (header_at s.kernel.memory elf_file i) k := by
  obtain ⟨_,frame,place⟩ := loaded_mapped loaded ends mapped
  have found := place i below k inside
  rw [byte_at,found,ZeroByte]
  generalize header_at s.kernel.memory elf_file i = phdr
  by_cases onStack : OnStack (offset phdr.p_vaddr k)
  · rw [if_pos onStack,if_pos onStack]
    have own : Owned elf_file.elf_memory file.length (s.process process).stack ((s.process process).stack +
        (offset phdr.p_vaddr k - SIMPOS_PROGRAM_VIRTUAL_STACK_ADDRESS_END)) := by
      rw [onStack_iff] at onStack
      rw [FlatBinaries.stack_end]
      exact .inr ⟨by omega,show _ < _ + 16384 by omega⟩
    rw [frame _ (loaded.own _ own)]
    exact and_iff_left own
  · rw [if_neg onStack,if_neg onStack]
    by_cases inFile : phdr.p_offset + k < file.length
    · have own : Owned elf_file.elf_memory file.length (s.process process).stack
          (elf_file.elf_memory + phdr.p_offset + k) := .inl ⟨by omega,by omega⟩
      rw [frame _ (loaded.own _ own),List.getElem?_eq_getElem inFile,Nat.add_assoc,loaded.image _ inFile,
        List.get_eq_getElem,← Nat.add_assoc]
      exact and_iff_left own
    · rw [List.getElem?_eq_none (by omega),and_comm]
      exact and_congr_right fun own => by rw [frame _ (loaded.own _ own)]

/-- Once it is mapped, a program finds zeros behind the bytes of its file exactly when no segment's end
    wraps, the file has zeros there, as far as it goes, and the process owns zeros behind it. -/
theorem elf_starts_zero_iff (loaded : LoadedElf s process elf_file file chunk)
    (mapped : u = (process_map_memory process s).2) (success : (process_map_memory process s).1 = 0) :
    StartsZero s.kernel.memory u.kernel.memory
        (u.chunk (u.task (s.process process).task).page_directory).directory_entry elf_file file.length
        (s.process process).stack ↔
      ZeroTails s.kernel.memory elf_file file (s.process process).stack := by
  obtain ⟨m,result⟩ : ∃ m, process_map_elf s.kernel.memory ⟨read32 s.kernel.memory chunk⟩ elf_file = (0,m) := by
    rw [process_map_memory_result loaded.filetype,← loaded.record,← loaded.task] at success
    exact ⟨_,Prod.ext success rfl⟩
  rw [(loaded_stack loaded mapped result).1]
  constructor
  · intro starts
    have ends := starts_ends loaded mapped success starts
    exact ⟨ends,fun i below k behind inside => (byte_zero_iff loaded ends mapped below inside).mp
      (starts i below k behind inside)⟩
  · rintro ⟨ends,tails⟩ i below k behind inside
    exact (byte_zero_iff loaded ends mapped below inside).mpr (tails i below k behind inside)

end

/-! ### A file of one segment -/

/-- The words of a file of 84 bytes with one header, for a page of memory of which the file gives the
    first p_filesz bytes, of a directory behind it that maps each page to itself, and of the chunk
    that names the directory. -/
private def programWord (p_filesz a : Nat) : Nat :=
  if a < 0x01001000 then
    match a - 0x01000000 with
    | 0 => 0x464c457f
    | 4 => 0x00010101
    | 16 => 0x00030002
    | 24 => 0x00400000
    | 28 => 52
    | 44 => 1
    | 52 => 1
    | 60 => 0x00400000
    | 68 => p_filesz
    | 72 => 4096
    | 76 => 6
    | _ => 0
  else if a < 0x01002000 then 0x01002000 + 4096 * ((a - 0x01001000) / 4) + 7
  else if a < 0x01402000 then 4096 * ((a - 0x01002000) / 4) + 5
  else if a = 0x01500000 then 0x01001000
  else 0
def programMemory (p_filesz : Nat) : Bytes := wordMemory (programWord p_filesz)
def programFile (p_filesz : Nat) : List UInt8 := (List.range 84).map fun o => programMemory p_filesz (0x01000000 + o)
def programWorld (p_filesz : Nat) : World Unit :=
  ⟨fun _ => 0,0,fun _ => { Process.zero with ptr := 0x04000000, stack := 0x02000000, task := 0x05000000 },
    fun _ => { TaskFields.zero with page_directory := 0x01500000 },⟨fun _ => ⟨0,0⟩,0,0,0⟩,fun _ => oneHeader,(),
    ⟨programMemory p_filesz,kernel_heap_init fun _ => 0⟩⟩

section
variable {p_filesz : Nat}

private theorem program_table {i : Nat} (inside : i < 1024) :
    pageTable (programMemory p_filesz) 0x01001000 i = 0x01002000 + 4096 * i := by
  have place : offset 0x01001000 (4 * i) = 16781312 + 4 * i := offset_of_lt (by omega)
  have word : programWord p_filesz (16781312 + 4 * i) = 16785408 + 4096 * i + 7 := by
    rw [programWord,if_neg (by omega),if_pos (by omega)]
    omega
  rw [pageTable,place,programMemory,read32_wordMemory (by omega) (by omega) (by omega),word,and_page (by omega)]
  omega

private theorem program_inTables {x : Nat} (inTables : InTables (programMemory p_filesz) 0x01001000 x) :
    0x01002000 ≤ x ∧ x < 0x01402000 := by
  obtain ⟨i,inside,low,below⟩ := inTables
  rw [program_table inside] at low below
  omega

private theorem program_space : AddressSpace (programMemory p_filesz) 0x01001000 := by
  refine ⟨rfl,by decide,fun i inside => ?_,fun i insideI j insideJ same => ?_⟩
  · rw [program_table inside]
    omega
  · rw [program_table insideI,program_table insideJ] at same
    omega

private theorem program_identity {v : Nat} (aligned : v % 4096 = 0) (high : v < 4294967296) :
    paging_get (programMemory p_filesz) 0x01001000 v = v ||| 5 := by
  rw [paging_get_aligned _ _ aligned,program_table (by omega),or_flags aligned (by decide)]
  have word : programWord p_filesz (0x01002000 + 4096 * (v / 4194304) + 4 * (v % 4194304 / 4096)) = v + 5 := by
    rw [programWord,if_neg (by omega),if_neg (by omega),if_pos (by omega)]
    omega
  rw [programMemory,read32_wordMemory (by omega) (by omega) (by omega),word]

/-- Behind the header the file's page is zero. -/
private theorem program_zero {x : Nat} (low : 0x01000050 ≤ x) (high : x < 0x01001000) : programMemory p_filesz x = 0 := by
  have word : programWord p_filesz (x - x % 4) = 0 := by
    rw [programWord,if_pos (by omega)]
    split <;> omega
  rw [programMemory,wordMemory,word,Nat.zero_div]
  rfl

private theorem program_phnum : e_phnum (programMemory p_filesz) (elf_header oneHeader) = 1 := by
  have word : programWord p_filesz 0x0100002c = 1 := rfl
  show read16 (wordMemory (programWord p_filesz)) 0x0100002c = 1
  rw [read16_wordMemory (by decide) (by decide),word]

private theorem program_place : elf_program_header (programMemory p_filesz) (elf_header oneHeader) 0 = 0x01000034 := by
  have phoff : e_phoff (programMemory p_filesz) (elf_header oneHeader) = 52 :=
    read32_wordMemory (a := offset 0x01000000 28) (by decide) (by decide) (show 52 < 4294967296 by decide)
  rw [elf_program_header,elf_pheader,phoff]
  rfl

private theorem program_header (few : p_filesz ≤ 84) :
    header_at (programMemory p_filesz) oneHeader 0 = ⟨1,0,0x400000,p_filesz,4096,6⟩ := by
  have word : ∀ {a w : Nat}, programWord p_filesz a = w → a % 4 = 0 → a + 4 ≤ 4294967296 → w < 4294967296 →
      read32 (programMemory p_filesz) a = w := by
    rintro a w rfl aligned high value
    exact read32_wordMemory aligned high value
  rw [header_at,program_place,elf32_phdr,word (w := 1) rfl (by decide) (by decide) (by decide),
    word (w := 0) rfl (by decide) (by decide) (by decide),word (w := 0x400000) rfl (by decide) (by decide) (by decide),
    word (w := p_filesz) rfl (by decide) (by decide) (by omega),word (w := 4096) rfl (by decide) (by decide) (by decide),
    word (w := 6) rfl (by decide) (by decide) (by decide)]

private theorem program_apart : HeadersApart (programMemory p_filesz) 0x01001000 oneHeader := by
  constructor
  · intro j inside inTables
    have bounds := program_inTables inTables
    rw [show elf_header oneHeader = 0x01000000 from rfl,offset_of_lt (by omega)] at bounds
    omega
  · intro i below j inside inTables
    rw [program_phnum] at below
    obtain rfl : i = 0 := by omega
    rw [program_place] at inTables
    have bounds := program_inTables inTables
    rw [offset_of_lt (by omega)] at bounds
    omega

private theorem program_segments (few : p_filesz ≤ 84) : Segments (programMemory p_filesz) oneHeader 84 := by
  constructor
  · intro i below
    rw [program_phnum] at below
    obtain rfl : i = 0 := by omega
    rw [program_header few]
    exact ⟨rfl,by simpa using few,by simp only; omega,show 0x400000 % 4096 = 0 % 4096 from rfl⟩
  · intro i belowI j belowJ different
    rw [program_phnum] at belowI belowJ
    omega

private theorem program_ends (few : p_filesz ≤ 84) : EachEnds (programMemory p_filesz) oneHeader := by
  intro i below
  rw [program_phnum] at below
  obtain rfl : i = 0 := by omega
  rw [program_header few]
  exact show 0x01000000 + 0 + 4096 ≤ 0xFFFFF000 by decide

private theorem program_chunk : read32 (programMemory p_filesz) 0x01500000 = 0x01001000 :=
  @read32_wordMemory (programWord p_filesz) 0x01500000 (by decide) (by decide) (show 0x01001000 < 4294967296 by decide)

private theorem program_loaded (few : p_filesz ≤ 84)
    (accepted : elf_validate_loaded (programMemory p_filesz) 0x01000000 = 0) :
    LoadedElf (programWorld p_filesz) 0 oneHeader (programFile p_filesz) 0x01500000 := by
  have length : (programFile p_filesz).length = 84 := rfl
  have memory : (programWorld p_filesz).kernel.memory = programMemory p_filesz := rfl
  have buffer : InHeap 0x01000000 (4096 * ((84 + 4095) / 4096)) := by unfold InHeap; decide
  have stack : InHeap 0x02000000 SIMPOS_USER_PROGRAM_STACK_SIZE := by unfold InHeap; decide
  refine ⟨rfl,rfl,rfl,by decide,?_,?_,fun v aligned high => ?_,buffer,fun o inside => ?_,accepted,program_segments few,
    ?_,stack,fun x own inTables => ?_⟩
  · rw [memory,program_chunk]
    exact program_space
  · intro x low below inTables
    rw [memory,program_chunk] at inTables
    have bounds := program_inTables inTables
    omega
  · rw [memory,program_chunk]
    exact program_identity aligned high
  · rw [List.get_eq_getElem]
    simp only [programFile,List.getElem_map,List.getElem_range]
    rfl
  · rw [memory,program_chunk]
    exact program_apart
  · rw [memory,program_chunk] at inTables
    have bounds := program_inTables inTables
    rw [length] at own
    rcases own with ⟨low,below⟩ | ⟨low,below⟩
    · have below : x < 0x01000000 + 4096 := below
      omega
    · have low : 0x02000000 ≤ x := low
      omega

private theorem program_success (few : p_filesz ≤ 84) : (process_map_memory 0 (programWorld p_filesz)).1 = 0 := by
  have directory : (programWorld p_filesz).chunk 0x01500000 = ⟨0x01001000⟩ := congrArg Paging4gbChunk.mk program_chunk
  obtain ⟨m,result,_⟩ := process_map_elf_mapped ⟨0x01001000⟩ program_space rfl program_apart
    (program_segments few) (program_ends few)
  rw [process_map_memory_result rfl]
  show (process_map_elf (programMemory p_filesz) ((programWorld p_filesz).chunk 0x01500000) oneHeader).1 = 0
  rw [directory,result]

end

/-- The 84 bytes of a file are mapped where its header says. -/
theorem process_map_elf_faithful_one : (process_map_elf (programMemory 84) ⟨0x01001000⟩ oneHeader).1 = 0 ∧
    FileMapped (programMemory 84) (process_map_elf (programMemory 84) ⟨0x01001000⟩ oneHeader).2 0x01001000 oneHeader :=
  @process_map_elf_faithful ⟨0x01001000⟩ oneHeader (programMemory 84) 84 program_space rfl program_apart
    (program_segments (Nat.le_refl 84)) (program_ends (Nat.le_refl 84))

/-- Behind the 84 bytes the rest of the block is zero. -/
theorem elf_starts_zero_one : ∃ u, u = (process_map_memory 0 (programWorld 84)).2 ∧
    StartsZero (programWorld 84).kernel.memory u.kernel.memory
      (u.chunk (u.task ((programWorld 84).process 0).task).page_directory).directory_entry oneHeader
      (programFile 84).length ((programWorld 84).process 0).stack := by
  have loaded := program_loaded (Nat.le_refl 84) rfl
  refine ⟨_,rfl,(elf_starts_zero_iff loaded rfl (program_success (Nat.le_refl 84))).mpr
    ⟨program_ends (Nat.le_refl 84),fun i below k behind inside => ?_⟩⟩
  rw [show (programWorld 84).kernel.memory = programMemory 84 from rfl,program_phnum] at below
  obtain rfl : i = 0 := by omega
  rw [show (programWorld 84).kernel.memory = programMemory 84 from rfl,program_header (Nat.le_refl 84)] at behind inside ⊢
  have base : oneHeader.elf_memory = 0x01000000 := rfl
  have length : (programFile 84).length = 84 := rfl
  simp only at behind inside
  have offStack : ¬ OnStack (offset 0x400000 k) := by
    rw [offset_of_lt (by omega),onStack_iff]
    omega
  rw [ZeroByte,if_neg offStack,Nat.zero_add,List.getElem?_eq_none (by omega),length,base,Nat.add_zero]
  exact ⟨.inl ⟨by omega,by omega⟩,program_zero (by omega) (by omega)⟩

/-- A file with no bytes of its own for the page finds its own headers there. -/
theorem elf_starts_header : ∃ u, u = (process_map_memory 0 (programWorld 0)).2 ∧
    LoadedElf (programWorld 0) 0 oneHeader (programFile 0) 0x01500000 ∧
    (process_map_memory 0 (programWorld 0)).1 = 0 ∧
    ¬ StartsZero (programWorld 0).kernel.memory u.kernel.memory
      (u.chunk (u.task ((programWorld 0).process 0).task).page_directory).directory_entry oneHeader
      (programFile 0).length ((programWorld 0).process 0).stack := by
  have loaded := program_loaded (Nat.zero_le 84) rfl
  have memory : (programWorld 0).kernel.memory = programMemory 0 := rfl
  have ends : EachEnds (programWorld 0).kernel.memory oneHeader := program_ends (Nat.zero_le 84)
  obtain ⟨u,mapped⟩ : ∃ u, u = (process_map_memory 0 (programWorld 0)).2 := ⟨_,rfl⟩
  refine ⟨u,mapped,loaded,program_success (Nat.zero_le 84),fun starts => ?_⟩
  obtain ⟨directory,_⟩ := loaded_mapped loaded ends mapped
  have first : 0 < e_phnum (programWorld 0).kernel.memory (elf_header oneHeader) := by rw [memory,program_phnum]; decide
  have header : header_at (programWorld 0).kernel.memory oneHeader 0 = ⟨1,0,0x400000,0,4096,6⟩ :=
    program_header (Nat.zero_le 84)
  have inside : 0 < (header_at (programWorld 0).kernel.memory oneHeader 0).p_memsz := by rw [header]; decide
  have zero := starts 0 first 0 (Nat.zero_le _) inside
  rw [directory] at zero
  have byte := (byte_zero_iff loaded ends mapped first inside).mp zero
  rw [header,ZeroByte,if_neg (by decide)] at byte
  exact absurd (show (0x7f : UInt8) = 0 from byte) (by decide)

end SimpOS.ElfSegments
