import SimpOS.ElfMapping

/-!
The addresses that an ELF file starts and ends at. `elf_process_phdr_pt_load` takes an address of zero
for one that is not set yet, so that a segment at zero is forgotten with the next one, and it adds up
the end of a segment in 32 bits.
-/
namespace SimpOS.ElfExtents
open SimpOS.Machine SimpOS.Memory SimpOS.ElfLoader SimpOS.ElfMapping

/-- The program headers of type PT_LOAD, in the order of the file. -/
def loads (m : Bytes) (elf_file : ElfFile) : List Elf32Phdr :=
  ((List.range (e_phnum m (elf_header elf_file))).map (header_at m elf_file)).filter fun phdr => phdr.p_type = PT_LOAD

/-- The file starts where the lowest of the segments does, at its place in the buffer. -/
def BaseRight (elf_file : ElfFile) (segments : List Elf32Phdr) : Prop :=
  ∃ phdr ∈ segments, elf_file.virtual_base_address = phdr.p_vaddr ∧
    elf_file.physical_base_address = offset elf_file.elf_memory phdr.p_offset ∧
    ∀ other ∈ segments, phdr.p_vaddr ≤ other.p_vaddr
/-- The file ends where the last byte of its segments does, at its place in the buffer. -/
def EndRight (elf_file : ElfFile) (segments : List Elf32Phdr) : Prop :=
  ∃ phdr ∈ segments, elf_file.virtual_end_address = phdr.p_vaddr + phdr.p_filesz ∧
    elf_file.physical_end_address = offset (offset elf_file.elf_memory phdr.p_offset) phdr.p_filesz ∧
    ∀ other ∈ segments, other.p_vaddr + other.p_filesz ≤ phdr.p_vaddr + phdr.p_filesz

/-! ### The segments one after another -/

/-- The file after some segments. -/
def processed (elf_file : ElfFile) (segments : List Elf32Phdr) : ElfFile :=
  segments.foldl (fun elf_file phdr => (elf_process_phdr_pt_load elf_file phdr).2) elf_file

theorem processed_concat (elf_file : ElfFile) (segments : List Elf32Phdr) (phdr : Elf32Phdr) :
    processed elf_file (segments ++ [phdr]) = (elf_process_phdr_pt_load (processed elf_file segments) phdr).2 := by
  rw [processed,List.foldl_append]
  rfl

section
variable (elf_file : ElfFile) (phdr : Elf32Phdr)

theorem pt_load_base : (elf_process_phdr_pt_load elf_file phdr).2.virtual_base_address =
      (if elf_file.virtual_base_address ≥ phdr.p_vaddr ∨ elf_file.virtual_base_address = 0 then phdr.p_vaddr
        else elf_file.virtual_base_address) ∧
    (elf_process_phdr_pt_load elf_file phdr).2.physical_base_address =
      (if elf_file.virtual_base_address ≥ phdr.p_vaddr ∨ elf_file.virtual_base_address = 0 then
        offset elf_file.elf_memory phdr.p_offset else elf_file.physical_base_address) := by
  unfold elf_process_phdr_pt_load
  dsimp only
  split_ifs <;> exact ⟨rfl,rfl⟩

theorem pt_load_end : (elf_process_phdr_pt_load elf_file phdr).2.virtual_end_address =
      (if elf_file.virtual_end_address ≤ offset phdr.p_vaddr phdr.p_filesz ∨ elf_file.virtual_end_address = 0 then
        offset phdr.p_vaddr phdr.p_filesz else elf_file.virtual_end_address) ∧
    (elf_process_phdr_pt_load elf_file phdr).2.physical_end_address =
      (if elf_file.virtual_end_address ≤ offset phdr.p_vaddr phdr.p_filesz ∨ elf_file.virtual_end_address = 0 then
        offset (offset elf_file.elf_memory phdr.p_offset) phdr.p_filesz else elf_file.physical_end_address) := by
  unfold elf_process_phdr_pt_load
  dsimp only
  by_cases first : elf_file.virtual_base_address ≥ phdr.p_vaddr ∨ elf_file.virtual_base_address = 0
  · rw [if_pos first]
    split_ifs <;> exact ⟨rfl,rfl⟩
  · rw [if_neg first]
    split_ifs <;> exact ⟨rfl,rfl⟩

theorem pt_load_memory : (elf_process_phdr_pt_load elf_file phdr).2.elf_memory = elf_file.elf_memory := by
  unfold elf_process_phdr_pt_load
  dsimp only
  split_ifs <;> rfl

end

section
variable {m : Bytes} {elf_file : ElfFile} {segments : List Elf32Phdr}

theorem processed_memory (segments : List Elf32Phdr) : (processed elf_file segments).elf_memory = elf_file.elf_memory := by
  induction segments using List.reverseRecOn with
  | nil => rfl
  | append_singleton segments phdr ih => rw [processed_concat,pt_load_memory,ih]

/-- The headers of other types change nothing. -/
private theorem loop_processed (m : Bytes) (header remaining : Nat) : ∀ (i : Nat) (elf_file : ElfFile),
    (elf_process_pheaders_loop m header remaining i 0 elf_file).2 =
      processed elf_file (((List.range' i remaining).map fun j => elf32_phdr m (elf_program_header m header j)).filter
        fun phdr => phdr.p_type = PT_LOAD) := by
  induction remaining with
  | zero => exact fun i elf_file => rfl
  | succ remaining ih =>
    intro i elf_file
    rw [elf_process_pheaders_loop,List.range'_succ,List.map_cons]
    generalize elf32_phdr m (elf_program_header m header i) = phdr
    unfold elf_process_pheader
    by_cases load : phdr.p_type = PT_LOAD
    · rw [if_pos load,List.filter_cons_of_pos (by simpa using load)]
      have result : (elf_process_phdr_pt_load elf_file phdr).1 = 0 := rfl
      dsimp only
      rw [result,if_neg (Int.lt_irrefl 0),ih]
      rfl
    · rw [if_neg load,List.filter_cons_of_neg (by simpa using load)]
      dsimp only
      rw [if_neg (Int.lt_irrefl 0),ih]

theorem pheaders_processed (m : Bytes) (elf_file : ElfFile) :
    (elf_process_pheaders m elf_file).2 = processed elf_file (loads m elf_file) := by
  rw [elf_process_pheaders,loop_processed,loads,List.range_eq_range']
  rfl

/-! ### The start -/

/-- After a segment the start is zero where the segment's is. -/
private theorem base_zero (elf_file : ElfFile) (phdr : Elf32Phdr) :
    (elf_process_phdr_pt_load elf_file phdr).2.virtual_base_address = 0 ↔ phdr.p_vaddr = 0 := by
  rw [(pt_load_base elf_file phdr).1]
  split_ifs with taken
  · exact Iff.rfl
  · omega

/-- Among segments that are not at zero the lowest is kept. -/
private theorem base_nonzero (fresh : elf_file.virtual_base_address = 0) (nonzero : ∀ phdr ∈ segments, phdr.p_vaddr ≠ 0)
    (some : segments ≠ []) : BaseRight (processed elf_file segments) segments := by
  induction segments using List.reverseRecOn with
  | nil => exact absurd rfl some
  | append_singleton segments phdr ih =>
    obtain ⟨base,place⟩ := pt_load_base (processed elf_file segments) phdr
    have memory := @processed_memory elf_file segments
    unfold BaseRight
    rw [processed_concat,base,place,pt_load_memory]
    by_cases first : segments = []
    · subst first
      have start : (processed elf_file []).virtual_base_address = 0 := fresh
      rw [if_pos (.inr start),if_pos (.inr start)]
      refine ⟨phdr,List.mem_singleton_self _,rfl,rfl,fun other member => ?_⟩
      rw [List.mem_singleton.mp member]
    · obtain ⟨lowest,member,same,here,least⟩ := ih (fun other inside => nonzero other (List.mem_append_left _ inside)) first
      have positive := nonzero lowest (List.mem_append_left _ member)
      rw [same,here]
      by_cases lower : lowest.p_vaddr ≥ phdr.p_vaddr
      · rw [if_pos (.inl lower),if_pos (.inl lower)]
        refine ⟨phdr,List.mem_append_right _ (List.mem_singleton_self _),rfl,rfl,fun other inside => ?_⟩
        rcases List.mem_append.mp inside with earlier | last
        · exact Nat.le_trans lower (least other earlier)
        · rw [List.mem_singleton.mp last]
      · rw [if_neg (by omega),if_neg (by omega)]
        refine ⟨lowest,List.mem_append_left _ member,rfl,rfl,fun other inside => ?_⟩
        rcases List.mem_append.mp inside with earlier | last
        · exact least other earlier
        · rw [List.mem_singleton.mp last]
          omega

theorem base_right_iff (fresh : elf_file.virtual_base_address = 0) (some : segments ≠ []) :
    BaseRight (processed elf_file segments) segments ↔
      (∀ phdr ∈ segments, phdr.p_vaddr ≠ 0) ∨ (segments.getLast some).p_vaddr = 0 := by
  constructor
  · rintro ⟨lowest,member,same,_,least⟩
    by_cases nonzero : ∀ phdr ∈ segments, phdr.p_vaddr ≠ 0
    · exact .inl nonzero
    · push Not at nonzero
      obtain ⟨zero,inside,value⟩ := nonzero
      have none : lowest.p_vaddr = 0 := by
        have below := least zero inside
        omega
      rw [none,← List.dropLast_concat_getLast some,processed_concat,base_zero] at same
      exact .inr same
  · rintro (nonzero | last)
    · exact base_nonzero fresh nonzero some
    · have split := List.dropLast_concat_getLast some
      obtain ⟨base,place⟩ := pt_load_base (processed elf_file segments.dropLast) (segments.getLast some)
      have taken : (processed elf_file segments.dropLast).virtual_base_address ≥ (segments.getLast some).p_vaddr ∨
          (processed elf_file segments.dropLast).virtual_base_address = 0 := .inl (by omega)
      rw [if_pos taken] at base place
      rw [← processed_concat,split] at base place
      refine ⟨segments.getLast some,List.getLast_mem some,base,?_,fun other _ => by omega⟩
      rw [place,processed_memory,processed_memory]

/-! ### The end -/

/-- The highest end is kept, as 32 bits give the ends. -/
private theorem end_highest (fresh : elf_file.virtual_end_address = 0) (some : segments ≠ []) :
    ∃ phdr ∈ segments, (processed elf_file segments).virtual_end_address = offset phdr.p_vaddr phdr.p_filesz ∧
      (processed elf_file segments).physical_end_address =
        offset (offset (processed elf_file segments).elf_memory phdr.p_offset) phdr.p_filesz ∧
      ∀ other ∈ segments, offset other.p_vaddr other.p_filesz ≤ offset phdr.p_vaddr phdr.p_filesz := by
  induction segments using List.reverseRecOn with
  | nil => exact absurd rfl some
  | append_singleton segments phdr ih =>
    obtain ⟨ends,place⟩ := pt_load_end (processed elf_file segments) phdr
    rw [processed_concat,ends,place,pt_load_memory]
    by_cases first : segments = []
    · subst first
      have start : (processed elf_file []).virtual_end_address = 0 := fresh
      rw [if_pos (.inr start),if_pos (.inr start)]
      refine ⟨phdr,List.mem_singleton_self _,rfl,rfl,fun other member => ?_⟩
      rw [List.mem_singleton.mp member]
    · obtain ⟨highest,member,same,here,most⟩ := ih first
      rw [same,here]
      by_cases higher : offset highest.p_vaddr highest.p_filesz ≤ offset phdr.p_vaddr phdr.p_filesz
      · rw [if_pos (.inl higher),if_pos (.inl higher)]
        refine ⟨phdr,List.mem_append_right _ (List.mem_singleton_self _),rfl,rfl,fun other inside => ?_⟩
        rcases List.mem_append.mp inside with earlier | last
        · exact Nat.le_trans (most other earlier) higher
        · rw [List.mem_singleton.mp last]
      · rw [if_neg (by omega),if_neg (by omega)]
        refine ⟨highest,List.mem_append_left _ member,rfl,rfl,fun other inside => ?_⟩
        rcases List.mem_append.mp inside with earlier | last
        · exact most other earlier
        · rw [List.mem_singleton.mp last]
          omega

theorem end_right_iff (fresh : elf_file.virtual_end_address = 0) (some : segments ≠ []) :
    EndRight (processed elf_file segments) segments ↔ ∀ phdr ∈ segments, phdr.p_vaddr + phdr.p_filesz < 4294967296 := by
  obtain ⟨highest,member,same,here,most⟩ := end_highest fresh some
  constructor
  · rintro ⟨phdr,inside,value,_,last⟩ other among
    have bound := offset_lt highest.p_vaddr highest.p_filesz
    have below := last other among
    omega
  · intro fits
    rw [offset_of_lt (fits highest member)] at same
    refine ⟨highest,member,same,here,fun other among => ?_⟩
    have below := most other among
    rwa [offset_of_lt (fits highest member),offset_of_lt (fits other among)] at below

/-- A file with segments starts and ends where they do exactly when none of them is at zero, or the last one
    is, and no segment's end passes the address space. -/
theorem elf_extents_iff (fresh : elf_file.virtual_base_address = 0 ∧ elf_file.virtual_end_address = 0)
    (some : loads m elf_file ≠ []) :
    BaseRight (elf_process_pheaders m elf_file).2 (loads m elf_file) ∧
      EndRight (elf_process_pheaders m elf_file).2 (loads m elf_file) ↔
    ((∀ phdr ∈ loads m elf_file, phdr.p_vaddr ≠ 0) ∨ ((loads m elf_file).getLast some).p_vaddr = 0) ∧
      ∀ phdr ∈ loads m elf_file, phdr.p_vaddr + phdr.p_filesz < 4294967296 := by
  rw [pheaders_processed,base_right_iff fresh.1 some,end_right_iff fresh.2 some]

end

/-! A file of two segments at 0x01000000, the first one at the given address and the second at 0x00401000. -/

def twoSegments (first : Nat) : Bytes := wordMemory fun a =>
  if a = 0x01000010 then 2 else if a = 0x01000018 then 0x00401000 else if a = 0x0100001C then 52
  else if a = 0x0100002C then 2 else if a = 0x01000034 then 1 else if a = 0x0100003C then first
  else if a = 0x01000044 then 16 else if a = 0x01000054 then 1 else if a = 0x0100005C then 0x00401000
  else if a = 0x01000064 then 16 else 0
def twoFile : ElfFile := ⟨0x01000000, 0, 0, 0, 0⟩

/-- Two segments above zero. -/
theorem elf_extents_two : elf_validate_loaded (twoSegments 0x00400000) 0x01000000 = 0 ∧
    BaseRight (elf_process_pheaders (twoSegments 0x00400000) twoFile).2 (loads (twoSegments 0x00400000) twoFile) ∧
    EndRight (elf_process_pheaders (twoSegments 0x00400000) twoFile).2 (loads (twoSegments 0x00400000) twoFile) := by
  refine ⟨by decide,(elf_extents_iff ⟨rfl,rfl⟩ (by decide)).mpr ⟨.inl (by decide),by decide⟩⟩

/-- The first segment is at zero, and the file is taken to start with the second. -/
theorem elf_extents_zero : elf_validate_loaded (twoSegments 0) 0x01000000 = 0 ∧
    (elf_process_pheaders (twoSegments 0) twoFile).2.virtual_base_address = 0x00401000 ∧
    ¬BaseRight (elf_process_pheaders (twoSegments 0) twoFile).2 (loads (twoSegments 0) twoFile) := by
  refine ⟨by decide,by decide,?_⟩
  rw [pheaders_processed]
  intro right
  rcases (base_right_iff rfl (by decide)).mp right with nonzero | last
  · exact absurd nonzero (by decide)
  · exact absurd last (by decide)

end SimpOS.ElfExtents
