import SimpOS.ElfSegments
import SimpOS.ProcessLoads

/-!
What the loader reads of an ELF file before it maps it. The validation asks for five things besides
the signature, and its comparison of the signature never fails, so that a binary with those five is
taken for an ELF file. No header is checked against the length of the file, so that the headers of a
short file come from what was in its block before.
-/
namespace SimpOS.ElfHeaders
open SimpOS.Machine SimpOS.Memory SimpOS.Strings SimpOS.Paging SimpOS.AddressSpaces SimpOS.ElfLoader SimpOS.Processes
open SimpOS.ProcessLoads SimpOS.ElfSegments

/-! ### The validation -/

/-- The file starts as ELF files do. -/
def Signature (m : Bytes) (header : Nat) : Prop :=
  e_ident m header 0 = 0x7f ∧ e_ident m header 1 = 69 ∧ e_ident m header 2 = 76 ∧ e_ident m header 3 = 70

/-- A 32-bit little-endian executable with its entry among the programs and with program headers. -/
structure Runnable (m : Bytes) (header : Nat) : Prop where
  bits : e_ident m header EI_CLASS = ELFCLASSNONE ∨ e_ident m header EI_CLASS = ELFCLASS32
  encoding : e_ident m header EI_DATA = ELFDATANONE ∨ e_ident m header EI_DATA = ELFDATA2LSB
  type : e_type m header = ET_EXEC
  entry : 0x400000 ≤ e_entry m header
  program : e_phoff m header ≠ 0

section
variable {m : Bytes} {header : Nat}

private theorem checks_iff : (elf_valid_class m header && elf_valid_encoding m header && elf_is_executable m header &&
    elf_has_program_header m header) = true ↔ Runnable m header := by
  unfold elf_valid_class elf_valid_encoding elf_is_executable elf_has_program_header
  simp only [Bool.and_eq_true,Bool.or_eq_true,beq_iff_eq,bne_iff_ne,decide_eq_true_eq,SIMPOS_PROGRAM_VIRTUAL_ADDRESS]
  constructor
  · rintro ⟨⟨⟨bits,encoding⟩,type,entry⟩,program⟩
    exact ⟨bits,encoding,type,entry,program⟩
  · rintro ⟨bits,encoding,type,entry,program⟩
    exact ⟨⟨⟨bits,encoding⟩,type,entry⟩,program⟩

/-- The signature has no part in the verdict. -/
theorem elf_validate_loaded_runnable (runnable : Runnable m header) : elf_validate_loaded m header = 0 := by
  have checks := checks_iff.mpr runnable
  rw [elf_validate_loaded,elf_valid_signature_always,Bool.true_and,checks]
  rfl

theorem elf_validate_loaded_refused (other : ¬ Runnable m header) : elf_validate_loaded m header = -EINFORMAT := by
  have checks := Bool.eq_false_iff.mpr (mt checks_iff.mp other)
  rw [elf_validate_loaded,elf_valid_signature_always,Bool.true_and,checks]
  rfl

end

section
variable {φ : Type} {services : FileServices φ} {filename : CString} {process : Nat} {s t : World φ} {elf_file : Nat} {fd : Int}

/-- What `elf_load` does up to the check of the file: it opens the file, finds its size and reads it
    into the buffer of a new record. -/
structure FileRead (services : FileServices φ) (filename : CString) (s t : World φ) (elf_file : Nat) (fd : Int) : Prop where
  record : elf_file = (s.kzalloc 132).1
  opened : ∃ u v stat count, ∃ file_size,
    (if elf_file ≠ 0 then (s.kzalloc 132).2.setElf elf_file fun _ => ⟨0,0,0,0,0⟩ else (s.kzalloc 132).2).onFiles
      (services.fopen filename [114]) = .ok (fd,u) ∧ 0 < fd ∧
    u.onFiles (services.fstat fd) = .ok ((stat,file_size),v) ∧ 0 ≤ stat ∧
    ((v.kzalloc file_size).2.setElf elf_file fun w => { w with elf_memory := (v.kzalloc file_size).1 }).onFiles
      (services.fread (v.kzalloc file_size).1 file_size 1 fd) = .ok (count,t) ∧ 0 ≤ count

/-- After the file has been read its record is freed, and the process gets it as a flat binary. -/
def FallsBack (services : FileServices φ) (filename : CString) (process : Nat) (s t : World φ) (elf_file : Nat) (fd : Int) : Prop :=
  process_load_data services filename process s = (do
    let (_, u) ← (elf_file_free elf_file t).onFiles (services.fclose fd)
    process_load_binary services filename process u)

private theorem setElf_self (t : World φ) (elf_file : Nat) : (t.setElf elf_file fun _ => t.elf_file elf_file) = t := by
  unfold World.setElf
  rw [Function.update_eq_self]

private theorem elf_load_refused (read : FileRead services filename s t elf_file fd)
    (refused : elf_validate_loaded t.kernel.memory (t.elf_file elf_file).elf_memory = -EINFORMAT) :
    elf_load services filename s = (do
      let (_, u) ← (elf_file_free elf_file t).onFiles (services.fclose fd)
      return (-EINFORMAT,0,u)) := by
  obtain ⟨record,u,v,stat,count,file_size,opens,positive,size,found,reads,complete⟩ := read
  have checked : elf_process_loaded t.kernel.memory (t.elf_file elf_file) = (-EINFORMAT,t.elf_file elf_file) := by
    rw [elf_process_loaded,show elf_header (t.elf_file elf_file) = (t.elf_file elf_file).elf_memory from rfl,refused]
    rfl
  have file : elf_load_file services elf_file file_size fd v = .ok (-EINFORMAT,t) := by
    rw [elf_load_file]
    dsimp only
    rw [bind_of_ok _ reads]
    dsimp only
    rw [if_neg (by omega),checked,setElf_self]
    rfl
  have loaded : elf_load_opened services elf_file fd u = .ok (-EINFORMAT,t) := by
    rw [elf_load_opened,bind_of_ok _ size]
    dsimp only
    rw [if_neg (by omega),file]
  rw [elf_load]
  dsimp only
  rw [← record,bind_of_ok _ opens]
  dsimp only
  rw [if_neg (by omega),bind_of_ok _ loaded]
  rfl

private theorem process_load_data_refused (read : FileRead services filename s t elf_file fd)
    (refused : elf_validate_loaded t.kernel.memory (t.elf_file elf_file).elf_memory = -EINFORMAT) :
    FallsBack services filename process s t elf_file fd := by
  rw [FallsBack,process_load_data,process_load_elf,elf_load_refused read refused]
  cases (elf_file_free elf_file t).onFiles (services.fclose fd) with
  | error stop => rfl
  | ok closed => rfl

end

/-- The verdict on the header at this address is the one that its fields ask for, and a file without
    the signature is loaded as a flat binary. -/
structure Exact (m : Bytes) (header : Nat) : Prop where
  accepted : elf_validate_loaded m header = 0 ↔ Signature m header ∧ Runnable m header
  refused : ¬ (Signature m header ∧ Runnable m header) → elf_validate_loaded m header = -EINFORMAT
  binary : ¬ Signature m header → ∀ {φ : Type} {services : FileServices φ} {filename : CString} {process : Nat}
    {s t : World φ} {elf_file : Nat} {fd : Int}, FileRead services filename s t elf_file fd →
    t.kernel.memory = m → (t.elf_file elf_file).elf_memory = header → FallsBack services filename process s t elf_file fd

/-- The verdict is right for every header with the signature, and for a header without it where
    another check fails. -/
theorem elf_validate_loaded_exact_iff (m : Bytes) (header : Nat) :
    Exact m header ↔ Signature m header ∨ ¬ Runnable m header := by
  constructor
  · intro verdict
    by_cases runnable : Runnable m header
    · exact .inl (verdict.accepted.mp (elf_validate_loaded_runnable runnable)).1
    · exact .inr runnable
  · intro holds
    have other : ¬ (Signature m header ∧ Runnable m header) → ¬ Runnable m header := by
      rintro neither runnable
      exact neither ⟨holds.resolve_right (not_not_intro runnable),runnable⟩
    refine ⟨⟨fun zero => ?_,fun both => elf_validate_loaded_runnable both.2⟩,
      fun neither => elf_validate_loaded_refused (other neither),fun plain => ?_⟩
    · by_contra neither
      rw [elf_validate_loaded_refused (other neither)] at zero
      exact absurd zero (by decide)
    · rintro φ services filename process s t elf_file fd read rfl rfl
      exact process_load_data_refused read (elf_validate_loaded_refused (other fun both => plain both.1))

/-- The words of a binary that starts with zeros and has what an ELF file needs behind them. -/
private def plainWord (a : Nat) : Nat :=
  match a with
  | 0x01000010 => 2
  | 0x01000018 => 0x400000
  | 0x0100001c => 52
  | _ => 0

/-- The binary is taken for an ELF file. -/
theorem elf_validate_loaded_plain : ∃ m, e_ident m 0x01000000 0 = 0 ∧ elf_validate_loaded m 0x01000000 = 0 ∧
    ¬ Exact m 0x01000000 := by
  have first : e_ident (wordMemory plainWord) 0x01000000 0 = 0 := by decide
  have accepted : elf_validate_loaded (wordMemory plainWord) 0x01000000 = 0 := by decide
  refine ⟨wordMemory plainWord,first,accepted,fun verdict => ?_⟩
  have start := (verdict.accepted.mp accepted).1.1
  rw [first] at start
  exact absurd start (by decide)

/-! ### What is read of a file -/

/-- The file lies in a buffer of the kernel's heap. -/
structure Holds (m : Bytes) (ptr : Nat) (file : List UInt8) : Prop where
  buffer : InHeap ptr (4096 * ((file.length + 4095) / 4096))
  bytes : ∀ o (inside : o < file.length), m (ptr + o) = file.get ⟨o,inside⟩

/-- The addresses that `elf_process_loaded` reads: a field once the checks before it have passed, and
    the program headers once all have. -/
inductive Reads (m : Bytes) (header : Nat) : Nat → Prop
  | signature {i : Nat} : i < 4 → (∀ j < i, [(0x7f : UInt8),69,76,70][j]? = some (e_ident m header j)) →
      Reads m header (offset header i)
  | bits : elf_valid_signature m header → Reads m header (offset header EI_CLASS)
  | encoding : elf_valid_class m header → Reads m header (offset header EI_DATA)
  | type {j : Nat} : elf_valid_class m header → elf_valid_encoding m header → j < 2 → Reads m header (offset header (16 + j))
  | entry {j : Nat} : elf_valid_class m header → elf_valid_encoding m header → e_type m header = ET_EXEC → j < 4 →
      Reads m header (offset header (24 + j))
  | phoff {j : Nat} : elf_valid_class m header → elf_valid_encoding m header → elf_is_executable m header → j < 4 →
      Reads m header (offset header (28 + j))
  | phnum {j : Nat} : elf_validate_loaded m header = 0 → j < 2 → Reads m header (offset header (44 + j))
  | p_type {i j : Nat} : elf_validate_loaded m header = 0 → i < e_phnum m header → j < 4 →
      Reads m header (offset (elf_program_header m header i) j)
  -- p_offset and p_vaddr, and p_filesz behind p_paddr
  | load {i j : Nat} : elf_validate_loaded m header = 0 → i < e_phnum m header →
      (elf32_phdr m (elf_program_header m header i)).p_type = PT_LOAD → (4 ≤ j ∧ j < 12) ∨ (16 ≤ j ∧ j < 20) →
      Reads m header (offset (elf_program_header m header i) j)

/-- Both pointers are null, or each is as far behind its buffer as the other. -/
def SameOffset (ptr p ptr' p' : Nat) : Prop := (p = 0 ∧ p' = 0) ∨ above ptr p = above ptr' p'
/-- The same addresses, relative to the buffers where they are physical. -/
structure SameFile (e e' : ElfFile) : Prop where
  virtual_base : e.virtual_base_address = e'.virtual_base_address
  virtual_end : e.virtual_end_address = e'.virtual_end_address
  physical_base : SameOffset e.elf_memory e.physical_base_address e'.elf_memory e'.physical_base_address
  physical_end : SameOffset e.elf_memory e.physical_end_address e'.elf_memory e'.physical_end_address

/-- What `elf_process_loaded` makes of the file in this buffer is the same whatever is around the
    file and in any other buffer, and it reads nothing but the file. -/
structure LoadsAlone (ptr : Nat) (file : List UInt8) : Prop where
  same : ∀ m, Holds m ptr file → ∀ m' ptr', Holds m' ptr' file →
    (elf_process_loaded m ⟨ptr,0,0,0,0⟩).1 = (elf_process_loaded m' ⟨ptr',0,0,0,0⟩).1 ∧
    SameFile (elf_process_loaded m ⟨ptr,0,0,0,0⟩).2 (elf_process_loaded m' ⟨ptr',0,0,0,0⟩).2
  inside : ∀ m, Holds m ptr file → ∀ x, Reads m ptr x → ptr ≤ x ∧ x < ptr + file.length

/-- The file's own bytes, from address 0 on. -/
def image (file : List UInt8) : Bytes := fun x => file.getD x 0

/-- The file has each field of the header that is looked at, as far as the checks go. -/
structure Checkable (file : List UInt8) : Prop where
  bits : 5 ≤ file.length
  encoding : elf_valid_class (image file) 0 → 6 ≤ file.length
  type : elf_valid_class (image file) 0 → elf_valid_encoding (image file) 0 → 18 ≤ file.length
  entry : elf_valid_class (image file) 0 → elf_valid_encoding (image file) 0 → e_type (image file) 0 = ET_EXEC →
    28 ≤ file.length
  phoff : elf_valid_class (image file) 0 → elf_valid_encoding (image file) 0 → elf_is_executable (image file) 0 →
    32 ≤ file.length

/-- And it has the number of the program headers and their fields, with their offsets taken around
    the end of the address space. -/
structure Complete (file : List UInt8) : Prop where
  header : Checkable file
  phnum : elf_validate_loaded (image file) 0 = 0 → 46 ≤ file.length
  p_type : elf_validate_loaded (image file) 0 = 0 → ∀ i < e_phnum (image file) 0,
    elf_program_header (image file) 0 i + 4 ≤ file.length
  load : elf_validate_loaded (image file) 0 = 0 → ∀ i < e_phnum (image file) 0,
    (elf32_phdr (image file) (elf_program_header (image file) 0 i)).p_type = PT_LOAD →
    elf_program_header (image file) 0 i + 20 ≤ file.length

section
variable {m : Bytes} {ptr : Nat} {file : List UInt8}

private theorem Holds.fits (holds : Holds m ptr file) : ptr + file.length ≤ 0x07400000 := by
  obtain ⟨_,_,high⟩ := holds.buffer
  simp only [SIMPOS_HEAP_ADDRESS,SIMPOS_HEAP_SIZE_BYTES] at high
  omega

/-- A byte of the file is where it is in the file. -/
private theorem Holds.byte (holds : Holds m ptr file) {o : Nat} (inside : o < file.length) :
    m (offset ptr o) = image file (offset 0 o) := by
  have fits := holds.fits
  rw [offset_of_lt (by omega),offset_of_lt (by omega),holds.bytes o inside,image,Nat.zero_add,
    List.getD_eq_getElem?_getD,List.getElem?_eq_getElem inside,List.get_eq_getElem]
  rfl

private theorem Holds.word16 (holds : Holds m ptr file) {o : Nat} (inside : o + 2 ≤ file.length) :
    read16 m (offset ptr o) = read16 (image file) (offset 0 o) := by
  unfold read16
  simp only [offset_offset]
  rw [holds.byte (by omega),holds.byte (by omega)]

private theorem Holds.word32 (holds : Holds m ptr file) {o : Nat} (inside : o + 4 ≤ file.length) :
    read32 m (offset ptr o) = read32 (image file) (offset 0 o) := by
  unfold read32
  simp only [offset_offset]
  rw [holds.byte (by omega),holds.byte (by omega),holds.byte (by omega),holds.byte (by omega)]

private theorem Holds.bits (holds : Holds m ptr file) (inside : 5 ≤ file.length) :
    elf_valid_class m ptr = elf_valid_class (image file) 0 := by
  rw [elf_valid_class,elf_valid_class,e_ident,e_ident,holds.byte (o := EI_CLASS) inside]

private theorem Holds.encoding (holds : Holds m ptr file) (inside : 6 ≤ file.length) :
    elf_valid_encoding m ptr = elf_valid_encoding (image file) 0 := by
  rw [elf_valid_encoding,elf_valid_encoding,e_ident,e_ident,holds.byte (o := EI_DATA) inside]

private theorem Holds.type (holds : Holds m ptr file) (inside : 18 ≤ file.length) :
    e_type m ptr = e_type (image file) 0 := holds.word16 inside

private theorem Holds.executable (holds : Holds m ptr file) (inside : 18 ≤ file.length)
    (entry : e_type (image file) 0 = ET_EXEC → 28 ≤ file.length) :
    elf_is_executable m ptr = elf_is_executable (image file) 0 := by
  rw [elf_is_executable,elf_is_executable,holds.type inside]
  by_cases type : e_type (image file) 0 = ET_EXEC
  · have same : e_entry m ptr = e_entry (image file) 0 := holds.word32 (entry type)
    rw [same]
  · rw [beq_eq_false_iff_ne.mpr type,Bool.false_and,Bool.false_and]

private theorem Holds.phoff (holds : Holds m ptr file) (inside : 32 ≤ file.length) :
    e_phoff m ptr = e_phoff (image file) 0 := holds.word32 inside

/-- The program headers are where they are in the file. -/
private theorem Holds.program (holds : Holds m ptr file) (inside : 32 ≤ file.length)
    (accepted : elf_validate_loaded (image file) 0 = 0) (i : Nat) :
    elf_program_header m ptr i = offset ptr (elf_program_header (image file) 0 i) := by
  have program : e_phoff (image file) 0 ≠ 0 := by
    by_contra none
    rw [elf_validate_loaded_refused fun runnable => runnable.program none] at accepted
    exact absurd accepted (by decide)
  rw [elf_program_header,elf_program_header,elf_pheader,elf_pheader,holds.phoff inside,if_neg program,if_neg program,
    elf_phdr_at,elf_phdr_at]
  unfold offset u32
  omega

/-- The verdict is the one on the file's own bytes. -/
private theorem Holds.verdict (holds : Holds m ptr file) (complete : Checkable file) :
    elf_validate_loaded m ptr = elf_validate_loaded (image file) 0 := by
  have bits := holds.bits complete.bits
  unfold elf_validate_loaded
  rw [elf_valid_signature_always,elf_valid_signature_always,bits]
  cases class_ : elf_valid_class (image file) 0 with
  | false => rfl
  | true =>
    rw [holds.encoding (complete.encoding class_)]
    cases data : elf_valid_encoding (image file) 0 with
    | false => rfl
    | true =>
      rw [holds.executable (complete.type class_ data) (complete.entry class_ data)]
      cases executable : elf_is_executable (image file) 0 with
      | false => rfl
      | true =>
        rw [elf_has_program_header,elf_has_program_header,holds.phoff (complete.phoff class_ data executable)]

/-- An accepted file has passed each check. -/
private theorem accepted_checks (accepted : elf_validate_loaded m ptr = 0) : elf_valid_class m ptr = true ∧
    elf_valid_encoding m ptr = true ∧ elf_is_executable m ptr = true := by
  have runnable : Runnable m ptr := by
    by_contra other
    rw [elf_validate_loaded_refused other] at accepted
    exact absurd accepted (by decide)
  have checks := checks_iff.mpr runnable
  simp only [Bool.and_eq_true] at checks
  exact ⟨checks.1.1.1,checks.1.1.2,checks.1.2⟩

private theorem Checkable.header (complete : Checkable file) (accepted : elf_validate_loaded (image file) 0 = 0) :
    32 ≤ file.length := by
  obtain ⟨class_,data,executable⟩ := accepted_checks accepted
  exact complete.phoff class_ data executable

/-- The program header i, as far as it is read. -/
private theorem Holds.phdr (holds : Holds m ptr file) (complete : Complete file)
    (accepted : elf_validate_loaded (image file) 0 = 0) {i : Nat} (below : i < e_phnum (image file) 0) :
    (elf32_phdr m (elf_program_header m ptr i)).p_type = (elf32_phdr (image file) (elf_program_header (image file) 0 i)).p_type ∧
    ((elf32_phdr (image file) (elf_program_header (image file) 0 i)).p_type = PT_LOAD →
      (elf32_phdr m (elf_program_header m ptr i)).p_offset = (elf32_phdr (image file) (elf_program_header (image file) 0 i)).p_offset ∧
      (elf32_phdr m (elf_program_header m ptr i)).p_vaddr = (elf32_phdr (image file) (elf_program_header (image file) 0 i)).p_vaddr ∧
      (elf32_phdr m (elf_program_header m ptr i)).p_filesz = (elf32_phdr (image file) (elf_program_header (image file) 0 i)).p_filesz) := by
  have first := complete.p_type accepted i below
  have rest := complete.load accepted i below
  have fits := holds.fits
  rw [holds.program (complete.header.header accepted) accepted i]
  generalize elf_program_header (image file) 0 i = place at first rest ⊢
  have field : ∀ {k}, place + k + 4 ≤ file.length → read32 m (offset (offset ptr place) k) = read32 (image file) (offset place k) := by
    intro k inside
    rw [offset_offset,holds.word32 inside,offset_of_lt (by omega),offset_of_lt (by omega),Nat.zero_add]
  have type := holds.word32 first
  rw [offset_of_lt (by omega : 0 + place < 4294967296),Nat.zero_add] at type
  refine ⟨type,fun load => ?_⟩
  have long := rest load
  exact ⟨field (by omega),field (by omega),field (by omega)⟩

/-- Nothing but the file is read. -/
private theorem Complete.inside (complete : Complete file) (holds : Holds m ptr file) {x : Nat} (reads : Reads m ptr x) :
    ptr ≤ x ∧ x < ptr + file.length := by
  have fits := holds.fits
  have place : ∀ {o}, o < file.length → ptr ≤ offset ptr o ∧ offset ptr o < ptr + file.length := by
    intro o inside
    rw [offset_of_lt (by omega)]
    omega
  have checks := complete.header
  have long := checks.bits
  have bits := holds.bits checks.bits
  cases reads with
  | signature small _ => exact place (by omega)
  | bits _ => exact place long
  | encoding class_ => exact place (checks.encoding (bits ▸ class_))
  | type class_ data small =>
    rw [holds.encoding (checks.encoding (bits ▸ class_))] at data
    have := checks.type (bits ▸ class_) data
    exact place (by omega)
  | entry class_ data type small =>
    rw [holds.encoding (checks.encoding (bits ▸ class_))] at data
    rw [holds.type (checks.type (bits ▸ class_) data)] at type
    have := checks.entry (bits ▸ class_) data type
    exact place (by omega)
  | phoff class_ data executable small =>
    rw [holds.encoding (checks.encoding (bits ▸ class_))] at data
    rw [holds.executable (checks.type (bits ▸ class_) data) (checks.entry (bits ▸ class_) data)] at executable
    have := checks.phoff (bits ▸ class_) data executable
    exact place (by omega)
  | phnum accepted small =>
    have := complete.phnum (holds.verdict complete.header ▸ accepted)
    exact place (by omega)
  | @p_type i j accepted below small =>
    rw [holds.verdict complete.header] at accepted
    rw [show e_phnum m ptr = e_phnum (image file) 0 from holds.word16 (complete.phnum accepted)] at below
    have := complete.p_type accepted i below
    rw [holds.program (complete.header.header accepted) accepted,offset_offset]
    exact place (by omega)
  | @load i j accepted below type part =>
    rw [holds.verdict complete.header] at accepted
    rw [show e_phnum m ptr = e_phnum (image file) 0 from holds.word16 (complete.phnum accepted)] at below
    rw [(holds.phdr complete accepted below).1] at type
    have := complete.load accepted i below type
    rw [holds.program (complete.header.header accepted) accepted,offset_offset]
    exact place (by omega)

/-! ### Two runs -/

/-- A program header that is read alike in both runs keeps the addresses alike. -/
private theorem elf_process_pheader_same {e e' : ElfFile} {phdr phdr' : Elf32Phdr} (same : SameFile e e')
    (type : phdr.p_type = phdr'.p_type) (fields : phdr'.p_type = PT_LOAD →
      phdr.p_offset = phdr'.p_offset ∧ phdr.p_vaddr = phdr'.p_vaddr ∧ phdr.p_filesz = phdr'.p_filesz) :
    (elf_process_pheader e phdr).1 = 0 ∧ (elf_process_pheader e' phdr').1 = 0 ∧
    SameFile (elf_process_pheader e phdr).2 (elf_process_pheader e' phdr').2 := by
  have behind : ∀ a b n, SameOffset a (offset a n) b (offset b n) := by
    intro a b n
    refine .inr ?_
    unfold above offset u32
    omega
  have behind2 : ∀ a b n k, SameOffset a (offset (offset a n) k) b (offset (offset b n) k) := by
    intro a b n k
    rw [offset_offset,offset_offset]
    exact behind a b (n + k)
  unfold elf_process_pheader
  rw [type]
  by_cases load : phdr'.p_type = PT_LOAD
  · rw [if_pos load,if_pos load]
    obtain ⟨from_,virt,filesz⟩ := fields load
    obtain ⟨base,last,physBase,physEnd⟩ := same
    unfold elf_process_phdr_pt_load
    dsimp only
    rw [from_,virt,filesz,base]
    by_cases low : e'.virtual_base_address ≥ phdr'.p_vaddr ∨ e'.virtual_base_address = 0x00
    · rw [if_pos low,if_pos low]
      dsimp only
      rw [last]
      by_cases high : e'.virtual_end_address ≤ offset phdr'.p_vaddr phdr'.p_filesz ∨ e'.virtual_end_address = 0x00
      · rw [if_pos high,if_pos high]
        exact ⟨rfl,rfl,⟨rfl,rfl,behind ..,behind2 ..⟩⟩
      · rw [if_neg high,if_neg high]
        exact ⟨rfl,rfl,⟨rfl,rfl,behind ..,physEnd⟩⟩
    · rw [if_neg low,if_neg low,last]
      by_cases high : e'.virtual_end_address ≤ offset phdr'.p_vaddr phdr'.p_filesz ∨ e'.virtual_end_address = 0x00
      · rw [if_pos high,if_pos high]
        exact ⟨rfl,rfl,⟨base,rfl,physBase,behind2 ..⟩⟩
      · rw [if_neg high,if_neg high]
        exact ⟨rfl,rfl,⟨base,last,physBase,physEnd⟩⟩
  · rw [if_neg load,if_neg load]
    exact ⟨rfl,rfl,same⟩

private theorem elf_process_pheaders_loop_same {m' : Bytes} {ptr' : Nat} (holds : Holds m ptr file)
    (holds' : Holds m' ptr' file) (complete : Complete file) (accepted : elf_validate_loaded (image file) 0 = 0)
    (remaining : Nat) : ∀ (i : Nat) (e e' : ElfFile), i + remaining ≤ e_phnum (image file) 0 → SameFile e e' →
      (elf_process_pheaders_loop m ptr remaining i 0 e).1 = (elf_process_pheaders_loop m' ptr' remaining i 0 e').1 ∧
      SameFile (elf_process_pheaders_loop m ptr remaining i 0 e).2 (elf_process_pheaders_loop m' ptr' remaining i 0 e').2 := by
  induction remaining with
  | zero => exact fun i e e' _ same => ⟨rfl,same⟩
  | succ remaining ih =>
    intro i e e' bound same
    obtain ⟨type,fields⟩ := holds.phdr complete accepted (i := i) (by omega)
    obtain ⟨type',fields'⟩ := holds'.phdr complete accepted (i := i) (by omega)
    have step := elf_process_pheader_same same (type.trans type'.symm) fun load => by
      rw [type'] at load
      obtain ⟨from_,virt,filesz⟩ := fields load
      obtain ⟨from_',virt',filesz'⟩ := fields' load
      exact ⟨from_.trans from_'.symm,virt.trans virt'.symm,filesz.trans filesz'.symm⟩
    obtain ⟨res,res',after⟩ := step
    rw [elf_process_pheaders_loop,elf_process_pheaders_loop]
    dsimp only
    rw [res,res',if_neg (Int.lt_irrefl 0),if_neg (Int.lt_irrefl 0)]
    exact ih (i + 1) _ _ (by omega) after

/-- Two runs on a file that has each field are alike. -/
private theorem Complete.same {m' : Bytes} {ptr' : Nat} (complete : Complete file) (holds : Holds m ptr file)
    (holds' : Holds m' ptr' file) :
    (elf_process_loaded m ⟨ptr,0,0,0,0⟩).1 = (elf_process_loaded m' ⟨ptr',0,0,0,0⟩).1 ∧
    SameFile (elf_process_loaded m ⟨ptr,0,0,0,0⟩).2 (elf_process_loaded m' ⟨ptr',0,0,0,0⟩).2 := by
  have start : SameFile ⟨ptr,0,0,0,0⟩ ⟨ptr',0,0,0,0⟩ := ⟨rfl,rfl,.inl ⟨rfl,rfl⟩,.inl ⟨rfl,rfl⟩⟩
  have header : ∀ p, elf_header ⟨p,0,0,0,0⟩ = p := fun _ => rfl
  rw [elf_process_loaded,elf_process_loaded,header,header,holds.verdict complete.header,holds'.verdict complete.header]
  by_cases refused : elf_validate_loaded (image file) 0 < 0
  · rw [if_pos refused,if_pos refused]
    exact ⟨rfl,start⟩
  · have accepted : elf_validate_loaded (image file) 0 = 0 := by
      by_contra other
      unfold elf_validate_loaded at refused other
      split_ifs at refused other with checks
      · exact other rfl
      · exact absurd (show (-EINFORMAT : Int) < 0 by decide) refused
    have count : e_phnum m ptr = e_phnum (image file) 0 := holds.word16 (complete.phnum accepted)
    have count' : e_phnum m' ptr' = e_phnum (image file) 0 := holds'.word16 (complete.phnum accepted)
    rw [if_neg refused,if_neg refused,elf_process_pheaders,elf_process_pheaders,header,header,count,count']
    exact elf_process_pheaders_loop_same holds holds' complete accepted _ 0 _ _ (by omega) start

/-- The file in its buffer, with zeros around it. -/
private theorem holds_alone (buffer : InHeap ptr (4096 * ((file.length + 4095) / 4096))) :
    Holds (fun x => image file (x - ptr)) ptr file := by
  refine ⟨buffer,fun o inside => ?_⟩
  rw [Nat.add_sub_cancel_left,image,List.getD_eq_getElem?_getD,List.getElem?_eq_getElem inside,List.get_eq_getElem]
  rfl

/-- A file of which nothing behind its end is read has each field that is looked at. -/
private theorem complete_of_inside (holds : Holds m ptr file)
    (inside : ∀ x, Reads m ptr x → ptr ≤ x ∧ x < ptr + file.length) : Complete file := by
  have fits := holds.fits
  have reach : ∀ {o}, o < 4294967296 → Reads m ptr (offset ptr o) → o < file.length := by
    intro o small reads
    have bounds := inside _ reads
    unfold offset u32 at bounds
    omega
  have bitsLong := reach (by decide) (.bits (elf_valid_signature_always m ptr))
  have bits := holds.bits bitsLong
  have encodingLong : elf_valid_class (image file) 0 → 6 ≤ file.length := fun class_ =>
    reach (by decide) (.encoding (bits ▸ class_))
  have encoding : elf_valid_class (image file) 0 → elf_valid_encoding m ptr = elf_valid_encoding (image file) 0 := fun class_ =>
    holds.encoding (encodingLong class_)
  have typeLong : elf_valid_class (image file) 0 → elf_valid_encoding (image file) 0 → 18 ≤ file.length := fun class_ data =>
    reach (o := 17) (by decide) (.type (j := 1) (bits ▸ class_) (encoding class_ ▸ data) (by decide))
  have entryLong : elf_valid_class (image file) 0 → elf_valid_encoding (image file) 0 →
      e_type (image file) 0 = ET_EXEC → 28 ≤ file.length := fun class_ data type =>
    reach (o := 27) (by decide) (.entry (j := 3) (bits ▸ class_) (encoding class_ ▸ data)
      ((holds.type (typeLong class_ data)).trans type) (by decide))
  have phoffLong : elf_valid_class (image file) 0 → elf_valid_encoding (image file) 0 →
      elf_is_executable (image file) 0 → 32 ≤ file.length := fun class_ data executable =>
    reach (o := 31) (by decide) (.phoff (j := 3) (bits ▸ class_) (encoding class_ ▸ data)
      ((holds.executable (typeLong class_ data) (entryLong class_ data)).symm ▸ executable) (by decide))
  have checks : Checkable file := ⟨bitsLong,encodingLong,typeLong,entryLong,phoffLong⟩
  have verdict := holds.verdict checks
  have phnumLong : elf_validate_loaded (image file) 0 = 0 → 46 ≤ file.length := fun accepted =>
    reach (o := 45) (by decide) (.phnum (j := 1) (verdict.trans accepted) (by decide))
  have count : elf_validate_loaded (image file) 0 = 0 → e_phnum m ptr = e_phnum (image file) 0 := fun accepted =>
    holds.word16 (phnumLong accepted)
  have typesLong : elf_validate_loaded (image file) 0 = 0 → ∀ i < e_phnum (image file) 0,
      elf_program_header (image file) 0 i + 4 ≤ file.length := by
    intro accepted i below
    have high : elf_program_header (image file) 0 i < 4294967296 := offset_lt ..
    have reads : ∀ j < 4, Reads m ptr (offset ptr (elf_program_header (image file) 0 i + j)) := by
      intro j small
      rw [← offset_offset,← holds.program (checks.header accepted) accepted i]
      exact .p_type (verdict.trans accepted) (by rw [count accepted]; exact below) small
    have first := reach high (reads 0 (by decide))
    exact reach (by omega) (reads 3 (by decide))
  refine ⟨checks,phnumLong,typesLong,fun accepted i below load => ?_⟩
  have first := typesLong accepted i below
  have place := holds.program (checks.header accepted) accepted i
  have type : (elf32_phdr m (elf_program_header m ptr i)).p_type = PT_LOAD := by
    have word := holds.word32 first
    rw [offset_of_lt (by omega : 0 + elf_program_header (image file) 0 i < 4294967296),Nat.zero_add,← place] at word
    exact word.trans load
  have reads := Reads.load (j := 19) (verdict.trans accepted) (by rw [count accepted]; exact below) type
    (.inr ⟨by decide,by decide⟩)
  rw [place,offset_offset] at reads
  exact reach (by omega) reads

/-- The file in its buffer is loaded alone exactly when it has each field that is looked at. -/
theorem elf_process_loaded_alone_iff (buffer : InHeap ptr (4096 * ((file.length + 4095) / 4096))) :
    LoadsAlone ptr file ↔ Complete file := by
  constructor
  · intro alone
    exact complete_of_inside (holds_alone buffer) (alone.inside _ (holds_alone buffer))
  · intro complete
    exact ⟨fun m holds m' ptr' holds' => complete.same holds holds',fun m holds x reads => complete.inside holds reads⟩

end

/-- A file of 84 bytes has its one header. -/
theorem elf_process_loaded_alone_program : LoadsAlone 0x01000000 (programFile 84) := by
  have buffer : InHeap 0x01000000 (4096 * (((programFile 84).length + 4095) / 4096)) := by unfold InHeap; decide
  have count : e_phnum (image (programFile 84)) 0 = 1 := by decide
  have place : elf_program_header (image (programFile 84)) 0 0 = 52 := by decide
  have header : Checkable (programFile 84) :=
    ⟨by decide,fun _ => by decide,fun _ _ => by decide,fun _ _ _ => by decide,fun _ _ _ => by decide⟩
  refine (elf_process_loaded_alone_iff buffer).mpr ⟨header,fun _ => by decide,fun _ i below => ?_,fun _ i below _ => ?_⟩
  · obtain rfl : i = 0 := by omega
    rw [place]
    decide
  · obtain rfl : i = 0 := by omega
    rw [place]
    decide

/-- The words behind the one byte of a file that make an ELF header of it. -/
private def staleWord (a : Nat) : Nat := if a = 0x01000000 then 0x7f else plainWord a

/-- A file of one byte is accepted or refused by what was in its block before. -/
theorem elf_process_loaded_stale : ∃ m m', Holds m 0x01000000 [0x7f] ∧ Holds m' 0x01000000 [0x7f] ∧
    (elf_process_loaded m ⟨0x01000000,0,0,0,0⟩).1 = 0 ∧ (elf_process_loaded m' ⟨0x01000000,0,0,0,0⟩).1 = -EINFORMAT ∧
    ¬ LoadsAlone 0x01000000 [0x7f] := by
  have buffer : InHeap 0x01000000 (4096 * (([0x7f] : List UInt8).length + 4095) / 4096) := by unfold InHeap; decide
  have accepted : (elf_process_loaded (wordMemory staleWord) ⟨0x01000000,0,0,0,0⟩).1 = 0 := by
    rw [elf_process_loaded_result]
    decide
  have refused : (elf_process_loaded (fun x => if x = 0x01000000 then 0x7f else 0) ⟨0x01000000,0,0,0,0⟩).1 = -EINFORMAT := by
    rw [elf_process_loaded_result]
    decide
  have holds : Holds (wordMemory staleWord) 0x01000000 [0x7f] := by
    refine ⟨buffer,fun o inside => ?_⟩
    obtain rfl : o = 0 := Nat.lt_one_iff.mp inside
    rfl
  have holds' : Holds (fun x => if x = 0x01000000 then 0x7f else 0) 0x01000000 [0x7f] := by
    refine ⟨buffer,fun o inside => ?_⟩
    obtain rfl : o = 0 := Nat.lt_one_iff.mp inside
    rfl
  refine ⟨_,_,holds,holds',accepted,refused,fun alone => ?_⟩
  have same := (alone.same _ holds _ _ holds').1
  rw [accepted,refused] at same
  exact absurd same (by decide)

end SimpOS.ElfHeaders
