import SimpOS.Paging

/-!
The ELF files of `loader/formats`: headers as the bytes that the loader reads at a pointer,
their validation, and the addresses it computes from the program headers.
-/
namespace SimpOS.ElfLoader
open SimpOS.Machine SimpOS.Memory

@[simp] abbrev PF_W : Nat := 0x02
@[simp] abbrev PT_LOAD : Nat := 1
@[simp] abbrev ET_EXEC : Nat := 2
@[simp] abbrev EI_CLASS : Nat := 4
@[simp] abbrev EI_DATA : Nat := 5
@[simp] abbrev ELFCLASSNONE : UInt8 := 0
@[simp] abbrev ELFCLASS32 : UInt8 := 1
@[simp] abbrev ELFDATANONE : UInt8 := 0
@[simp] abbrev ELFDATA2LSB : UInt8 := 1

/-- The fields of `struct elf_header` that the loader reads, at the header's address. -/
def e_ident (m : Bytes) (header i : Nat) : UInt8 := m (offset header i)
def e_type (m : Bytes) (header : Nat) : Nat := read16 m (offset header 16)
def e_entry (m : Bytes) (header : Nat) : Nat := read32 m (offset header 24)
def e_phoff (m : Bytes) (header : Nat) : Nat := read32 m (offset header 28)
def e_phnum (m : Bytes) (header : Nat) : Nat := read16 m (offset header 44)

structure Elf32Phdr where
  p_type : Nat
  p_offset : Nat
  p_vaddr : Nat
  p_filesz : Nat
  p_memsz : Nat
  p_flags : Nat
deriving DecidableEq, Repr

/-- The program header at an address. -/
def elf32_phdr (m : Bytes) (phdr : Nat) : Elf32Phdr :=
  { p_type := read32 m phdr
    p_offset := read32 m (offset phdr 4)
    p_vaddr := read32 m (offset phdr 8)
    p_filesz := read32 m (offset phdr 16)
    p_memsz := read32 m (offset phdr 20)
    p_flags := read32 m (offset phdr 24) }

/-- `struct elf_file`, all of whose fields are pointers that the loader computes. -/
structure ElfFile where
  elf_memory : Nat
  virtual_base_address : Nat
  virtual_end_address : Nat
  physical_base_address : Nat
  physical_end_address : Nat
deriving DecidableEq, Repr

def elf_valid_signature (m : Bytes) (header : Nat) : Bool :=
  memcmp ((List.range 4).map fun i => m (offset header i)) [0x7f, 69, 76, 70] 4 == some 0
def elf_valid_class (m : Bytes) (header : Nat) : Bool :=
  e_ident m header EI_CLASS == ELFCLASSNONE || e_ident m header EI_CLASS == ELFCLASS32
def elf_valid_encoding (m : Bytes) (header : Nat) : Bool :=
  e_ident m header EI_DATA == ELFDATANONE || e_ident m header EI_DATA == ELFDATA2LSB
def elf_is_executable (m : Bytes) (header : Nat) : Bool :=
  e_type m header == ET_EXEC && decide (e_entry m header ≥ SIMPOS_PROGRAM_VIRTUAL_ADDRESS)
def elf_has_program_header (m : Bytes) (header : Nat) : Bool := e_phoff m header != 0

def elf_header (elf_file : ElfFile) : Nat := elf_file.elf_memory
def elf_pheader (m : Bytes) (header : Nat) : Nat :=
  if e_phoff m header = 0 then 0 else offset header (e_phoff m header)
/-- The address of the program header i behind the first one. -/
def elf_phdr_at (phdrs i : Nat) : Nat := offset phdrs (32 * i)
def elf_program_header (m : Bytes) (header i : Nat) : Nat := elf_phdr_at (elf_pheader m header) i

def elf_phdr_phys_address (elf_file : ElfFile) (phdr : Elf32Phdr) : Nat := offset elf_file.elf_memory phdr.p_offset

def elf_validate_loaded (m : Bytes) (header : Nat) : Int :=
  if elf_valid_signature m header && elf_valid_class m header && elf_valid_encoding m header &&
    elf_is_executable m header && elf_has_program_header m header then 0 else -EINFORMAT

def elf_process_phdr_pt_load (elf_file : ElfFile) (phdr : Elf32Phdr) : Int × ElfFile :=
  let elf_file :=
    if elf_file.virtual_base_address ≥ phdr.p_vaddr ∨ elf_file.virtual_base_address = 0x00 then
      { elf_file with
        virtual_base_address := phdr.p_vaddr
        physical_base_address := offset elf_file.elf_memory phdr.p_offset }
    else elf_file
  let end_virtual_address := offset phdr.p_vaddr phdr.p_filesz
  let elf_file :=
    if elf_file.virtual_end_address ≤ end_virtual_address ∨ elf_file.virtual_end_address = 0x00 then
      { elf_file with
        virtual_end_address := end_virtual_address
        physical_end_address := offset (offset elf_file.elf_memory phdr.p_offset) phdr.p_filesz }
    else elf_file
  (0, elf_file)

def elf_process_pheader (elf_file : ElfFile) (phdr : Elf32Phdr) : Int × ElfFile :=
  if phdr.p_type = PT_LOAD then elf_process_phdr_pt_load elf_file phdr else (0, elf_file)

def elf_process_pheaders_loop (m : Bytes) (header : Nat) : Nat → Nat → Int → ElfFile → Int × ElfFile
  | 0, _, res, elf_file => (res, elf_file)
  | remaining + 1, i, _, elf_file =>
    let (res, elf_file) := elf_process_pheader elf_file (elf32_phdr m (elf_program_header m header i))
    if res < 0 then (res, elf_file) else elf_process_pheaders_loop m header remaining (i + 1) res elf_file
def elf_process_pheaders (m : Bytes) (elf_file : ElfFile) : Int × ElfFile :=
  elf_process_pheaders_loop m (elf_header elf_file) (e_phnum m (elf_header elf_file)) 0 0 elf_file

def elf_process_loaded (m : Bytes) (elf_file : ElfFile) : Int × ElfFile :=
  let res := elf_validate_loaded m (elf_header elf_file)
  if res < 0 then (res, elf_file) else elf_process_pheaders m elf_file

/-! ### Results -/

private theorem elf_process_pheader_result (elf_file : ElfFile) (phdr : Elf32Phdr) :
    (elf_process_pheader elf_file phdr).1 = 0 := by
  unfold elf_process_pheader elf_process_phdr_pt_load
  split_ifs <;> rfl

private theorem elf_process_pheaders_loop_result (m : Bytes) (header remaining : Nat) :
    ∀ i elf_file, (elf_process_pheaders_loop m header remaining i 0 elf_file).1 = 0 := by
  induction remaining with
  | zero => exact fun i elf_file => rfl
  | succ remaining ih =>
    intro i elf_file
    have one := elf_process_pheader_result elf_file (elf32_phdr m (elf_program_header m header i))
    rw [elf_process_pheaders_loop]
    generalize elf_process_pheader elf_file (elf32_phdr m (elf_program_header m header i)) = processed at one
    obtain ⟨res,elf_file'⟩ := processed
    simp only at one
    simp only [one,Int.lt_irrefl,if_false]
    exact ih (i + 1) elf_file'

/-- Only the validation of a loaded file refuses it. -/
theorem elf_process_loaded_result (m : Bytes) (elf_file : ElfFile) :
    (elf_process_loaded m elf_file).1 = elf_validate_loaded m elf_file.elf_memory := by
  unfold elf_process_loaded
  dsimp only
  rw [show elf_header elf_file = elf_file.elf_memory from rfl]
  by_cases refused : elf_validate_loaded m elf_file.elf_memory < 0
  · rw [if_pos refused]
  · rw [if_neg refused]
    have valid : elf_validate_loaded m elf_file.elf_memory = 0 := by
      unfold elf_validate_loaded at refused ⊢
      split_ifs at refused ⊢ with accepted
      · rfl
      · exact absurd (show (-EINFORMAT : Int) < 0 by decide) refused
    rw [valid]
    exact elf_process_pheaders_loop_result m _ _ 0 elf_file

/-- The comparison of the signature finds no difference, whatever the file starts with. -/
theorem elf_valid_signature_always (m : Bytes) (header : Nat) : elf_valid_signature m header = true := by
  have read : (List.range 4).map (fun i => m (offset header i)) =
      [m (offset header 0),m (offset header 1),m (offset header 2),m (offset header 3)] := rfl
  rw [elf_valid_signature,read]
  simp only [memcmp]
  split_ifs <;> simp

/-! ### What a header is read from -/

/-- The two memories agree on the n bytes at a. -/
def SameAt (m m' : Bytes) (a n : Nat) : Prop := ∀ j < n, m' (offset a j) = m (offset a j)

section
variable {m m' : Bytes} {a : Nat}

private theorem read32_sameAt {n i : Nat} (same : SameAt m m' a n) (inside : i + 4 ≤ n) :
    read32 m' (offset a i) = read32 m (offset a i) := by
  unfold read32
  simp only [offset_offset]
  rw [same i (by omega),same (i + 1) (by omega),same (i + 2) (by omega),same (i + 3) (by omega)]

private theorem read16_sameAt {n i : Nat} (same : SameAt m m' a n) (inside : i + 2 ≤ n) :
    read16 m' (offset a i) = read16 m (offset a i) := by
  unfold read16
  simp only [offset_offset]
  rw [same i (by omega),same (i + 1) (by omega)]

theorem elf_header_sameAt (same : SameAt m m' a 52) :
    e_phnum m' a = e_phnum m a ∧ elf_pheader m' a = elf_pheader m a := by
  have phoff : e_phoff m' a = e_phoff m a := read32_sameAt same (by decide)
  refine ⟨read16_sameAt same (by decide),?_⟩
  unfold elf_pheader
  rw [phoff]

theorem elf32_phdr_sameAt (high : a < 4294967296) (same : SameAt m m' a 32) : elf32_phdr m' a = elf32_phdr m a := by
  have start : offset a 0 = a := offset_of_lt (by omega)
  have first := read32_sameAt (i := 0) same (by decide)
  rw [start] at first
  unfold elf32_phdr
  rw [first,read32_sameAt same (by decide : 4 + 4 ≤ 32),read32_sameAt same (by decide : 8 + 4 ≤ 32),
    read32_sameAt same (by decide : 16 + 4 ≤ 32),read32_sameAt same (by decide : 20 + 4 ≤ 32),
    read32_sameAt same (by decide : 24 + 4 ≤ 32)]

end

end SimpOS.ElfLoader
