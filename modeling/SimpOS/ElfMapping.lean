import SimpOS.ElfLoader
import SimpOS.Isolation

/-!
How `process_map_elf` maps a loaded file into the page directory of its task: one mapping
call for each program header, whatever the header's type, on the range that the header's own
fields give.
-/
namespace SimpOS.ElfMapping
open SimpOS.Machine SimpOS.Memory SimpOS.Paging SimpOS.AddressSpaces SimpOS.ElfLoader SimpOS.Isolation

/-- The body of the loop. -/
def process_map_elf_header (directory : Paging4gbChunk) (elf_file : ElfFile) (phdr : Elf32Phdr) (m : Bytes) :
    Int × Bytes :=
  let phdr_phys_address := elf_phdr_phys_address elf_file phdr
  let flags := PAGING_IS_PRESENT ||| PAGING_ACCESS_FROM_ALL
  let flags := if phdr.p_flags &&& PF_W ≠ 0 then flags ||| PAGING_IS_WRITEABLE else flags
  paging_map_to m directory (paging_align_to_lower_page phdr.p_vaddr) (paging_align_to_lower_page phdr_phys_address)
    (paging_align_address (offset phdr_phys_address phdr.p_memsz)) flags

def process_map_elf_loop (directory : Paging4gbChunk) (elf_file : ElfFile) (phdrs : Nat) :
    Nat → Nat → Int → Bytes → Int × Bytes
  | 0, _, res, m => (res, m)
  | remaining + 1, i, res, m =>
    if i < e_phnum m (elf_header elf_file) then
      let (res, m) := process_map_elf_header directory elf_file (elf32_phdr m (elf_phdr_at phdrs i)) m
      if res < 0 then (res, m) else process_map_elf_loop directory elf_file phdrs remaining (i + 1) res m
    else (res, m)

/-- The count of the headers is below 2^16. -/
def process_map_elf (m : Bytes) (directory : Paging4gbChunk) (elf_file : ElfFile) : Int × Bytes :=
  process_map_elf_loop directory elf_file (elf_pheader m (elf_header elf_file)) 65536 0 0 m

/-! ### The pages of a header -/

section
variable (elf_file : ElfFile) (phdr : Elf32Phdr)

/-- The range of pages that the mapping call for a header asks for, and where they go. -/
def pagesFrom : Nat := paging_align_to_lower_page (elf_phdr_phys_address elf_file phdr)
def pagesTo : Nat := paging_align_address (offset (elf_phdr_phys_address elf_file phdr) phdr.p_memsz)
def pagesAt : Nat := paging_align_to_lower_page phdr.p_vaddr
def pageFlags : Nat := if phdr.p_flags &&& PF_W ≠ 0 then 7 else 5

/-- The header maps no page, or is PT_LOAD with its pages inside the buffer of a file of this size. -/
def Sound (file_size : Nat) : Prop :=
  pagesTo elf_file phdr ≤ pagesFrom elf_file phdr ∨
    phdr.p_type = PT_LOAD ∧ elf_file.elf_memory ≤ pagesFrom elf_file phdr ∧
      pagesTo elf_file phdr ≤ elf_file.elf_memory + (file_size + 4095) / 4096 * 4096
instance (file_size : Nat) : Decidable (Sound elf_file phdr file_size) := inferInstanceAs (Decidable (_ ∨ _))

end

section
variable (directory : Paging4gbChunk) (elf_file : ElfFile)

/-- The loop comes to header i with this memory. -/
inductive Comes (phdrs : Nat) (start : Bytes) : Nat → Bytes → Prop
  | start : Comes phdrs start 0 start
  | next {i : Nat} {m : Bytes} : Comes phdrs start i m → i < e_phnum m (elf_header elf_file) →
      0 ≤ (process_map_elf_header directory elf_file (elf32_phdr m (elf_phdr_at phdrs i)) m).1 →
      Comes phdrs start (i + 1) (process_map_elf_header directory elf_file (elf32_phdr m (elf_phdr_at phdrs i)) m).2

/-- The header that the loop maps at i, with the memory before it. -/
def Maps (start : Bytes) (i : Nat) (m : Bytes) (phdr : Elf32Phdr) : Prop :=
  Comes directory elf_file (elf_pheader start (elf_header elf_file)) start i m ∧
    i < e_phnum m (elf_header elf_file) ∧
    phdr = elf32_phdr m (elf_phdr_at (elf_pheader start (elf_header elf_file)) i)

/-- The page that the header gives to v. -/
def GivesPage (m : Bytes) (phdr : Elf32Phdr) (v p : Nat) : Prop :=
  v % 4096 = 0 ∧ v < 4294967296 ∧
    above (pagesAt phdr) v < pagesTo elf_file phdr - pagesFrom elf_file phdr ∧
    frame (process_map_elf_header directory elf_file phdr m).2 directory.directory_entry v = p

/-- Every page that is mapped belongs to a PT_LOAD header and lies in the pages of the file's buffer. -/
def MapsInside (m : Bytes) (file_size : Nat) : Prop :=
  ∀ i m' phdr v p, Maps directory elf_file m i m' phdr → GivesPage directory elf_file m' phdr v p →
    phdr.p_type = PT_LOAD ∧ elf_file.elf_memory ≤ p ∧ p < elf_file.elf_memory + (file_size + 4095) / 4096 * 4096

/-- Every header is sound where the loop comes to it. -/
def EachSound (m : Bytes) (file_size : Nat) : Prop :=
  ∀ i m' phdr, Maps directory elf_file m i m' phdr → Sound elf_file phdr file_size

end

/-- The header i as it is before anything is mapped. -/
def header_at (m : Bytes) (elf_file : ElfFile) (i : Nat) : Elf32Phdr :=
  elf32_phdr m (elf_program_header m (elf_header elf_file) i)

/-- Every header that no refused one stands before is sound. -/
def FileSound (elf_file : ElfFile) (m : Bytes) (file_size : Nat) : Prop :=
  ∀ i < e_phnum m (elf_header elf_file),
    (∀ j < i, pagesFrom elf_file (header_at m elf_file j) ≤ pagesTo elf_file (header_at m elf_file j)) →
    Sound elf_file (header_at m elf_file i) file_size

/-- The headers lie outside the tables that the mapping writes. -/
structure HeadersApart (m : Bytes) (directory : Nat) (elf_file : ElfFile) : Prop where
  header : ∀ j < 52, ¬ InTables m directory (offset (elf_header elf_file) j)
  program : ∀ i < e_phnum m (elf_header elf_file), ∀ j < 32,
    ¬ InTables m directory (offset (elf_program_header m (elf_header elf_file) i) j)

section
variable {directory : Paging4gbChunk} {elf_file : ElfFile} {phdr : Elf32Phdr} {m start : Bytes}

private theorem pages_mappable (forward : pagesFrom elf_file phdr ≤ pagesTo elf_file phdr) :
    Mappable (pagesAt phdr) (pagesFrom elf_file phdr) (pagesTo elf_file phdr) := by
  have aligned : ∀ a, paging_align_to_lower_page a % 4096 = 0 := by
    intro a
    unfold paging_align_to_lower_page
    simp only [PAGING_PAGE_SIZE]
    omega
  exact ⟨aligned _,aligned _,paging_align_address_aligned _,forward⟩

private theorem paging_align_address_lt (ptr : Nat) (high : ptr < 4294967296) : paging_align_address ptr < 4294967296 := by
  unfold paging_align_address
  split_ifs
  · exact u32_lt _
  · exact high

theorem process_map_elf_header_eq (directory : Paging4gbChunk) (elf_file : ElfFile) (phdr : Elf32Phdr) (m : Bytes) :
    process_map_elf_header directory elf_file phdr m = paging_map_to m directory (pagesAt phdr)
      (pagesFrom elf_file phdr) (pagesTo elf_file phdr) (pageFlags phdr) := by
  unfold process_map_elf_header pageFlags
  split_ifs <;> rfl

/-- A header is mapped exactly when its range does not run backwards; its pages then get their entries. -/
theorem process_map_elf_header_cases (elf_file : ElfFile) (space : AddressSpace m directory.directory_entry)
    (virtHigh : phdr.p_vaddr < 4294967296) :
    (pagesTo elf_file phdr < pagesFrom elf_file phdr ∧
      process_map_elf_header directory elf_file phdr m = (-EINVARG,m)) ∨
    pagesFrom elf_file phdr ≤ pagesTo elf_file phdr ∧ ∃ m', process_map_elf_header directory elf_file phdr m = (0,m') ∧
      Remapped m m' directory.directory_entry (fun w =>
        if above (pagesAt phdr) w < pagesTo elf_file phdr - pagesFrom elf_file phdr then
          pagesFrom elf_file phdr + above (pagesAt phdr) w + pageFlags phdr
        else paging_get m directory.directory_entry w) := by
  rw [process_map_elf_header_eq]
  by_cases forward : pagesFrom elf_file phdr ≤ pagesTo elf_file phdr
  · have atHigh : pagesAt phdr < 4294967296 := Nat.lt_of_le_of_lt (Nat.sub_le ..) virtHigh
    have endHigh : pagesTo elf_file phdr < 4294967296 := paging_align_address_lt _ (offset_lt ..)
    have low : pageFlags phdr < 4096 := by
      unfold pageFlags
      split_ifs <;> decide
    exact .inr ⟨forward,paging_map_to_correct _ space (pages_mappable forward) atHigh endHigh low⟩
  · exact .inl ⟨Nat.lt_of_not_le forward,paging_map_to_refused fun accepted => forward accepted.2.2.2⟩

/-- The page given to v lies as far into the range as v lies above its start. -/
theorem givesPage_iff (space : AddressSpace m directory.directory_entry) (virtHigh : phdr.p_vaddr < 4294967296)
    {v p : Nat} : GivesPage directory elf_file m phdr v p ↔ v % 4096 = 0 ∧ v < 4294967296 ∧
      above (pagesAt phdr) v < pagesTo elf_file phdr - pagesFrom elf_file phdr ∧
      p = pagesFrom elf_file phdr + above (pagesAt phdr) v := by
  unfold GivesPage
  refine and_congr_right fun aligned => and_congr_right fun high => and_congr_right fun inside => ?_
  rcases process_map_elf_header_cases elf_file space virtHigh with ⟨backward,_⟩ | ⟨forward,m',mapped,remapped⟩
  · omega
  · obtain ⟨atAligned,fromAligned,_,_⟩ := pages_mappable forward
    have endHigh : pagesTo elf_file phdr < 4294967296 := paging_align_address_lt _ (offset_lt ..)
    have low : pageFlags phdr < 8 := by
      unfold pageFlags
      split_ifs <;> decide
    have steps : above (pagesAt phdr) v % 4096 = 0 := by
      unfold above u32
      omega
    rw [mapped,frame,remapped.entries v aligned high,if_pos inside,and_page (by omega)]
    omega

private theorem above_offset {a n : Nat} (high : n < 4294967296) : above a (offset a n) = n := by
  unfold above offset u32
  omega
private theorem above_self (a : Nat) : above a a = 0 := by
  unfold above u32
  omega
private theorem offset_aligned {a n : Nat} (aligned : a % 4096 = 0) (steps : n % 4096 = 0) : offset a n % 4096 = 0 := by
  unfold offset u32
  omega
private theorem elf32_phdr_vaddr (m : Bytes) (a : Nat) : (elf32_phdr m a).p_vaddr < 4294967296 := read32_lt ..

/-! ### The headers in turn -/

private theorem comes_remapped {phdrs i : Nat} (space : AddressSpace start directory.directory_entry)
    (comes : Comes directory elf_file phdrs start i m) :
    Remapped start m directory.directory_entry (paging_get m directory.directory_entry) := by
  induction comes with
  | start => exact Remapped.refl space
  | @next i m comes below fine ih =>
    rcases process_map_elf_header_cases elf_file ih.space (elf32_phdr_vaddr m (elf_phdr_at phdrs i)) with
      ⟨_,refused⟩ | ⟨_,m',mapped,remapped⟩
    · rw [refused]
      exact ih
    · rw [mapped]
      exact (ih.trans remapped).congr fun v aligned high => (remapped.entries v aligned high).symm

/-- The pages that are mapped are all right exactly when each header is sound where the loop comes to it. -/
theorem mapsInside_iff_each {file_size : Nat} (space : AddressSpace start directory.directory_entry)
    (aligned : elf_file.elf_memory % 4096 = 0) :
    MapsInside directory elf_file start file_size ↔ EachSound directory elf_file start file_size := by
  constructor
  · rintro inside i m phdr ⟨comes,below,rfl⟩
    have spaceHere := (comes_remapped space comes).space
    have virtHigh := elf32_phdr_vaddr m (elf_phdr_at (elf_pheader start (elf_header elf_file)) i)
    have maps : Maps directory elf_file start i m _ := ⟨comes,below,rfl⟩
    generalize elf32_phdr m (elf_phdr_at (elf_pheader start (elf_header elf_file)) i) = phdr at maps virtHigh
    by_cases empty : pagesTo elf_file phdr ≤ pagesFrom elf_file phdr
    · exact .inl empty
    obtain ⟨atAligned,fromAligned,toAligned,_⟩ := pages_mappable (Nat.le_of_not_le empty)
    have atHigh : pagesAt phdr < 4294967296 := Nat.lt_of_le_of_lt (Nat.sub_le ..) virtHigh
    have endHigh : pagesTo elf_file phdr < 4294967296 := paging_align_address_lt _ (offset_lt ..)
    -- the first and the last page of the range
    have first := above_self (pagesAt phdr)
    have last : above (pagesAt phdr) (offset (pagesAt phdr) (pagesTo elf_file phdr - pagesFrom elf_file phdr - 4096)) =
        pagesTo elf_file phdr - pagesFrom elf_file phdr - 4096 := above_offset (by omega)
    have lastAligned : offset (pagesAt phdr) (pagesTo elf_file phdr - pagesFrom elf_file phdr - 4096) % 4096 = 0 :=
      offset_aligned atAligned (by omega)
    obtain ⟨load,low,_⟩ := inside i m phdr _ _ maps ((givesPage_iff spaceHere virtHigh).mpr
      ⟨atAligned,atHigh,by omega,rfl⟩)
    obtain ⟨_,_,high⟩ := inside i m phdr _ _ maps ((givesPage_iff spaceHere virtHigh).mpr
      ⟨lastAligned,offset_lt ..,by omega,rfl⟩)
    refine .inr ⟨load,by omega,?_⟩
    rw [last] at high
    omega
  · rintro each i m phdr v p maps gives
    have sound := each i m phdr maps
    obtain ⟨comes,below,same⟩ := maps
    have virtHigh : phdr.p_vaddr < 4294967296 := same ▸ elf32_phdr_vaddr m _
    obtain ⟨_,_,within,rfl⟩ := (givesPage_iff (comes_remapped space comes).space virtHigh).mp gives
    rcases sound with empty | ⟨load,low,high⟩
    · omega
    · exact ⟨load,by omega,by omega⟩

private theorem loop_comes {phdrs : Nat} (space : AddressSpace start directory.directory_entry) (remaining : Nat) :
    ∀ {i : Nat} {m : Bytes}, Comes directory elf_file phdrs start i m →
      ∃ n, Comes directory elf_file phdrs start n (process_map_elf_loop directory elf_file phdrs remaining i 0 m).2 := by
  induction remaining with
  | zero => exact fun {i m} comes => ⟨i,comes⟩
  | succ remaining ih =>
    intro i m comes
    rw [process_map_elf_loop]
    by_cases below : i < e_phnum m (elf_header elf_file)
    · rw [if_pos below]
      have next := Comes.next comes below
      rcases process_map_elf_header_cases elf_file (comes_remapped space comes).space
        (elf32_phdr_vaddr m (elf_phdr_at phdrs i)) with ⟨_,refused⟩ | ⟨_,m',mapped,_⟩
      · rw [refused]
        exact ⟨i,comes⟩
      · rw [mapped] at next ⊢
        exact ih (next (Int.le_refl 0))
    · rw [if_neg below]
      exact ⟨i,comes⟩

private theorem comes_entries (space : AddressSpace start directory.directory_entry) {n v : Nat} (aligned : v % 4096 = 0)
    (high : v < 4294967296)
    (comes : Comes directory elf_file (elf_pheader start (elf_header elf_file)) start n m) :
    paging_get m directory.directory_entry v = paging_get start directory.directory_entry v ∨
    ∃ i m' phdr, Maps directory elf_file start i m' phdr ∧ GivesPage directory elf_file m' phdr v
      (frame m directory.directory_entry v) := by
  induction comes with
  | start => exact .inl rfl
  | @next i m comes below fine ih =>
    have maps : Maps directory elf_file start i m _ := ⟨comes,below,rfl⟩
    have virtHigh := elf32_phdr_vaddr m (elf_phdr_at (elf_pheader start (elf_header elf_file)) i)
    generalize elf32_phdr m (elf_phdr_at (elf_pheader start (elf_header elf_file)) i) = phdr at maps fine virtHigh ⊢
    by_cases covered : above (pagesAt phdr) v < pagesTo elf_file phdr - pagesFrom elf_file phdr
    · exact .inr ⟨i,m,phdr,maps,aligned,high,covered,rfl⟩
    · have kept : paging_get (process_map_elf_header directory elf_file phdr m).2 directory.directory_entry v =
          paging_get m directory.directory_entry v := by
        rcases process_map_elf_header_cases elf_file (comes_remapped space comes).space virtHigh with
          ⟨_,refused⟩ | ⟨_,m',mapped,remapped⟩
        · rw [refused]
        · rw [mapped,remapped.entries v aligned high,if_neg covered]
      rw [frame,kept]
      exact ih

/-- The mapping writes into the directory's tables only. -/
theorem process_map_elf_remapped (space : AddressSpace start directory.directory_entry) :
    Remapped start (process_map_elf start directory elf_file).2 directory.directory_entry
      (paging_get (process_map_elf start directory elf_file).2 directory.directory_entry) := by
  obtain ⟨n,comes⟩ : ∃ n, Comes directory elf_file (elf_pheader start (elf_header elf_file)) start n
      (process_map_elf start directory elf_file).2 := loop_comes space 65536 .start
  exact comes_remapped space comes

/-- An entry that the mapping has changed leads to a page that a header has given. -/
theorem process_map_elf_entries (space : AddressSpace start directory.directory_entry) {v : Nat} (aligned : v % 4096 = 0)
    (high : v < 4294967296) :
    paging_get (process_map_elf start directory elf_file).2 directory.directory_entry v =
      paging_get start directory.directory_entry v ∨
    ∃ i m phdr, Maps directory elf_file start i m phdr ∧ GivesPage directory elf_file m phdr v
      (frame (process_map_elf start directory elf_file).2 directory.directory_entry v) := by
  obtain ⟨n,comes⟩ : ∃ n, Comes directory elf_file (elf_pheader start (elf_header elf_file)) start n
      (process_map_elf_loop directory elf_file (elf_pheader start (elf_header elf_file)) 65536 0 0 start).2 :=
    loop_comes space 65536 .start
  exact comes_entries space aligned high comes

private theorem process_map_elf_header_result (directory : Paging4gbChunk) (elf_file : ElfFile) (phdr : Elf32Phdr)
    (m : Bytes) : (process_map_elf_header directory elf_file phdr m).1 = 0 ∨
      (process_map_elf_header directory elf_file phdr m).1 = -EINVARG := by
  rw [process_map_elf_header_eq]
  by_cases forward : pagesFrom elf_file phdr ≤ pagesTo elf_file phdr
  · exact .inl (paging_map_to_result _ _ _ (pages_mappable forward))
  · rw [paging_map_to_refused fun accepted => forward accepted.2.2.2]
    exact .inr rfl

private theorem process_map_elf_loop_result (directory : Paging4gbChunk) (elf_file : ElfFile) (phdrs remaining : Nat) :
    ∀ i m, (process_map_elf_loop directory elf_file phdrs remaining i 0 m).1 = 0 ∨
      (process_map_elf_loop directory elf_file phdrs remaining i 0 m).1 = -EINVARG := by
  induction remaining with
  | zero => exact fun i m => .inl rfl
  | succ remaining ih =>
    intro i m
    rw [process_map_elf_loop]
    have one := process_map_elf_header_result directory elf_file (elf32_phdr m (elf_phdr_at phdrs i)) m
    generalize process_map_elf_header directory elf_file (elf32_phdr m (elf_phdr_at phdrs i)) m = mapped at one ⊢
    obtain ⟨res,m'⟩ := mapped
    dsimp only at one ⊢
    by_cases below : i < e_phnum m (elf_header elf_file)
    · rw [if_pos below]
      rcases one with rfl | rfl
      · exact ih (i + 1) m'
      · exact .inr rfl
    · rw [if_neg below]
      exact .inl rfl

/-- The mapping succeeds or finds a range that runs backwards. -/
theorem process_map_elf_result (m : Bytes) (directory : Paging4gbChunk) (elf_file : ElfFile) :
    (process_map_elf m directory elf_file).1 = 0 ∨ (process_map_elf m directory elf_file).1 = -EINVARG :=
  process_map_elf_loop_result directory elf_file _ 65536 0 m

/-! ### Headers outside the tables -/

/-- Headers outside the tables are the same after any mapping. -/
theorem headers_kept {entry : Nat → Nat} (apart : HeadersApart start directory.directory_entry elf_file)
    (remapped : Remapped start m directory.directory_entry entry) :
    e_phnum m (elf_header elf_file) = e_phnum start (elf_header elf_file) ∧
    ∀ j < e_phnum start (elf_header elf_file),
      elf32_phdr m (elf_phdr_at (elf_pheader start (elf_header elf_file)) j) = header_at start elf_file j := by
  refine ⟨(elf_header_sameAt fun j inside => remapped.frame _ (apart.header j inside)).1,fun j below => ?_⟩
  exact elf32_phdr_sameAt (offset_lt ..) fun k inside => remapped.frame _ (apart.program j below k inside)

theorem apart_headers (space : AddressSpace start directory.directory_entry)
    (apart : HeadersApart start directory.directory_entry elf_file) {i : Nat}
    (comes : Comes directory elf_file (elf_pheader start (elf_header elf_file)) start i m) :
    e_phnum m (elf_header elf_file) = e_phnum start (elf_header elf_file) ∧
    ∀ j < e_phnum start (elf_header elf_file),
      elf32_phdr m (elf_phdr_at (elf_pheader start (elf_header elf_file)) j) = header_at start elf_file j :=
  headers_kept apart (comes_remapped space comes)

/-- With the headers outside the tables, what the loop finds is what the file had before. -/
theorem each_iff_file {file_size : Nat} (space : AddressSpace start directory.directory_entry)
    (apart : HeadersApart start directory.directory_entry elf_file) :
    EachSound directory elf_file start file_size ↔ FileSound elf_file start file_size := by
  constructor
  · intro each i below forward
    have reached : ∀ n ≤ i, ∃ m, Comes directory elf_file (elf_pheader start (elf_header elf_file)) start n m := by
      intro n
      induction n with
      | zero => exact fun _ => ⟨start,.start⟩
      | succ n ih =>
        intro bound
        obtain ⟨m,comes⟩ := ih (by omega)
        obtain ⟨count,same⟩ := apart_headers space apart comes
        refine ⟨_,.next comes (by omega) ?_⟩
        rcases process_map_elf_header_cases elf_file (comes_remapped space comes).space (elf32_phdr_vaddr m _) with
          ⟨backward,_⟩ | ⟨_,m',mapped,_⟩
        · rw [same n (by omega)] at backward
          exact absurd (forward n (by omega)) (Nat.not_le.mpr backward)
        · rw [mapped]
    obtain ⟨m,comes⟩ := reached i (Nat.le_refl i)
    obtain ⟨count,same⟩ := apart_headers space apart comes
    exact each i m _ ⟨comes,by omega,(same i below).symm⟩
  · rintro sound i m phdr ⟨comes,below,rfl⟩
    obtain ⟨count,same⟩ := apart_headers space apart comes
    rw [same i (by omega)]
    refine sound i (by omega) ?_
    clear below same count
    induction comes with
    | start => exact fun j below => absurd below (Nat.not_lt_zero j)
    | @next i m comes below fine ih =>
      intro j bound
      rcases Nat.lt_succ_iff_lt_or_eq.mp bound with earlier | rfl
      · exact ih j earlier
      · obtain ⟨count,same⟩ := apart_headers space apart comes
        rw [← same j (by omega)]
        rcases process_map_elf_header_cases elf_file (comes_remapped space comes).space (elf32_phdr_vaddr m _) with
          ⟨_,refused⟩ | ⟨forward,_⟩
        · rw [refused] at fine
          exact absurd (show (0 : Int) ≤ -EINVARG from fine) (by decide)
        · exact forward

/-- The pages that are mapped are all those of PT_LOAD headers inside the file's buffer exactly when
    each header is sound where the loop comes to it; and, for headers outside the tables that the
    mapping writes, exactly when the file's headers are. -/
theorem process_map_elf_inside_iff {file_size : Nat} (space : AddressSpace start directory.directory_entry)
    (aligned : elf_file.elf_memory % 4096 = 0) :
    (MapsInside directory elf_file start file_size ↔ EachSound directory elf_file start file_size) ∧
    (HeadersApart start directory.directory_entry elf_file →
      (MapsInside directory elf_file start file_size ↔ FileSound elf_file start file_size)) :=
  ⟨mapsInside_iff_each space aligned,
    fun apart => (mapsInside_iff_each space aligned).trans (each_iff_file space apart)⟩

end

/-! ### A file of one header in front of its page directory -/

/-- The words of a file with one writable program header for a page at this offset, and behind it
    the words of a directory with its tables. -/
private def fileWord (p_offset a : Nat) : Nat :=
  if a < 0x01001000 then
    match a - 0x01000000 with
    | 0 => 0x464c457f
    | 4 => 0x00010101
    | 16 => 0x00030002
    | 24 => 0x00400000
    | 28 => 52
    | 44 => 1
    | 52 => 1
    | 56 => p_offset
    | 60 => 0x00400000
    | 72 => 4096
    | 76 => 6
    | _ => 0
  else if a < 0x01002000 then 0x01002000 + 4096 * ((a - 0x01001000) / 4) + 7
  else 0
def fileMemory (p_offset : Nat) : Bytes := wordMemory (fileWord p_offset)
def fileDirectory : Paging4gbChunk := ⟨0x01001000⟩
def oneHeader : ElfFile := ⟨0x01000000, 0, 0, 0, 0⟩

theorem file_table (p_offset : Nat) {i : Nat} (inside : i < 1024) :
    pageTable (fileMemory p_offset) fileDirectory.directory_entry i = 0x01002000 + 4096 * i := by
  have place : offset fileDirectory.directory_entry (4 * i) = 16781312 + 4 * i := by
    simp only [fileDirectory]
    exact offset_of_lt (by omega)
  have word : fileWord p_offset (16781312 + 4 * i) = 16785408 + 4096 * i + 7 := by
    simp only [fileWord]
    rw [if_neg (by omega),if_pos (by omega)]
    omega
  rw [pageTable,place,fileMemory,read32_wordMemory (by omega) (by omega) (by omega),word,and_page (by omega)]
  omega

theorem file_space (p_offset : Nat) : AddressSpace (fileMemory p_offset) fileDirectory.directory_entry := by
  refine ⟨rfl,by simp [fileDirectory],fun i inside => ?_,fun i insideI j insideJ same => ?_⟩
  · rw [file_table p_offset inside]
    simp only [fileDirectory]
    omega
  · rw [file_table p_offset insideI,file_table p_offset insideJ] at same
    omega

private theorem file_phnum (p_offset : Nat) : e_phnum (fileMemory p_offset) (elf_header oneHeader) = 1 := by
  have word : fileWord p_offset 0x0100002c = 1 := rfl
  show read16 (wordMemory (fileWord p_offset)) 0x0100002c = 1
  rw [read16_wordMemory (by decide) (by decide),word]

private theorem file_header {p_offset : Nat} (high : p_offset < 4294967296) :
    header_at (fileMemory p_offset) oneHeader 0 = ⟨1,p_offset,0x400000,0,4096,6⟩ := by
  have word : ∀ {a w : Nat}, fileWord p_offset a = w → a % 4 = 0 → a + 4 ≤ 4294967296 → w < 4294967296 →
      read32 (fileMemory p_offset) a = w := by
    rintro a w rfl aligned high value
    exact read32_wordMemory aligned high value
  have phoff : e_phoff (fileMemory p_offset) (elf_header oneHeader) = 52 := word rfl (by decide) (by decide) (by decide)
  have place : elf_program_header (fileMemory p_offset) (elf_header oneHeader) 0 = 0x01000034 := by
    rw [elf_program_header,elf_pheader,phoff]
    rfl
  have type : read32 (fileMemory p_offset) 0x01000034 = 1 := word rfl (by decide) (by decide) (by decide)
  have from_ : read32 (fileMemory p_offset) (offset 0x01000034 4) = p_offset := word rfl (by decide) (by decide) high
  have virt : read32 (fileMemory p_offset) (offset 0x01000034 8) = 0x400000 :=
    word rfl (by decide) (by decide) (by decide)
  have filesz : read32 (fileMemory p_offset) (offset 0x01000034 16) = 0 := word rfl (by decide) (by decide) (by decide)
  have memsz : read32 (fileMemory p_offset) (offset 0x01000034 20) = 4096 :=
    word rfl (by decide) (by decide) (by decide)
  have flags : read32 (fileMemory p_offset) (offset 0x01000034 24) = 6 := word rfl (by decide) (by decide) (by decide)
  rw [header_at,place,elf32_phdr,type,from_,virt,filesz,memsz,flags]

private theorem file_apart (p_offset : Nat) :
    HeadersApart (fileMemory p_offset) fileDirectory.directory_entry oneHeader := by
  have outside : ∀ x < 0x01001000, ¬ InTables (fileMemory p_offset) fileDirectory.directory_entry x := by
    rintro x low ⟨i,inside,bounds⟩
    rw [file_table p_offset inside] at bounds
    omega
  have phoff : e_phoff (fileMemory p_offset) (elf_header oneHeader) = 52 :=
    read32_wordMemory (a := offset 0x01000000 28) (by decide) (by decide) (show 52 < 4294967296 by decide)
  refine ⟨fun j inside => outside _ ?_,fun i below j inside => outside _ ?_⟩
  · rw [show elf_header oneHeader = 0x01000000 from rfl,offset_of_lt (by omega)]
    omega
  · rw [file_phnum] at below
    obtain rfl : i = 0 := Nat.lt_one_iff.mp below
    rw [elf_program_header,elf_pheader,phoff]
    show offset 0x01000034 j < _
    rw [offset_of_lt (by omega)]
    omega

private theorem file_sound_iff {p_offset file_size : Nat} (high : p_offset < 4294967296) :
    MapsInside fileDirectory oneHeader (fileMemory p_offset) file_size ↔
      Sound oneHeader ⟨1,p_offset,0x400000,0,4096,6⟩ file_size := by
  rw [mapsInside_iff_each (file_space p_offset) rfl,each_iff_file (file_space p_offset) (file_apart p_offset)]
  unfold FileSound
  rw [file_phnum]
  constructor
  · intro sound
    have first := sound 0 (by decide) fun j below => absurd below (Nat.not_lt_zero j)
    rwa [file_header high] at first
  · intro sound i below _
    obtain rfl : i = 0 := Nat.lt_one_iff.mp below
    rwa [file_header high]

/-- A header for the file's own page. -/
theorem process_map_elf_inside_own : elf_validate_loaded (fileMemory 0) 0x01000000 = 0 ∧
    MapsInside fileDirectory oneHeader (fileMemory 0) 4096 := by
  refine ⟨by decide,((process_map_elf_inside_iff (file_space 0) rfl).2 (file_apart 0)).mpr fun i below _ => ?_⟩
  rw [file_phnum] at below
  obtain rfl : i = 0 := Nat.lt_one_iff.mp below
  rw [file_header (by decide)]
  decide

/-- The loader accepts a file whose header asks for the page that the kernel's heap table begins in. -/
theorem process_map_elf_heap_table : elf_validate_loaded (fileMemory 0xff007000) 0x01000000 = 0 ∧
    ¬ MapsInside fileDirectory oneHeader (fileMemory 0xff007000) 4096 := by
  refine ⟨by decide,?_⟩
  rw [file_sound_iff (by decide)]
  decide

end SimpOS.ElfMapping
