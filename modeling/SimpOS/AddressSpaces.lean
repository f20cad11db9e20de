import SimpOS.Paging

/-!
A page directory whose 1024 tables are pages of their own is a map from virtual pages to
entries, and each paging function an update of that map: the entries asked for change,
every other entry stays, and no byte outside the tables is written.
-/
namespace SimpOS.AddressSpaces
open SimpOS.Machine SimpOS.Memory SimpOS.Paging

/-- The directory's page and the pages of its tables are all different. -/
structure AddressSpace (m : Bytes) (directory : Nat) : Prop where
  aligned : directory % 4096 = 0
  high : directory + 4096 ≤ 4294967296
  apart : ∀ i < 1024, pageTable m directory i ≠ directory
  distinct : ∀ i < 1024, ∀ j < 1024, pageTable m directory i = pageTable m directory j → i = j

/-- The byte lies in one of the directory's tables. -/
def InTables (m : Bytes) (directory x : Nat) : Prop :=
  ∃ i < 1024, pageTable m directory i ≤ x ∧ x < pageTable m directory i + 4096
/-- The byte lies in the directory or one of its tables. -/
def InSpace (m : Bytes) (directory x : Nat) : Prop :=
  (directory ≤ x ∧ x < directory + 4096) ∨ InTables m directory x

/-- The memory m' is m with the directory's entries those of the given map. -/
structure Remapped (m m' : Bytes) (directory : Nat) (entry : Nat → Nat) : Prop where
  space : AddressSpace m' directory
  words : ∀ i < 1024, read32 m' (offset directory (4 * i)) = read32 m (offset directory (4 * i))
  entries : ∀ v, v % 4096 = 0 → v < 4294967296 → paging_get m' directory v = entry v
  frame : ∀ x, ¬ InTables m directory x → m' x = m x

theorem Remapped.tables {m m' : Bytes} {directory : Nat} {entry : Nat → Nat} (remapped : Remapped m m' directory entry)
    {i : Nat} (inside : i < 1024) : pageTable m' directory i = pageTable m directory i := by
  rw [pageTable,remapped.words i inside,pageTable]
theorem Remapped.inTables {m m' : Bytes} {directory x : Nat} {entry : Nat → Nat}
    (remapped : Remapped m m' directory entry) : InTables m' directory x ↔ InTables m directory x := by
  constructor
  · rintro ⟨i,inside,bounds⟩
    exact ⟨i,inside,remapped.tables inside ▸ bounds⟩
  · rintro ⟨i,inside,bounds⟩
    exact ⟨i,inside,(remapped.tables inside).symm ▸ bounds⟩

theorem Remapped.refl {m : Bytes} {directory : Nat} (space : AddressSpace m directory) :
    Remapped m m directory (paging_get m directory) :=
  ⟨space,fun _ _ => rfl,fun _ _ _ => rfl,fun _ _ => rfl⟩
theorem Remapped.trans {m m' m'' : Bytes} {directory : Nat} {entry entry' : Nat → Nat}
    (first : Remapped m m' directory entry) (second : Remapped m' m'' directory entry') :
    Remapped m m'' directory entry' := by
  refine ⟨second.space,fun i inside => ?_,second.entries,fun x outside => ?_⟩
  · rw [second.words i inside,first.words i inside]
  · rw [second.frame x (fun inTables => outside (first.inTables.mp inTables)),first.frame x outside]
theorem Remapped.congr {m m' : Bytes} {directory : Nat} {entry entry' : Nat → Nat}
    (remapped : Remapped m m' directory entry)
    (same : ∀ v, v % 4096 = 0 → v < 4294967296 → entry v = entry' v) : Remapped m m' directory entry' :=
  ⟨remapped.space,remapped.words,fun v aligned high => (remapped.entries v aligned high).trans (same v aligned high),
    remapped.frame⟩

/-- The directory's own words and all its entries are as they were. -/
structure Unchanged (m m' : Bytes) (directory : Nat) : Prop where
  space : AddressSpace m' directory
  words : ∀ i < 1024, read32 m' (offset directory (4 * i)) = read32 m (offset directory (4 * i))
  entries : ∀ v, v % 4096 = 0 → v < 4294967296 → paging_get m' directory v = paging_get m directory v

theorem Unchanged.inSpace {m m' : Bytes} {directory x : Nat} (unchanged : Unchanged m m' directory) :
    InSpace m' directory x ↔ InSpace m directory x := by
  have tables : ∀ i < 1024, pageTable m' directory i = pageTable m directory i := by
    intro i inside
    rw [pageTable,unchanged.words i inside,pageTable]
  refine or_congr_right (exists_congr fun i => ?_)
  constructor
  · rintro ⟨inside,bounds⟩
    exact ⟨inside,tables i inside ▸ bounds⟩
  · rintro ⟨inside,bounds⟩
    exact ⟨inside,(tables i inside).symm ▸ bounds⟩
theorem Remapped.inSpace {m m' : Bytes} {directory x : Nat} {entry : Nat → Nat}
    (remapped : Remapped m m' directory entry) : InSpace m' directory x ↔ InSpace m directory x :=
  or_congr_right remapped.inTables

theorem AddressSpace.word_offset {m : Bytes} {directory : Nat} (space : AddressSpace m directory) {i : Nat}
    (inside : i < 1024) : offset directory (4 * i) = directory + 4 * i :=
  offset_of_lt (by have := space.high; omega)
theorem table_offset (m : Bytes) (directory i : Nat) {j : Nat} (inside : j < 1024) :
    offset (pageTable m directory i) (4 * j) = pageTable m directory i + 4 * j :=
  offset_of_lt (by have := pageTable_high m directory i; omega)
/-- The entry of an aligned address. -/
theorem paging_get_aligned (m : Bytes) (directory : Nat) {v : Nat} (aligned : v % 4096 = 0) :
    paging_get m directory v = read32 m (pageTable m directory (v / 4194304) + 4 * (v % 4194304 / 4096)) := by
  simp only [paging_get,paging_get_indexes,validate_paging_alignment,PAGING_PAGE_SIZE,PAGING_TOTAL_ENTRIES_PER_TABLE,
    aligned,beq_self_eq_true,Bool.not_true,Bool.false_eq_true,if_false]
  rw [table_offset m directory (v / 4194304) (by omega)]

/-- Memory that agrees on the directory and its tables keeps the address space. -/
theorem AddressSpace.agree {m m' : Bytes} {directory : Nat} (space : AddressSpace m directory)
    (same : ∀ x, InSpace m directory x → m' x = m x) : Unchanged m m' directory := by
  have high := space.high
  have words : ∀ i < 1024, read32 m' (offset directory (4 * i)) = read32 m (offset directory (4 * i)) := by
    intro i inside
    rw [space.word_offset inside]
    exact read32_congr (by omega) fun x low below => same x (.inl ⟨by omega,by omega⟩)
  have tables : ∀ i < 1024, pageTable m' directory i = pageTable m directory i := by
    intro i inside
    rw [pageTable,words i inside,pageTable]
  refine ⟨⟨space.aligned,high,fun i inside => ?_,fun i insideI j insideJ => ?_⟩,words,fun v aligned below => ?_⟩
  · rw [tables i inside]
    exact space.apart i inside
  · rw [tables i insideI,tables j insideJ]
    exact space.distinct i insideI j insideJ
  · have inside : v / 4194304 < 1024 := by omega
    have page := pageTable_high m directory (v / 4194304)
    rw [paging_get_aligned m' directory aligned,paging_get_aligned m directory aligned,tables _ inside]
    exact read32_congr (by omega) fun x low above => same x (.inr ⟨_,inside,by omega,by omega⟩)

/-- Another directory keeps its entries where its pages are none of the tables written. -/
theorem Remapped.other {m m' : Bytes} {directory : Nat} {entry : Nat → Nat} (remapped : Remapped m m' directory entry)
    {other : Nat} (space : AddressSpace m other) (disjoint : ∀ x, InSpace m other x → ¬ InTables m directory x) :
    Unchanged m m' other :=
  space.agree fun x inside => remapped.frame x (disjoint x inside)

/-- Setting an entry changes that entry only. -/
theorem paging_set_correct {m : Bytes} {directory v e : Nat} (space : AddressSpace m directory)
    (aligned : v % 4096 = 0) (high : v < 4294967296) (value : e < 4294967296) :
    ∃ m', paging_set m directory v e = (0,m') ∧
      Remapped m m' directory (fun w => if w = v then e else paging_get m directory w) := by
  have inside : v / 4194304 < 1024 := by omega
  have slot : v % 4194304 / 4096 < 1024 := by omega
  have page := pageTable_high m directory (v / 4194304)
  have pageAligned := pageTable_aligned m directory (v / 4194304)
  have directoryAligned := space.aligned
  have directoryHigh := space.high
  obtain ⟨a,place⟩ : ∃ a, a = pageTable m directory (v / 4194304) + 4 * (v % 4194304 / 4096) := ⟨_,rfl⟩
  have fits : a + 4 ≤ 4294967296 := by omega
  have written : paging_set m directory v e = (0,write32 m a e) := by
    simp only [paging_set,paging_get_indexes,validate_paging_alignment,PAGING_PAGE_SIZE,PAGING_TOTAL_ENTRIES_PER_TABLE,
      aligned,beq_self_eq_true,Bool.not_true,Bool.false_eq_true,if_false,Int.lt_irrefl]
    rw [table_offset m directory (v / 4194304) slot,place]
  have words : ∀ i < 1024, read32 (write32 m a e) (offset directory (4 * i)) = read32 m (offset directory (4 * i)) := by
    intro i below
    have different := space.apart _ inside
    rw [space.word_offset below]
    exact read32_write32_apart fits (by omega) (by omega) m
  have tables : ∀ i < 1024, pageTable (write32 m a e) directory i = pageTable m directory i := by
    intro i below
    rw [pageTable,words i below,pageTable]
  refine ⟨_,written,⟨space.aligned,space.high,fun i below => ?_,fun i belowI j belowJ => ?_⟩,words,?_,?_⟩
  · rw [tables i below]
    exact space.apart i below
  · rw [tables i belowI,tables j belowJ]
    exact space.distinct i belowI j belowJ
  · intro w wAligned wHigh
    have wInside : w / 4194304 < 1024 := by omega
    rw [paging_get_aligned _ directory wAligned,tables _ wInside]
    by_cases here : w = v
    · rw [if_pos here,here,← place]
      exact read32_write32_same fits value m
    · have wPage := pageTable_high m directory (w / 4194304)
      have wPageAligned := pageTable_aligned m directory (w / 4194304)
      rw [if_neg here,paging_get_aligned _ directory wAligned]
      apply read32_write32_apart fits (by omega)
      by_cases sameTable : w / 4194304 = v / 4194304
      · have differ : w % 4194304 / 4096 ≠ v % 4194304 / 4096 := by omega
        rw [place,sameTable]
        omega
      · have different : pageTable m directory (w / 4194304) ≠ pageTable m directory (v / 4194304) :=
          fun equal => sameTable (space.distinct _ wInside _ inside equal)
        omega
  · intro x outside
    rw [write32_apply fits,if_neg]
    rintro ⟨low,below⟩
    exact outside ⟨_,inside,by omega,by omega⟩

theorem paging_map_correct {m : Bytes} {directory : Paging4gbChunk} {virt phys flags : Nat}
    (space : AddressSpace m directory.directory_entry) (virtAligned : virt % 4096 = 0) (virtHigh : virt < 4294967296)
    (physAligned : phys % 4096 = 0) (physHigh : phys < 4294967296) (low : flags < 4096) :
    ∃ m', paging_map m directory virt phys flags = (0,m') ∧ Remapped m m' directory.directory_entry
      (fun w => if w = virt then phys + flags else paging_get m directory.directory_entry w) := by
  obtain ⟨m',set,remapped⟩ := paging_set_correct (e := phys + flags) space virtAligned virtHigh (by omega)
  refine ⟨m',?_,remapped⟩
  rw [← set,paging_map,or_flags physAligned low]
  simp only [PAGING_PAGE_SIZE,virtAligned,physAligned,ne_eq,not_true_eq_false,or_self,if_false]

/-- How many bytes the address w lies above virt, going round the address space. -/
def above (virt w : Nat) : Nat := u32 ((w : Int) - virt)

private theorem paging_map_range_loop_correct {directory : Paging4gbChunk} {flags : Nat} (low : flags < 4096)
    (remaining : Nat) :
    ∀ (res : Int) (m : Bytes) (virt phys : Nat), AddressSpace m directory.directory_entry → virt % 4096 = 0 →
      virt < 4294967296 → phys % 4096 = 0 → phys < 4294967296 → phys + 4096 * remaining ≤ 4294967296 → res = 0 →
      ∃ m', paging_map_range_loop directory flags remaining res m virt phys = (0,m') ∧
        Remapped m m' directory.directory_entry (fun w => if above virt w < 4096 * remaining then
          phys + above virt w + flags else paging_get m directory.directory_entry w) := by
  induction remaining with
  | zero =>
    intro res m virt phys space _ _ _ _ _ zero
    refine ⟨m,by rw [paging_map_range_loop,zero],(Remapped.refl space).congr fun w _ _ => ?_⟩
    rw [if_neg (by omega)]
  | succ remaining ih =>
    intro res m virt phys space virtAligned virtHigh physAligned physHigh fits _
    obtain ⟨first,mapped,remapped⟩ := paging_map_correct space virtAligned virtHigh physAligned physHigh low
    have virtNext : offset virt 4096 = (virt + 4096) % 4294967296 := by unfold offset u32; omega
    have physNext : offset phys 4096 = (phys + 4096) % 4294967296 := by unfold offset u32; omega
    obtain ⟨m',rest,remapped'⟩ := ih 0 first (offset virt 4096) (offset phys 4096) remapped.space (by omega) (by omega)
      (by omega) (by omega) (by omega) rfl
    refine ⟨m',?_,(remapped.trans remapped').congr fun w wAligned wHigh => ?_⟩
    · simp only [paging_map_range_loop,mapped,Int.lt_irrefl,if_false,PAGING_PAGE_SIZE]
      exact rest
    · rw [remapped.entries w wAligned wHigh]
      by_cases here : w = virt
      · have start : above virt w = 0 := by unfold above u32; omega
        have last : ¬ above (offset virt 4096) w < 4096 * remaining := by unfold above u32; omega
        rw [if_neg last,if_pos here,if_pos (by omega),start]
        rfl
      · have step : above virt w = above (offset virt 4096) w + 4096 := by unfold above u32; omega
        rw [if_neg here]
        by_cases inside : above (offset virt 4096) w < 4096 * remaining
        · rw [if_pos inside,if_pos (by omega),step]
          omega
        · rw [if_neg inside,if_neg (by omega)]

/-- Mapping a range that ends inside the address space gives its pages their entries and
    leaves every other entry as it was. -/
theorem paging_map_range_correct {m : Bytes} {directory : Paging4gbChunk} {virt phys flags : Nat} (count : Nat)
    (space : AddressSpace m directory.directory_entry) (virtAligned : virt % 4096 = 0) (virtHigh : virt < 4294967296)
    (physAligned : phys % 4096 = 0) (physHigh : phys < 4294967296) (fits : phys + 4096 * count ≤ 4294967296)
    (low : flags < 4096) :
    ∃ m', paging_map_range m directory virt phys count flags = (0,m') ∧ Remapped m m' directory.directory_entry
      (fun w => if above virt w < 4096 * count then phys + above virt w + flags
        else paging_get m directory.directory_entry w) := by
  rw [paging_map_range,Int.toNat_natCast]
  exact paging_map_range_loop_correct low count 0 m virt phys space virtAligned virtHigh physAligned physHigh fits rfl

/-- The arguments `paging_map_to` accepts. -/
def Mappable (virt phys phys_end : Nat) : Prop :=
  virt % 4096 = 0 ∧ phys % 4096 = 0 ∧ phys_end % 4096 = 0 ∧ phys ≤ phys_end
instance (virt phys phys_end : Nat) : Decidable (Mappable virt phys phys_end) := inferInstanceAs (Decidable (_ ∧ _))

theorem paging_map_to_refused {m : Bytes} {directory : Paging4gbChunk} {virt phys phys_end flags : Nat}
    (refused : ¬ Mappable virt phys phys_end) : paging_map_to m directory virt phys phys_end flags = (-EINVARG,m) := by
  simp only [paging_map_to,PAGING_PAGE_SIZE]
  split_ifs with virtOff physOff endOff backward
  · rfl
  · rfl
  · rfl
  · rfl
  · exact absurd ⟨by omega,by omega,by omega,by omega⟩ refused

private theorem paging_map_range_loop_result (directory : Paging4gbChunk) (flags : Nat) (remaining : Nat) :
    ∀ (m : Bytes) (virt phys : Nat), virt % 4096 = 0 → phys % 4096 = 0 →
      (paging_map_range_loop directory flags remaining 0 m virt phys).1 = 0 := by
  induction remaining with
  | zero =>
    intro m virt phys _ _
    rfl
  | succ remaining ih =>
    intro m virt phys virtAligned physAligned
    have mapped : (paging_map m directory virt phys flags).1 = 0 := by
      simp only [paging_map,paging_set,paging_get_indexes,validate_paging_alignment,PAGING_PAGE_SIZE,virtAligned,
        physAligned,ne_eq,not_true_eq_false,or_self,if_false,beq_self_eq_true,Bool.not_true,Bool.false_eq_true,
        Int.lt_irrefl]
    simp only [paging_map_range_loop,mapped,Int.lt_irrefl,if_false,PAGING_PAGE_SIZE]
    apply ih
    · unfold offset u32
      omega
    · unfold offset u32
      omega

/-- Whether a mapping succeeds depends on its arguments only, not on what the directory holds. -/
theorem paging_map_to_result (m : Bytes) (directory : Paging4gbChunk) {virt phys phys_end : Nat} (flags : Nat)
    (accepted : Mappable virt phys phys_end) : (paging_map_to m directory virt phys phys_end flags).1 = 0 := by
  obtain ⟨virtAligned,physAligned,endAligned,forward⟩ := accepted
  simp only [paging_map_to,PAGING_PAGE_SIZE,virtAligned,physAligned,endAligned,ne_eq,not_true_eq_false,if_false,
    Nat.not_lt.mpr forward]
  exact paging_map_range_loop_result directory flags _ m virt phys virtAligned physAligned

/-- Mapping an empty range changes nothing. -/
theorem paging_map_to_empty (m : Bytes) (directory : Paging4gbChunk) {ptr : Nat} (flags : Nat)
    (aligned : ptr % 4096 = 0) : paging_map_to m directory ptr ptr ptr flags = (0,m) := by
  simp only [paging_map_to,PAGING_PAGE_SIZE,aligned,ne_eq,not_true_eq_false,if_false,Nat.lt_irrefl,Nat.sub_self]
  rfl

theorem paging_map_to_correct {m : Bytes} {directory : Paging4gbChunk} {virt phys phys_end : Nat} (flags : Nat)
    (space : AddressSpace m directory.directory_entry) (accepted : Mappable virt phys phys_end)
    (virtHigh : virt < 4294967296) (endHigh : phys_end < 4294967296) (low : flags < 4096) :
    ∃ m', paging_map_to m directory virt phys phys_end flags = (0,m') ∧ Remapped m m' directory.directory_entry
      (fun w => if above virt w < phys_end - phys then phys + above virt w + flags
        else paging_get m directory.directory_entry w) := by
  obtain ⟨virtAligned,physAligned,endAligned,forward⟩ := accepted
  have pages : i32 ((phys_end - phys) / 4096 : Nat) = ((phys_end - phys) / 4096 : Nat) :=
    i32_of_range (by omega) (by omega)
  have length : 4096 * ((phys_end - phys) / 4096) = phys_end - phys := by omega
  obtain ⟨m',mapped,remapped⟩ := paging_map_range_correct ((phys_end - phys) / 4096) space virtAligned virtHigh
    physAligned (by omega) (by omega) low
  refine ⟨m',?_,?_⟩
  · simp only [paging_map_to,PAGING_PAGE_SIZE,virtAligned,physAligned,endAligned,ne_eq,not_true_eq_false,if_false,
      Nat.not_lt.mpr forward,pages]
    exact mapped
  · simpa only [length] using remapped

end SimpOS.AddressSpaces
