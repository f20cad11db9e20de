import SimpOS.Isolation
import SimpOS.ProcessCalls

/-!
What the call for a program's arguments writes, and what its caller then reads. The pointer of
the caller is translated once, for its first byte, and the structure is stored from there on with
the rights of the kernel: whether the caller may write there, and whether its next page goes on
there, is not looked at.
-/
namespace SimpOS.ProgramArguments
open SimpOS.Machine SimpOS.Memory SimpOS.Paging SimpOS.KernelHeap SimpOS.TaskMemory SimpOS.Processes SimpOS.ProcessCalls
open SimpOS.AddressSpaces SimpOS.Isolation

/-! ### Words and their bytes -/

/-- The number with the given digits in base 256, the lowest first. -/
def ofBytes (b : Nat → UInt8) : Nat → Nat
  | 0 => 0
  | n + 1 => (b 0).toNat + 256 * ofBytes (fun j => b (j + 1)) n

theorem ofBytes_lt (n : Nat) : ∀ b, ofBytes b n < 256 ^ n := by
  induction n with
  | zero => exact fun _ => Nat.one_pos
  | succ n ih =>
    intro b
    have digit := (b 0).toNat_lt
    have rest := ih fun j => b (j + 1)
    rw [ofBytes,Nat.pow_succ]
    omega

theorem ofBytes_digit (n : Nat) : ∀ (b : Nat → UInt8) (j : Nat), j < n → UInt8.ofNat (ofBytes b n / 256 ^ j) = b j := by
  induction n with
  | zero => exact fun _ _ none => absurd none (Nat.not_lt_zero _)
  | succ n ih =>
    intro b j inside
    have digit := (b 0).toNat_lt
    rw [ofBytes]
    cases j with
    | zero =>
      rw [Nat.pow_zero,Nat.div_one,← UInt8.toNat_inj,UInt8.toNat_ofNat']
      omega
    | succ j =>
      rw [Nat.pow_succ',← Nat.div_div_eq_div_mul]
      rw [show ((b 0).toNat + 256 * ofBytes (fun j => b (j + 1)) n) / 256 = ofBytes (fun j => b (j + 1)) n by omega]
      exact ih _ j (by omega)

theorem offset_zero {a : Nat} (high : a < 4294967296) : offset a 0 = a := offset_of_lt (by omega)

/-- The bytes of the word at an address. -/
def WordByte (a x : Nat) : Prop := x = a ∨ ∃ k, k < 4 ∧ x = offset a k

theorem read32_same {m m' : Bytes} {a : Nat} (same : ∀ x, WordByte a x → m' x = m x) : read32 m' a = read32 m a := by
  have byte : ∀ k, k < 4 → m' (offset a k) = m (offset a k) := fun k inside => same _ (.inr ⟨k,inside,rfl⟩)
  rw [read32,read32,same a (.inl rfl),byte 1 (by decide),byte 2 (by decide),byte 3 (by decide)]

theorem write32_stored {a : Nat} (high : a < 4294967296) (m : Bytes) (v : Nat) :
    Stored m (write32 m a v) a 4 (fun j => UInt8.ofNat (v / 256 ^ j)) := by
  have first := offset_zero high
  unfold write32
  constructor
  · intro j inside
    have apart : ∀ i, i < 4 → i ≠ j → offset a j ≠ offset a i := fun i small other same =>
      other (offset_inj (by omega) (by omega) same).symm
    simp only [Function.update_apply]
    obtain rfl | rfl | rfl | rfl : j = 0 ∨ j = 1 ∨ j = 2 ∨ j = 3 := by omega
    · rw [if_neg (apart 3 (by decide) (by decide)),if_neg (apart 2 (by decide) (by decide)),
        if_neg (apart 1 (by decide) (by decide)),if_pos first,Nat.pow_zero,Nat.div_one]
    · rw [if_neg (apart 3 (by decide) (by decide)),if_neg (apart 2 (by decide) (by decide)),if_pos rfl,Nat.pow_one]
    · rw [if_neg (apart 3 (by decide) (by decide)),show 65536 = 256 ^ 2 by decide,if_pos rfl]
    · rw [show 16777216 = 256 ^ 3 by decide,if_pos rfl]
  · intro x outside
    have apart := outside 0 (by decide)
    rw [first] at apart
    simp only [Function.update_apply]
    rw [if_neg (outside 3 (by decide)),if_neg (outside 2 (by decide)),if_neg (outside 1 (by decide)),if_neg apart]

theorem word_at_iff {place : Place} {m : Bytes} {v w : Nat} (high : v < 4294967296) (value : w < 4294967296) :
    word_at place m v = w ↔ ∀ j, j < 4 → byte_at place m (offset v j) = UInt8.ofNat (w / 256 ^ j) := by
  have first := offset_zero high
  have b0 := (byte_at place m v).toNat_lt
  have b1 := (byte_at place m (offset v 1)).toNat_lt
  have b2 := (byte_at place m (offset v 2)).toNat_lt
  have b3 := (byte_at place m (offset v 3)).toNat_lt
  unfold word_at
  simp only [← UInt8.toNat_inj,UInt8.toNat_ofNat']
  constructor
  · intro sum j inside
    obtain rfl | rfl | rfl | rfl : j = 0 ∨ j = 1 ∨ j = 2 ∨ j = 3 := by omega
    · rw [first]
      omega
    · omega
    · omega
    · omega
  · intro bytes
    have h0 := bytes 0 (by decide)
    have h1 := bytes 1 (by decide)
    have h2 := bytes 2 (by decide)
    have h3 := bytes 3 (by decide)
    rw [first] at h0
    omega

/-! ### The structure of the arguments -/

/-- An int and a pointer. -/
structure Valid (arguments : ProcessArguments) : Prop where
  argc_low : -2147483648 ≤ arguments.argc
  argc_high : arguments.argc < 2147483648
  argv : arguments.argv < 4294967296

/-- The eight bytes of the structure. -/
def structureByte (arguments : ProcessArguments) (j : Nat) : UInt8 :=
  if j < 4 then UInt8.ofNat (u32 arguments.argc / 256 ^ j) else UInt8.ofNat (arguments.argv / 256 ^ (j - 4))

/-- The structure at an address, as it is read through a directory. -/
def arguments_at (place : Place) (m : Bytes) (v : Nat) : ProcessArguments :=
  ⟨i32 (word_at place m v), word_at place m (offset v 4)⟩

theorem word_at_lt (place : Place) (m : Bytes) (v : Nat) : word_at place m v < 4294967296 := by
  have b0 := (byte_at place m v).toNat_lt
  have b1 := (byte_at place m (offset v 1)).toNat_lt
  have b2 := (byte_at place m (offset v 2)).toNat_lt
  have b3 := (byte_at place m (offset v 3)).toNat_lt
  unfold word_at
  omega

private theorem i32_word {w : Nat} {argc : Int} (value : w < 4294967296) (low : -2147483648 ≤ argc)
    (high : argc < 2147483648) : i32 w = argc ↔ w = u32 argc := by
  unfold i32 u32
  omega

theorem arguments_at_iff {place : Place} {m : Bytes} {v : Nat} {arguments : ProcessArguments} (high : v < 4294967296)
    (valid : Valid arguments) :
    arguments_at place m v = arguments ↔ ∀ j, j < 8 → byte_at place m (offset v j) = structureByte arguments j := by
  obtain ⟨argc,argv⟩ := arguments
  obtain ⟨low,high',pointer⟩ := valid
  dsimp only at low high' pointer
  have count := @word_at_iff place m v (u32 argc) high (u32_lt argc)
  have vector := @word_at_iff place m (offset v 4) argv (offset_lt v 4) pointer
  rw [arguments_at,ProcessArguments.mk.injEq,i32_word (word_at_lt place m v) low high',count,vector]
  constructor
  · rintro ⟨bytes,bytes'⟩ j inside
    unfold structureByte
    split_ifs with first
    · exact bytes j first
    · have byte := bytes' (j - 4) (by omega)
      rw [offset_offset,show 4 + (j - 4) = j by omega] at byte
      exact byte
  · intro bytes
    refine ⟨fun j inside => ?_,fun j inside => ?_⟩
    · have byte := bytes j (by omega)
      rw [structureByte,if_pos inside] at byte
      exact byte
    · have byte := bytes (4 + j) (by omega)
      rw [structureByte,if_neg (by omega),Nat.add_sub_cancel_left] at byte
      rw [offset_offset]
      exact byte

/-- Any eight bytes are a structure. -/
theorem structure_of_bytes (b : Nat → UInt8) : ∃ arguments, Valid arguments ∧ ∀ j, j < 8 → structureByte arguments j = b j := by
  have count : ofBytes b 4 < 4294967296 := ofBytes_lt 4 b
  have vector : ofBytes (fun j => b (j + 4)) 4 < 4294967296 := ofBytes_lt 4 _
  have low := i32_ge (ofBytes b 4)
  have high := i32_lt (ofBytes b 4)
  have back : u32 (i32 (ofBytes b 4)) = ofBytes b 4 := ((i32_word count low high).mp rfl).symm
  refine ⟨⟨i32 (ofBytes b 4),ofBytes (fun j => b (j + 4)) 4⟩,⟨low,high,vector⟩,fun j inside => ?_⟩
  unfold structureByte
  split_ifs with first
  · dsimp only
    rw [back]
    exact ofBytes_digit 4 b j first
  · rw [ofBytes_digit 4 _ (j - 4) (by omega)]
    exact congrArg b (by omega)

/-! ### Where it is stored -/

/-- The byte is one of those the processor reads to translate an address of the directory. -/
def Walked (m : Bytes) (directory x : Nat) : Prop :=
  ∃ v, v % 4096 = 0 ∧ v < 4294967296 ∧
    (WordByte (offset directory (4 * (v / 4194304))) x ∨
      WordByte (pageTable m directory (v / 4194304) + 4 * (v % 4194304 / 4096)) x)

theorem paging_get_same {m m' : Bytes} {directory v : Nat} (same : ∀ x, Walked m directory x → m' x = m x)
    (aligned : v % 4096 = 0) (high : v < 4294967296) : paging_get m' directory v = paging_get m directory v := by
  have word : read32 m' (offset directory (4 * (v / 4194304))) = read32 m (offset directory (4 * (v / 4194304))) :=
    read32_same fun x byte => same x ⟨v,aligned,high,.inl byte⟩
  rw [paging_get_aligned m directory aligned,paging_get_aligned m' directory aligned]
  rw [show pageTable m' directory (v / 4194304) = pageTable m directory (v / 4194304) by rw [pageTable,word,pageTable]]
  exact read32_same fun x byte => same x ⟨v,aligned,high,.inr byte⟩

/-- Addresses lead where they led while what translates them stays. -/
theorem task_page_same {m m' : Bytes} {directory v : Nat} (same : ∀ x, Walked m directory x → m' x = m x)
    (high : v < 4294967296) : task_page directory m' v = task_page directory m v := by
  have aligned : paging_align_to_lower_page v % 4096 = 0 := by
    unfold paging_align_to_lower_page
    simp only [PAGING_PAGE_SIZE]
    omega
  have bound : paging_align_to_lower_page v < 4294967296 := by
    unfold paging_align_to_lower_page
    omega
  simp only [task_page,paging_get_physical_address]
  rw [paging_get_same same aligned bound]

/-- The bytes of a structure stored from an address on. -/
def storeArguments (m : Bytes) (a : Nat) (arguments : ProcessArguments) : Bytes :=
  write32 (write32 m a (u32 arguments.argc)) (offset a 4) arguments.argv

theorem storeArguments_stored {a : Nat} (high : a < 4294967296) (m : Bytes) (arguments : ProcessArguments) :
    Stored m (storeArguments m a arguments) a 8 (structureByte arguments) := by
  have count : Stored m (write32 m a (u32 arguments.argc)) a 4 (structureByte arguments) :=
    (write32_stored high m _).congr fun j inside => (if_pos inside).symm
  refine count.append (b := 4) ((write32_stored (offset_lt a 4) _ _).congr fun j inside => ?_) (by decide)
  rw [structureByte,if_neg (by omega),Nat.add_sub_cancel_left]

/-! ### The call -/

section
variable {φ : Type}

/-- The pointer that is passed, and where the caller's directory leads it. -/
def pointer (s : World φ) : Nat := task_get_stack_item (task_current s) 0 s
def destination (s : World φ) : Nat := task_virtual_address_to_physical (task_current s) (pointer s) s

/-- The caller's pages, and where they lead an address. -/
def callerPage (s : World φ) : Place := task_page (task_directory s (task_current s))
def translate (s : World φ) (v : Nat) : Nat := callerPage s s.kernel.memory v
/-- A byte of a page that the caller may write. -/
def UserByte (s : World φ) (x : Nat) : Prop :=
  Reaches s.kernel.memory (task_directory s (task_current s)) (x - x % 4096)

/-- The process of the caller. -/
def caller (s : World φ) : Nat := (s.task (task_current s)).process
def withArguments (s : World φ) (arguments : ProcessArguments) : World φ :=
  s.setProcess (caller s) fun v => { v with arguments := arguments }

/-- What a call should do: it changes no byte but those the caller may write, and the caller
    reads its process's arguments where it asked for them. -/
structure Handed (s s' : World φ) : Prop where
  own : ∀ x, s'.kernel.memory x ≠ s.kernel.memory x → UserByte s x
  read : arguments_at (callerPage s') s'.kernel.memory (pointer s) = (s.process (caller s)).arguments
/-- The call does it, whatever the arguments are. -/
def ArgumentsHanded (s : World φ) : Prop :=
  ∀ arguments, Valid arguments →
    Handed (withArguments s arguments) (isr80h_command8_get_program_arguments (withArguments s arguments))

/-- What translates the caller's addresses is the kernel's: the caller may write none of it. -/
structure TablesApart (s : World φ) : Prop where
  chunk : ∀ x, WordByte (s.task (task_current s)).page_directory x → ¬UserByte s x
  tables : ∀ x, Walked s.kernel.memory (task_directory s (task_current s)) x → ¬UserByte s x

variable {s : World φ}

theorem pointer_lt (s : World φ) : pointer s < 4294967296 := word_at_lt _ _ _
theorem destination_lt (s : World φ) : destination s < 4294967296 := offset_lt _ _
theorem destination_eq (s : World φ) : destination s = translate s (pointer s) := rfl

theorem withArguments_arguments (s : World φ) (arguments : ProcessArguments) :
    ((withArguments s arguments).process (caller s)).arguments = arguments := by
  simp only [withArguments,World.setProcess,Function.update_self]

theorem get_program_arguments_task (s : World φ) : (isr80h_command8_get_program_arguments s).task = s.task := rfl
theorem get_program_arguments_current (s : World φ) :
    task_current (isr80h_command8_get_program_arguments s) = task_current s := rfl
theorem get_program_arguments_memory (s : World φ) :
    (isr80h_command8_get_program_arguments s).kernel.memory =
      storeArguments s.kernel.memory (destination s) (s.process (caller s)).arguments := rfl

/-- While what translates the caller's addresses stays, they lead where they led. -/
theorem callerPage_same {s' : World φ} (tasks : s'.task = s.task) (current : task_current s' = task_current s)
    (kept : ∀ x, WordByte (s.task (task_current s)).page_directory x ∨
      Walked s.kernel.memory (task_directory s (task_current s)) x → s'.kernel.memory x = s.kernel.memory x)
    {v : Nat} (high : v < 4294967296) : callerPage s' s'.kernel.memory v = translate s v := by
  have directory : task_directory s' (task_current s') = task_directory s (task_current s) := by
    unfold task_directory World.chunk
    rw [current,tasks]
    exact read32_same fun x byte => kept x (.inl byte)
  rw [callerPage,directory]
  exact task_page_same (fun x walked => kept x (.inr walked)) high

/-- While the bytes stored are the caller's own, its addresses lead where they led. -/
theorem get_program_arguments_leads (apart : TablesApart s) (own : ∀ j, j < 8 → UserByte s (offset (destination s) j))
    {v : Nat} (high : v < 4294967296) :
    callerPage (isr80h_command8_get_program_arguments s) (isr80h_command8_get_program_arguments s).kernel.memory v =
      translate s v := by
  refine callerPage_same (get_program_arguments_task s) (get_program_arguments_current s) (fun x byte => ?_) high
  have foreign : ¬UserByte s x := by
    rcases byte with chunk | walked
    · exact apart.chunk x chunk
    · exact apart.tables x walked
  rw [get_program_arguments_memory]
  exact (storeArguments_stored (destination_lt s) s.kernel.memory _).frame x fun j inside same => foreign (same ▸ own j inside)

private theorem add_one_ne (c : UInt8) : c + 1 ≠ c := by
  intro same
  have values := congrArg UInt8.toNat same
  rw [UInt8.toNat_add] at values
  change (c.toNat + 1) % 256 = c.toNat at values
  omega

/-- A call whose bytes lie as they should hands the arguments over. -/
theorem handed_of_contiguous (apart : TablesApart s) (valid : Valid (s.process (caller s)).arguments)
    (own : ∀ j, j < 8 → UserByte s (offset (destination s) j))
    (contiguous : ∀ j, j < 8 → translate s (offset (pointer s) j) = offset (destination s) j) :
    Handed s (isr80h_command8_get_program_arguments s) := by
  have stored := storeArguments_stored (destination_lt s) s.kernel.memory (s.process (caller s)).arguments
  constructor
  · intro x changed
    by_contra foreign
    rw [get_program_arguments_memory] at changed
    exact changed (stored.frame x fun j inside same => foreign (same ▸ own j inside))
  · rw [arguments_at_iff (pointer_lt s) valid]
    intro j inside
    rw [byte_at,get_program_arguments_leads apart own (offset_lt _ _),contiguous j inside,get_program_arguments_memory]
    exact stored.byte j inside

/-- The caller gets its arguments, and nothing else is written, exactly when it may write each of
    the eight bytes from where its pointer leads, and its pages lead the structure's eight bytes there. -/
theorem get_program_arguments_iff (apart : TablesApart s) :
    ArgumentsHanded s ↔
      (∀ j, j < 8 → UserByte s (offset (destination s) j)) ∧
      ∀ j, j < 8 → translate s (offset (pointer s) j) = offset (destination s) j := by
  constructor
  · intro handed
    have stored := fun arguments => storeArguments_stored (destination_lt s) s.kernel.memory arguments
    have memory : ∀ arguments, (isr80h_command8_get_program_arguments (withArguments s arguments)).kernel.memory =
        storeArguments s.kernel.memory (destination s) arguments := by
      intro arguments
      refine (get_program_arguments_memory (withArguments s arguments)).trans ?_
      exact congrArg (storeArguments s.kernel.memory (destination s)) (withArguments_arguments s arguments)
    have own : ∀ j, j < 8 → UserByte s (offset (destination s) j) := by
      intro j inside
      obtain ⟨arguments,valid,bytes⟩ := structure_of_bytes fun j => s.kernel.memory (offset (destination s) j) + 1
      refine (handed arguments valid).own _ ?_
      rw [memory,(stored arguments).byte j inside,bytes j inside]
      exact add_one_ne _
    refine ⟨own,fun j inside => ?_⟩
    by_contra elsewhere
    -- a value for the byte that neither the place it is read from nor another byte has
    obtain ⟨arguments,valid,bytes⟩ := structure_of_bytes fun i =>
      if i = j then s.kernel.memory (translate s (offset (pointer s) j)) + 1
      else s.kernel.memory (translate s (offset (pointer s) j))
    have whole := (handed arguments valid).read.trans (withArguments_arguments s arguments)
    have byte := (arguments_at_iff (pointer_lt s) valid).mp whole j inside
    have leads := get_program_arguments_leads (s := withArguments s arguments) ⟨apart.chunk,apart.tables⟩ own
      (offset_lt (pointer s) j)
    rw [byte_at,leads,memory,bytes j inside,if_pos rfl] at byte
    have other : storeArguments s.kernel.memory (destination s) arguments (translate s (offset (pointer s) j)) =
        s.kernel.memory (translate s (offset (pointer s) j)) := by
      by_cases written : ∃ i, i < 8 ∧ translate s (offset (pointer s) j) = offset (destination s) i
      · obtain ⟨i,small,place⟩ := written
        have different : i ≠ j := fun same => elsewhere (place.trans (by rw [same]))
        have value := (stored arguments).byte i small
        rw [bytes i small,if_neg different,← place] at value
        exact value
      · exact (stored arguments).frame _ fun i small place => written ⟨i,small,place⟩
    exact add_one_ne _ (byte.symm.trans other)
  · rintro ⟨own,contiguous⟩ arguments valid
    refine handed_of_contiguous (s := withArguments s arguments) ⟨apart.chunk,apart.tables⟩ ?_ own contiguous
    rw [show (withArguments s arguments).process (caller (withArguments s arguments)) =
      (withArguments s arguments).process (caller s) from rfl,withArguments_arguments]
    exact valid

end

/-! A task whose tables let it write the first page of each 4 MiB, kept at 0x5000, and read all
else at 0x6000, with the pointer it passes on top of its stack. -/

def callWord (passed a : Nat) : Nat :=
  if a = 0x1000 then 0x2000
  else if 0x2000 ≤ a ∧ a < 0x3000 then 0x3007
  else if a = 0x3000 then 0x5007
  else if 0x3000 < a ∧ a < 0x4000 then 0x6005
  else if a = 0x6000 then passed
  else 0
def callWorld (passed : Nat) : World Unit :=
  { processes := fun _ => 0
    current_process := 0x9000
    process := fun _ => .zero
    task := fun _ => ⟨0x1000, { Registers.zero with esp := 0x1000 }, 0x9000⟩
    links := ⟨fun _ => ⟨0, 0⟩, 0x8000, 0x8000, 0x8000⟩
    elf_file := fun _ => ⟨0, 0, 0, 0, 0⟩
    files := ()
    kernel := ⟨wordMemory (callWord passed), kernel_heap_init fun _ => 0⟩ }

section
variable {passed : Nat}

private theorem call_directory (passed : Nat) : task_directory (callWorld passed) (task_current (callWorld passed)) = 0x2000 :=
  @read32_wordMemory (callWord passed) 0x1000 (by decide) (by decide) (show 0x2000 < 4294967296 by decide)

private theorem call_table {i : Nat} (inside : i < 1024) : read32 (wordMemory (callWord passed)) (offset 0x2000 (4 * i)) = 0x3007 := by
  have value : callWord passed (0x2000 + 4 * i) = 0x3007 := by
    unfold callWord
    rw [if_neg (by omega),if_pos (by omega)]
  rw [offset_of_lt (by omega),read32_wordMemory (by omega) (by omega) (by rw [value]; decide)]
  exact value

private theorem call_entry {v : Nat} (aligned : v % 4096 = 0) (high : v < 4294967296) :
    paging_get (wordMemory (callWord passed)) 0x2000 v = if v % 4194304 = 0 then 0x5007 else 0x6005 := by
  have value : callWord passed (0x3000 + 4 * (v % 4194304 / 4096)) = if v % 4194304 = 0 then 0x5007 else 0x6005 := by
    unfold callWord
    rw [if_neg (by omega),if_neg (by omega)]
    by_cases first : v % 4194304 = 0
    · rw [first,if_pos rfl,if_pos rfl]
    · rw [if_neg (by omega),if_pos (by omega),if_neg first]
  rw [paging_get_aligned _ _ aligned,pageTable,call_table (by omega)]
  change read32 _ (0x3000 + _) = _
  rw [read32_wordMemory (by omega) (by omega) (by rw [value]; split_ifs <;> decide)]
  exact value

private theorem call_userByte {x : Nat} : UserByte (callWorld passed) x ↔ x - x % 4096 = 0x5000 := by
  unfold UserByte Reaches
  rw [call_directory]
  change (∃ v, UserWritable (wordMemory (callWord passed)) 0x2000 v ∧ frame (wordMemory (callWord passed)) 0x2000 v = _) ↔ _
  constructor
  · rintro ⟨v,⟨aligned,high,_,entry⟩,leads⟩
    rw [frame] at leads
    rw [call_entry aligned high] at entry leads
    split_ifs at entry leads
    · exact leads.symm
    · exact absurd entry (by decide)
  · intro page
    refine ⟨0,⟨by decide,by decide,?_,?_⟩,?_⟩
    · rw [call_table (by decide)]
      decide
    · rw [call_entry (by decide) (by decide)]
      decide
    · rw [frame,call_entry (by decide) (by decide),page]
      decide

private theorem wordByte_bounds {a x : Nat} (aligned : a % 4 = 0) (low : a + 4 ≤ 4294967296) (byte : WordByte a x) :
    a ≤ x ∧ x < a + 4 := by
  rcases byte with rfl | ⟨k,small,rfl⟩
  · omega
  · rw [offset_of_lt (by omega)]
    omega

/-- What translates the task's addresses is kept below 0x4000. -/
theorem call_translating {x : Nat} (byte : WordByte ((callWorld passed).task (task_current (callWorld passed))).page_directory x ∨
    Walked (callWorld passed).kernel.memory (task_directory (callWorld passed) (task_current (callWorld passed))) x) : x < 0x4000 := by
  rcases byte with chunk | ⟨v,aligned,high,walked⟩
  · have bounds := wordByte_bounds (a := 0x1000) (by decide) (by decide) chunk
    omega
  · rw [call_directory] at walked
    rcases walked with word | entry
    · rw [offset_of_lt (by omega)] at word
      have bounds := wordByte_bounds (by omega) (by omega) word
      omega
    · have table : pageTable (wordMemory (callWord passed)) 0x2000 (v / 4194304) = 0x3000 := by
        rw [pageTable,call_table (by omega)]
        decide
      change WordByte (pageTable (wordMemory (callWord passed)) 0x2000 (v / 4194304) + _) x at entry
      rw [table] at entry
      have bounds := wordByte_bounds (by omega) (by omega) entry
      omega

private theorem call_tablesApart : TablesApart (callWorld passed) := by
  constructor
  · intro x byte
    have low := call_translating (.inl byte)
    rw [call_userByte]
    omega
  · intro x walked
    have low := call_translating (.inr walked)
    rw [call_userByte]
    omega

theorem call_translate {v : Nat} (high : v < 4294967296) :
    translate (callWorld passed) v = (if v / 4096 % 1024 = 0 then 0x5000 else 0x6000) + v % 4096 := by
  have aligned : paging_align_to_lower_page v = v / 4096 * 4096 := by
    unfold paging_align_to_lower_page
    simp only [PAGING_PAGE_SIZE]
    omega
  have difference : u32 ((v : Int) - (v / 4096 * 4096 : Nat)) = v % 4096 := by
    unfold u32
    omega
  unfold translate callerPage task_page paging_get_physical_address
  rw [call_directory,aligned]
  change offset (paging_get (wordMemory (callWord passed)) 0x2000 _ &&& _) (u32 _) = _
  rw [call_entry (by omega) (by omega),difference]
  by_cases first : v / 4096 % 1024 = 0
  · rw [if_pos first,if_pos (by omega),show 0x5007 &&& 0xfffff000 = 0x5000 by decide]
    exact offset_of_lt (by omega)
  · rw [if_neg first,if_neg (by omega),show 0x6005 &&& 0xfffff000 = 0x6000 by decide]
    exact offset_of_lt (by omega)

theorem call_pointer (value : passed < 4294967296) : pointer (callWorld passed) = passed := by
  have places : ∀ j, j < 4 → callerPage (callWorld passed) (callWorld passed).kernel.memory (offset 0x1000 j) = 0x6000 + j := by
    intro j inside
    rw [offset_of_lt (by omega)]
    exact (call_translate (by omega)).trans (by rw [if_neg (by omega)]; omega)
  refine (word_at_iff (offset_lt _ _) value).mpr fun j inside => ?_
  have byte : wordMemory (callWord passed) (0x6000 + j) = UInt8.ofNat (passed / 256 ^ j) := by
    unfold wordMemory
    rw [show 0x6000 + j - (0x6000 + j) % 4 = 0x6000 by omega,show (0x6000 + j) % 4 = j by omega]
    rfl
  rw [← byte,← places j inside]
  rfl

/-- A structure in the first page of a task is handed over. -/
theorem program_arguments_handed : ArgumentsHanded (callWorld 0) := by
  have destination : destination (callWorld 0) = 0x5000 := by
    rw [destination_eq,call_pointer (by decide),call_translate (by decide)]
    decide
  refine (get_program_arguments_iff call_tablesApart).mpr ⟨fun j inside => ?_,fun j inside => ?_⟩
  · rw [destination,offset_of_lt (by omega),call_userByte]
    omega
  · rw [destination,call_pointer (by decide),offset_of_lt (by omega),offset_of_lt (by omega),call_translate (by omega),
      if_pos (by omega)]
    omega

/-- Through a pointer that the task may only read through, an argc of 1 is written all the same. -/
theorem program_arguments_foreign :
    (isr80h_command8_get_program_arguments (withArguments (callWorld 0x1010) ⟨1,0⟩)).kernel.memory 0x6010 ≠
      (callWorld 0x1010).kernel.memory 0x6010 ∧
    ¬UserByte (callWorld 0x1010) 0x6010 ∧ ¬ArgumentsHanded (callWorld 0x1010) := by
  have destination : destination (callWorld 0x1010) = 0x6010 := by
    rw [destination_eq,call_pointer (by decide),call_translate (by decide)]
    decide
  have foreign : ¬UserByte (callWorld 0x1010) 0x6010 := by
    rw [call_userByte]
    decide
  have changed : (isr80h_command8_get_program_arguments (withArguments (callWorld 0x1010) ⟨1,0⟩)).kernel.memory 0x6010 ≠
      (callWorld 0x1010).kernel.memory 0x6010 := by
    have stored := storeArguments_stored (a := 0x6010) (by decide) (callWorld 0x1010).kernel.memory ⟨1,0⟩
    have first : storeArguments (callWorld 0x1010).kernel.memory 0x6010 ⟨1,0⟩ 0x6010 = structureByte ⟨1,0⟩ 0 :=
      stored.byte 0 (by decide)
    rw [get_program_arguments_memory]
    change storeArguments (callWorld 0x1010).kernel.memory (ProgramArguments.destination (callWorld 0x1010)) ⟨1,0⟩ 0x6010 ≠ _
    rw [destination,first]
    decide
  exact ⟨changed,foreign,fun handed => foreign ((handed ⟨1,0⟩ ⟨by decide,by decide,by decide⟩).own 0x6010 changed)⟩

end

end SimpOS.ProgramArguments
