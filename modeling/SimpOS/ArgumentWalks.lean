import SimpOS.ProcessCalls
import SimpOS.LinkedLists

/-!
The walks along the arguments of a command. Their links are pointers that the program chooses, and
the count of the arguments follows them to a null one however far that is. The copying takes
memory for every node, so that the heap bounds it.
-/
namespace SimpOS.ArgumentWalks
open SimpOS.Machine SimpOS.Memory SimpOS.Extents SimpOS.HeapBlocks SimpOS.HeapLayout SimpOS.KernelHeap SimpOS.LinkedLists
open SimpOS.TaskMemory SimpOS.ProcessMemory SimpOS.Processes SimpOS.ProcessCalls

variable {φ : Type}

/-- The links from a node on come to a null pointer. -/
def Ends (m : Bytes) (root : Nat) : Prop := ∃ nodes, Visits (command_argument_next m) 0 root nodes

/-- So many rounds are enough to count the arguments. -/
def CountTerminates (m : Bytes) (root_argument : Nat) : Prop :=
  ∃ rounds argc, process_count_command_arguments_loop m rounds 0 root_argument = some argc

def InjectTerminates (process root_argument : Nat) (s : World φ) : Prop :=
  ∃ result, process_inject_arguments process root_argument s = .ok result

section
variable {m : Bytes}

theorem command_argument_next_lt (m : Bytes) (node : Nat) : command_argument_next m node < 4294967296 := read32_lt m _

/-- A walk that ends is counted within more rounds than it has nodes. -/
theorem count_of_visits {node rounds : Nat} {nodes : List Nat} (visits : Visits (command_argument_next m) 0 node nodes)
    (enough : nodes.length < rounds) : ∀ i, ∃ argc, process_count_command_arguments_loop m rounds i node = some argc := by
  induction visits generalizing rounds with
  | done =>
    intro i
    obtain ⟨rounds,rfl⟩ : ∃ n, rounds = n + 1 := ⟨rounds - 1,by omega⟩
    exact ⟨i,rfl⟩
  | step nonnull _ ih =>
    intro i
    rw [List.length_cons] at enough
    obtain ⟨rounds,rfl⟩ : ∃ n, rounds = n + 1 := ⟨rounds - 1,by omega⟩
    rw [process_count_command_arguments_loop,if_neg nonnull]
    exact ih (by omega) _

/-- What has been counted was a walk that ends. -/
theorem visits_of_count (rounds : Nat) : ∀ {i argc : Int} {node : Nat},
    process_count_command_arguments_loop m rounds i node = some argc → Ends m node := by
  induction rounds with
  | zero =>
    intro i argc node counted
    cases counted
  | succ rounds ih =>
    intro i argc node counted
    rw [process_count_command_arguments_loop] at counted
    by_cases null : node = 0
    · rw [null]
      exact ⟨[],.done⟩
    · rw [if_neg null] at counted
      obtain ⟨nodes,visits⟩ := ih counted
      exact ⟨node :: nodes,.step null visits⟩

theorem count_terminates_iff (root : Nat) : CountTerminates m root ↔ Ends m root := by
  constructor
  · rintro ⟨rounds,argc,counted⟩
    exact visits_of_count rounds counted
  · rintro ⟨nodes,visits⟩
    obtain ⟨argc,counted⟩ := count_of_visits visits (Nat.lt_succ_self _) 0
    exact ⟨_,argc,counted⟩

/-- A walk that ends visits no pointer twice, so that it is counted. -/
theorem counted_of_ends {root : Nat} (pointer : root < 4294967296) (ends : Ends m root) :
    ∃ argc, process_count_command_arguments m root = some argc := by
  obtain ⟨nodes,visits⟩ := ends
  have length : nodes.length < 4294967296 :=
    visits.length_lt (Nat.zero_lt_of_lt pointer) pointer (command_argument_next_lt m)
  unfold process_count_command_arguments
  exact count_of_visits visits length 0

theorem ends_of_counted {root : Nat} {argc : Int} (counted : process_count_command_arguments m root = some argc) :
    Ends m root := by
  unfold process_count_command_arguments at counted
  exact visits_of_count _ counted

theorem ends_of_injected {process root : Nat} {s : World φ} (ends : InjectTerminates process root s) :
    Ends s.kernel.memory root := by
  obtain ⟨result,injected⟩ := ends
  unfold process_inject_arguments at injected
  rcases counted : process_count_command_arguments s.kernel.memory root with _ | argc
  · rw [counted] at injected
    cases injected
  · exact ends_of_counted counted

end

section
variable {s : World φ} {live : List Extent} {process size : Nat}

/-- What a request of a process leaves of the heap: one of a block at most takes one when it is served. -/
theorem process_malloc_blocks (laid : Laid s.kernel.kernel_heap live) :
    (s.process_malloc process size).1 = 0 ∨
    ∃ live', Laid (s.process_malloc process size).2.kernel.kernel_heap live' ∧
      (requestBlocks size = 1 →
        freeBlocks (s.process_malloc process size).2.kernel.kernel_heap + 1 = freeBlocks s.kernel.kernel_heap) := by
  unfold World.process_malloc
  rcases process_malloc_cases laid (s.memoryOf process) size with
    ⟨_,refused⟩ | ⟨b,heap,_,free,_,laid',⟨_,refused⟩ | ⟨_,granted⟩⟩
  · rw [refused]
    exact .inl rfl
  · rw [refused]
    exact .inl rfl
  · rw [granted]
    refine .inr ⟨_,laid',fun one => ?_⟩
    rw [one] at laid'
    exact freeBlocks_taken laid free laid'

theorem freeBlocks_le {heap : Heap} (laid : Laid heap live) : freeBlocks heap ≤ 25600 := by
  unfold freeBlocks
  refine (Finset.card_filter_le _ _).trans ?_
  rw [Finset.card_range]
  exact Nat.le_of_eq laid.total_eq

/-- Every argument that is copied takes a block of the heap. -/
theorem inject_loop_ends (process argv rounds : Nat) : ∀ {live : List Extent} (i current : Nat) (s : World φ),
    Laid s.kernel.kernel_heap live → freeBlocks s.kernel.kernel_heap < rounds →
    ∃ result, process_inject_arguments_loop process argv rounds i current s = .ok result := by
  induction rounds with
  | zero =>
    intro live i current s laid few
    exact absurd few (Nat.not_lt_zero _)
  | succ rounds ih =>
    intro live i current s laid few
    rw [process_inject_arguments_loop]
    by_cases last : current = 0
    · rw [if_pos last]
      exact ⟨_,rfl⟩
    rw [if_neg last]
    have request := @process_malloc_blocks _ s live process 512 laid
    generalize s.process_malloc process 512 = granted at request ⊢
    obtain ⟨argument_str,t⟩ := granted
    dsimp only at request ⊢
    by_cases null : argument_str = 0
    · rw [if_pos null]
      exact ⟨_,rfl⟩
    · rw [if_neg null]
      obtain ⟨live',laid',count⟩ := request.resolve_left null
      have fewer := count (requestBlocks_single (by decide) (by decide))
      exact ih _ _ (store32 (t.withKernel
        { t.kernel with memory := strncpy kernel_page t.kernel.memory argument_str current 512 }) _ _) laid'
        (show freeBlocks t.kernel.kernel_heap < rounds by omega)

theorem inject_terminates {root : Nat} (laid : Laid s.kernel.kernel_heap live) {argc : Int}
    (counted : process_count_command_arguments s.kernel.memory root = some argc) : InjectTerminates process root s := by
  unfold InjectTerminates process_inject_arguments
  rw [counted]
  dsimp only
  by_cases none : argc = 0
  · rw [if_pos none]
    exact ⟨_,rfl⟩
  rw [if_neg none]
  have request := @process_malloc_blocks _ s live process (u32 (4 * argc)) laid
  generalize s.process_malloc process (u32 (4 * argc)) = granted at request ⊢
  obtain ⟨argv,t⟩ := granted
  dsimp only at request ⊢
  by_cases null : argv = 0
  · rw [if_pos null]
    exact ⟨_,rfl⟩
  · rw [if_neg null]
    obtain ⟨live',laid',_⟩ := request.resolve_left null
    have blocks := freeBlocks_le laid'
    obtain ⟨⟨res,u⟩,copied⟩ := inject_loop_ends process argv 4294967296 0 root t laid' (by omega)
    rw [copied]
    change ∃ result, (if res < 0 then _ else _) = _
    by_cases failed : res < 0
    · rw [if_pos failed]
      exact ⟨_,rfl⟩
    · rw [if_neg failed]
      exact ⟨_,rfl⟩

/-- The arguments are counted and copied exactly when their links come to an end. -/
theorem argument_walk_terminates_iff {root : Nat} (pointer : root < 4294967296) (laid : Laid s.kernel.kernel_heap live) :
    CountTerminates s.kernel.memory root ∧ InjectTerminates process root s ↔ Ends s.kernel.memory root := by
  constructor
  · rintro ⟨counts,_⟩
    exact (count_terminates_iff root).mp counts
  · intro ends
    obtain ⟨argc,counted⟩ := counted_of_ends pointer ends
    exact ⟨(count_terminates_iff root).mpr ends,inject_terminates laid counted⟩

end

/-- A program has been given the first block of the heap, and has put a node there whose link it has chosen. -/
def nodeKernel (link : Nat) : Kernel :=
  ⟨wordMemory fun a => if a = 0x01000200 then link else 0, heap_mark_blocks_taken (kernel_heap_init fun _ => 0) 0 1⟩
def nodeWorld (link : Nat) : World Unit where
  processes _ := 0
  current_process := 0
  process _ := .zero
  task _ := .zero
  links := ⟨fun _ => ⟨0, 0⟩, 0, 0, 0⟩
  elf_file _ := ⟨0, 0, 0, 0, 0⟩
  files := ()
  kernel := nodeKernel link

private theorem node_next {link : Nat} (value : link < 4294967296) :
    command_argument_next (nodeKernel link).memory 0x01000000 = link :=
  @read32_wordMemory (fun a => if a = 0x01000200 then link else 0) 0x01000200 (by decide) (by decide) value

private theorem node_laid (link : Nat) : Laid (nodeKernel link).kernel_heap [⟨0,1⟩] := by
  have empty := kernel_heap_init_laid fun _ => 0
  refine ⟨rfl,rfl,layout_taken empty.layout (by decide) (by decide) (by decide) fun i within high => ?_⟩
  rw [mem_mk] at within
  refine (freeBlock_iff empty.layout within.1 high).mpr ?_
  rintro ⟨e,member,_⟩
  exact absurd member List.not_mem_nil

/-- A process in the first slot of the table, with pages of its own and three nodes in the block that it has been given. -/
def chainWord (a : Nat) : Nat :=
  if a = 0x1000 then 0x2000
  else if 0x2000 ≤ a ∧ a < 0x3000 then 0x3007
  else if a = 0x01000200 then 0x01000400
  else if a = 0x01000600 then 0x01000800
  else 0
def chainWorld : World Unit :=
  { nodeWorld 0 with
    processes := fun i => if i = 0 then 0x9000 else 0
    current_process := 0x9000
    process := fun p => if p = 0x9000 then { Process.zero with task := 0x8000, allocations := fun i => ⟨if i = 0 then 0x01000000 else 0, 4096⟩ } else .zero
    task := fun t => if t = 0x8000 then ⟨0x1000, .zero, 0x9000⟩ else .zero
    links := ⟨fun _ => ⟨0, 0⟩, 0x8000, 0x8000, 0x8000⟩
    kernel := ⟨wordMemory chainWord, (nodeKernel 0).kernel_heap⟩ }

private theorem chain_next {node : Nat} (aligned : (node + 512) % 4 = 0) (inside : node + 512 < 4294967296)
    (value : chainWord (node + 512) < 4294967296) :
    command_argument_next chainWorld.kernel.memory node = chainWord (node + 512) := by
  unfold command_argument_next
  rw [offset_of_lt inside]
  exact read32_wordMemory aligned (by omega) value

/-- The three nodes are counted and copied. -/
theorem argument_walk_chain : CountTerminates chainWorld.kernel.memory 0x01000000 ∧
    InjectTerminates 0x9000 0x01000000 chainWorld := by
  refine (argument_walk_terminates_iff (by decide) (node_laid 0)).mpr ⟨[0x01000000,0x01000400,0x01000800],?_⟩
  apply Visits.step (by decide)
  rw [chain_next (by decide) (by decide) (by decide)]
  apply Visits.step (by decide)
  rw [chain_next (by decide) (by decide) (by decide)]
  apply Visits.step (by decide)
  rw [chain_next (by decide) (by decide) (by decide)]
  exact .done

/-- A node that is linked to itself is counted for ever. -/
theorem argument_walk_endless : ¬CountTerminates (nodeWorld 0x01000000).kernel.memory 0x01000000 ∧
    ¬InjectTerminates 0 0x01000000 (nodeWorld 0x01000000) := by
  have endless : ¬Ends (nodeKernel 0x01000000).memory 0x01000000 := by
    rintro ⟨nodes,visits⟩
    have distinct := visits.nodup
    cases visits with
    | step _ again =>
      rw [node_next (by decide)] at again
      cases again with
      | step _ _ => exact (List.nodup_cons.mp distinct).1 List.mem_cons_self
  exact ⟨fun counts => endless ((count_terminates_iff _).mp counts),fun injects => endless (ends_of_injected injects)⟩

end SimpOS.ArgumentWalks
