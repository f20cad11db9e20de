import SimpOS.CopiedArguments
import SimpOS.CurrentProcess

/-!
Arguments on their way from a task to the program that it invokes. The call translates the pointer to
the first node, and takes it and every next pointer from there on for addresses of the kernel: the
walk is the caller's where each node lies in one piece and the nodes behind the first are at their
own addresses.
-/
namespace SimpOS.ArgumentPassing
open SimpOS.Machine SimpOS.Strings SimpOS.Memory SimpOS.Extents SimpOS.Paging SimpOS.HeapBlocks SimpOS.HeapLayout SimpOS.KernelHeap
open SimpOS.AddressSpaces SimpOS.PageDirectories SimpOS.Isolation SimpOS.LinkedLists SimpOS.TaskMemory SimpOS.FatSystem SimpOS.Processes SimpOS.ProcessLoads
open SimpOS.ProcessCalls SimpOS.CurrentProcess SimpOS.FailedLoads SimpOS.LoadFrames SimpOS.NewProcesses SimpOS.CopiedArguments
open SimpOS.FailedCommands (arguments path Named command_loads command_unnamed)
open SimpOS.ProgramArguments (pointer callerPage translate pointer_lt word_at_lt)

variable {φ : Type}

/-! ### The caller's list and the kernel's -/

/-- A node as the caller sees it through its own pages. -/
def caller_next (s : World φ) (node : Nat) : Nat := word_at (callerPage s) s.kernel.memory (offset node 512)
def caller_argument (s : World φ) (node : Nat) : CString := string_at (callerPage s) s.kernel.memory node 511
/-- The string of a node as the kernel sees it. -/
def kernel_argument (s : World φ) (node : Nat) : CString := string_at kernel_page s.kernel.memory node 511

/-- The pages of the task of the process that is current. -/
def newPage (w : World φ) : Place := task_page (task_directory w (w.process w.current_process).task)
/-- The i-th argument of the process that is current, and the string there, as its task reads them. -/
def argument (w : World φ) (i : Nat) : Nat :=
  word_at (newPage w) w.kernel.memory (offset (w.process w.current_process).arguments.argv (4 * i))
def argument_string (w : World φ) (i : Nat) : CString := string_at (newPage w) w.kernel.memory (argument w i) 512

/-- What an invocation that starts a process should leave: the process has the caller's arguments, and their strings end
    where these do or are cut. -/
structure Faithful (s w : World φ) (nodes : List Nat) : Prop where
  argc : (w.process w.current_process).arguments.argc = nodes.length
  argv : ∀ i node, nodes[i]? = some node → argument_string w i = caller_argument s node

/-- Each node lies in one piece, and the nodes behind the first are at their own addresses. -/
structure Direct (s : World φ) (nodes : List Nat) : Prop where
  some : nodes ≠ []
  piece : ∀ node ∈ nodes, ∀ j, j < 516 → translate s (offset node j) = offset (translate s node) j
  own : ∀ node ∈ nodes.tail, translate s node = node

/-- The kernel's walk comes to as many nodes, with the same strings. -/
def SameWalk (s : World φ) (nodes : List Nat) : Prop :=
  ∃ found, Visits (command_argument_next s.kernel.memory) 0 (arguments s) found ∧
    found.map (kernel_argument s) = nodes.map (caller_argument s)

/-- The bytes of a node are where a load changes nothing: below the heap and not where the file layer works, or in an extent
    that is in use. -/
structure InUse (scratch : Nat → Prop) (held : List Extent) (node : Nat) : Prop where
  below : node < SIMPOS_HEAP_ADDRESS + SIMPOS_HEAP_SIZE_BYTES
  guarded : ∀ j, j < 516 → Guarded scratch held (offset node j)

/-- The load of the program gets the memory whose refusal would go unnoticed. -/
structure Granted (services : FileServices φ) (s : World φ) : Prop where
  program : ProgramGranted services (path s) (process_block s) (process_cleared s)
  task : TaskGranted services (path s) s fun _ => True

section
variable {services : FileServices φ} {own : φ → List Extent} {scratch : Nat → Prop} {held : List Extent} {s v w : World φ}
  {nodes found : List Nat}

/-- A node in one piece is the same to the kernel and to the caller. -/
theorem node_read {node : Nat} (pointer : node < 4294967296)
    (piece : ∀ j, j < 516 → translate s (offset node j) = offset (translate s node) j) :
    command_argument_next s.kernel.memory (translate s node) = caller_next s node ∧
      kernel_argument s (translate s node) = caller_argument s node := by
  have byte : ∀ j, j < 516 → byte_at (callerPage s) s.kernel.memory (offset node j) =
      byte_at kernel_page s.kernel.memory (offset (translate s node) j) := fun j inside => by
    unfold byte_at
    exact congrArg s.kernel.memory (piece j inside)
  have low : translate s node < 4294967296 := offset_lt _ _
  constructor
  · unfold caller_next word_at command_argument_next read32
    simp only [offset_offset]
    rw [byte 512 (by decide),byte (512 + 1) (by decide),byte (512 + 2) (by decide),byte (512 + 3) (by decide)]
    rfl
  · have same := @string_at_congr s.kernel.memory s.kernel.memory (callerPage s) kernel_page 511 node (translate s node)
      fun j inside => (byte j (by omega)).symm
    rwa [offset_of_lt (by omega),Nat.add_zero,offset_of_lt (by omega),Nat.add_zero] at same

theorem caller_nodes_lt (list : Visits (caller_next s) 0 (pointer s) nodes) : ∀ node ∈ nodes, node < 4294967296 := by
  intro node member
  rcases list.before node member with rfl | ⟨before,_,rfl⟩
  · exact pointer_lt s
  · exact word_at_lt _ _ _

/-- Where the nodes lie as they should, the kernel's walk visits them at their physical addresses. -/
theorem Direct.visits (direct : Direct s nodes) (named : Named s) (list : Visits (caller_next s) 0 (pointer s) nodes) :
    Visits (command_argument_next s.kernel.memory) 0 (arguments s) (nodes.map (translate s)) ∧
      (nodes.map (translate s)).map (kernel_argument s) = nodes.map (caller_argument s) := by
  have pointers := caller_nodes_lt list
  have read := fun node member => @node_read _ s node (pointers node member) (direct.piece node member)
  have start : arguments s = translate s (pointer s) := rfl
  have nonnull := named.1
  have own := direct.own
  have some := direct.some
  constructor
  · rw [start] at nonnull ⊢
    generalize pointer s = root at list nonnull
    cases list with
    | done => exact absurd rfl some
    | @step _ rest _ list =>
      have same : rest.map (translate s) = rest := (List.map_congr_left own).trans (List.map_id rest)
      rw [List.map_cons,same]
      refine .step nonnull ?_
      rw [(read root (List.mem_cons_self ..)).1]
      refine list.congr fun node member => ?_
      have onward := (read node (List.mem_cons_of_mem _ member)).1
      rwa [own node member] at onward
  · rw [List.map_map]
    exact List.map_congr_left fun node member => (read node member).2

/-! ### The load and the copies -/

/-- The process whose arguments are copied, in the world in which they are copied: what the load had to leave alone is
    as it was, and copying the arguments leaves it alone as well. -/
structure Started (scratch : Nat → Prop) (held : List Extent) (s v : World φ) (p : Nat) (live : List Extent) : Prop where
  housed : Housed p live [] v
  current_process : v.current_process = p
  settled : ∀ x, Guarded scratch held x → Settled live x
  memory : ∀ x, Guarded scratch held x → v.kernel.memory x = s.kernel.memory x
  outside : ∀ x, Guarded scratch held x → ¬InTables v.kernel.memory (directoryOf p v) x

/-- A load that starts a process has loaded it into a directory of its own. -/
theorem load_started {slot out : Nat} {res : Int} (layer : Discreet services own scratch)
    (laid : Laid s.kernel.kernel_heap (own s.files ++ held)) (granted : Granted services s) (begun : Begun s slot)
    (ran : process_load services (path s) s = .ok (res,out,v)) (loaded : 0 ≤ res) :
    ∃ live, res = 0 ∧ Started scratch held s (process_switch out v) out live := by
  obtain ⟨res₁,u,x,prepared,passed,attach,zero,rfl,rfl⟩ := load_attached begun ran loaded
  have block : Grows own scratch [] s (process_cleared s) :=
    (Grows.then (Grows.kzalloc (by decide) (by decide) begun.2) (.same rfl rfl)).all
  have bare : Bare ((process_cleared s).process (process_block s)) := by
    unfold process_cleared
    simp only [World.setProcess,Function.update_self]
    exact bare_zero
  obtain ⟨grows,bare⟩ := process_prepare_grows layer (block.inOrder ⟨held,laid⟩) bare granted.program prepared
  obtain ⟨⟨left,laid'⟩,same⟩ := (block.then grows) held laid
  obtain ⟨t,room,_⟩ := granted.task res₁ u prepared passed
  obtain ⟨grabbed,housed,_,kept⟩ := process_attach_housed laid' room bare attach
  have settled : ∀ x, Guarded scratch held x → Settled (own u.files ++ (left ++ ([] ++ held))) x := by
    rintro x (⟨below,_⟩ | ⟨e,member,inside⟩)
    · exact .inl ⟨below,not_false⟩
    · exact .inr ⟨e,List.mem_append_right _ (List.mem_append_right _ member),inside⟩
  refine ⟨_,zero,⟨⟨housed.laid,housed.space,housed.inside,housed.chunk,housed.outside,housed.high,housed.empty⟩,rfl,
    fun x guarded => ?_,fun x guarded => ?_,fun x guarded => ?_⟩⟩
  · exact (settled x guarded).mono fun e member => List.mem_append_right _ member
  · exact (kept x (settled x guarded)).1.trans (same x guarded)
  · exact (kept x (settled x guarded)).2

/-- An invocation that starts its process has loaded it into a directory of its own, and has copied the arguments. -/
theorem invocation_started (layer : Discreet services own scratch) (laid : Laid s.kernel.kernel_heap (own s.files ++ held))
    (granted : Granted services s) (ran : isr80h_command7_invoke_system_command services s = .ok (0,w)) :
    Named s ∧ ∃ p live v res u, Started scratch held s v p live ∧
      process_inject_arguments p (arguments s) v = .ok (res,u) ∧ 0 ≤ res ∧ w = task_switch (u.process p).task u := by
  have named : Named s := by
    by_contra unnamed
    rw [command_unnamed unnamed] at ran
    cases ran
  refine ⟨named,?_⟩
  rw [command_loads named] at ran
  obtain ⟨⟨res₁,p,t⟩,loaded,ran⟩ := bind_ok ran
  obtain ⟨v,load,rfl⟩ := process_load_switch_ok loaded
  dsimp only at ran
  by_cases failed : res₁ < 0
  · rw [if_pos failed] at ran
    cases ran
    exact absurd failed (by decide)
  rw [if_neg failed] at ran
  have begun : ∃ slot, Begun s slot := by
    by_contra idle
    exact failed (load_idle laid (fun slot begun => idle ⟨slot,begun⟩) load).1
  obtain ⟨slot,begun⟩ := begun
  obtain ⟨live,rfl,started⟩ := load_started layer laid granted begun load (by omega)
  rw [if_pos rfl] at ran
  obtain ⟨⟨res₂,u⟩,copied,ran⟩ := bind_ok ran
  dsimp only at ran
  split_ifs at ran with refused
  · cases ran
    exact absurd refused (by decide)
  · cases ran
    exact ⟨p,live,_,res₂,u,started,copied,by omega,rfl⟩

/-! ### The arguments -/

/-- The nodes that the kernel finds in use are those that it finds when the program has been loaded. -/
theorem Started.listed {p : Nat} {live : List Extent} (started : Started scratch held s v p live)
    (visits : Visits (command_argument_next s.kernel.memory) 0 (arguments s) found) (use : ∀ node ∈ found, InUse scratch held node) :
    Listed p live v (arguments s) found ∧ ∀ node ∈ found, string_at kernel_page v.kernel.memory node 511 = kernel_argument s node := by
  have below : ∀ node ∈ found, node < 134217728 := fun node member => by
    have below := (use node member).below
    simp only [SIMPOS_HEAP_ADDRESS,SIMPOS_HEAP_SIZE_BYTES] at below
    omega
  have same : ∀ node ∈ found, command_argument_next v.kernel.memory node = command_argument_next s.kernel.memory node ∧
      string_at kernel_page v.kernel.memory node 511 = kernel_argument s node := fun node member =>
    node_same ((below node member).trans (by decide)) fun j inside => started.memory _ ((use node member).guarded j inside)
  exact ⟨⟨visits.congr fun node member => (same node member).1,below,
    fun node member j inside => started.settled _ ((use node member).guarded j inside),
    fun node member j inside => started.outside _ ((use node member).guarded j inside)⟩,fun node member => (same node member).2⟩

/-- The walk that is copied is the one in the world before the load, where this comes to nodes in use only. -/
theorem Started.visits {p : Nat} {live : List Extent} {u : World φ} {res : Int} (started : Started scratch held s v p live)
    (copied : process_inject_arguments p (arguments s) v = .ok (res,u))
    (use : ∀ node, Reached (command_argument_next s.kernel.memory) 0 (arguments s) node → node ≠ 0 → InUse scratch held node) :
    ∃ found, Visits (command_argument_next s.kernel.memory) 0 (arguments s) found ∧ ∀ node ∈ found, InUse scratch held node := by
  obtain ⟨found,visits⟩ := ArgumentWalks.ends_of_injected ⟨_,copied⟩
  obtain ⟨visits,reached⟩ := visits.of_reached .first fun node reached nonnull => by
    have use := use node reached nonnull
    have below := use.below
    simp only [SIMPOS_HEAP_ADDRESS,SIMPOS_HEAP_SIZE_BYTES] at below
    exact (node_same (by omega) fun j inside => started.memory _ (use.guarded j inside)).1
  exact ⟨found,visits,fun node member => use node (reached node member) fun null => visits.nonnull (null ▸ member)⟩

/-- What the new process reads of the arguments that have been copied. -/
theorem passed_argument {p argv i node : Nat} (passed : Passed p v w found argv) (current : w.current_process = p)
    (at_i : found[i]? = some node) : argument_string w i = string_at kernel_page v.kernel.memory node 511 := by
  obtain ⟨str,copy⟩ := passed.copies i node at_i
  have index := (List.getElem?_eq_some_iff.mp at_i).1
  have high := passed.high
  have strHigh := copy.high
  have page : ∀ x, newPage w w.kernel.memory x = leads p w x := by
    intro x
    unfold newPage
    rw [current]
    rfl
  have address : argument w i = str := by
    have slot : ∀ k, k < 4 → byte_at (newPage w) w.kernel.memory (offset argv (4 * i + k)) = w.kernel.memory (offset argv (4 * i + k)) := by
      intro k inside
      unfold byte_at
      rw [page,offset_of_lt (by omega),passed.own _ (by omega)]
    have first := slot 0 (by decide)
    rw [Nat.add_zero] at first
    have word := copy.word
    rw [← offset_of_lt (show argv + 4 * i < 4294967296 by omega)] at word
    unfold argument word_at
    rw [current,passed.arguments]
    unfold read32 at word
    simp only [offset_offset] at word ⊢
    rw [first,slot 1 (by decide),slot 2 (by decide),slot 3 (by decide)]
    exact word
  have same := @string_at_congr w.kernel.memory w.kernel.memory kernel_page (newPage w) 512 str str fun j inside => by
    unfold byte_at
    rw [page,offset_of_lt (by omega),copy.own j inside]
    rfl
  rw [offset_of_lt (by omega),Nat.add_zero] at same
  unfold argument_string
  rw [address,same]
  exact copy.text

/-- An invocation that starts its process passes the nodes that the kernel's walk has come to, if they are in use. -/
theorem arguments_copied (layer : Discreet services own scratch) (laid : Laid s.kernel.kernel_heap (own s.files ++ held))
    (granted : Granted services s) (ran : isr80h_command7_invoke_system_command services s = .ok (0,w))
    (visits : Visits (command_argument_next s.kernel.memory) 0 (arguments s) found) (use : ∀ node ∈ found, InUse scratch held node) :
    (w.process w.current_process).arguments.argc = found.length ∧
      ∀ i node, found[i]? = some node → argument_string w i = kernel_argument s node := by
  obtain ⟨_,p,live,v,res,u,started,copied,succeeded,rfl⟩ := invocation_started layer laid granted ran
  have current : u.current_process = p := (process_inject_arguments_only copied).current_process.trans started.current_process
  obtain ⟨listed,same⟩ := started.listed visits use
  obtain ⟨argv,passed⟩ := process_inject_arguments_passed started.housed listed copied succeeded
  have count : (u.process u.current_process).arguments.argc = found.length := by
    rw [current,passed.arguments]
  have strings : ∀ i node, found[i]? = some node → argument_string u i = kernel_argument s node := fun i node at_i =>
    (passed_argument passed current at_i).trans (same node (List.mem_of_getElem? at_i))
  exact ⟨count,strings⟩

/-- The arguments are the caller's exactly when the strings that have been copied are. -/
theorem faithful_iff (count : (w.process w.current_process).arguments.argc = found.length)
    (strings : ∀ i node, found[i]? = some node → argument_string w i = kernel_argument s node) :
    Faithful s w nodes ↔ found.map (kernel_argument s) = nodes.map (caller_argument s) := by
  constructor
  · intro faithful
    have argc := faithful.argc
    rw [count] at argc
    refine List.ext_getElem (by rw [List.length_map,List.length_map]; omega) fun i first second => ?_
    rw [List.length_map] at first second
    rw [List.getElem_map,List.getElem_map]
    exact (strings i _ (List.getElem?_eq_getElem first)).symm.trans (faithful.argv i _ (List.getElem?_eq_getElem second))
  · intro equal
    have length := congrArg List.length equal
    rw [List.length_map,List.length_map] at length
    refine ⟨by rw [count,length],fun i node at_i => ?_⟩
    obtain ⟨inside,rfl⟩ := List.getElem?_eq_some_iff.mp at_i
    rw [strings i _ (List.getElem?_eq_getElem (by omega))]
    have entry := List.getElem_of_eq equal (i := i) (by rw [List.length_map]; omega)
    rw [List.getElem_map,List.getElem_map] at entry
    exact entry

theorem faithful_found (layer : Discreet services own scratch) (laid : Laid s.kernel.kernel_heap (own s.files ++ held))
    (granted : Granted services s) (ran : isr80h_command7_invoke_system_command services s = .ok (0,w))
    (visits : Visits (command_argument_next s.kernel.memory) 0 (arguments s) found) (use : ∀ node ∈ found, InUse scratch held node) :
    Faithful s w nodes ↔ found.map (kernel_argument s) = nodes.map (caller_argument s) := by
  obtain ⟨count,strings⟩ := arguments_copied layer laid granted ran visits use
  exact faithful_iff count strings

/-- A list of nodes in use is copied when the program can be loaded and there is a block for the vector and for each node. -/
theorem invocation_served {slot p : Nat} (layer : Discreet services own scratch)
    (laid : Laid s.kernel.kernel_heap (own s.files ++ held)) (granted : Granted services s) (named : Named s) (begun : Begun s slot)
    (load : process_load services (path s) s = .ok (0,p,v))
    (visits : Visits (command_argument_next s.kernel.memory) 0 (arguments s) found) (use : ∀ node ∈ found, InUse scratch held node)
    (most : found.length ≤ 1024) (free : found.length + 1 ≤ freeBlocks v.kernel.kernel_heap) :
    ∃ w, isr80h_command7_invoke_system_command services s = .ok (0,w) := by
  obtain ⟨live,_,started⟩ := load_started layer laid granted begun load (Int.le_refl 0)
  obtain ⟨listed,_⟩ := started.listed visits use
  have some : found ≠ [] := by
    rintro rfl
    have nonnull := named.1
    generalize arguments s = root at visits nonnull
    cases visits with
    | done => exact nonnull rfl
  obtain ⟨u,copied⟩ := process_inject_arguments_served started.housed listed some most free
  rw [command_loads named]
  unfold process_load_switch
  rw [load]
  change ∃ w, process_inject_arguments p (arguments s) (process_switch p v) >>= _ = _
  rw [copied]
  exact ⟨_,rfl⟩

end

/-! ### A task that passes two arguments

The first of them is an `a`; the pointer to the second is what the task chooses, and through its pages it
reads a `b` there. -/

def listWord (link a : Nat) : Nat :=
  if a = 0x6010 then 97
  else if a = 0x6210 then link
  else if a = 0x6400 then 98
  else ProgramArguments.callWord 0x401010 a
def listWorld (link : Nat) : World Unit :=
  { ProgramArguments.callWorld 0x401010 with
    kernel := ⟨wordMemory (listWord link), (ProgramArguments.callWorld 0x401010).kernel.kernel_heap⟩ }

/-- A disk on which every file has 32 zero bytes, and which reads no more than it is asked for. -/
def zeroReads : FileServices Unit :=
  { BinaryLoads.zeroFiles with
    fread := fun ptr size nmemb _ files k => .ok (1, files, { k with memory := memset k.memory ptr 0x00 (size * nmemb) }) }

section
variable {link : Nat}

private theorem list_word {a : Nat} (aligned : a % 4 = 0) (value : listWord link a < 4294967296) (high : a < 4294967296) :
    read32 (listWorld link).kernel.memory a = listWord link a := read32_wordMemory aligned (by omega) value

private theorem list_same {x : Nat} (outside : x / 4 ≠ 0x6010 / 4 ∧ x / 4 ≠ 0x6210 / 4 ∧ x / 4 ≠ 0x6400 / 4) :
    (listWorld link).kernel.memory x = (ProgramArguments.callWorld 0x401010).kernel.memory x := by
  have same : listWord link (x - x % 4) = ProgramArguments.callWord 0x401010 (x - x % 4) := by
    unfold listWord
    rw [if_neg (by omega),if_neg (by omega),if_neg (by omega)]
  change wordMemory (listWord link) x = wordMemory (ProgramArguments.callWord 0x401010) x
  unfold wordMemory
  rw [same]

private theorem list_translate {v : Nat} (high : v < 4294967296) :
    translate (listWorld link) v = (if v / 4096 % 1024 = 0 then 0x5000 else 0x6000) + v % 4096 := by
  refine (@ProgramArguments.callerPage_same Unit (ProgramArguments.callWorld 0x401010) (listWorld link) rfl rfl (fun x byte => ?_) v
    high).trans (ProgramArguments.call_translate high)
  have low := ProgramArguments.call_translating byte
  exact list_same (by omega)

/-- A word of the task's second page, or of another at the same place. -/
private theorem list_read {v : Nat} (aligned : v % 4 = 0) (high : v < 4294967296) (page : v / 4096 % 1024 ≠ 0)
    (value : listWord link (0x6000 + v % 4096) < 4294967296) :
    word_at (callerPage (listWorld link)) (listWorld link).kernel.memory v = listWord link (0x6000 + v % 4096) := by
  refine (ProgramArguments.word_at_iff high value).mpr fun j inside => ?_
  have place : callerPage (listWorld link) (listWorld link).kernel.memory (offset v j) = 0x6000 + v % 4096 + j := by
    rw [offset_of_lt (by omega)]
    refine (list_translate (by omega)).trans ?_
    rw [if_neg (by omega)]
    omega
  unfold byte_at
  rw [place]
  change wordMemory (listWord link) _ = _
  unfold wordMemory
  rw [show 0x6000 + v % 4096 + j - (0x6000 + v % 4096 + j) % 4 = 0x6000 + v % 4096 by omega,
    show (0x6000 + v % 4096 + j) % 4 = j by omega]

private theorem list_pointer : pointer (listWorld link) = 0x401010 :=
  list_read (v := 0x1000) (by decide) (by decide) (by decide) (show (0x401010 : Nat) < 4294967296 by decide)
private theorem list_arguments : arguments (listWorld link) = 0x6010 := by
  change translate (listWorld link) (pointer (listWorld link)) = _
  rw [list_pointer,list_translate (by decide)]
  decide
private theorem list_named : Named (listWorld link) := by
  unfold Named
  rw [list_arguments]
  exact ⟨by decide,show UInt8.ofNat (97 / 256 ^ 0) ≠ 0 by decide⟩

/-- The task's list has its two nodes. -/
private theorem list_caller (high : link < 4294967296) (place : link % 4096 = 0x400) (page : link / 4096 % 1024 ≠ 0) :
    Visits (caller_next (listWorld link)) 0 (pointer (listWorld link)) [0x401010,link] := by
  have first : caller_next (listWorld link) 0x401010 = link :=
    list_read (v := 0x401210) (by decide) (by decide) (by decide) (show listWord link 0x6210 < 4294967296 from high)
  have last : caller_next (listWorld link) link = 0 := by
    unfold caller_next
    rw [offset_of_lt (by omega),list_read (by omega) (by omega) (by omega)]
    · rw [show (link + 512) % 4096 = 0x600 by omega]
      rfl
    · rw [show (link + 512) % 4096 = 0x600 by omega]
      exact show (0 : Nat) < 4294967296 by decide
  rw [list_pointer]
  refine .step (by decide) ?_
  rw [first]
  refine .step (by omega) ?_
  rw [last]
  exact .done

private theorem list_laid : Laid (listWorld link).kernel.kernel_heap [] := kernel_heap_init_laid _

private theorem memset_loop_outside (ptr : Nat) (c : UInt8) (remaining : Nat) : ∀ (i : Nat) (m : Bytes) (x : Nat),
    (∀ j, i ≤ j → j < i + remaining → x ≠ offset ptr j) → memset_loop ptr c remaining i m x = m x := by
  induction remaining with
  | zero => exact fun i m x outside => rfl
  | succ remaining ih =>
    intro i m x outside
    rw [memset_loop,ih (i + 1) _ x fun j low high => outside j (by omega) (by omega)]
    exact Function.update_of_ne (outside i (Nat.le_refl i) (by omega)) _ _

private theorem zeroReads_discreet : Discreet zeroReads (fun _ => []) (fun _ => False) := by
  refine @zeroFiles_discreet (fun ptr size m => memset m ptr 0x00 size) fun ptr size m x outside => ?_
  exact memset_loop_outside ptr 0x00 size 0 m x fun j _ inside => outside j (by omega)

private theorem zeroReads_binary (filename : CString) : BinaryLoads.BinaryFile zeroReads filename 32 where
  opens _ _ := ⟨1,_,by decide,rfl⟩
  stat _ _ _ _ := ⟨_,rfl⟩
  reads _ _ _ _ _ high := ⟨_,_,rfl,BinaryLoads.zeros_refused high⟩
  closes _ _ _ _ := ⟨0,_,rfl⟩

/-- The program is loaded into the first slot. -/
private theorem list_loads : ∃ p w, process_load zeroReads (path (listWorld link)) (listWorld link) = .ok (0,p,w) ∧
    Begun (listWorld link) 0 ∧ Granted zeroReads (listWorld link) ∧ 24565 ≤ freeBlocks w.kernel.kernel_heap := by
  have first : FirstFree (listWorld link).processes 0 := ⟨by decide,rfl,fun j none => absurd none (Nat.not_lt_zero j)⟩
  obtain ⟨p,t,w,live',loaded,count⟩ := BinaryLoads.process_load_binary_file (zeroReads_binary (path (listWorld link))) (by decide)
    (by decide) (@list_laid link) (by decide) first
  have least := freeBlocks_least loaded.laid
  have memory := program_granted (zeroReads_binary (path (listWorld link))) ⟨by decide,by decide⟩ (@list_laid link) (by decide)
  refine ⟨p,w,loaded.ran,⟨first,by rw [loaded.block]; exact loaded.some⟩,⟨memory,?_⟩,?_⟩
  · intro res v prepared passed
    obtain ⟨t,room,_⟩ := loaded.granted res v prepared passed
    exact ⟨t,room,trivial⟩
  · unfold BinaryLoads.taken at count
    simp only [List.map_nil,List.sum_nil] at count
    have one : blocks 32 = 1 := by decide
    omega

private theorem list_inUse {node : Nat} (low : node < 0x800000) : InUse (fun _ => False) [] node := by
  refine ⟨?_,fun j inside => .inl ⟨?_,not_false⟩⟩
  · simp only [SIMPOS_HEAP_ADDRESS,SIMPOS_HEAP_SIZE_BYTES]
    omega
  · rw [offset_of_lt (by omega)]
    simp only [SIMPOS_HEAP_ADDRESS]
    omega

/-- The task's program starts with two arguments. -/
private theorem list_runs {found : List Nat}
    (visits : Visits (command_argument_next (listWorld link).kernel.memory) 0 (arguments (listWorld link)) found)
    (low : ∀ node ∈ found, node < 0x800000) (two : found.length = 2) :
    ∃ w, isr80h_command7_invoke_system_command zeroReads (listWorld link) = .ok (0,w) := by
  obtain ⟨p,w,load,begun,granted,free⟩ := @list_loads link
  exact invocation_served zeroReads_discreet list_laid granted list_named begun load visits
    (fun node member => list_inUse (low node member)) (by omega) (by omega)

/-! The second node in the kernel's memory, where addresses are their own. -/

private theorem list_near : ∀ node ∈ [0x401010,0x6400], node < 0x800000 - 516 ∧ node / 4096 % 1024 ≠ 0 ∧ node % 4096 + 516 < 4096 := by
  decide

private theorem list_direct : Direct (listWorld 0x6400) [0x401010,0x6400] := by
  refine ⟨List.cons_ne_nil _ _,fun node member j inside => ?_,fun node member => ?_⟩
  · obtain ⟨low,page,fits⟩ := list_near node member
    rw [offset_of_lt (by omega),list_translate (by omega),list_translate (by omega),if_neg (by omega),if_neg page,
      offset_of_lt (by omega)]
    omega
  · rw [List.tail_cons,List.mem_singleton] at member
    rw [member,list_translate (by decide)]
    decide

private theorem list_direct_low : ∀ node ∈ [0x401010,0x6400], translate (listWorld 0x6400) node < 0x800000 := by
  intro node member
  obtain ⟨low,page,_⟩ := list_near node member
  rw [list_translate (by omega),if_neg page]
  omega

/-! The second node in the program's data, where the kernel has other bytes. -/

private theorem list_astray : Visits (command_argument_next (listWorld 0x401400).kernel.memory) 0 (arguments (listWorld 0x401400))
    [0x6010,0x401400] := by
  have first : command_argument_next (listWorld 0x401400).kernel.memory 0x6010 = 0x401400 :=
    list_word (a := 0x6210) (by decide) (by decide) (by decide)
  have last : command_argument_next (listWorld 0x401400).kernel.memory 0x401400 = 0 :=
    list_word (a := 0x401600) (by decide) (by decide) (by decide)
  rw [list_arguments]
  refine .step (by decide) ?_
  rw [first]
  refine .step (by decide) ?_
  rw [last]
  exact .done

private theorem list_astray_low : ∀ node ∈ [0x6010,0x401400], node < 0x800000 := by decide

private theorem list_other : kernel_argument (listWorld 0x401400) 0x401400 ≠ caller_argument (listWorld 0x401400) 0x401400 := by
  intro second
  have place : callerPage (listWorld 0x401400) (listWorld 0x401400).kernel.memory 0x401400 = 0x6400 :=
    (list_translate (by decide)).trans (by decide)
  have null : byte_at kernel_page (listWorld 0x401400).kernel.memory 0x401400 = 0 :=
    show UInt8.ofNat (0 / 256 ^ 0) = 0 by decide
  have letter : byte_at (callerPage (listWorld 0x401400)) (listWorld 0x401400).kernel.memory 0x401400 ≠ 0 := by
    unfold byte_at
    rw [place]
    exact show UInt8.ofNat (98 / 256 ^ 0) ≠ 0 by decide
  unfold kernel_argument caller_argument at second
  rw [string_at,if_pos null,string_at,if_neg letter] at second
  cases second

end

end SimpOS.ArgumentPassing
