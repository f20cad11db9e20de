import SimpOS.FatPaths
import SimpOS.FatSystem
import SimpOS.FileTable
import SimpOS.ParsedPaths

/-!
What a failed `fopen` leaves behind. Its cleanup releases the path and, wherever the error came
from, closes what the filesystem's `open` has returned: an error code as well as a descriptor.
The calls of `open` and `close` are recorded beside the state they are made in.
-/
namespace SimpOS.FailedOpens
open SimpOS.Machine SimpOS.Strings SimpOS.Memory SimpOS.Extents SimpOS.HeapBlocks SimpOS.HeapLayout SimpOS.KernelHeap
open SimpOS.DiskStreams SimpOS.PathParser SimpOS.ParsedPaths SimpOS.FileLayer SimpOS.FileTable SimpOS.Fat16 SimpOS.FatReads
open SimpOS.FatDirectories SimpOS.FatPaths SimpOS.FatSystem

/-! ### Paths on the heap -/

/-- The blocks of a part, and of a path. -/
def partExtents (part : PathPart) : List Extent := [page part.part_address, page part.address]
def rootExtents (root : PathRoot) : List Extent := root.first.flatMap partExtents ++ [page root.address]

structure PartHeld (part : PathPart) : Prop where
  string : Block part.part_address
  node : Block part.address
structure RootHeld (root : PathRoot) : Prop where
  node : Block root.address
  parts : ∀ part ∈ root.first, PartHeld part
  some : root.first ≠ []

section
variable {live : List Extent} {k k' : Kernel}

theorem kzalloc_page_cases {size : Nat} (laid : Laid k.kernel_heap live) (positive : 0 < size) (small : size ≤ 4096) :
    kzalloc k size = (0,k) ∨
    ∃ address k', kzalloc k size = (address,k') ∧ Block address ∧ Laid k'.kernel_heap (page address :: live) := by
  rcases kzalloc_single laid positive small with ⟨_,refused⟩ | ⟨b,k',granted,took⟩
  · exact .inl refused
  · refine .inr ⟨blockAddress b,k',granted,⟨b,took.free.low,rfl⟩,?_⟩
    rw [page_blockAddress took.free.low]
    exact took.laid

/-- What reading the string of a part comes to on the heap. -/
private inductive StringRead (live : List Extent) (k : Kernel) : Option (Nat × CString) → Prop
  | none : Laid k.kernel_heap live → StringRead live k none
  | some {string : Nat} {copied : CString} : Block string → Laid k.kernel_heap (page string :: live) →
      StringRead live k (some (string,copied))

private theorem get_path_part_laid {path rest : Cursor} {result : Option (Nat × CString)}
    (laid : Laid k.kernel_heap live) (read : pathparser_get_path_part path k = .ok (result,rest,k')) :
    StringRead live k' result := by
  unfold pathparser_get_path_part at read
  rcases kzalloc_page_cases laid (by decide : 0 < SIMPOS_MAX_PATH) (by decide) with
    refused | ⟨string,k₁,granted,block,laid₁⟩
  · simp only [refused,if_true] at read
    cases read
    exact .none laid
  · simp only [granted,block.ne_zero,if_false] at read
    cases path with
    | none => cases read
    | some path =>
      dsimp only at read
      cases copy : copy_part path 0 [] with
      | error fault =>
        rw [copy] at read
        cases read
      | ok outcome =>
        obtain ⟨copied,behind⟩ := outcome
        simp only [copy,Except.map] at read
        by_cases empty : copied.length = 0
        · simp only [empty,if_true] at read
          cases read
          exact .none (kfree_page block laid₁).1
        · simp only [empty,if_false] at read
          cases read
          exact .some block laid₁

private inductive PartRead (live : List Extent) (k : Kernel) (parts : List PathPart) : Option (List PathPart) → Prop
  | none : Laid k.kernel_heap live → PartRead live k parts none
  | some {part : PathPart} : PartHeld part → Laid k.kernel_heap (partExtents part ++ live) →
      PartRead live k parts (some (parts ++ [part]))

private theorem parse_path_part_laid {parts : List PathPart} {path rest : Cursor} {result : Option (List PathPart)}
    (laid : Laid k.kernel_heap live) (read : pathparser_parse_path_part parts path k = .ok (result,rest,k')) :
    PartRead live k' parts result := by
  unfold pathparser_parse_path_part at read
  cases string : pathparser_get_path_part path k with
  | error fault =>
    rw [string] at read
    cases read
  | ok outcome =>
    obtain ⟨got,behind,k₁⟩ := outcome
    simp only [string,Except.map] at read
    cases get_path_part_laid laid string with
    | none laid₁ =>
      cases read
      exact .none laid₁
    | @some string copied block laid₁ =>
      rcases kzalloc_page_cases laid₁ (by decide : 0 < 8) (by decide) with refused | ⟨node,k₂,granted,block',laid₂⟩
      · simp only [refused,if_true] at read
        cases read
        exact .none (kfree_page block laid₁).1
      · simp only [granted,block'.ne_zero,if_false] at read
        cases read
        exact .some ⟨block,block'⟩ (laid₂.perm (List.Perm.swap ..))

private theorem parse_rest_laid (remaining : Nat) : ∀ {live : List Extent} {parts parts' : List PathPart} {path : Cursor}
    {k k' : Kernel}, Laid k.kernel_heap live → parse_rest remaining parts path k = .ok (parts',k') →
      ∃ more, parts' = parts ++ more ∧ (∀ part ∈ more, PartHeld part) ∧
        Laid k'.kernel_heap (more.flatMap partExtents ++ live) := by
  induction remaining with
  | zero =>
    intro live parts parts' path k k' laid read
    cases read
    exact ⟨[],(List.append_nil _).symm,fun part member => (nomatch member),laid⟩
  | succ remaining ih =>
    intro live parts parts' path k k' laid read
    rw [parse_rest] at read
    cases next : pathparser_parse_path_part parts path k with
    | error fault =>
      rw [next] at read
      cases read
    | ok outcome =>
      obtain ⟨got,behind,k₁⟩ := outcome
      simp only [next,Except.bind] at read
      cases parse_path_part_laid laid next with
      | none laid₁ =>
        cases read
        exact ⟨[],(List.append_nil _).symm,fun part member => (nomatch member),laid₁⟩
      | @some part held laid₁ =>
        obtain ⟨more,rfl,others,laid₂⟩ := ih laid₁ read
        refine ⟨part :: more,by simp,?_,laid₂.perm ?_⟩
        · intro other member
          rcases List.mem_cons.mp member with rfl | later
          · exact held
          · exact others other later
        · rw [List.flatMap_cons,List.append_assoc]
          exact List.perm_append_comm_assoc ..

/-- What parsing comes to on the heap: nothing, or the blocks of the path. -/
inductive Parsed (live : List Extent) (k : Kernel) : Option PathRoot → Prop
  | none : Laid k.kernel_heap live → Parsed live k none
  | some {root : PathRoot} : RootHeld root → Laid k.kernel_heap (rootExtents root ++ live) → Parsed live k (some root)

theorem parse_laid {path : CString} {result : Option PathRoot} (laid : Laid k.kernel_heap live)
    (read : pathparser_parse path k = .ok (result,k')) : Parsed live k' result := by
  unfold pathparser_parse at read
  cases number : pathparser_get_drive_number path with
  | error fault =>
    rw [number] at read
    cases read
  | ok outcome =>
    obtain ⟨res,tmp_path⟩ := outcome
    simp only [number,Except.bind] at read
    by_cases refused : res < 0
    · simp only [refused,if_true] at read
      cases read
      exact .none laid
    simp only [refused,if_false,pathparser_create_root] at read
    rcases kzalloc_page_cases laid (by decide : 0 < 8) (by decide) with full | ⟨address,k₁,granted,block,laid₁⟩
    · simp only [full,if_true] at read
      cases read
      exact .none laid
    simp only [granted,block.ne_zero,if_false] at read
    cases first : pathparser_parse_path_part [] tmp_path k₁ with
    | error fault =>
      rw [first] at read
      cases read
    | ok outcome =>
      obtain ⟨got,behind,k₂⟩ := outcome
      simp only [first] at read
      cases parse_path_part_laid laid₁ first with
      | none laid₂ =>
        cases read
        exact .none (kfree_page block laid₂).1
      | @some part held laid₂ =>
        rw [parse_parts] at read
        cases rest : parse_rest (path.length + 1) ([] ++ [part]) behind k₂ with
        | error fault =>
          rw [rest] at read
          cases read
        | ok outcome =>
          obtain ⟨parts,k₃⟩ := outcome
          obtain ⟨more,rfl,others,laid₃⟩ := parse_rest_laid _ laid₂ rest
          rw [rest] at read
          cases read
          refine .some ⟨block,?_,by simp⟩ (laid₃.perm ?_)
          · intro other member
            rcases List.mem_cons.mp (show other ∈ part :: more from member) with rfl | later
            · exact held
            · exact others other later
          · simp only [rootExtents,List.nil_append,List.singleton_append,List.flatMap_cons,List.append_assoc]
            exact List.perm_append_comm_assoc ..

theorem path_free_laid {root : PathRoot} (held : RootHeld root) (laid : Laid k.kernel_heap (rootExtents root ++ live)) :
    Laid (pathparser_free root k).kernel_heap live := by
  have parts : ∀ (parts : List PathPart) (k : Kernel) (live : List Extent), (∀ part ∈ parts, PartHeld part) →
      Laid k.kernel_heap (parts.flatMap partExtents ++ live) →
      Laid (pathparser_free_parts parts k).kernel_heap live := by
    intro parts
    induction parts with
    | nil => exact fun k live _ laid => laid
    | cons part rest ih =>
      intro k live held laid
      obtain ⟨string,node⟩ := held part (List.mem_cons_self ..)
      rw [List.flatMap_cons,List.append_assoc] at laid
      have once := (kfree_page string laid).1
      exact ih _ live (fun other member => held other (List.mem_cons_of_mem _ member)) (kfree_page node once).1
  rw [rootExtents,List.append_assoc] at laid
  exact (kfree_page held.node (parts _ _ _ held.parts laid)).1

end

/-! ### The calls of open and close -/

/-- What open has returned and what close was called on. -/
structure Calls where
  opened : List Nat
  closed : List Nat

section
variable {σ : Type}

/-- A call that is not recorded. -/
def beside {α : Type} (call : σ → α × σ) : σ × Calls → α × σ × Calls
  | (s, calls) => let (result, s) := call s; (result, s, calls)

def recorded (filesystem : Filesystem σ) : Filesystem (σ × Calls) where
  fs_open disk path mode := fun (s, calls) =>
    let (result, s) := filesystem.fs_open disk path mode s
    (result, s, { calls with opened := result :: calls.opened })
  fs_read disk descriptor size nmemb out := beside (filesystem.fs_read disk descriptor size nmemb out)
  fs_seek private_data offset seek_mode := beside (filesystem.fs_seek private_data offset seek_mode)
  fs_stat disk private_data stat := beside (filesystem.fs_stat disk private_data stat)
  fs_close private_data := fun (s, calls) =>
    let (result, s) := filesystem.fs_close private_data s
    (result, s, { calls with closed := private_data :: calls.closed })

/-- The same services, with the filesystem's calls recorded. -/
def recordedServices (services : Services σ) : Services (σ × Calls) where
  pathparser_parse path := beside (services.pathparser_parse path)
  pathparser_free root := fun (s, calls) => (services.pathparser_free root s, calls)
  disk_get index := fun (s, _) =>
    (services.disk_get index s).map fun disk => ⟨disk.address, disk.filesystem.map recorded⟩
  kzalloc size := beside (services.kzalloc size)
  kfree ptr := fun (s, calls) => (services.kfree ptr s, calls)

end

/-- What fopen comes to its filesystem's open with. -/
structure Comes (s : System) (filename mode_str : CString) (root : PathRoot) (path : PathPart) (next : List PathPart)
    (p : FatPrivate) (k : Kernel) : Prop where
  parsed : pathparser_parse filename s.kernel = .ok (some root,k)
  parts : root.first = path :: next
  drive : root.drive_no = 0
  mounted : s.fs_private = some p
  mode : file_get_mode_by_string mode_str ≠ .INVALID

/-- An fopen that returns 0 has left the table of descriptors and the one of the heap as they were,
    and has closed only descriptors that open has returned. One that goes on with the words at address 0
    as with a record of the driver's, which it then releases, is not taken for such a call. -/
def LeavesNoTrace (files : Files (Running × Calls)) (s : System) (filename mode_str : CString) : Prop :=
  (fopen (recordedServices services) files filename mode_str).2.rest.1 ≠ .error (.driver .astray) ∧
  ∀ after t, fopen (recordedServices services) files filename mode_str = (0,after) → after.rest.1 = .ok t →
    after.file_descriptors = files.file_descriptors ∧
    (∀ i : Int, 0 ≤ i → i < s.kernel.kernel_heap.table.total →
      t.kernel.kernel_heap.table.entries i = s.kernel.kernel_heap.table.entries i) ∧
    ∀ d ∈ after.rest.2.closed, d ∈ after.rest.2.opened ∧ ISERR d = false

/-- Every slot of the table is taken. -/
def Full (files : Files (Running × Calls)) : Prop := ∀ i < SIMPOS_MAX_FILE_DESCRIPTORS, files.file_descriptors i ≠ 0

/-- The fopens whose open, where they come to it, is for reading, has a block for its descriptor and a
    path that leads to an item, and to no search of the words at address 0; where no slot is left for
    that, the path takes no wrong turn. -/
def Opens (files : Files (Running × Calls)) (s : System) (filename mode_str : CString) : Prop :=
  ∀ root path next p k, Comes s filename mode_str root path next p k →
    file_get_mode_by_string mode_str = .READ ∧ (kzalloc k 8).1 ≠ 0 ∧
    (∀ q k', fat16_get_directory_entry .mapped s.drive p path next (kzalloc k 8).2 ≠ .ok (none,q,k')) ∧
    fat16_get_directory_entry .mapped s.drive p path next (kzalloc k 8).2 ≠ .error .astray ∧
    (Full files → ∀ item q k',
      fat16_get_directory_entry .mapped s.drive p path next (kzalloc k 8).2 = .ok (some item,q,k') →
      Followed s.drive p true (listing p.root_directory) path.part (next.map PathPart.part))

section
variable {files : Files (Running × Calls)} {s : System} {live : List Extent} {filename mode_str : CString}

theorem ISERR_ERROR {error : Int} (low : 0 < error) (high : error < 10) : ISERR (ERROR (-error)) = true := by
  have value : ((ERROR (-error) : Nat) : Int) = 4294967296 - error := by
    unfold ERROR u32
    omega
  unfold ISERR
  rw [value]
  exact decide_eq_true (by unfold i32; omega)

theorem ISERR_block {address : Nat} {heap : Heap} (block : Block address)
    (laid : Laid heap (page address :: live)) : ISERR address = false := by
  obtain ⟨b,low,rfl⟩ := block
  have start := laid.layout.start _ (List.mem_cons_self ..)
  have total := laid.total_eq
  rw [page_blockAddress low] at start
  have high := start.2.1
  rw [total] at high
  simp only at high
  unfold ISERR
  refine decide_eq_false ?_
  rw [i32_of_range (by omega) (by unfold blockAddress; simp only [SIMPOS_HEAP_ADDRESS]; omega)]
  omega

/-- How an fopen goes: it stops the kernel, goes astray, fails before it comes to open, fails for an error
    of open, or comes to taking a descriptor. -/
inductive Attempt (files : Files (Running × Calls)) (s : System) (live : List Extent) (filename mode_str : CString) : Prop
  | stopped {result : Int} {after : Files (Running × Calls)} {halt : Halt} :
      Opens files s filename mode_str → fopen (recordedServices services) files filename mode_str = (result,after) →
      after.rest.1 = .error halt → halt ≠ .driver .astray → Attempt files s live filename mode_str
  | astray : ¬ Opens files s filename mode_str →
      (fopen (recordedServices services) files filename mode_str).2.rest.1 = .error (.driver .astray) →
      Attempt files s live filename mode_str
  | early {k : Kernel} : (∀ root path next p k, ¬ Comes s filename mode_str root path next p k) →
      Laid k.kernel_heap live →
      fopen (recordedServices services) files filename mode_str =
        (0,{ files with rest := (.ok { s with kernel := k },⟨[],[]⟩) }) → Attempt files s live filename mode_str
  | refused {error : Nat} {t : System} : ¬ Opens files s filename mode_str → ISERR error = true →
      fopen (recordedServices services) files filename mode_str =
        (0,{ files with rest := (.ok t,⟨[error],[error]⟩) }) → Attempt files s live filename mode_str
  | opened {root : PathRoot} {path : PathPart} {next : List PathPart} {p q : FatPrivate} {k k₁ k₂ : Kernel} {d : Nat}
      {item : FatItem} : Comes s filename mode_str root path next p k →
      file_get_mode_by_string mode_str = .READ → RootHeld root → kzalloc k 8 = (d,k₁) → Block d →
      Laid k₁.kernel_heap (page d :: (rootExtents root ++ live)) →
      fat16_get_directory_entry .mapped s.drive p path next k₁ = .ok (some item,q,k₂) →
      fopen_prepare (recordedServices services) files.rest filename mode_str =
        (.ready root ⟨s.drive.disk,some (recorded fat16_fs)⟩ (recorded fat16_fs) d,
          (.ok (open_item d s (some item,q,k₂)).2,⟨[d],[]⟩)) → Attempt files s live filename mode_str

theorem Comes.unique {root root' : PathRoot} {path path' : PathPart} {next next' : List PathPart} {p p' : FatPrivate}
    {k k' : Kernel} (comes : Comes s filename mode_str root path next p k)
    (other : Comes s filename mode_str root' path' next' p' k') :
    root' = root ∧ path' = path ∧ next' = next ∧ p' = p ∧ k' = k := by
  obtain ⟨rfl,rfl⟩ : root' = root ∧ k' = k := by
    have same := other.parsed.symm.trans comes.parsed
    cases same
    exact ⟨rfl,rfl⟩
  obtain ⟨rfl,rfl⟩ : path' = path ∧ next' = next := by
    have same := other.parts.symm.trans comes.parts
    cases same
    exact ⟨rfl,rfl⟩
  have same := other.mounted.symm.trans comes.mounted
  cases same
  exact ⟨rfl,rfl,rfl,rfl,rfl⟩

private theorem recorded_parse (calls : Calls) :
    (recordedServices services).pathparser_parse filename (.ok s,calls) =
      match pathparser_parse filename s.kernel with
      | .error fault => (none,.error (.parser fault),calls)
      | .ok (root,k) => (root,.ok { s with kernel := k },calls) := by
  simp only [recordedServices,beside,services,running]
  cases pathparser_parse filename s.kernel <;> rfl

private theorem recorded_disk (k : Kernel) (calls : Calls) (index : Int) :
    (recordedServices services).disk_get index (.ok { s with kernel := k },calls) =
      if index ≠ 0 then none else some ⟨s.drive.disk,s.fs_private.map fun _ => recorded fat16_fs⟩ := by
  by_cases zero : index = 0
  · subst zero
    cases s.fs_private <;> simp [recordedServices,services,disk_get]
  · simp [recordedServices,services,disk_get,zero]

private theorem fopen_of_failed {σ : Type} {services : Services σ} {files : Files σ} {root_path : Option PathRoot}
    {disk : Option (Disk σ)} {data : Nat} {rest : σ}
    (prepared : fopen_prepare services files.rest filename mode_str = (.failed root_path disk data,rest)) :
    fopen services files filename mode_str = fopen_out services { files with rest := rest } root_path disk data 0 := by
  simp only [fopen,prepared]

/-- The cleanup once open has returned something. -/
private theorem fopen_out_closes (files : Files (Running × Calls)) (t : System) (calls : Calls) (root : PathRoot)
    (disk : Nat) {d : Nat} (nonzero : d ≠ 0) :
    fopen_out (recordedServices services) { files with rest := (.ok t,calls) } (some root)
        (some ⟨disk,some (recorded fat16_fs)⟩) d 0 =
      (0,{ files with rest := (.ok (fat16_close d { t with kernel := PathParser.pathparser_free root t.kernel }).2,
        { calls with closed := d :: calls.closed }) }) := by
  simp only [fopen_out,Option.bind_some,nonzero,ne_eq,not_false_eq_true,if_true]
  rfl

/-- A kernel that open has stopped stays so. -/
private theorem fopen_stopped {root : PathRoot} {disk : Nat} {halt : Halt} {calls : Calls}
    (prepared : fopen_prepare (recordedServices services) files.rest filename mode_str =
      (.ready root ⟨disk,some (recorded fat16_fs)⟩ (recorded fat16_fs) 0,(.error halt,calls))) :
    (fopen (recordedServices services) files filename mode_str).2.rest.1 = .error halt := by
  rcases new_file_descriptor_cases (recordedServices services) { files with rest := (.error halt,calls) } with
    ⟨_,failed⟩ | ⟨i,descriptor,first,_⟩
  · simp only [fopen,prepared,failed]
    rfl
  · rw [fopen_served (recordedServices services) ⟨root,prepared⟩ ⟨first.1,first.2.1,first.2.2⟩]
    rfl

private theorem attempt_open {root : PathRoot} {p : FatPrivate} {k : Kernel} (rest : files.rest = (.ok s,⟨[],[]⟩))
    (held : RootHeld root) (laid : Laid k.kernel_heap (rootExtents root ++ live))
    (parse : pathparser_parse filename s.kernel = .ok (some root,k)) (drive : root.drive_no = 0)
    (mounted : s.fs_private = some p) (mode : file_get_mode_by_string mode_str ≠ .INVALID)
    (disk : (recordedServices services).disk_get root.drive_no (.ok { s with kernel := k },⟨[],[]⟩) =
      some ⟨s.drive.disk,some (recorded fat16_fs)⟩) : Attempt files s live filename mode_str := by
  obtain ⟨path,next,parts⟩ : ∃ path next, root.first = path :: next := List.exists_cons_of_ne_nil held.some
  have comes : Comes s filename mode_str root path next p k := ⟨parse,parts,drive,mounted,mode⟩
  -- what fopen does with an error of open
  have refused : ∀ error t, ISERR error = true →
      (recorded fat16_fs).fs_open s.drive.disk root.first (file_get_mode_by_string mode_str)
        (.ok { s with kernel := k },⟨[],[]⟩) = (error,.ok t,⟨[error],[]⟩) →
      ¬ Opens files s filename mode_str → Attempt files s live filename mode_str := by
    intro error t isError opened notOpens
    have prepared : fopen_prepare (recordedServices services) files.rest filename mode_str =
        (.failed (some root) (some ⟨s.drive.disk,some (recorded fat16_fs)⟩) error,(.ok t,⟨[error],[]⟩)) := by
      simp only [rest,fopen_prepare,recorded_parse,parse,held.some,if_false,disk,mode,opened,isError,if_true]
    have nonzero : error ≠ 0 := by
      rintro rfl
      exact absurd isError (by decide)
    exact .refused notOpens isError ((fopen_of_failed prepared).trans (fopen_out_closes files t _ root _ nonzero))
  have opened : (recorded fat16_fs).fs_open s.drive.disk root.first (file_get_mode_by_string mode_str)
      (.ok { s with kernel := k },⟨[],[]⟩) =
        match fat16_open root.first (file_get_mode_by_string mode_str) { s with kernel := k } with
        | .error stuck => (0,.error (.driver stuck),⟨[0],[]⟩)
        | .ok (d,t) => (d,.ok t,⟨[d],[]⟩) := by
    simp only [recorded,fat16_fs,running]
    cases fat16_open root.first (file_get_mode_by_string mode_str) { s with kernel := k } <;> rfl
  by_cases reading : file_get_mode_by_string mode_str ≠ .READ
  · have answer : fat16_open root.first (file_get_mode_by_string mode_str) { s with kernel := k } =
        .ok (ERROR (-ERDONLY),{ s with kernel := k }) := by
      rw [fat16_open,if_pos reading]
    rw [answer] at opened
    exact refused _ _ (ISERR_ERROR (by decide) (by decide)) opened fun opens => reading (opens _ _ _ _ _ comes).1
  rw [not_not] at reading
  have block := kzalloc_page_cases laid (by decide : 0 < 8) (by decide)
  rcases block with full | ⟨d,k₁,granted,block,laid₁⟩
  · have answer : fat16_open root.first (file_get_mode_by_string mode_str) { s with kernel := k } =
        .ok (ERROR (-ENOMEM),{ s with kernel := kfree k 0 }) := by
      simp only [fat16_open,reading,ne_eq,not_true_eq_false,if_false,full,if_true]
    rw [answer] at opened
    refine refused _ _ (ISERR_ERROR (by decide) (by decide)) opened fun opens => ?_
    exact (opens _ _ _ _ _ comes).2.1 (by rw [full])
  have lookup : fat16_open root.first (file_get_mode_by_string mode_str) { s with kernel := k } =
      (fat16_get_directory_entry .mapped s.drive p path next k₁).map (open_item d { s with kernel := k }) := by
    simp only [fat16_open,reading,ne_eq,not_true_eq_false,if_false,granted,block.ne_zero,mounted,parts]
  rw [lookup] at opened
  cases entry : fat16_get_directory_entry .mapped s.drive p path next k₁ with
  | error stuck =>
    rw [entry] at opened
    have prepared : fopen_prepare (recordedServices services) files.rest filename mode_str =
        (.ready root ⟨s.drive.disk,some (recorded fat16_fs)⟩ (recorded fat16_fs) 0,(.error (.driver stuck),⟨[0],[]⟩)) := by
      have fine : ¬ ISERR 0 = true := by decide
      simp only [rest,fopen_prepare,recorded_parse,parse,held.some,if_false,disk,mode,opened,Except.map,fine,
        Bool.false_eq_true]
    by_cases astray : stuck = .astray
    · subst astray
      refine .astray (fun opens => (opens _ _ _ _ _ comes).2.2.2.1 ?_) (fopen_stopped prepared)
      rw [granted]
      exact entry
    · refine .stopped (fun root' path' next' p' k' other => ?_) rfl (fopen_stopped prepared) (by simpa using astray)
      obtain ⟨rfl,rfl,rfl,rfl,rfl⟩ := comes.unique other
      rw [granted,entry]
      exact ⟨reading,block.ne_zero,by simp,by simpa using astray,by simp⟩
  | ok outcome =>
    obtain ⟨result,q,k₂⟩ := outcome
    rw [entry] at opened
    cases result with
    | none =>
      refine refused _ _ (ISERR_ERROR (by decide) (by decide)) opened fun opens => ?_
      refine (opens _ _ _ _ _ comes).2.2.1 q k₂ ?_
      rw [granted]
      exact entry
    | some item =>
      refine .opened comes reading held granted block laid₁ entry ?_
      have fine : ¬ ISERR (open_item d { s with kernel := k } (some item,q,k₂)).1 = true := by
        rw [show (open_item d { s with kernel := k } (some item,q,k₂)).1 = d from rfl,ISERR_block block laid₁]
        exact Bool.false_ne_true
      simp only [rest,fopen_prepare,recorded_parse,parse,held.some,if_false,disk,mode,opened,Except.map,fine]
      rfl

private theorem attempt (rest : files.rest = (.ok s,⟨[],[]⟩)) (laid : Laid s.kernel.kernel_heap live) :
    Attempt files s live filename mode_str := by
  cases parse : pathparser_parse filename s.kernel with
  | error fault =>
    have prepared : fopen_prepare (recordedServices services) files.rest filename mode_str =
        (.failed none none 0,(.error (.parser fault),⟨[],[]⟩)) := by
      simp only [rest,fopen_prepare,recorded_parse,parse]
    refine .stopped (fun root path next p k comes => ?_) (fopen_of_failed prepared) rfl (by simp)
    have same := comes.parsed.symm.trans parse
    cases same
  | ok outcome =>
    obtain ⟨result,k⟩ := outcome
    cases parse_laid laid parse with
    | none laid₁ =>
      have prepared : fopen_prepare (recordedServices services) files.rest filename mode_str =
          (.failed none none 0,(.ok { s with kernel := k },⟨[],[]⟩)) := by
        simp only [rest,fopen_prepare,recorded_parse,parse]
      refine .early (fun root path next p k comes => ?_) laid₁ (fopen_of_failed prepared)
      have same := comes.parsed.symm.trans parse
      cases same
    | @some root held laid₁ =>
      have early : ∀ disk, fopen_prepare (recordedServices services) files.rest filename mode_str =
          (.failed (some root) disk 0,(.ok { s with kernel := k },⟨[],[]⟩)) →
          (∀ root path next p k, ¬ Comes s filename mode_str root path next p k) →
          Attempt files s live filename mode_str := by
        intro disk prepared away
        refine .early away (path_free_laid held laid₁) ((fopen_of_failed prepared).trans ?_)
        cases disk with
        | none => rfl
        | some disk => cases filesystem : disk.filesystem <;> simp only [fopen_out,Option.bind_some,filesystem] <;> rfl
      have only : ∀ {root' path next p k'}, Comes s filename mode_str root' path next p k' → root' = root ∧ k' = k := by
        intro root' path next p k' comes
        have same := comes.parsed.symm.trans parse
        cases same
        exact ⟨rfl,rfl⟩
      by_cases drive : root.drive_no ≠ 0
      · refine early none ?_ fun root' path next p k' comes => drive ((only comes).1 ▸ comes.drive)
        simp only [rest,fopen_prepare,recorded_parse,parse,held.some,if_false,recorded_disk,drive,ne_eq,
          not_false_eq_true,if_true]
      obtain ⟨filesystem,there,disk⟩ : ∃ filesystem, filesystem = s.fs_private.map (fun _ => recorded fat16_fs) ∧
          (recordedServices services).disk_get root.drive_no (.ok { s with kernel := k },⟨[],[]⟩) =
            some ⟨s.drive.disk,filesystem⟩ := by
        refine ⟨_,rfl,?_⟩
        rw [recorded_disk,if_neg drive]
      cases mounted : s.fs_private with
      | none =>
        rw [mounted] at there
        subst there
        refine early (some ⟨s.drive.disk,none⟩) ?_ fun root' path next p k' comes => ?_
        · simp only [rest,fopen_prepare,recorded_parse,parse,held.some,if_false,disk,Option.map_none]
        · have same := comes.mounted.symm.trans mounted
          cases same
      | some p =>
        rw [mounted] at there
        subst there
        by_cases mode : file_get_mode_by_string mode_str = .INVALID
        · refine early (some ⟨s.drive.disk,some (recorded fat16_fs)⟩) ?_ fun root' path next p k' comes => comes.mode mode
          simp only [rest,fopen_prepare,recorded_parse,parse,held.some,if_false,disk,Option.map_some,mode,if_true]
        exact attempt_open rest held laid₁ parse (not_not.mp drive) mounted mode disk

private theorem closed_kernel (d : Nat) (s : System) (item : FatItem) (q : FatPrivate) (k k' : Kernel) :
    (fat16_close d { (open_item d s (some item,q,k)).2 with kernel := k' }).2.kernel =
      kfree (fat16_fat_item_free item k') d := by
  simp only [fat16_close,fat16_free_file_descriptor,open_item,Function.update_self]

/-- Closing a descriptor whose lookup has lost some blocks gives back all the others. -/
private theorem close_laid {root : PathRoot} {drive : Drive} {p : FatPrivate} {item : FatDirectoryItem} {f_item : FatItem}
    {d : Nat} {k : Kernel} {lost : List Extent} (held : RootHeld root) (made : Made drive p item f_item) (block : Block d)
    (laid : Laid k.kernel_heap (extents f_item ++ (lost ++ page d :: (rootExtents root ++ live)))) :
    Laid (kfree (fat16_fat_item_free f_item (pathparser_free root k)) d).kernel_heap (lost ++ live) := by
  have order : (extents f_item ++ (lost ++ page d :: (rootExtents root ++ live))).Perm
      (rootExtents root ++ (extents f_item ++ (lost ++ page d :: live))) := by
    have swapped := List.perm_append_comm_assoc (extents f_item ++ lost ++ [page d]) (rootExtents root) live
    simpa only [List.append_assoc,List.singleton_append] using swapped
  have first := path_free_laid held (laid.perm order)
  have second := (fat_item_free_laid made first).1
  exact (kfree_page block (second.perm List.perm_middle)).1

/-- The table of the heap tells blocks that were lost from none. -/
private theorem entries_lost {heap heap' : Heap} {lost : List Extent} (laid : Laid heap live)
    (laid' : Laid heap' (lost ++ live))
    (same : ∀ i : Int, 0 ≤ i → i < heap.table.total → heap'.table.entries i = heap.table.entries i) : lost = [] := by
  cases lost with
  | nil => rfl
  | cons e rest =>
    have total := laid.total_eq
    have total' := laid'.total_eq
    obtain ⟨low,high,positive⟩ := laid'.layout.start e (List.mem_cons_self ..)
    have inside : e.first ∈ e := by rw [mem_def]; omega
    have apart := (List.pairwise_cons.mp laid'.layout.disjoint).1
    have free := laid.layout.free e.first low (by omega) fun ⟨other,member,inOther⟩ =>
      apart other (List.mem_append_right rest member) e.first inside inOther
    have taken := laid'.layout.chain e (List.mem_cons_self ..) e.first inside (by omega)
    rw [same e.first low (by omega),free] at taken
    exact absurd taken.symm (chainEntry_ne_free e e.first)

private theorem refused_traced {error : Nat} {t : System} (isError : ISERR error = true)
    (answer : fopen (recordedServices services) files filename mode_str =
      (0,{ files with rest := (.ok t,⟨[error],[error]⟩) })) : ¬ LeavesNoTrace files s filename mode_str := by
  intro traceless
  have closed := (traceless.2 _ _ answer rfl).2.2 error (List.mem_singleton.mpr rfl)
  rw [isError] at closed
  exact Bool.false_ne_true closed.2.symm

/-- An fopen for writing closes the error that open refuses it with. -/
private theorem writing_traced {root : PathRoot} {path : PathPart} {next : List PathPart} {p : FatPrivate} {k : Kernel}
    (rest : files.rest = (.ok s,⟨[],[]⟩)) (laid : Laid s.kernel.kernel_heap live)
    (comes : Comes s filename mode_str root path next p k) (writing : file_get_mode_by_string mode_str ≠ .READ) :
    ¬ LeavesNoTrace files s filename mode_str := by
  have ways : Attempt files s live filename mode_str := attempt rest laid
  cases ways with
  | stopped opens => exact absurd (opens _ _ _ _ _ comes).1 writing
  | astray _ halted => exact fun traceless => traceless.1 halted
  | early away => exact absurd comes (away _ _ _ _ _)
  | refused _ isError answer => exact refused_traced isError answer
  | opened _ reading => exact absurd reading writing

end

theorem names_a : names (([48,58,47,97] : CString).drop 3) = [[97]] := by
  have first : ¬ firstName [97] = [] := by decide
  have rest : behind [97] = [] := by decide
  show names [97] = [[97]]
  rw [names,dif_neg first,rest,names_nil]
  rfl

/-- A kernel on a volume with the file a in its root directory. -/
def systemA : System := ⟨blankDrive, some volume_a, fun _ => ⟨⟨0, file_a, 0, none, .FILE⟩, 0⟩, bootKernel⟩

/-- The path to the file a is parsed, into three blocks. -/
theorem parse_path_a {k : Kernel} {live : List Extent} (laid : Laid k.kernel_heap live) (room : 3 ≤ freeBlocks k.kernel_heap) :
    ∃ (r : Int) (place : Place) (k' : Kernel),
      pathparser_parse [48,58,47,97] k = .ok (some ⟨blockAddress r,0,[place.part]⟩,k') ∧ place.part.part = [97] ∧
      Laid k'.kernel_heap (place.extents ++ ⟨r,1⟩ :: live) := by
  obtain ⟨r,places,k',same,laid',parsed⟩ := parse_names [48,58,47,97] laid (by decide) (by decide)
    (by rw [names_a]; exact List.cons_ne_nil _ _) (by rw [names_a]; exact room) (by rw [names_a]; decide)
  rw [names_a] at same
  obtain ⟨place,rfl⟩ : ∃ place, places = [place] := List.length_eq_one_iff.mp (by
    rw [← List.length_map,same,List.length_singleton])
  rw [List.flatMap_singleton] at laid'
  exact ⟨r,place,k',parsed,(List.cons.inj same).1,laid'⟩

theorem parse_a : ∃ root part k, pathparser_parse [48,58,47,97] systemA.kernel = .ok (some root,k) ∧
    root.first = [part] ∧ part.part = [97] ∧ root.drive_no = 0 ∧
    ∃ e₁ e₂ e₃ : Int, Laid k.kernel_heap [⟨e₁,1⟩,⟨e₂,1⟩,⟨e₃,1⟩] := by
  have laid : Laid bootKernel.kernel_heap [] := kernel_heap_init_laid _
  obtain ⟨r,place,k,parsed,name,laid₁⟩ := parse_path_a laid (by rw [freeBlocks_empty laid]; decide)
  exact ⟨_,place.part,k,parsed,rfl,name,rfl,_,_,_,laid₁⟩

/-- The files of a kernel that has not run yet, with every slot empty or taken. -/
def filesOf (slot : Nat) : Files (Running × Calls) := ⟨fun _ => slot, fun _ => ⟨0, none, 0, 0⟩, (.ok systemA, ⟨[], []⟩)⟩

private theorem freeBlocks_after_parse {k : Kernel} {e₁ e₂ e₃ : Int} (laid : Laid k.kernel_heap [⟨e₁,1⟩,⟨e₂,1⟩,⟨e₃,1⟩]) :
    25000 ≤ freeBlocks k.kernel_heap := by
  have room := freeBlocks_least laid
  simp only [List.map_cons,List.map_nil,List.sum_cons,List.sum_nil] at room
  omega

end SimpOS.FailedOpens
