import SimpOS.DirectoryTrees
import SimpOS.OpenedFiles
import SimpOS.LoadFrames

/-!
Programs on a volume. What loading calls is the file layer over the FAT16 driver, on the kernel as it
is then; a program whose path leads to a plain file of the volume is loaded with the bytes that the
clusters of the file have.
-/
namespace SimpOS.VolumePrograms
open SimpOS.Machine SimpOS.Memory SimpOS.Strings SimpOS.Extents SimpOS.DiskStreams SimpOS.HeapLayout SimpOS.KernelHeap SimpOS.PathParser
open SimpOS.FileLayer SimpOS.FileTable SimpOS.Fat16 SimpOS.FatChains SimpOS.FatReads SimpOS.FatDirectories SimpOS.FatPaths SimpOS.FatSystem
open SimpOS.DirectoryTrees SimpOS.ParsedPaths SimpOS.FailedOpens SimpOS.OpenFiles SimpOS.OpenedFiles SimpOS.Processes
open SimpOS.BinaryLoads (taken kzalloc_few)
open SimpOS.DirectoryLookups (PrimaryHeader twoHeader)
open SimpOS.ProcessLoads (bind_of_ok)

/-- The files with a kernel below them. -/
def withKernel (files : Files Running) (k : Kernel) : Files Running :=
  { files with rest := files.rest.map fun s => { s with kernel := k } }

/-- A call of the file layer on the kernel as it is; one that stops the kernel does not come back. -/
def onKernel {α : Type} (call : Files Running → α × Files Running) (files : Files Running) (k : Kernel) :
    Except Stop (α × Files Running × Kernel) :=
  let (result, files) := call (withKernel files k)
  match files.rest with
  | .error halt => .error (.files halt)
  | .ok s => .ok (result, files, s.kernel)

/-- The calls with the size that `fstat` has stored at the caller's structure. -/
def filesize (fd : Int) (stat : Nat) (files : Files Running) : (Int × Nat) × Files Running :=
  let (res, files) := fstat files fd stat
  ((res, (memoryOf files.rest).elim 0 fun m => read32 m (offset stat 4)), files)

/-- What loading calls, with the address of its structure for `fstat`. -/
def kernelFiles (stat : Nat) : FileServices (Files Running) where
  fopen filename mode := onKernel fun files => fopen services files filename mode
  fstat fd := onKernel (filesize fd stat)
  fread ptr size nmemb fd := onKernel fun files => fread files ptr size nmemb fd
  fclose fd := onKernel fun files => fclose services files fd

section
variable {α : Type} {call : Files Running → α × Files Running} {s u : World (Files Running)} {result : α}
  {before files : Files Running} {t : System}

/-- A call has left the files and their kernel in the world, and no process is changed. -/
private structure Called (files : Files Running) (t : System) (s u : World (Files Running)) : Prop where
  files : u.files = files
  kernel : u.kernel = t.kernel
  process : u.process = s.process

private theorem Called.below (called : Called files t s u) (running : files.rest = .ok t) (k : Kernel) :
    withKernel u.files k = { files with rest := .ok { t with kernel := k } } := by
  unfold withKernel
  rw [called.files,running]
  rfl

private theorem Called.same (called : Called files t s u) (running : files.rest = .ok t) : withKernel u.files u.kernel = files := by
  rw [called.below running,called.kernel]
  cases files
  cases running
  rfl

/-- A call that leaves the kernel running comes back to the world. -/
private theorem onFiles_running (below : withKernel s.files s.kernel = before) (answer : call before = (result,files))
    (running : files.rest = .ok t) : ∃ u, s.onFiles (onKernel call) = .ok (result,u) ∧ Called files t s u := by
  refine ⟨{ s with files := files, kernel := t.kernel },?_,rfl,rfl,rfl⟩
  simp only [World.onFiles,onKernel,below,answer,running]
  rfl

end

/-! ### The load of a flat binary -/

/-- The path leads down the tree of the directories on the disk to a plain file. -/
structure LeadsTo (drive : Drive) (primary_header : PrimaryHeader) (p : FatPrivate) (path : PathPart)
    (next : List PathPart) (item : FatDirectoryItem) : Prop where
  met : ∀ other, Met drive p (listing p.root_directory) path.part (next.map PathPart.part) other →
    isDirectory other = true → Subdirectory drive p other
  led : Led drive p true (listing p.root_directory) (rootItems drive primary_header) path.part (next.map PathPart.part)
  found : lookup drive p (rootItems drive primary_header) path.part (next.map PathPart.part) = some item
  plain : isDirectory item = false

/-- What the driver's search comes to is that file. -/
theorem LeadsTo.plainFile {drive : Drive} {primary_header : PrimaryHeader} {p : FatPrivate} {path : PathPart}
    {next : List PathPart} {item : FatDirectoryItem} (file : LeadsTo drive primary_header p path next item)
    (mounted : Mounted drive primary_header p) : PlainFile drive p path next item := by
  obtain ⟨met,led,found,plain⟩ := file
  rw [rootItems,led_iff mounted.toVolume _ true _ _ path.part (root_firstOf mounted) met] at led
  exact ⟨met,led.1,led.2.trans found,plain⟩

section
variable {files : Files Running} {s : System} {drive : Drive} {fd : Int} {data stat : Nat} {p q : FatPrivate} {item : FatDirectoryItem}

/-- An open plain file tells its size. -/
theorem filesize_opened (file : OpenFile files fd data) (rest : files.rest = .ok s) (opened : Opened drive p q item data s)
    (room : stat + 8 ≤ 4294967296) : ∃ m, filesize fd stat files =
      ((0,item.file_size.toNat),{ files with rest := .ok { s with kernel := { s.kernel with memory := m } } }) := by
  have plain : ¬(s.descriptors data).item.type ≠ .FILE := not_not_intro opened.type
  have size : (s.descriptors data).item.item.file_size.toNat < 4294967296 := UInt32.toNat_lt _
  have read : ∀ m flags, read32 (write32 (write32 m (offset stat 4) (s.descriptors data).item.item.file_size.toNat) stat flags)
      (offset stat 4) = item.file_size.toNat := by
    intro m flags
    rw [offset_of_lt (by omega),read32_write32_apart (by omega) (by omega) (by omega),read32_write32_same (by omega) size,opened.item]
  unfold filesize
  rw [fstat_open file rest]
  simp only [fat16_stat,plain,if_false,memoryOf,Except.toOption,Option.map_some,Option.elim_some,read]
  exact ⟨_,rfl⟩

/-- One read from its start delivers an open file whose clusters the table has. -/
theorem fread_opened (file : OpenFile files fd data) (rest : files.rest = .ok s) (opened : Opened drive p q item data s)
    (volume : Volume drive p) {total : Nat} (filled : 1 ≤ total) (small : total < 2147483648)
    (linked : Linked drive p (cluster_of item) total) (ptr : Nat) :
    ∃ t, fread files ptr total 1 fd = (1,{ files with rest := .ok t }) ∧
      ∀ j < total, t.kernel.memory (offset ptr j) = fileByte drive p (cluster_of item) j := by
  have cluster : firstCluster (s.descriptors data) = cluster_of item := by
    unfold firstCluster cluster_of
    rw [opened.item]
  have direct : Direct s.drive q (firstCluster (s.descriptors data)) (s.descriptors data).pos total := by
    rw [opened.start]
    exact ⟨⟨by omega,.inl (Nat.zero_mod _),.inl rfl⟩,.inl rfl⟩
  have linked : Linked s.drive q (firstCluster (s.descriptors data)) ((s.descriptors data).pos + total) := by
    rw [opened.start,Nat.zero_add,opened.drive,cluster]
    exact linked.congr opened.volume
  have positive : 0 < size_of_cluster_bytes q := by
    rw [size_congr opened.volume]
    exact volume.size
  have primary : q.cluster_read_stream.disk = s.drive.disk := by
    rw [opened.drive]
    exact opened.volume.clusters.trans volume.clusters
  obtain ⟨after,read⟩ := fread_linked file rest opened.mounted positive primary filled direct linked ptr
  obtain ⟨t,_,rfl,reached⟩ := fread_once file rest opened.mounted filled direct read
  refine ⟨t,read,fun j inside => ?_⟩
  rw [reached.stored.byte j inside,opened.start,opened.drive,cluster,Nat.zero_add]
  exact fileByte_congr opened.volume _ _

end

section
variable {s : World (Files Running)} {start : System} {filename : CString} {root : PathRoot} {path : PathPart} {next : List PathPart}
  {primary_header : PrimaryHeader} {p : FatPrivate} {k : Kernel} {item : FatDirectoryItem} {live : List Extent} {slot process stat : Nat}

/-- A program whose path leads to a plain file of the volume, with clusters for all its bytes, is loaded: its process has the
    size of the file and, from its pointer on, the bytes of its clusters. -/
theorem process_load_binary_volume (rest : s.files.rest = .ok start)
    (comes : Comes { start with kernel := s.kernel } filename [114] root path next p k) (mounted : Mounted start.drive primary_header p)
    (file : LeadsTo start.drive primary_header p path next item) (laid : Laid k.kernel_heap live)
    (room : 3 * p.root_directory.total.toNat + 45 * next.length + 1 ≤ freeBlocks k.kernel_heap)
    (few : taken live + 4 < 25600 / blocks item.file_size.toNat) (empty : FirstEmpty s.files slot) (numbered : slot < 511)
    (filled : 1 ≤ item.file_size.toNat) (small : item.file_size.toNat < 2147483648)
    (linked : Linked start.drive p (cluster_of item) item.file_size.toNat) (structure_room : stat + 8 ≤ 4294967296) :
    ∃ t, process_load_binary (kernelFiles stat) filename process s = .ok (0,t) ∧ (t.process process).filetype = .BINARY ∧
      (t.process process).size = item.file_size.toNat ∧ ∀ j < item.file_size.toNat,
        t.kernel.memory (offset (t.process process).ptr j) = fileByte start.drive p (cluster_of item) j := by
  have volume := mounted.toVolume
  -- the file is opened
  have below : withKernel s.files s.kernel = { s.files with rest := .ok { start with kernel := s.kernel } } := by
    unfold withKernel
    rw [rest]
    rfl
  have positive : 0 < blocks item.file_size.toNat := by unfold blocks; omega
  have most : 25600 / blocks item.file_size.toNat ≤ 25600 := Nat.div_le_self _ _
  obtain ⟨files,t,data,q,live₁,answer,running,is,opened,laid₁,count⟩ :=
    @fopen_plain { s.files with rest := .ok { start with kernel := s.kernel } } _ _ _ _ _ _ _ _ _ _ rfl comes volume (file.plainFile mounted) laid room
      (by omega) empty numbered
  unfold process_load_binary kernelFiles
  dsimp only
  obtain ⟨v,opening,called⟩ := @onFiles_running _ (fun files => fopen services files filename [114]) _ _ _ _ _ below answer running
  rw [bind_of_ok _ opening]
  dsimp only
  rw [if_neg (by omega)]
  -- its size is asked for, and a block of that size
  obtain ⟨m,sized⟩ := filesize_opened is running opened structure_room
  obtain ⟨u,asking,called₁⟩ := onFiles_running (called.same running) sized rfl
  rw [bind_of_ok _ asking]
  dsimp only
  rw [if_neg (not_not.mpr rfl)]
  have laid₂ : Laid u.kernel.kernel_heap live₁ := by
    rw [called₁.kernel]
    exact laid₁
  obtain ⟨b,k₁,granted,free,fits,_⟩ := kzalloc_few item.file_size.toNat laid₂ filled (by omega) (by omega)
  have block : u.kzalloc item.file_size.toNat = (blockAddress b,{ u with kernel := k₁ }) := by
    unfold World.kzalloc
    rw [granted]
  rw [block]
  dsimp only
  rw [if_neg (blockAddress_pos b).ne']
  -- it is read there
  have at_start : Opened start.drive p q item data { t with kernel := k₁ } :=
    ⟨opened.drive,opened.mounted,opened.volume,opened.type,opened.item,opened.start⟩
  obtain ⟨t₁,read,bytes⟩ := fread_opened (is.rest (.ok { t with kernel := k₁ })) rfl at_start volume filled small linked (blockAddress b)
  obtain ⟨w,reading,called₂⟩ := @onFiles_running _ (fun files => fread files (blockAddress b) item.file_size.toNat 1 ((slot : Int) + 1))
    { u with kernel := k₁ } _ _ _ _ (called₁.below rfl k₁) read rfl
  rw [bind_of_ok _ reading]
  dsimp only
  rw [if_neg (not_not.mpr rfl)]
  obtain ⟨x,attached⟩ : ∃ x, x = w.setProcess process fun v =>
      { v with filetype := .BINARY, ptr := blockAddress b, size := item.file_size.toNat } := ⟨_,rfl⟩
  rw [← attached]
  -- and closed
  obtain ⟨closed,k₂,closing,closed_rest,memory⟩ := fclose_open (is.rest (.ok t₁)) rfl
  have below : withKernel x.files x.kernel = { files with rest := .ok t₁ } := by
    rw [attached]
    exact called₂.same rfl
  obtain ⟨y,closing,called₃⟩ := @onFiles_running _ (fun files => fclose services files ((slot : Int) + 1)) _ _ _ _ _ below closing closed_rest
  rw [bind_of_ok _ closing]
  have own : y.process process = { w.process process with filetype := .BINARY, ptr := blockAddress b, size := item.file_size.toNat } := by
    rw [called₃.process,attached]
    exact Function.update_self ..
  refine ⟨y,rfl,?_,?_,fun j inside => ?_⟩
  · rw [own]
  · rw [own]
  · rw [own,called₃.kernel]
    exact (congrFun memory _).trans (bytes j inside)

end

/-! ### A program of two clusters -/

/-- A kernel on the volume, with no file open and nothing loaded. -/
def programWorld (root_directory : FatDirectory) : World (Files Running) where
  processes _ := 0
  current_process := 0
  process _ := .zero
  task _ := .zero
  links := ⟨fun _ => ⟨0, 0⟩, 0, 0, 0⟩
  elf_file _ := ⟨0, 0, 0, 0, 0⟩
  files := ⟨fun _ => 0, fun _ => ⟨0, none, 0, 0⟩,
    .ok ⟨treeDrive 120 0, some (treeVolume root_directory), fun _ => ⟨⟨0, file_a, 0, none, .FILE⟩, 0⟩, bootKernel⟩⟩
  kernel := bootKernel

/-- The path 0:/d/x is parsed, into five blocks. -/
private theorem parse_program : ∃ root part next k, pathparser_parse [48,58,47,100,47,120] bootKernel = .ok (some root,k) ∧
    root.first = [part,next] ∧ part.part = [100] ∧ next.part = [120] ∧ root.drive_no = 0 ∧
    ∃ live, Laid k.kernel_heap live ∧ taken live = 5 := by
  have written : names (([48,58,47,100,47,120] : CString).drop 3) = [[100],[120]] := by
    have first : ¬firstName [100,47,120] = [] := by decide
    have second : ¬firstName [120] = [] := by decide
    show names [100,47,120] = [[100],[120]]
    rw [names,dif_neg first,show behind [100,47,120] = [120] by decide,names,dif_neg second,show behind [120] = [] by decide,names_nil]
    rfl
  have laid : Laid bootKernel.kernel_heap [] := kernel_heap_init_laid _
  obtain ⟨r,places,k,same,laid₁,parsed⟩ := parse_names [48,58,47,100,47,120] laid (by decide) (by decide)
    (by rw [written]; exact List.cons_ne_nil _ _) (by rw [written,freeBlocks_empty laid]; decide) (by rw [written]; decide)
  rw [written] at same
  obtain ⟨first,second,rfl⟩ : ∃ first second, places = [first,second] := List.length_eq_two.mp (by
    rw [← List.length_map,same]
    rfl)
  obtain ⟨directory,file⟩ := List.cons.inj same
  have drive : tonumericdigit (([48,58,47,100,47,120] : CString).headD 0) = 0 := by decide
  exact ⟨_,first.part,second.part,k,parsed,rfl,directory,(List.cons.inj file).1,drive,_,laid₁,rfl⟩

section
variable {d : FatDirectory}

private theorem program_size : size_of_cluster_bytes (treeVolume d) = 512 := by
  show size_of_cluster_bytes volume_a = 512
  decide

private theorem program_chain : chain (treeDrive 120 0) (treeVolume d) 3 1 = 5 := by
  have entry : fatEntry (treeDrive 120 0) (treeVolume d) 3 = 5 := by
    simp [fatEntry,treeDrive,treeVolume,volume_a]
  have second : link (treeDrive 120 0) (treeVolume d) (3 : Nat) = fatEntry (treeDrive 120 0) (treeVolume d) 3 :=
    link_primary rfl rfl (by simp [treeVolume,volume_a])
  rw [entry] at second
  exact second

private theorem program_linked {stop : Nat} (inside : stop ≤ 1024) : Linked (treeDrive 120 0) (treeVolume d) 3 stop := by
  refine ⟨by decide,fun j before => ?_⟩
  rw [program_size] at before
  obtain rfl : j = 0 := by omega
  rw [program_chain]
  decide

private theorem program_byte (tree : Tree 120 0 d) {j : Nat} (below : j < 600) :
    fileByte (treeDrive 120 0) (treeVolume d) 3 j = if j < 512 then 4 else 6 := by
  have start : ∀ cluster, clusterStart (treeVolume d) cluster = (3 + (cluster - 2) * 1) * 512 := by
    intro cluster
    rw [← tree.clusters]
    rfl
  have image : ∀ x, 2048 ≤ x → (treeDrive 120 0).image x = UInt8.ofNat (x / 512) := fun x above => if_pos above
  unfold fileByte filePosition
  rw [program_size]
  by_cases first : j < 512
  · have position : clusterStart (treeVolume d) (chain (treeDrive 120 0) (treeVolume d) 3 (j / 512)) + (j % 512 : Nat) =
        ((2048 + j : Nat) : Int) := by
      rw [Nat.div_eq_of_lt first,start,chain]
      omega
    rw [position,i32_of_range (by omega) (by omega),diskByte_image _ (by omega),image _ (by omega),if_pos first,
      show (2048 + j) / 512 = 4 by omega]
    rfl
  · have position : clusterStart (treeVolume d) (chain (treeDrive 120 0) (treeVolume d) 3 (j / 512)) + (j % 512 : Nat) =
        ((2560 + j : Nat) : Int) := by
      rw [show j / 512 = 1 by omega,start,program_chain]
      omega
    rw [position,i32_of_range (by omega) (by omega),diskByte_image _ (by omega),image _ (by omega),if_neg first,
      show (2560 + j) / 512 = 6 by omega]
    rfl

private theorem program_leads (tree : Tree 120 0 d) {part next : PathPart} (first : part.part = [100]) (second : next.part = [120]) :
    LeadsTo (treeDrive 120 0) twoHeader (treeVolume d) part [next] (treeRecord 120 0 1) := by
  have held := tree_sub tree (e := 2) (by decide) (by decide) (by decide)
  have inner : matching [120] (below (treeDrive 120 0) (treeVolume d) (treeEntry 1)) = [treeRecord 120 0 1] := by
    rw [held.below tree]
    decide
  refine ⟨?_,?_,?_,by decide⟩ <;> rw [List.map_singleton,first,second]
  · exact tree_met tree held (by decide)
  · exact tree_led tree held inner (by decide) (by decide) _
  · have item : matching [120] (((List.range 2).filter fun i => !isDeleted (treeRecord 120 0 i)).map (treeRecord 120 0)) =
        [treeRecord 120 0 1] := by decide
    rw [tree.items,lookup,show matching [100] [treeEntry 0,treeEntry 1] = [treeEntry 1] by decide,List.head?_cons,Option.bind_some,
      if_pos (by decide),lookup,held.contents,item]
    rfl

end

/-- The clusters 3 and 5 of the program are read into one piece. -/
theorem process_load_binary_split : ∃ d t, Mounted (treeDrive 120 0) twoHeader (treeVolume d) ∧
    process_load_binary (kernelFiles 0x9000) [48,58,47,100,47,120] 0x1000000 (programWorld d) = .ok (0,t) ∧
    (t.process 0x1000000).size = 600 ∧ ∀ j < 600,
      t.kernel.memory (offset (t.process 0x1000000).ptr j) = if j < 512 then 4 else 6 := by
  obtain ⟨d,tree⟩ := tree_loaded 120 0
  obtain ⟨root,part,next,k,parse,parts,first,second,drive,live,laid,count⟩ := parse_program
  have room := freeBlocks_least laid
  unfold taken at count
  have total : (treeVolume d).root_directory.total.toNat = 2 := congrArg Int.toNat tree.total
  have size : (treeRecord 120 0 1).file_size.toNat = 600 := by decide
  have cluster : cluster_of (treeRecord 120 0 1) = 3 := by decide
  have few : taken live + 4 < 25600 / blocks (treeRecord 120 0 1).file_size.toNat := by
    rw [size,show blocks 600 = 1 by decide]
    unfold taken
    omega
  have linked : Linked (treeDrive 120 0) (treeVolume d) (cluster_of (treeRecord 120 0 1)) (treeRecord 120 0 1).file_size.toNat := by
    rw [cluster,size]
    exact program_linked (by decide)
  obtain ⟨t,loaded,_,length,bytes⟩ := @process_load_binary_volume (programWorld d) _ [48,58,47,100,47,120] root part [next] twoHeader
    (treeVolume d) k (treeRecord 120 0 1) live 0 0x1000000 0x9000 rfl ⟨parse,parts,drive,rfl,by decide⟩ tree.mounted
    (program_leads tree first second) laid (by rw [total,List.length_singleton]; omega) few
    ⟨by decide,rfl,fun j below => absurd below (Nat.not_lt_zero j)⟩ (by decide) (by rw [size]; decide) (by rw [size]; decide)
    linked (by decide)
  refine ⟨d,t,tree.mounted,loaded,length.trans size,fun j below => ?_⟩
  rw [bytes j (by rw [size]; exact below),cluster]
  exact program_byte tree below

end SimpOS.VolumePrograms
