import SimpOS.FatSystem
import SimpOS.FatReads
import SimpOS.Runs

/-!
Reads and seeks on an open file, by its number. Reads in pieces come to the same as one read
where each of them is delivered whole; and the position stays in the file where the seeks
from it and the reads do.
-/
namespace SimpOS.OpenFiles
open SimpOS.Machine SimpOS.Memory SimpOS.DiskStreams SimpOS.KernelHeap SimpOS.FileLayer SimpOS.Fat16 SimpOS.FatChains
open SimpOS.FatReads SimpOS.FatDirectories SimpOS.FatSystem SimpOS.Runs

/-- The number is that of a file of the FAT16 volume, with its private data. -/
structure OpenFile (files : Files Running) (fd : Int) (data : Nat) : Prop where
  number : 1 ≤ fd
  found : file_get_descriptor files fd ≠ 0
  filesystem : (files.desc (file_get_descriptor files fd)).filesystem = some fat16_fs
  private_data : (files.desc (file_get_descriptor files fd)).private_data = data

theorem OpenFile.rest {files : Files Running} {fd : Int} {data : Nat} (file : OpenFile files fd data) (rest : Running) :
    OpenFile { files with rest := rest } fd data := ⟨file.number,file.found,file.filesystem,file.private_data⟩

/-- The kernel after a read. -/
def afterRead (s : System) (data : Nat) (q : FatPrivate) (after : FatFileDescriptor) (m : Bytes) : System :=
  { s with
    fs_private := some q
    descriptors := Function.update s.descriptors data after
    kernel := { s.kernel with memory := m } }
@[simp] theorem afterRead_descriptor (s : System) (data : Nat) (q : FatPrivate) (after : FatFileDescriptor) (m : Bytes) :
    (afterRead s data q after m).descriptors data = after := by
  unfold afterRead
  exact Function.update_self data after s.descriptors

section
variable {files : Files Running} {s : System} {p : FatPrivate} {fd : Int} {data : Nat}

theorem fseek_open (file : OpenFile files fd data) (rest : files.rest = .ok s) (offset : Int) (whence : SeekMode) :
    fseek files fd offset whence =
      ((fat16_seek (s.descriptors data) (u32 offset) whence).1,{ files with rest := .ok { s with
        descriptors := Function.update s.descriptors data (fat16_seek (s.descriptors data) (u32 offset) whence).2 } }) := by
  simp only [fseek,file.found,if_false,file.filesystem,file.private_data,fat16_fs,rest]
  rfl

theorem fread_open (file : OpenFile files fd data) (rest : files.rest = .ok s) (mounted : s.fs_private = some p)
    {size nmemb : Nat} (nonempty : 0 < size) (nonzero : 0 < nmemb) (ptr : Nat) :
    (fat16_read s.drive p (s.descriptors data) size nmemb ptr s.kernel.memory = none ∧
      fread files ptr size nmemb fd = (0,{ files with rest := .error (.driver .division) })) ∨
    ∃ res after q m, fat16_read s.drive p (s.descriptors data) size nmemb ptr s.kernel.memory = some (res,after,q,m) ∧
      fread files ptr size nmemb fd = (res,{ files with rest := .ok (afterRead s data q after m) }) := by
  have number := file.number
  have accepted : ¬ (size = 0 ∨ nmemb = 0 ∨ fd < 1) := by omega
  simp only [fread,accepted,if_false,file.found,file.filesystem,file.private_data,fat16_fs,running,rest,read_file,mounted]
  cases fat16_read s.drive p (s.descriptors data) size nmemb ptr s.kernel.memory with
  | none => exact .inl ⟨rfl,rfl⟩
  | some outcome => exact .inr ⟨outcome.1,outcome.2.1,outcome.2.2.1,outcome.2.2.2,rfl,rfl⟩

theorem fstat_open (file : OpenFile files fd data) (rest : files.rest = .ok s) (stat : Nat) :
    fstat files fd stat = ((fat16_stat data stat s).1,{ files with rest := .ok (fat16_stat data stat s).2 }) := by
  simp only [fstat,file.found,if_false,file.filesystem,file.private_data,fat16_fs,rest]
  rfl

/-- Closing releases blocks and leaves the memory as it is. -/
theorem fclose_open (file : OpenFile files fd data) (rest : files.rest = .ok s) :
    ∃ closed k, fclose services files fd = (0,closed) ∧ closed.rest = .ok { s with kernel := k } ∧
      k.memory = s.kernel.memory := by
  have released : (fat16_free_file_descriptor data s).kernel.memory = s.kernel.memory := by
    unfold fat16_free_file_descriptor fat16_fat_item_free fat16_free_directory
    cases (s.descriptors data).item.type with
    | FILE => rfl
    | DIRECTORY =>
      cases (s.descriptors data).item.directory with
      | none => rfl
      | some directory =>
        dsimp only
        split_ifs <;> rfl
  refine ⟨file_free_descriptor services { files with rest := .ok (fat16_free_file_descriptor data s) } (file_get_descriptor files fd),
    kfree (fat16_free_file_descriptor data s).kernel (file_get_descriptor files fd),?_,rfl,released⟩
  simp only [fclose,file.found,if_false,file.filesystem,file.private_data,fat16_fs,rest]
  rfl

end

/-! ### Reading in pieces -/

/-- The reads that are delivered whole. -/
structure Direct (drive : Drive) (p : FatPrivate) (cluster : Int) (start total : Nat) : Prop where
  plain : Plain drive p cluster start total
  whole : Whole start total

theorem Direct.congr {drive : Drive} {p q : FatPrivate} {cluster : Int} {start total : Nat} (same : SameVolume p q)
    (direct : Direct drive p cluster start total) : Direct drive q cluster start total :=
  ⟨direct.plain.congr same,direct.whole⟩

/-- The memory of a kernel that runs. -/
def memoryOf (rest : Running) : Option Bytes := rest.toOption.map fun s => s.kernel.memory

/-- What a read of the file has come to: its bytes from the position on are in memory, and
    the position is behind them. -/
structure Reached (s t : System) (p q : FatPrivate) (data out total : Nat) : Prop where
  mounted : t.fs_private = some q
  volume : SameVolume p q
  drive : t.drive = s.drive
  moved : t.descriptors data = { s.descriptors data with pos := (s.descriptors data).pos + total }
  stored : Stored s.kernel.memory t.kernel.memory out total fun k =>
    fileByte s.drive p (firstCluster (s.descriptors data)) ((s.descriptors data).pos + k)

section
variable {files : Files Running} {s : System} {p : FatPrivate} {fd : Int} {data : Nat}

theorem fread_direct (file : OpenFile files fd data) (rest : files.rest = .ok s) (mounted : s.fs_private = some p)
    {size nmemb : Nat} (nonempty : 0 < size) (nonzero : 0 < nmemb)
    (direct : ∀ i < nmemb, Direct s.drive p (firstCluster (s.descriptors data)) ((s.descriptors data).pos + i * size) size)
    {ptr : Nat} {res : Int} {after : Files Running} (read : fread files ptr size nmemb fd = (res,after))
    (success : 0 < res) :
    ∃ t q, after = { files with rest := .ok t } ∧ Reached s t p q data ptr (nmemb * size) := by
  rcases fread_open file rest mounted nonempty nonzero ptr with ⟨_,stopped⟩ | ⟨res',after',q,m,made,answered⟩
  · rw [stopped] at read
    cases read
    exact absurd success (by decide)
  · rw [answered] at read
    cases read
    obtain ⟨_,moved,members⟩ :=
      fat16_read_correct nonempty nonzero (fun i bound => (direct i bound).plain) made (Int.le_of_lt success)
    refine ⟨_,q,rfl,rfl,members.volume,rfl,?_,members.stored fun i bound => (direct i bound).whole⟩
    exact (Function.update_self _ _ _).trans moved

theorem fread_once (file : OpenFile files fd data) (rest : files.rest = .ok s) (mounted : s.fs_private = some p)
    {total : Nat} (nonempty : 0 < total)
    (direct : Direct s.drive p (firstCluster (s.descriptors data)) (s.descriptors data).pos total)
    {ptr : Nat} {after : Files Running} (read : fread files ptr total 1 fd = (1,after)) :
    ∃ t q, after = { files with rest := .ok t } ∧ Reached s t p q data ptr total := by
  have one : ∀ i < 1, Direct s.drive p (firstCluster (s.descriptors data)) ((s.descriptors data).pos + i * total) total := by
    intro i bound
    obtain rfl : i = 0 := Nat.lt_one_iff.mp bound
    rwa [Nat.zero_mul,Nat.add_zero]
  obtain ⟨t,q,same,reached⟩ := fread_direct file rest mounted nonempty Nat.zero_lt_one one read Int.zero_lt_one
  rw [Nat.one_mul] at reached
  exact ⟨t,q,same,reached⟩

/-- Two reads one behind the other have come to what one read of both has. -/
private theorem Reached.trans {t u : System} {q r : FatPrivate} {out a b : Nat} (first : Reached s t p q data out a)
    (second : Reached t u q r data (offset out a) b) (fits : a + b ≤ 4294967296) :
    Reached s u p r data out (a + b) := by
  have stored := second.stored
  rw [first.drive,first.moved] at stored
  refine ⟨second.mounted,first.volume.trans second.volume,second.drive.trans first.drive,?_,?_⟩
  · rw [second.moved,first.moved,Nat.add_assoc]
  · refine first.stored.append (stored.congr fun k _ => ?_) fits
    rw [fileByte_congr first.volume,Nat.add_assoc]
    rfl

/-- Reading in pieces equals reading at once, where every read is delivered whole. -/
theorem pieces_equal (file : OpenFile files fd data) (rest : files.rest = .ok s) (mounted : s.fs_private = some p)
    (start : Nat) (position : (s.descriptors data).pos = start) (cluster : Int)
    (first_cluster : firstCluster (s.descriptors data) = cluster) (ptr : Nat) :
    (∀ a b, 1 ≤ a → 1 ≤ b → Direct s.drive p cluster start a → Direct s.drive p cluster (start + a) b →
      Direct s.drive p cluster start (a + b) → ∀ first second both,
        fread files ptr a 1 fd = (1,first) → fread first (offset ptr a) b 1 fd = (1,second) →
        fread files ptr (a + b) 1 fd = (1,both) → memoryOf second.rest = memoryOf both.rest) ∧
    (∀ size nmemb, 1 ≤ size → 1 ≤ nmemb → (∀ i < nmemb, Direct s.drive p cluster (start + i * size) size) →
      Direct s.drive p cluster start (size * nmemb) → ∀ (res : Int) members once, 0 < res →
        fread files ptr size nmemb fd = (res,members) → fread files ptr (size * nmemb) 1 fd = (1,once) →
        memoryOf members.rest = memoryOf once.rest) := by
  subst position first_cluster
  constructor
  · intro a b some more directA directB directBoth first second both readA readB readBoth
    obtain ⟨t,q,rfl,reachedA⟩ := fread_once file rest mounted some directA readA
    obtain ⟨v,_,rfl,reachedBoth⟩ := fread_once file rest mounted (by omega) directBoth readBoth
    have later : Direct t.drive q (firstCluster (t.descriptors data)) (t.descriptors data).pos b := by
      rw [reachedA.drive,reachedA.moved]
      exact directB.congr reachedA.volume
    obtain ⟨u,_,rfl,reachedB⟩ := fread_once (file.rest (.ok t)) rfl reachedA.mounted more later readB
    have small := directBoth.plain.small
    have whole := reachedA.trans reachedB (by omega)
    exact congrArg Option.some (whole.stored.unique reachedBoth.stored)
  · intro size nmemb nonempty nonzero direct directOnce res members once success readMembers readOnce
    obtain ⟨t,_,rfl,reached⟩ := fread_direct file rest mounted nonempty nonzero direct readMembers success
    obtain ⟨u,_,rfl,reachedOnce⟩ := fread_once file rest mounted (Nat.mul_pos nonempty nonzero) directOnce readOnce
    rw [Nat.mul_comm nmemb size] at reached
    exact congrArg Option.some (reached.stored.unique reachedOnce.stored)

theorem fread_linked (file : OpenFile files fd data) (rest : files.rest = .ok s)
    (mounted : s.fs_private = some p) (positive : 0 < size_of_cluster_bytes p)
    (primary : p.cluster_read_stream.disk = s.drive.disk) {total : Nat} (nonempty : 0 < total)
    (direct : Direct s.drive p (firstCluster (s.descriptors data)) (s.descriptors data).pos total)
    (linked : Linked s.drive p (firstCluster (s.descriptors data)) ((s.descriptors data).pos + total)) (ptr : Nat) :
    ∃ after, fread files ptr total 1 fd = (1,after) := by
  have one : ∀ i < 1, Plain s.drive p (firstCluster (s.descriptors data)) ((s.descriptors data).pos + i * total) total := by
    intro i bound
    obtain rfl : i = 0 := Nat.lt_one_iff.mp bound
    rw [Nat.zero_mul,Nat.add_zero]
    exact direct.plain
  obtain ⟨after,q,m,made⟩ := fat16_read_succeeds positive primary nonempty Nat.zero_lt_one one
    (by rwa [Nat.one_mul]) ptr s.kernel.memory
  rcases fread_open file rest mounted nonempty Nat.zero_lt_one ptr with ⟨none,_⟩ | ⟨res,after',q',m',made',answered⟩
  · rw [none] at made
    cases made
  · rw [made'] at made
    cases made
    exact ⟨_,answered⟩

/-- A read in one piece delivers only what the stream does. -/
private theorem fread_piece (file : OpenFile files fd data) (rest : files.rest = .ok s)
    (mounted : s.fs_private = some p) (positive : 0 < size_of_cluster_bytes p)
    (primary : p.cluster_read_stream.disk = s.drive.disk) {start total : Nat} (position : (s.descriptors data).pos = start)
    (nonempty : 0 < total) (small : start + total < 2147483648) (piece : total ≤ size_of_cluster_bytes p)
    (linked : Linked s.drive p (firstCluster (s.descriptors data)) (start + total))
    (placed : Placed (i32 (filePosition s.drive p (firstCluster (s.descriptors data)) start))) (ptr : Nat) :
    ∃ t : System, fread files ptr total 1 fd = (1,{ files with rest := .ok t }) ∧
      Stored s.kernel.memory t.kernel.memory ptr (deliveredCount (start % 512) total)
        (fun k => diskByte s.drive (i32 (filePosition s.drive p (firstCluster (s.descriptors data)) start + k))) := by
  obtain ⟨q,stream,m,made,_,stored⟩ :=
    fat16_read_internal_from_stream_piece positive primary linked nonempty piece placed ptr s.kernel.memory
  have internal : fat16_read_internal s.drive p (firstCluster (s.descriptors data)) (s.descriptors data).pos total ptr
      s.kernel.memory = some (0,{ q with cluster_read_stream := stream },m) := by
    rw [position,fat16_read_internal,made]
  have read := fat16_read_one (by omega) internal
  obtain ⟨after,read⟩ := read
  rcases fread_open file rest mounted nonempty Nat.zero_lt_one ptr with ⟨none,_⟩ | ⟨res,after',q',m',made',answered⟩
  · rw [none] at read
    cases read
  · rw [made'] at read
    cases read
    exact ⟨_,answered,stored⟩

end

/-- A file table with one open file, on the volume whose clusters are not in a row. -/
def splitOpen (pos : Nat) : Files Running where
  file_descriptors i := if i = 0 then 0x01010000 else 0
  desc _ := ⟨1, some fat16_fs, 0x01020000, 0x9000⟩
  rest := .ok ⟨splitDrive, some splitVolume, fun _ => splitFile pos, ⟨fun _ => 0, kernel_heap_init fun _ => 0⟩⟩

private theorem splitOpen_file (pos : Nat) : OpenFile (splitOpen pos) 1 0x01020000 := by
  have slot : file_get_descriptor (splitOpen pos) 1 = 0x01010000 := rfl
  exact ⟨by decide,by rw [slot]; decide,rfl,rfl⟩

/-- A read of 600 bytes, at once and as 512 and 88 bytes. -/
theorem pieces_equal_split : ∃ first second both,
    fread (splitOpen 0) 0x500000 512 1 1 = (1,first) ∧ fread first (offset 0x500000 512) 88 1 1 = (1,second) ∧
    fread (splitOpen 0) 0x500000 (512 + 88) 1 1 = (1,both) ∧ memoryOf second.rest = memoryOf both.rest := by
  have aligned : ∀ {p : FatPrivate} (start total : Nat), start % size_of_cluster_bytes splitVolume = 0 →
      start % 512 = 0 → start + total < 2147483648 → SameVolume splitVolume p →
      Direct splitDrive p (firstCluster (splitFile 0)) start total := fun start total cluster sector small same =>
    Direct.congr same ⟨⟨small,.inl cluster,.inl sector⟩,.inl sector⟩
  have directA := aligned 0 512 (by decide) (by decide) (by decide) (.refl _)
  have directB := aligned 512 88 (by decide) (by decide) (by decide) (.refl _)
  have directBoth := aligned 0 (512 + 88) (by decide) (by decide) (by decide) (.refl _)
  have linked := splitVolume_linked 0 (by decide : 512 + 88 ≤ 1024)
  obtain ⟨first,readA⟩ := fread_linked (splitOpen_file 0) rfl rfl (by decide) rfl (by decide) directA
    (linked.mono (by decide)) 0x500000
  obtain ⟨both,readBoth⟩ := fread_linked (splitOpen_file 0) rfl rfl (by decide) rfl (by decide) directBoth linked 0x500000
  obtain ⟨t,q,same,reached⟩ := fread_once (splitOpen_file 0) rfl rfl (by decide) directA readA
  subst same
  have later : Direct t.drive q (firstCluster (t.descriptors 0x01020000)) (t.descriptors 0x01020000).pos 88 := by
    rw [reached.drive,reached.moved]
    exact directB.congr reached.volume
  have laterLinked : Linked t.drive q (firstCluster (t.descriptors 0x01020000))
      ((t.descriptors 0x01020000).pos + 88) := by
    rw [reached.drive,reached.moved]
    exact linked.congr reached.volume
  obtain ⟨second,readB⟩ := fread_linked ((splitOpen_file 0).rest (.ok t)) rfl reached.mounted
    (by rw [size_congr reached.volume]; decide) (reached.volume.clusters.trans (by rw [reached.drive]; rfl)) (by decide)
    later laterLinked (offset 0x500000 512)
  exact ⟨_,_,_,readA,readB,readBoth,(pieces_equal (splitOpen_file 0) rfl rfl 0 rfl _ rfl 0x500000).1 512 88
    (by decide) (by decide) directA directB directBoth _ _ _ readA readB readBoth⟩

private theorem splitFile_bytes :
    filePosition splitDrive splitVolume (firstCluster (splitFile 511)) 511 = 1535 ∧
      fileByte splitDrive splitVolume (firstCluster (splitFile 511)) 512 = 4 := by
  have first : firstCluster (splitFile 511) = (2 : Nat) := by
    simp [firstCluster,splitFile,fat16_get_first_cluster,i32]
  have second : chain splitDrive splitVolume (2 : Nat) 1 = (4 : Nat) := by
    have stream : splitVolume.fat_read_stream = some ⟨0,0x9000⟩ := rfl
    have entry : fatEntry splitDrive splitVolume 2 = 4 := by simp [fatEntry,splitDrive,splitVolume]
    rw [chain,chain,link_primary stream rfl (by simp [splitVolume]),entry]
  have place : filePosition splitDrive splitVolume (2 : Nat) 512 = (2048 : Nat) := by
    rw [filePosition,show 512 / size_of_cluster_bytes splitVolume = 1 from rfl,second]
    rfl
  rw [first]
  refine ⟨rfl,?_⟩
  rw [fileByte,place,i32_of_range (by decide) (by decide),diskByte_image splitDrive (by decide)]
  decide

/-- From the last byte of a sector on, a read of two bytes leaves out the second one. -/
theorem pieces_differ : ∃ sought first second both,
    fseek (splitOpen 0) 1 511 .SET = (0,sought) ∧ fread sought 0x500000 1 1 1 = (1,first) ∧
    fread first (offset 0x500000 1) 1 1 1 = (1,second) ∧ fread sought 0x500000 (1 + 1) 1 1 = (1,both) ∧
    memoryOf second.rest ≠ memoryOf both.rest := by
  obtain ⟨t,sought,descriptor,mounted,drive,memory⟩ : ∃ t : System,
      fseek (splitOpen 0) 1 511 .SET = (0,{ splitOpen 0 with rest := .ok t }) ∧
      t.descriptors 0x01020000 = splitFile 511 ∧ t.fs_private = some splitVolume ∧ t.drive = splitDrive ∧
      t.kernel.memory = fun _ => 0 :=
    ⟨_,fseek_open (splitOpen_file 0) rfl 511 .SET,by dsimp only; rw [Function.update_self]; rfl,rfl,rfl,rfl⟩
  have file := (splitOpen_file 0).rest (.ok t)
  obtain ⟨place,byte⟩ := splitFile_bytes
  have linked := splitVolume_linked 511 (by decide : 511 + 2 ≤ 1024)
  have directA : Direct splitDrive splitVolume (firstCluster (splitFile 511)) 511 1 := by
    refine ⟨⟨by decide,.inr fun j _ inside => ?_,.inr fun k bound => ?_⟩,.inr (by decide)⟩
    · have size : size_of_cluster_bytes splitVolume = 512 := rfl
      rw [size] at inside
      omega
    · obtain rfl : k = 0 := Nat.lt_one_iff.mp bound
      rw [Nat.add_zero,place]
      decide
  have directB : Direct splitDrive splitVolume (firstCluster (splitFile 511)) 512 1 :=
    ⟨⟨by decide,.inl (by decide),.inl (by decide)⟩,.inl (by decide)⟩
  rw [← drive,← descriptor] at directA directB linked
  have position : (t.descriptors 0x01020000).pos = 511 := by rw [descriptor]; rfl
  have primary : splitVolume.cluster_read_stream.disk = t.drive.disk := by rw [drive]; rfl
  obtain ⟨first,readA⟩ := fread_linked file rfl mounted (by decide) primary (by decide) (position.symm ▸ directA)
    (position.symm ▸ linked.mono (by decide)) 0x500000
  obtain ⟨u,q,rfl,reachedA⟩ := fread_once file rfl mounted (by decide) (position.symm ▸ directA) readA
  have later : Direct u.drive q (firstCluster (u.descriptors 0x01020000)) (u.descriptors 0x01020000).pos 1 := by
    rw [reachedA.drive,reachedA.moved,position]
    exact directB.congr reachedA.volume
  have laterLinked : Linked u.drive q (firstCluster (u.descriptors 0x01020000))
      ((u.descriptors 0x01020000).pos + 1) := by
    rw [reachedA.drive,reachedA.moved,position]
    exact linked.congr reachedA.volume
  obtain ⟨second,readB⟩ := fread_linked (file.rest (.ok u)) rfl reachedA.mounted
    (by rw [size_congr reachedA.volume]; decide)
    (reachedA.volume.clusters.trans (by rw [reachedA.drive]; exact primary)) (by decide) later laterLinked
    (offset 0x500000 1)
  obtain ⟨v,r,rfl,reachedB⟩ := fread_once (file.rest (.ok u)) rfl reachedA.mounted (by decide) later readB
  obtain ⟨w,readBoth,stored⟩ := fread_piece file rfl mounted (by decide) primary position (by decide : 0 < 1 + 1)
    (by decide) (by decide) linked
    (by rw [drive,descriptor,place]; exact ⟨by decide,by decide,.inr (by decide)⟩) 0x500000
  refine ⟨_,_,_,_,sought,readA,readB,readBoth,fun same => ?_⟩
  have whole := (reachedA.trans reachedB (by decide)).stored.byte 1 (by decide)
  have short := stored.frame (offset 0x500000 1) fun k bound same => by
    have zero : deliveredCount (511 % 512) (1 + 1) = 1 := by decide
    rw [zero,Nat.lt_one_iff] at bound
    rw [bound] at same
    exact absurd same (by decide)
  rw [drive,descriptor] at whole
  rw [memory] at short
  have agree : v.kernel.memory = w.kernel.memory := Option.some.inj same
  rw [agree,short] at whole
  exact absurd (whole.trans byte) (by decide)

/-! ### The position in the file -/

/-- The calls that move the position of an open file. -/
inductive Move
  | fseek (offset : Int) (whence : SeekMode)
  | fread (ptr size nmemb : Nat)

def Moves (fd : Int) (files : Files Running) : Move → Files Running → Prop
  | .fseek offset whence, after => after = (FileLayer.fseek files fd offset whence).2
  | .fread ptr size nmemb, after => after = (FileLayer.fread files ptr size nmemb fd).2

/-- The size that the file's directory item gives. -/
def fileSize (descriptor : FatFileDescriptor) : Nat := descriptor.item.item.file_size.toNat

/-- The position is at most the file's size. -/
def PositionInFile (data : Nat) (files : Files Running) : Prop :=
  ∀ s, files.rest = .ok s → (s.descriptors data).pos ≤ fileSize (s.descriptors data)

/-- A read that succeeds changes memory only within its range, and there only to the bytes of the file that
    follow its position one after another, each of them before the file's end. -/
def DeliversFile (fd : Int) (data : Nat) (files : Files Running) : Move → Files Running → Prop
  | .fseek _ _, _ => True
  | .fread ptr size nmemb, after => ∀ s t p, files.rest = .ok s → s.fs_private = some p → after.rest = .ok t →
    0 < (FileLayer.fread files ptr size nmemb fd).1 → ∀ x, t.kernel.memory x = s.kernel.memory x ∨
      ∃ k < nmemb * size, x = offset ptr k ∧ (s.descriptors data).pos + k < fileSize (s.descriptors data) ∧
        t.kernel.memory x = fileByte s.drive p (firstCluster (s.descriptors data)) ((s.descriptors data).pos + k)

/-- The moves that stay in the file: a seek from the position that is not refused ends there,
    and a read the table has clusters for ends there and goes on only into clusters that lie in a row. -/
def StaysInFile (data : Nat) (files : Files Running) : Move → Prop
  | .fseek offset whence => whence = .CUR → ∀ s, files.rest = .ok s → u32 offset < fileSize (s.descriptors data) →
    u32 ((s.descriptors data).pos + u32 offset) ≤ fileSize (s.descriptors data)
  | .fread _ size nmemb => ∀ s p, files.rest = .ok s → s.fs_private = some p → 0 < size → 0 < nmemb →
    (s.descriptors data).pos + nmemb * size < 2147483648 ∧
    ((∃ i < nmemb, Breaks s.drive p (firstCluster (s.descriptors data)) ((s.descriptors data).pos + i * size) size) ∨
      (s.descriptors data).pos + nmemb * size ≤ fileSize (s.descriptors data) ∧
      ∀ i < nmemb, Plain s.drive p (firstCluster (s.descriptors data)) ((s.descriptors data).pos + i * size) size)

/-- A seek leaves the position, sets it, or adds to it. -/
theorem fat16_seek_cases (descriptor : FatFileDescriptor) (offset : Nat) (whence : SeekMode) :
    (fat16_seek descriptor offset whence).2 = descriptor ∨
    offset < fileSize descriptor ∧
      (whence = .SET ∧ (fat16_seek descriptor offset whence).2 = { descriptor with pos := offset } ∨
        whence = .CUR ∧ (fat16_seek descriptor offset whence).2 =
          { descriptor with pos := u32 (descriptor.pos + offset) }) := by
  unfold fat16_seek
  by_cases directory : descriptor.item.type ≠ .FILE
  · rw [if_pos directory]
    exact .inl rfl
  rw [if_neg directory]
  by_cases past : offset ≥ descriptor.item.item.file_size.toNat
  · exact .inl (by simp only [past,if_true])
  · simp only [past,if_false]
    have inside : offset < fileSize descriptor := Nat.lt_of_not_le past
    cases whence with
    | SET => exact .inr ⟨inside,.inl ⟨rfl,rfl⟩⟩
    | CUR => exact .inr ⟨inside,.inr ⟨rfl,rfl⟩⟩
    | END => exact .inl rfl
    | other whence => exact .inl rfl

section
variable {files after : Files Running} {fd : Int} {data : Nat}

/-- The number stays that of the file, at a position in it. -/
structure Positioned (fd : Int) (data : Nat) (files : Files Running) : Prop where
  file : OpenFile files fd data
  position : PositionInFile data files

private theorem Positioned.stopped (positioned : Positioned fd data files) (halt : Halt) :
    Positioned fd data { files with rest := .error halt } :=
  ⟨positioned.file.rest _,fun _ running => nomatch running⟩

private theorem fseek_positioned {offset : Int} {whence : SeekMode} (positioned : Positioned fd data files)
    (stays : StaysInFile data files (.fseek offset whence)) :
    Positioned fd data (fseek files fd offset whence).2 := by
  cases rest : files.rest with
  | error halt =>
    have same : (fseek files fd offset whence).2 = { files with rest := .error halt } := by
      simp only [fseek,positioned.file.found,if_false,positioned.file.filesystem,fat16_fs,rest]
      rfl
    rw [same]
    exact positioned.stopped halt
  | ok s =>
    rw [fseek_open positioned.file rest]
    refine ⟨positioned.file.rest _,?_⟩
    rintro t running
    cases running
    dsimp only
    rw [Function.update_self]
    rcases fat16_seek_cases (s.descriptors data) (u32 offset) whence with same | ⟨inside,⟨_,set⟩ | ⟨rfl,moved⟩⟩
    · rw [same]
      exact positioned.position s rest
    · rw [set]
      exact Nat.le_of_lt inside
    · rw [moved]
      exact stays rfl s rest inside

private theorem fread_positioned {ptr size nmemb : Nat} (positioned : Positioned fd data files)
    (stays : StaysInFile data files (.fread ptr size nmemb)) :
    Positioned fd data (fread files ptr size nmemb fd).2 ∧
      DeliversFile fd data files (.fread ptr size nmemb) (fread files ptr size nmemb fd).2 := by
  have file := positioned.file
  by_cases refused : size = 0 ∨ nmemb = 0 ∨ fd < 1
  · have answer : fread files ptr size nmemb fd = (-EINVARG,files) := by simp only [fread,refused,if_true]
    rw [answer]
    refine ⟨positioned,fun s t p _ _ _ success => ?_⟩
    rw [answer] at success
    have negative : (0 : Int) < -EINVARG := success
    exact absurd negative (by decide)
  have idle : ∀ halt, (fread files ptr size nmemb fd).2 = { files with rest := .error halt } →
      Positioned fd data (fread files ptr size nmemb fd).2 ∧
        DeliversFile fd data files (.fread ptr size nmemb) (fread files ptr size nmemb fd).2 := by
    intro halt stopped
    rw [stopped]
    exact ⟨positioned.stopped halt,fun s t p _ _ running => nomatch running⟩
  cases rest : files.rest with
  | error halt =>
    refine idle halt ?_
    simp only [fread,refused,if_false,file.found,file.filesystem,fat16_fs,rest]
    rfl
  | ok s =>
    cases mounted : s.fs_private with
    | none =>
      refine idle (.driver .null) ?_
      simp only [fread,refused,if_false,file.found,file.filesystem,fat16_fs,rest,running,read_file,mounted]
      rfl
    | some p =>
      have nonempty : 0 < size := by omega
      have nonzero : 0 < nmemb := by omega
      rcases fread_open file rest mounted nonempty nonzero ptr with ⟨_,stopped⟩ | ⟨res,after,q,m,read,answer⟩
      · exact idle _ (congrArg Prod.snd stopped)
      obtain ⟨small,stays⟩ := stays s p rest mounted nonempty nonzero
      have few : nmemb < 2147483648 := by
        have := Nat.le_mul_of_pos_right nmemb nonempty
        omega
      rw [answer]
      have unmoved : res < 0 → Positioned fd data { files with rest := .ok (afterRead s data q after m) } ∧
          DeliversFile fd data files (.fread ptr size nmemb) { files with rest := .ok (afterRead s data q after m) } := by
        intro failed
        refine ⟨⟨file.rest _,?_⟩,fun _ _ _ _ _ _ success => ?_⟩
        · rintro t running
          cases running
          rw [afterRead_descriptor,fat16_read_failed few failed read]
          exact positioned.position s rest
        · rw [answer] at success
          exact absurd success (Int.lt_asymm failed)
      rcases stays with ⟨i,bound,breaks⟩ | ⟨inside,plain⟩
      · exact unmoved (fat16_read_fails small bound breaks read).1
      · by_cases failed : res < 0
        · exact unmoved failed
        obtain ⟨_,moved,members⟩ := fat16_read_correct nonempty nonzero plain read (Int.not_lt.mp failed)
        refine ⟨⟨file.rest _,?_⟩,?_⟩
        · rintro t running
          cases running
          rw [afterRead_descriptor,moved]
          exact inside
        · rintro s' t p' rest' mounted' running _ x
          rw [rest] at rest'
          cases rest'
          rw [mounted] at mounted'
          cases mounted'
          cases running
          rcases members.delivered x with same | ⟨k,bound,place,byte⟩
          · exact .inl same
          · exact .inr ⟨k,bound,place,by omega,byte⟩

/-- From an open file at a position in it on, moves that stay in the file keep the position in it,
    and the reads that succeed deliver nothing from beyond its end. -/
theorem positions_in_file (file : OpenFile files fd data) (position : PositionInFile data files)
    (moves : List (Move × Files Running)) (run : Run (Moves fd) files moves)
    (each : Each (StaysInFile data) files moves) :
    Always (PositionInFile data) files moves ∧ Run (DeliversFile fd data) files moves := by
  have kept : ∀ s a t, Positioned fd data s → Moves fd s a t → StaysInFile data s a → Positioned fd data t := by
    rintro s a t positioned step stays
    cases a with
    | fseek offset whence =>
      rw [show t = _ from step]
      exact fseek_positioned positioned stays
    | fread ptr size nmemb =>
      rw [show t = _ from step]
      exact (fread_positioned positioned stays).1
  have does : ∀ s a t, Positioned fd data s → Moves fd s a t → StaysInFile data s a → DeliversFile fd data s a t := by
    rintro s a t positioned step stays
    cases a with
    | fseek offset whence => trivial
    | fread ptr size nmemb =>
      rw [show t = _ from step]
      exact (fread_positioned positioned stays).2
  exact ⟨(always_of_kept kept ⟨file,position⟩ run each).mono fun t positioned => positioned.position,
    run_of_kept kept does ⟨file,position⟩ run each⟩

end

private theorem splitOpen_sought (pos offset : Nat) (whence : SeekMode) :
    fseek (splitOpen pos) 1 offset whence =
      ((fat16_seek (splitFile pos) (u32 offset) whence).1,{ splitOpen pos with rest := .ok ⟨splitDrive,some splitVolume,
        Function.update (fun _ => splitFile pos) 0x01020000 (fat16_seek (splitFile pos) (u32 offset) whence).2,
        ⟨fun _ => 0,kernel_heap_init fun _ => 0⟩⟩ }) :=
  fseek_open (splitOpen_file pos) rfl offset whence

/-- The second cluster is sought, and the rest of the file read. -/
theorem positions_in_file_split : ∃ moves : List (Move × Files Running),
    moves.map Prod.fst = [.fseek 512 .SET,.fread 0x500000 488 1] ∧ Run (Moves 1) (splitOpen 0) moves ∧
    Always (PositionInFile 0x01020000) (splitOpen 0) moves ∧ Run (DeliversFile 1 0x01020000) (splitOpen 0) moves := by
  have start : PositionInFile 0x01020000 (splitOpen 0) := by
    rintro s running
    cases running
    exact Nat.zero_le _
  have run : Run (Moves 1) (splitOpen 0) [(.fseek 512 .SET,_),(.fread 0x500000 488 1,_)] := ⟨rfl,rfl,trivial⟩
  refine ⟨_,rfl,run,positions_in_file (splitOpen_file 0) start _ run ⟨fun other => (nomatch other),?_,trivial⟩⟩
  rw [show fseek (splitOpen 0) 1 512 .SET = _ from splitOpen_sought 0 512 .SET]
  rintro s p running mounted _ _
  cases running
  cases mounted
  dsimp only
  rw [Function.update_self]
  have sought : (fat16_seek (splitFile 0) (u32 512) .SET).2 = splitFile 512 := rfl
  rw [show ((512 : Nat) : Int) = 512 from rfl,sought]
  refine ⟨by decide,.inr ⟨by decide,fun i bound => ?_⟩⟩
  obtain rfl : i = 0 := Nat.lt_one_iff.mp bound
  exact ⟨by decide,.inl (by decide),.inl (by decide)⟩

/-- Two seeks that are each accepted take the position past the end of a file of 1000 bytes. -/
theorem position_passes_end : ∃ moves : List (Move × Files Running),
    moves.map Prod.fst = [.fseek 999 .SET,.fseek 999 .CUR] ∧ Run (Moves 1) (splitOpen 0) moves ∧
    ¬ Always (PositionInFile 0x01020000) (splitOpen 0) moves := by
  refine ⟨[(.fseek 999 .SET,_),(.fseek 999 .CUR,_)],rfl,⟨rfl,rfl,trivial⟩,fun always => ?_⟩
  have last := always.2.2
  rw [show fseek (splitOpen 0) 1 999 .SET = _ from splitOpen_sought 0 999 .SET] at last
  dsimp only at last
  rw [fseek_open ((splitOpen_file 0).rest _) rfl 999 .CUR] at last
  have past := last _ rfl
  dsimp only at past
  rw [Function.update_self,Function.update_self] at past
  exact absurd past (by decide)

end SimpOS.OpenFiles
