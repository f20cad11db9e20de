import SimpOS.BinaryLoads
import SimpOS.FailedOpens
import SimpOS.OpenFiles

/-!
Files that can be opened. On a volume whose directories are sound, with a slot left in the table and blocks
in the heap, `fopen` comes back with the number of a file, whose descriptor has the item that the path leads
to and stands at its start.
-/
namespace SimpOS.OpenedFiles
open SimpOS.Machine SimpOS.Memory SimpOS.Strings SimpOS.Extents SimpOS.DiskStreams SimpOS.HeapLayout SimpOS.KernelHeap SimpOS.PathParser SimpOS.FileLayer
open SimpOS.FileTable SimpOS.Fat16 SimpOS.FatChains SimpOS.FatReads SimpOS.FatDirectories SimpOS.FatPaths SimpOS.FatSystem
open SimpOS.FailedOpens SimpOS.OpenFiles
open SimpOS.BinaryLoads (taken taken_cons taken_append)

/-- The path leads to a plain file, and takes no wrong turn. -/
structure PlainFile (drive : Drive) (p : FatPrivate) (path : PathPart) (next : List PathPart) (item : FatDirectoryItem) : Prop where
  met : ∀ other, Met drive p (listing p.root_directory) path.part (next.map PathPart.part) other →
    isDirectory other = true → Subdirectory drive p other
  followed : Followed drive p true (listing p.root_directory) path.part (next.map PathPart.part)
  leads : resolve drive p (listing p.root_directory) path.part (next.map PathPart.part) = some item
  plain : isDirectory item = false

/-- The path is that of the only item of its name in the root directory, a plain file. -/
theorem plainFile_only {drive : Drive} {p : FatPrivate} {path : PathPart} {item : FatDirectoryItem}
    (only : matching path.part (listing p.root_directory) = [item]) (plain : isDirectory item = false) :
    PlainFile drive p path [] item := by
  refine ⟨?_,followed_plain only plain,congrArg List.head? only,plain⟩
  intro other met is
  rw [met_plain only plain met] at is
  cases is

/-- The kernel with a file just opened: its item, and no other data of the volume changed. -/
structure Opened (drive : Drive) (p q : FatPrivate) (item : FatDirectoryItem) (data : Nat) (t : System) : Prop where
  drive : t.drive = drive
  mounted : t.fs_private = some q
  volume : SameVolume p q
  type : (t.descriptors data).item.type = .FILE
  item : (t.descriptors data).item.item = item
  start : (t.descriptors data).pos = 0

section
variable {files : Files Running} {s : System} {filename : CString} {root : PathRoot} {path : PathPart} {next : List PathPart}
  {p : FatPrivate} {k : Kernel} {item : FatDirectoryItem} {live : List Extent} {i : Nat}

/-- The driver opens a plain file, and takes three blocks for it. -/
theorem fat16_open_plain (comes : Comes s filename [114] root path next p k) (volume : Volume s.drive p)
    (file : PlainFile s.drive p path next item) (laid : Laid k.kernel_heap live)
    (room : 3 * p.root_directory.total.toNat + 45 * next.length + 1 ≤ freeBlocks k.kernel_heap) :
    ∃ data t q live', fat16_open root.first .READ { s with kernel := k } = .ok (data,t) ∧ ISERR data = false ∧
      Opened s.drive p q item data t ∧ Laid t.kernel.kernel_heap live' ∧ taken live' = taken live + 3 := by
  obtain ⟨data,k₁,granted,pointer,block,laid₁,count⟩ := kzalloc_page laid (by omega) (by decide : 0 < 8) (by decide)
  rcases get_directory_entry_ends path volume file.met laid₁ (by omega) with
    ⟨wrong,_⟩ | ⟨result,q,k₂,lost,reached,run,same,outcome,kept,_⟩
  · exact absurd file.followed wrong
  obtain ⟨rfl,rfl⟩ := kept file.followed
  rw [file.leads] at outcome
  obtain ⟨f_item,rfl,made,laid₂⟩ := outcome
  have run : fat16_get_directory_entry .mapped s.drive p path next k₁ = .ok (some f_item,q,k₂) := by
    rcases @get_directory_entry_null s.drive p path next k₁ with mapped | ⟨null,_⟩
    · exact mapped.trans run
    · exact absurd (run.symm.trans null) (by simp)
  obtain ⟨t,after⟩ : ∃ t, t = (open_item data { s with kernel := k } (some f_item,q,k₂)).2 := ⟨_,rfl⟩
  have opening : fat16_open root.first .READ { s with kernel := k } = .ok (data,t) := by
    simp only [fat16_open,ne_eq,not_true_eq_false,if_false,granted,pointer,comes.parts,comes.mounted,run,after]
    rfl
  have own : t.descriptors data = ⟨f_item,0⟩ := by
    rw [after]
    exact Function.update_self ..
  cases made with
  | directory is => exact absurd is (by simp [file.plain])
  | file _ type copied _ _ =>
    have opened : Opened s.drive p q item data t := by
      refine ⟨by rw [after]; rfl,by rw [after]; rfl,same,?_,?_,?_⟩
      · rw [own]
        exact type
      · rw [own]
        exact copied
      · rw [own]
    refine ⟨data,t,q,_,opening,ISERR_block block laid₁,opened,by rw [after]; exact laid₂,?_⟩
    simp only [extents,type,taken_append,taken_cons,List.nil_append]
    simp [taken,page]
    omega

/-- What the driver has opened gets a descriptor, where there is a block for it and a slot with a number of its own. -/
theorem fopen_opened {data desc : Nat} {t : System} {k' : Kernel} (rest : files.rest = .ok s)
    (comes : Comes s filename [114] root path next p k) (opening : fat16_open root.first .READ { s with kernel := k } = .ok (data,t))
    (fine : ISERR data = false) (granted : KernelHeap.kzalloc t.kernel 16 = (desc,k')) (pointer : desc ≠ 0)
    (slot : FirstEmpty files i) (numbered : i < 511) :
    ∃ opened, fopen services files filename [114] = ((i : Int) + 1,opened) ∧ opened.rest = .ok { t with kernel := k' } ∧
      OpenFile opened ((i : Int) + 1) data := by
  have answer : fat16_fs.fs_open s.drive.disk root.first .READ (.ok { s with kernel := k }) = (data,.ok t) := by
    simp only [fat16_fs,running,opening]
    rfl
  have ready : Ready services files filename [114] ⟨s.drive.disk,some fat16_fs⟩ fat16_fs data (.ok t) := by
    refine ⟨root,?_⟩
    have parse : services.pathparser_parse filename files.rest = (some root,.ok { s with kernel := k }) := by
      rw [rest]
      simp only [services,running,comes.parsed]
      rfl
    have nonempty : root.first ≠ [] := by
      rw [comes.parts]
      exact List.cons_ne_nil path next
    have disk : services.disk_get root.drive_no (.ok { s with kernel := k }) = some ⟨s.drive.disk,some fat16_fs⟩ := by
      simp only [services,disk_get,comes.drive,comes.mounted]
      rfl
    have reading : file_get_mode_by_string [114] = .READ := by decide
    rw [fopen_prepare,parse]
    simp only [nonempty,if_false,disk,reading,answer,fine]
    rfl
  have granted : services.kzalloc 16 (.ok t) = (desc,.ok { t with kernel := k' }) := by
    simp only [services,running,granted]
  obtain ⟨after,same⟩ : ∃ after,
      after = (served services files ⟨s.drive.disk,some fat16_fs⟩ fat16_fs data (.ok t) i).2 := ⟨_,rfl⟩
  have number : file_get_descriptor after ((i : Int) + 1) = desc := by
    have range : ¬((i : Int) + 1 ≤ 0 ∨ (i : Int) + 1 ≥ (SIMPOS_MAX_FILE_DESCRIPTORS : Int)) := by
      simp only [SIMPOS_MAX_FILE_DESCRIPTORS]
      omega
    have index : ((i : Int) + 1 - 1).toNat = i := by omega
    unfold file_get_descriptor
    rw [if_neg range]
    dsimp only
    rw [index,same]
    simp only [served,Function.update_self,granted]
  have own : after.desc desc = ⟨(i : Int) + 1,some fat16_fs,data,s.drive.disk⟩ := by
    rw [same]
    simp only [served,granted,Function.update_self]
  have result : fopen services files filename [114] = ((i : Int) + 1,after) := by
    rw [fopen_served services ready slot,same]
    rfl
  refine ⟨after,result,?_,by omega,by rwa [number],?_,?_⟩
  · rw [same]
    simp only [served,granted]
  · rw [number,own]
  · rw [number,own]

/-- A plain file is opened, with four blocks for it. -/
theorem fopen_plain (rest : files.rest = .ok s) (comes : Comes s filename [114] root path next p k) (volume : Volume s.drive p)
    (file : PlainFile s.drive p path next item) (laid : Laid k.kernel_heap live)
    (room : 3 * p.root_directory.total.toNat + 45 * next.length + 1 ≤ freeBlocks k.kernel_heap) (few : taken live + 4 ≤ 25600)
    (slot : FirstEmpty files i) (numbered : i < 511) : ∃ opened t data q live',
      fopen services files filename [114] = ((i : Int) + 1,opened) ∧ opened.rest = .ok t ∧ OpenFile opened ((i : Int) + 1) data ∧
      Opened s.drive p q item data t ∧ Laid t.kernel.kernel_heap live' ∧ taken live' = taken live + 4 := by
  obtain ⟨data,t,q,live₁,opening,fine,opened,laid₁,count⟩ := fat16_open_plain comes volume file laid room
  have free := freeBlocks_least laid₁
  unfold taken at count few
  obtain ⟨desc,k₂,granted,pointer,_,laid₂,_⟩ := kzalloc_page laid₁ (by omega) (by decide : 0 < 16) (by decide)
  obtain ⟨after,result,rest₂,is⟩ := fopen_opened rest comes opening fine granted pointer slot numbered
  refine ⟨after,_,data,q,_,result,rest₂,is,?_,laid₂,?_⟩
  · exact ⟨opened.drive,opened.mounted,opened.volume,opened.type,opened.item,opened.start⟩
  · rw [taken_cons]
    unfold taken
    simp only [page]
    omega

end

end SimpOS.OpenedFiles
