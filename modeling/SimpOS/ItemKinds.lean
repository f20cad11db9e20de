import SimpOS.FailedOpens
import SimpOS.LoadedDirectories
import SimpOS.Runs

/-!
Which member of the union of an item the calls on an open descriptor read. The tag beside the union
says what it holds; `fat16_stat` and `fat16_seek` look at it, `fat16_read` does not. The reads are
recorded beside the state.
-/
namespace SimpOS.ItemKinds
open SimpOS.Machine SimpOS.HeapLayout SimpOS.KernelHeap SimpOS.Strings SimpOS.PathParser SimpOS.FileLayer SimpOS.Fat16
open SimpOS.FatDirectories SimpOS.FatPaths SimpOS.DirectoryLookups SimpOS.FatSystem SimpOS.FailedOpens SimpOS.LoadedDirectories
open SimpOS.Runs

inductive Member
  | item
  | directory
deriving DecidableEq, Repr

/-- A read of a member of a union, with the tag beside it. -/
structure Access where
  member : Member
  type : FatItemType
deriving DecidableEq, Repr

def Access.Right (access : Access) : Prop :=
  match access.member with
  | .item => access.type = .FILE
  | .directory => access.type = .DIRECTORY

/-- `fat16_read` takes the directory item out of the union before anything else. -/
def fat16_read_unions (item : FatItem) : List Access := [⟨.item, item.type⟩]
def fat16_seek_unions (item : FatItem) : List Access := if item.type ≠ .FILE then [] else [⟨.item, item.type⟩]
def fat16_stat_unions (item : FatItem) : List Access := if item.type ≠ .FILE then [] else [⟨.item, item.type⟩]
def fat16_fat_item_free_unions (item : FatItem) : List Access :=
  match item.type with
  | .DIRECTORY => [⟨.directory, item.type⟩]
  | .FILE => [⟨.item, item.type⟩]

/-- The kernel as it runs, and the unions that have been read. -/
abbrev Watching := Running × List Access

def unions (s : Running) (descriptor : Nat) (reads : FatItem → List Access) : List Access :=
  match s with
  | .ok s => reads (s.descriptors descriptor).item
  | .error _ => []

/-- A call of the driver, with what it reads of the union of its descriptor's item. -/
def watching {α : Type} (reads : Running → List Access) (call : Running → α × Running) : Watching → α × Watching
  | (s, log) => ((call s).1, (call s).2, log ++ reads s)

def watched : Filesystem Watching where
  fs_open disk path mode := watching (fun _ => []) (fat16_fs.fs_open disk path mode)
  fs_read disk descriptor size nmemb out :=
    watching (unions · descriptor fat16_read_unions) (fat16_fs.fs_read disk descriptor size nmemb out)
  fs_seek private_data offset seek_mode :=
    watching (unions · private_data fat16_seek_unions) (fat16_fs.fs_seek private_data offset seek_mode)
  fs_stat disk private_data stat :=
    watching (unions · private_data fat16_stat_unions) (fat16_fs.fs_stat disk private_data stat)
  fs_close private_data := watching (unions · private_data fat16_fat_item_free_unions) (fat16_fs.fs_close private_data)

/-- What the file layer finds below it. -/
def watchedServices : Services Watching where
  pathparser_parse path := watching (fun _ => []) (services.pathparser_parse path)
  pathparser_free root := fun (s, log) => (services.pathparser_free root s, log)
  disk_get index := fun (s, _) => (services.disk_get index s).map fun disk => ⟨disk.address, disk.filesystem.map fun _ => watched⟩
  kzalloc size := watching (fun _ => []) (services.kzalloc size)
  kfree ptr := fun (s, log) => (services.kfree ptr s, log)

/-- A call on a descriptor. -/
inductive Call
  | fread (ptr size nmemb : Nat)
  | fseek (offset : Int) (whence : SeekMode)
  | fstat (stat : Nat)
  | fclose

def Call.on (call : Call) (fd : Int) (files : Files Watching) : Int × Files Watching :=
  match call with
  | .fread ptr size nmemb => FileLayer.fread files ptr size nmemb fd
  | .fseek offset whence => FileLayer.fseek files fd offset whence
  | .fstat stat => FileLayer.fstat files fd stat
  | .fclose => FileLayer.fclose watchedServices files fd

/-- The calls are made by a kernel that has not stopped. -/
def Calls (fd : Int) (files : Files Watching) (call : Call) (after : Files Watching) : Prop :=
  (∃ s, files.rest.1 = .ok s) ∧ after = (call.on fd files).2

/-- The number is that of an open directory. -/
def OnDirectory (fd : Int) (files : Files Watching) : Prop :=
  ∃ s, files.rest.1 = .ok s ∧ file_get_descriptor files fd ≠ 0 ∧
    (s.descriptors (files.desc (file_get_descriptor files fd)).private_data).item.type = .DIRECTORY

/-- The call reads the union as what the tag says it is; and on a directory, if it does not close that,
    it returns an error and changes nothing. -/
structure RespectsKind (fd : Int) (files : Files Watching) (call : Call) (after : Files Watching) : Prop where
  reads : ∃ made, after.rest.2 = files.rest.2 ++ made ∧ ∀ access ∈ made, access.Right
  refused : OnDirectory fd files → call ≠ .fclose →
    (call.on fd files).1 < 0 ∧ after = { files with rest := (files.rest.1, after.rest.2) }

/-- It is no read of a directory that the file layer lets through. -/
def NoDirectoryRead (fd : Int) (files : Files Watching) (call : Call) : Prop :=
  ∀ ptr size nmemb, call = .fread ptr size nmemb → OnDirectory fd files → size = 0 ∨ nmemb = 0

/-- If the number is one of an open descriptor, it is one of the driver's. -/
def OfDriver (fd : Int) (files : Files Watching) : Prop :=
  file_get_descriptor files fd ≠ 0 → (files.desc (file_get_descriptor files fd)).filesystem = some watched

/-! ### A call -/

section
variable {fd : Int} {files after : Files Watching} {s : System} {call : Call}

/-- The item that the descriptor with the number has open. -/
def itemOf (fd : Int) (files : Files Watching) (s : System) : FatItem :=
  (s.descriptors (files.desc (file_get_descriptor files fd)).private_data).item

theorem onDirectory_iff (running : files.rest.1 = .ok s) (found : file_get_descriptor files fd ≠ 0) :
    OnDirectory fd files ↔ (itemOf fd files s).type = .DIRECTORY := by
  constructor
  · rintro ⟨s',running',_,type⟩
    rw [running] at running'
    cases running'
    exact type
  · exact fun type => ⟨s,running,found,type⟩

theorem closed_not_directory (closed : file_get_descriptor files fd = 0) : ¬OnDirectory fd files := by
  rintro ⟨_,_,found,_⟩
  exact found closed

/-- Whatever has no open descriptor is answered with an error. -/
theorem closed_call (closed : file_get_descriptor files fd = 0) (call : Call) :
    ∃ error, error < 0 ∧ call.on fd files = (error,files) := by
  cases call with
  | fread ptr size nmemb =>
    refine ⟨-EINVARG,by decide,?_⟩
    unfold Call.on FileLayer.fread
    dsimp only
    rw [if_pos closed,ite_self]
  | fseek offset whence => exact ⟨-Machine.EIO,by decide,if_pos closed⟩
  | fstat stat => exact ⟨-Machine.EIO,by decide,if_pos closed⟩
  | fclose => exact ⟨-Machine.EIO,by decide,if_pos closed⟩

theorem unions_running (running : files.rest.1 = .ok s) (reads : FatItem → List Access) :
    unions files.rest.1 (files.desc (file_get_descriptor files fd)).private_data reads = reads (itemOf fd files s) := by
  rw [running]
  rfl

/-- A call that reads nothing of a union and comes back with an error respects every kind. -/
theorem respects_of_refused {error : Int} (negative : error < 0) (answer : call.on fd files = (error,files)) :
    RespectsKind fd files call (call.on fd files).2 := by
  rw [answer]
  refine ⟨⟨[],(List.append_nil _).symm,fun access none => absurd none List.not_mem_nil⟩,fun _ _ => ⟨?_,rfl⟩⟩
  rw [answer]
  exact negative

/-! ### Reads -/

private theorem fread_refused {ptr size nmemb : Nat} (empty : size = 0 ∨ nmemb = 0) :
    (Call.fread ptr size nmemb).on fd files = (-EINVARG,files) := if_pos (or_assoc.mp (.inl empty))

/-- A read that is let through takes the union as a file's. -/
private theorem fread_reads {ptr size nmemb : Nat} (driver : OfDriver fd files) (running : files.rest.1 = .ok s)
    (found : file_get_descriptor files fd ≠ 0) (nonempty : size ≠ 0) (nonzero : nmemb ≠ 0) :
    ((Call.fread ptr size nmemb).on fd files).2.rest.2 = files.rest.2 ++ [⟨.item,(itemOf fd files s).type⟩] := by
  have number : ¬fd < 1 := by
    intro low
    exact found (if_pos (.inl (by omega)))
  unfold Call.on FileLayer.fread
  dsimp only
  rw [if_neg (by simp only [nonempty,nonzero,number,or_self,not_false_eq_true]),if_neg found,driver found]
  exact congrArg (files.rest.2 ++ ·) (unions_running running fat16_read_unions)

theorem fread_respects_iff {ptr size nmemb : Nat} (driver : OfDriver fd files) (running : files.rest.1 = .ok s) :
    RespectsKind fd files (.fread ptr size nmemb) ((Call.fread ptr size nmemb).on fd files).2 ↔
      (OnDirectory fd files → size = 0 ∨ nmemb = 0) := by
  by_cases empty : size = 0 ∨ nmemb = 0
  · exact iff_of_true (respects_of_refused (by decide) (fread_refused empty)) fun _ => empty
  by_cases closed : file_get_descriptor files fd = 0
  · obtain ⟨error,negative,answer⟩ := closed_call closed (.fread ptr size nmemb)
    exact iff_of_true (respects_of_refused negative answer) fun directory => absurd directory (closed_not_directory closed)
  rw [not_or] at empty
  have reads := @fread_reads fd files s ptr size nmemb driver running closed empty.1 empty.2
  constructor
  · rintro ⟨⟨made,log,right⟩,_⟩ directory
    rw [reads] at log
    have file := right _ (List.append_cancel_left log ▸ List.mem_singleton_self _)
    rw [onDirectory_iff running closed] at directory
    exact absurd (directory.symm.trans file) (by decide)
  · intro noDirectory
    have file : (itemOf fd files s).type = .FILE := by
      cases type : (itemOf fd files s).type with
      | FILE => rfl
      | DIRECTORY =>
        have refused := noDirectory ((onDirectory_iff running closed).mpr type)
        exact absurd refused (not_or.mpr empty)
    refine ⟨⟨_,reads,fun access member => ?_⟩,fun directory => ?_⟩
    · rw [List.mem_singleton.mp member]
      exact file
    · rw [onDirectory_iff running closed,file] at directory
      exact absurd directory (by decide)

/-! ### The other calls -/

/-- A call that reads the union behind a check of the tag, and does nothing without it. -/
private theorem checked_respects {result : Int} {t : Running} {item : FatItem} (running : files.rest.1 = .ok s)
    (found : file_get_descriptor files fd ≠ 0) (own : itemOf fd files s = item)
    (answer : call.on fd files = (result,{ files with
      rest := (t,files.rest.2 ++ if item.type ≠ .FILE then [] else [⟨.item,item.type⟩]) }))
    (refused : item.type ≠ .FILE → result < 0 ∧ t = files.rest.1) :
    RespectsKind fd files call (call.on fd files).2 := by
  rw [answer]
  refine ⟨⟨_,rfl,fun access member => ?_⟩,fun directory _ => ?_⟩
  · by_cases file : item.type = .FILE
    · rw [if_neg (not_not.mpr file),List.mem_singleton] at member
      rw [member]
      exact file
    · rw [if_pos file] at member
      exact absurd member List.not_mem_nil
  · rw [onDirectory_iff running found,own] at directory
    obtain ⟨negative,same⟩ := refused (by rw [directory]; decide)
    rw [answer,same]
    exact ⟨negative,rfl⟩

/-- The private data of the descriptor with the number. -/
private abbrev dataOf (fd : Int) (files : Files Watching) : Nat := (files.desc (file_get_descriptor files fd)).private_data

private theorem fseek_answer {offset : Int} {whence : SeekMode} (driver : OfDriver fd files) (running : files.rest.1 = .ok s)
    (found : file_get_descriptor files fd ≠ 0) :
    (Call.fseek offset whence).on fd files = ((seek_file (dataOf fd files) (u32 offset) whence s).1,{ files with
      rest := (.ok (seek_file (dataOf fd files) (u32 offset) whence s).2,files.rest.2 ++ fat16_seek_unions (itemOf fd files s)) }) := by
  unfold Call.on FileLayer.fseek
  dsimp only
  rw [if_neg found,driver found,← unions_running running fat16_seek_unions]
  simp only [watched,watching,fat16_fs,FatSystem.running,running]

private theorem fstat_answer {stat : Nat} (driver : OfDriver fd files) (running : files.rest.1 = .ok s)
    (found : file_get_descriptor files fd ≠ 0) :
    (Call.fstat stat).on fd files = ((fat16_stat (dataOf fd files) stat s).1,{ files with
      rest := (.ok (fat16_stat (dataOf fd files) stat s).2,files.rest.2 ++ fat16_stat_unions (itemOf fd files s)) }) := by
  unfold Call.on FileLayer.fstat
  dsimp only
  rw [if_neg found,driver found,← unions_running running fat16_stat_unions]
  simp only [watched,watching,fat16_fs,FatSystem.running,running]

theorem fseek_respects {offset : Int} {whence : SeekMode} (driver : OfDriver fd files) (running : files.rest.1 = .ok s)
    (found : file_get_descriptor files fd ≠ 0) :
    RespectsKind fd files (.fseek offset whence) ((Call.fseek offset whence).on fd files).2 := by
  refine checked_respects running found rfl (fseek_answer driver running found) fun other => ?_
  have refused : fat16_seek (s.descriptors (dataOf fd files)) (u32 offset) whence = (-EINVARG,s.descriptors (dataOf fd files)) :=
    if_pos other
  unfold seek_file
  rw [refused,running]
  dsimp only
  rw [Function.update_eq_self]
  exact ⟨by decide,rfl⟩

theorem fstat_respects {stat : Nat} (driver : OfDriver fd files) (running : files.rest.1 = .ok s)
    (found : file_get_descriptor files fd ≠ 0) :
    RespectsKind fd files (.fstat stat) ((Call.fstat stat).on fd files).2 := by
  refine checked_respects running found rfl (fstat_answer driver running found) fun other => ?_
  have refused : fat16_stat (dataOf fd files) stat s = (-EINVARG,s) := if_pos other
  rw [refused,running]
  exact ⟨show -EINVARG < 0 by decide,rfl⟩

/-- The item is released as what it is. -/
theorem fclose_respects (driver : OfDriver fd files) (running : files.rest.1 = .ok s)
    (found : file_get_descriptor files fd ≠ 0) : RespectsKind fd files .fclose (Call.fclose.on fd files).2 := by
  have reads : (Call.fclose.on fd files).2.rest.2 = files.rest.2 ++ fat16_fat_item_free_unions (itemOf fd files s) := by
    unfold Call.on FileLayer.fclose
    dsimp only
    rw [if_neg found,driver found,← unions_running running fat16_fat_item_free_unions]
    simp only [watched,watching,fat16_fs,FatSystem.running,running,fat16_close,if_true,file_free_descriptor,watchedServices]
  refine ⟨⟨_,reads,fun access member => ?_⟩,fun _ other => absurd rfl other⟩
  unfold fat16_fat_item_free_unions at member
  cases type : (itemOf fd files s).type with
  | DIRECTORY =>
    rw [type,List.mem_singleton] at member
    rw [member]
    rfl
  | FILE =>
    rw [type,List.mem_singleton] at member
    rw [member]
    rfl

/-- A call respects the kind of its item, unless it reads a directory. -/
theorem call_respects_iff (driver : OfDriver fd files) (running : files.rest.1 = .ok s) :
    RespectsKind fd files call (call.on fd files).2 ↔ NoDirectoryRead fd files call := by
  by_cases closed : file_get_descriptor files fd = 0
  · obtain ⟨error,negative,answer⟩ := closed_call closed call
    exact iff_of_true (respects_of_refused negative answer) fun _ _ _ _ directory => absurd directory (closed_not_directory closed)
  cases call with
  | fread ptr size nmemb =>
    rw [fread_respects_iff driver running]
    constructor
    · intro checked ptr' size' nmemb' same
      cases same
      exact checked
    · exact fun checked => checked ptr size nmemb rfl
  | fseek offset whence => exact iff_of_true (fseek_respects driver running closed) fun _ _ _ other => nomatch other
  | fstat stat => exact iff_of_true (fstat_respects driver running closed) fun _ _ _ other => nomatch other
  | fclose => exact iff_of_true (fclose_respects driver running closed) fun _ _ _ other => nomatch other

/-! ### Runs -/

/-- A slot of the table that is emptied has the number or has not. -/
private theorem OfDriver.freed (driver : OfDriver fd files) (i : Nat) (rest : Watching) :
    OfDriver fd ⟨Function.update files.file_descriptors i 0x00,files.desc,rest⟩ := by
  intro found
  unfold file_get_descriptor at found ⊢
  dsimp only at found ⊢
  by_cases outside : fd ≤ 0 ∨ fd ≥ (SIMPOS_MAX_FILE_DESCRIPTORS : Int)
  · rw [if_pos outside] at found
    exact absurd rfl found
  rw [if_neg outside] at found ⊢
  by_cases emptied : (fd - 1).toNat = i
  · rw [emptied,Function.update_self] at found
    exact absurd rfl found
  · rw [Function.update_of_ne emptied] at found ⊢
    have open_ : file_get_descriptor files fd = files.file_descriptors (fd - 1).toNat := if_neg outside
    rw [← open_] at found ⊢
    exact driver found

/-- The number stays one of the driver's, or of none. -/
theorem call_ofDriver (driver : OfDriver fd files) (call : Call) : OfDriver fd (call.on fd files).2 := by
  by_cases closed : file_get_descriptor files fd = 0
  · obtain ⟨error,_,answer⟩ := closed_call closed call
    rw [answer]
    exact driver
  cases call with
  | fread ptr size nmemb =>
    unfold Call.on FileLayer.fread
    dsimp only
    rw [if_neg closed,driver closed]
    split_ifs
    · exact driver
    · exact driver
  | fseek offset whence =>
    unfold Call.on FileLayer.fseek
    dsimp only
    rw [if_neg closed,driver closed]
    exact driver
  | fstat stat =>
    unfold Call.on FileLayer.fstat
    dsimp only
    rw [if_neg closed,driver closed]
    exact driver
  | fclose =>
    unfold Call.on FileLayer.fclose
    dsimp only
    rw [if_neg closed,driver closed]
    dsimp only
    split_ifs
    · exact driver.freed _ _
    · exact driver

/-- The calls on a descriptor respect the kind of its item if none of them is a read of a directory
    that the file layer lets through. -/
theorem kinds_respected_iff (start : OfDriver fd files) {moves : List (Call × Files Watching)} (run : Run (Calls fd) files moves) :
    Run (RespectsKind fd) files moves ↔ Each (NoDirectoryRead fd) files moves := by
  refine run_iff_each (OfDriver fd) (fun files call after driver step => ?_) (fun files call after driver step => ?_) start run
  · obtain ⟨_,rfl⟩ := step
    exact call_ofDriver driver call
  · obtain ⟨⟨s,running⟩,rfl⟩ := step
    exact call_respects_iff driver running

end

/-! ### A directory that is opened -/

/-- The volume has the directory a. -/
def volumeFour : FatPrivate := { volume_a with root_directory := ⟨0, 0, fun _ => directoryFour, 1, 0⟩ }
def systemFour : System := ⟨twoEntries 66, some volumeFour, fun _ => ⟨⟨0, file_a, 0, none, .FILE⟩, 0⟩, bootKernel⟩

private theorem four_streams : Streams (twoEntries 66) volumeFour := ⟨rfl,rfl⟩
private theorem four_loadable : Loadable (twoEntries 66) volumeFour directoryFour := by
  refine ⟨by decide,by decide,⟨by decide,by decide⟩,2,by decide,fun i inside => ?_,by decide,by decide⟩
  obtain rfl | rfl : i = 0 ∨ i = 1 := by omega
  · decide
  · decide

/-- `fat16_open` returns a descriptor of it. -/
theorem directory_opened : ∃ data t, fat16_open [⟨0,0,[97]⟩] .READ systemFour = .ok (data,t) ∧ ISERR data = false ∧
    (t.descriptors data).item.type = .DIRECTORY := by
  have laid : Laid bootKernel.kernel_heap [] := kernel_heap_init_laid _
  have room : freeBlocks bootKernel.kernel_heap = 25600 := freeBlocks_empty laid
  obtain ⟨data,k₁,granted₁,pointer₁,block₁,laid₁,count₁⟩ := kzalloc_page laid (by omega) (by decide : 0 < 8) (by decide)
  obtain ⟨f_item,k₂,granted₂,pointer₂,_,laid₂,count₂⟩ := kzalloc_page laid₁ (by omega) (by decide : 0 < 8) (by decide)
  obtain ⟨d,q,k₃,load,_⟩ := (load_live_iff four_streams (by decide) four_loadable.reach laid₂).mpr ⟨by omega,four_loadable⟩
  have found : fat16_new_fat_item_for_directory_item (twoEntries 66) volumeFour directoryFour k₁ =
      .ok (some ⟨f_item,item_at k₃.memory d.address,d.address,some d,.DIRECTORY⟩,q,k₃) := by
    unfold fat16_new_fat_item_for_directory_item
    rw [granted₂]
    dsimp only
    rw [if_neg pointer₂,if_pos (by decide),load]
    rfl
  have entry : fat16_get_directory_entry .mapped (twoEntries 66) volumeFour ⟨0,0,[97]⟩ [] k₁ =
      .ok (some ⟨f_item,item_at k₃.memory d.address,d.address,some d,.DIRECTORY⟩,q,k₃) := by
    have hit : istrncmp (fat16_get_full_relative_filename directoryFour) [97] SIMPOS_MAX_PATH = 0 := by decide
    have search : fat16_find_item_in_directory .mapped (twoEntries 66) (some volumeFour.root_directory) [97] volumeFour k₁ =
        .ok (some ⟨f_item,item_at k₃.memory d.address,d.address,some d,.DIRECTORY⟩,q,k₃) := by
      change find_item_loop (twoEntries 66) volumeFour.root_directory [97] 1 0 none volumeFour k₁ = _
      rw [find_item_loop]
      refine (if_pos hit).trans ?_
      show (fat16_new_fat_item_for_directory_item (twoEntries 66) volumeFour directoryFour k₁).bind _ = _
      rw [found]
      rfl
    unfold fat16_get_directory_entry
    rw [search]
    rfl
  have opens : fat16_open [⟨0,0,[97]⟩] .READ systemFour = .ok (data,{ systemFour with
      fs_private := some q
      descriptors := Function.update systemFour.descriptors data
        ⟨⟨f_item,item_at k₃.memory d.address,d.address,some d,.DIRECTORY⟩,0⟩
      kernel := k₃ }) := by
    unfold fat16_open
    rw [if_neg (by decide),show kzalloc systemFour.kernel 8 = (data,k₁) from granted₁]
    dsimp only
    rw [if_neg pointer₁]
    show (fat16_get_directory_entry .mapped (twoEntries 66) volumeFour ⟨0,0,[97]⟩ [] k₁).map _ = _
    rw [entry]
    rfl
  refine ⟨data,_,opens,ISERR_block block₁ laid₁,?_⟩
  dsimp only
  rw [Function.update_self]

/-- The table with the descriptor at its first place. -/
def opened (data : Nat) (t : System) : Files Watching :=
  ⟨fun i => if i = 0 then 0x01000000 else 0, fun _ => ⟨1, some watched, data, 0⟩, (.ok t, [])⟩

theorem opened_ofDriver (data : Nat) (t : System) : OfDriver 1 (opened data t) := fun _ => rfl

/-- A directory that is sought in, asked for its size and closed is taken for one. -/
theorem kinds_respected_seek : ∃ data t moves, fat16_open [⟨0,0,[97]⟩] .READ systemFour = .ok (data,t) ∧
    (t.descriptors data).item.type = .DIRECTORY ∧ moves.map Prod.fst = [Call.fseek 0 .SET,.fclose] ∧
    Run (Calls 1) (opened data t) moves ∧ Run (RespectsKind 1) (opened data t) moves := by
  obtain ⟨data,t,opens,_,type⟩ := directory_opened
  have run : Run (Calls 1) (opened data t) [(.fseek 0 .SET,_),(.fclose,_)] := ⟨⟨⟨t,rfl⟩,rfl⟩,⟨⟨_,rfl⟩,rfl⟩,trivial⟩
  refine ⟨data,t,_,opens,type,rfl,run,(kinds_respected_iff (opened_ofDriver data t) run).mpr ⟨?_,?_,trivial⟩⟩
  · rintro ptr size nmemb read
    simp at read
  · rintro ptr size nmemb read
    simp at read

/-- One byte read from it is read as if it was a file. -/
theorem directory_read : ∃ data t, fat16_open [⟨0,0,[97]⟩] .READ systemFour = .ok (data,t) ∧ ISERR data = false ∧
    ¬∀ moves, Run (Calls 1) (opened data t) moves → Run (RespectsKind 1) (opened data t) moves := by
  obtain ⟨data,t,opens,fine,type⟩ := directory_opened
  refine ⟨data,t,opens,fine,fun respected => ?_⟩
  have run : Run (Calls 1) (opened data t) [(.fread 0x500000 1 1,_)] := ⟨⟨⟨t,rfl⟩,rfl⟩,trivial⟩
  have refused := (fread_respects_iff (opened_ofDriver data t) rfl).mp (respected _ run).1 ⟨t,rfl,show (0x01000000 : Nat) ≠ 0 by decide,type⟩
  exact absurd refused (by decide)

end SimpOS.ItemKinds
