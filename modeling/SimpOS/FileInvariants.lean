import SimpOS.FileTable

/-!
What holds of the kernel below the file layer, and is kept by everything that the file layer
calls there, is kept by its own calls: they come to the kernel only through the services and
the filesystems of the open files.
-/
namespace SimpOS.FileInvariants
open SimpOS.Machine SimpOS.Strings SimpOS.PathParser SimpOS.FileLayer SimpOS.FileTable

variable {σ : Type}

/-- The functions of the filesystem keep the property. -/
structure FilesystemKeeps (P : σ → Prop) (filesystem : Filesystem σ) : Prop where
  fs_open : ∀ disk path mode s, P s → P (filesystem.fs_open disk path mode s).2
  fs_read : ∀ disk descriptor size nmemb out s, P s → P (filesystem.fs_read disk descriptor size nmemb out s).2
  fs_seek : ∀ private_data offset seek_mode s, P s → P (filesystem.fs_seek private_data offset seek_mode s).2
  fs_stat : ∀ disk private_data stat s, P s → P (filesystem.fs_stat disk private_data stat s).2
  fs_close : ∀ private_data s, P s → P (filesystem.fs_close private_data s).2

/-- The services keep the property, and so do the filesystems of the disks they find. -/
structure ServicesKeep (P : σ → Prop) (services : Services σ) : Prop where
  pathparser_parse : ∀ path s, P s → P (services.pathparser_parse path s).2
  pathparser_free : ∀ root s, P s → P (services.pathparser_free root s)
  disk_get : ∀ index s disk filesystem, services.disk_get index s = some disk → disk.filesystem = some filesystem →
    FilesystemKeeps P filesystem
  kzalloc : ∀ size s, P s → P (services.kzalloc size s).2
  kfree : ∀ ptr s, P s → P (services.kfree ptr s)

/-- The property holds, and the filesystems of the open files keep it. -/
structure Holding (P : σ → Prop) (files : Files σ) : Prop where
  rest : P files.rest
  filesystems : ∀ i, files.file_descriptors i ≠ 0 → ∀ filesystem,
    (files.desc (files.file_descriptors i)).filesystem = some filesystem → FilesystemKeeps P filesystem

/-- The state after a call. -/
def after (services : Services σ) (files : Files σ) : FileCall → Files σ
  | .fopen filename mode_str => (fopen services files filename mode_str).2
  | .fseek fd offset whence => (fseek files fd offset whence).2
  | .fread ptr size nmemb fd => (fread files ptr size nmemb fd).2
  | .fstat fd stat => (fstat files fd stat).2
  | .fclose fd => (fclose services files fd).2

section
variable {P : σ → Prop} {services : Services σ} {files : Files σ}

theorem Holding.with_rest (holding : Holding P files) {rest : σ} (holds : P rest) : Holding P { files with rest := rest } :=
  ⟨holds,holding.filesystems⟩

theorem Holding.found (holding : Holding P files) {fd : Int} (found : file_get_descriptor files fd ≠ 0)
    {filesystem : Filesystem σ} (has : (files.desc (file_get_descriptor files fd)).filesystem = some filesystem) :
    FilesystemKeeps P filesystem := by
  unfold file_get_descriptor at found has
  split_ifs at found has
  · exact absurd rfl found
  · exact holding.filesystems _ found filesystem has

theorem Holding.freed (keeps : ServicesKeep P services) (holding : Holding P files) (desc : Nat) :
    Holding P (file_free_descriptor services files desc) := by
  refine ⟨keeps.kfree desc files.rest holding.rest,fun i => ?_⟩
  unfold file_free_descriptor
  dsimp only
  by_cases own : i = ((files.desc desc).index - 1).toNat
  · subst own
    rw [Function.update_self]
    exact fun nonnull => absurd rfl nonnull
  · rw [Function.update_of_ne own]
    exact holding.filesystems i

/-- A descriptor in a slot of the table, with a filesystem that keeps the property. -/
theorem Holding.filled (holding : Holding P files) (i ptr : Nat) (index : Int) {filesystem : Filesystem σ} (data disk : Nat)
    (keeps : FilesystemKeeps P filesystem) {rest : σ} (holds : P rest) :
    Holding P ⟨Function.update files.file_descriptors i ptr,
      Function.update files.desc ptr ⟨index,some filesystem,data,disk⟩,rest⟩ := by
  refine ⟨holds,fun j nonnull other has => ?_⟩
  dsimp only at nonnull has
  by_cases same : Function.update files.file_descriptors i ptr j = ptr
  · rw [same,Function.update_self] at has
    cases has
    exact keeps
  · have apart : j ≠ i := by
      rintro rfl
      exact same (Function.update_self ..)
    rw [Function.update_of_ne apart] at nonnull same has
    rw [Function.update_of_ne same] at has
    exact holding.filesystems j nonnull other has

private theorem Holding.out_closed (keeps : ServicesKeep P services) (holding : Holding P files) {disk : Option (Disk σ)}
    (data desc : Nat)
    (filesystem : ∀ filesystem, disk.bind Disk.filesystem = some filesystem → FilesystemKeeps P filesystem) :
    Holding P (fopen_out services files none disk data desc).2 := by
  unfold fopen_out
  cases there : disk.bind Disk.filesystem with
  | none =>
    dsimp only
    split_ifs
    · exact holding.freed keeps desc
    · exact holding
  | some other =>
    dsimp only
    have closed := holding.with_rest ((filesystem other there).fs_close data files.rest holding.rest)
    split_ifs
    · exact closed.freed keeps desc
    · exact holding.freed keeps desc
    · exact closed
    · exact holding

/-- The exit of `fopen` keeps the property. -/
theorem Holding.out (keeps : ServicesKeep P services) (holding : Holding P files) (root_path : Option PathRoot)
    {disk : Option (Disk σ)} (data desc : Nat)
    (filesystem : ∀ filesystem, disk.bind Disk.filesystem = some filesystem → FilesystemKeeps P filesystem) :
    Holding P (fopen_out services files root_path disk data desc).2 := by
  cases root_path with
  | none => exact holding.out_closed keeps data desc filesystem
  | some root =>
    exact (holding.with_rest (keeps.pathparser_free root files.rest holding.rest)).out_closed keeps data desc filesystem

/-- Where `fopen` gets before it takes a descriptor. -/
theorem fopen_prepare_kept (keeps : ServicesKeep P services) {rest : σ} (holds : P rest) (filename mode_str : CString) :
    P (fopen_prepare services rest filename mode_str).2 ∧
      match (fopen_prepare services rest filename mode_str).1 with
      | .failed _ disk _ => ∀ filesystem, disk.bind Disk.filesystem = some filesystem → FilesystemKeeps P filesystem
      | .ready _ disk filesystem _ => disk.filesystem = some filesystem ∧ FilesystemKeeps P filesystem := by
  have parsed := keeps.pathparser_parse filename rest holds
  unfold fopen_prepare
  generalize services.pathparser_parse filename rest = result at parsed ⊢
  obtain ⟨_ | root_path,rest₁⟩ := result
  · exact ⟨parsed,fun filesystem none => by cases none⟩
  dsimp only at parsed ⊢
  by_cases empty : root_path.first = []
  · rw [if_pos empty]
    exact ⟨parsed,fun filesystem none => by cases none⟩
  rw [if_neg empty]
  cases got : services.disk_get root_path.drive_no rest₁ with
  | none => exact ⟨parsed,fun filesystem none => by cases none⟩
  | some disk =>
    have finds := keeps.disk_get root_path.drive_no rest₁ disk
    dsimp only
    cases has : disk.filesystem with
    | none => exact ⟨parsed,fun filesystem some => by rw [Option.bind_some,has] at some; cases some⟩
    | some filesystem =>
      have kept := finds filesystem got has
      have own : ∀ other, (some disk).bind Disk.filesystem = some other → FilesystemKeeps P other := fun other same =>
        finds other got same
      dsimp only
      by_cases invalid : file_get_mode_by_string mode_str = .INVALID
      · rw [if_pos invalid]
        exact ⟨parsed,own⟩
      · rw [if_neg invalid]
        have opened := kept.fs_open disk.address root_path.first (file_get_mode_by_string mode_str) rest₁ parsed
        split_ifs
        · exact ⟨opened,own⟩
        · exact ⟨opened,has,kept⟩

theorem Holding.fopen (keeps : ServicesKeep P services) (holding : Holding P files) (filename mode_str : CString) :
    Holding P (fopen services files filename mode_str).2 := by
  obtain ⟨prepared,ends⟩ := fopen_prepare_kept keeps holding.rest filename mode_str
  unfold FileLayer.fopen
  generalize fopen_prepare services files.rest filename mode_str = result at prepared ends
  obtain ⟨stage,rest⟩ := result
  dsimp only at prepared ends ⊢
  have now := holding.with_rest prepared
  cases stage with
  | failed root_path disk data => exact now.out keeps root_path data 0 ends
  | ready root_path disk filesystem data =>
    obtain ⟨has,kept⟩ := ends
    rcases new_file_descriptor_cases services { files with rest := rest } with
      ⟨_,failed⟩ | ⟨i,descriptor,_,_,found⟩
    · dsimp only
      rw [failed]
      refine now.out keeps (some root_path) data 0 fun other same => ?_
      rw [Option.bind_some,has] at same
      cases same
      exact kept
    · dsimp only
      rw [found]
      dsimp only
      rw [Function.update_self,Function.update_idem]
      exact now.filled i _ descriptor.index data disk.address kept (keeps.kzalloc 16 rest prepared)

theorem Holding.fclose (keeps : ServicesKeep P services) (holding : Holding P files) (fd : Int) :
    Holding P (fclose services files fd).2 := by
  unfold FileLayer.fclose
  dsimp only
  split_ifs with missing
  · exact holding
  · cases has : (files.desc (file_get_descriptor files fd)).filesystem with
    | none => exact holding
    | some filesystem =>
      have closed := holding.with_rest ((holding.found missing has).fs_close
        (files.desc (file_get_descriptor files fd)).private_data files.rest holding.rest)
      dsimp only
      split_ifs
      · exact closed.freed keeps _
      · exact closed

/-- Every call of the file layer keeps what the calls below it keep. -/
theorem Holding.after (keeps : ServicesKeep P services) (holding : Holding P files) (call : FileCall) :
    Holding P (after services files call) := by
  cases call with
  | fopen filename mode_str => exact holding.fopen keeps filename mode_str
  | fclose fd => exact holding.fclose keeps fd
  | fseek fd offset whence =>
    unfold FileInvariants.after fseek
    dsimp only
    split_ifs with missing
    · exact holding
    · cases has : (files.desc (file_get_descriptor files fd)).filesystem with
      | none => exact holding
      | some filesystem => exact holding.with_rest ((holding.found missing has).fs_seek _ _ _ _ holding.rest)
  | fread ptr size nmemb fd =>
    unfold FileInvariants.after fread
    dsimp only
    split_ifs with refused missing
    · exact holding
    · exact holding
    · cases has : (files.desc (file_get_descriptor files fd)).filesystem with
      | none => exact holding
      | some filesystem => exact holding.with_rest ((holding.found missing has).fs_read _ _ _ _ _ _ holding.rest)
  | fstat fd stat =>
    unfold FileInvariants.after fstat
    dsimp only
    split_ifs with missing
    · exact holding
    · cases has : (files.desc (file_get_descriptor files fd)).filesystem with
      | none => exact holding
      | some filesystem => exact holding.with_rest ((holding.found missing has).fs_stat _ _ _ _ holding.rest)

end

end SimpOS.FileInvariants
