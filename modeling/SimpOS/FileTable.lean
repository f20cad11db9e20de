import SimpOS.FileLayer
import SimpOS.Runs

/-!
The file descriptor table over whole runs. The open files are kept beside the table:
for each the number that `fopen` returned, the pointer to its descriptor and what
was stored there. The table answers for exactly these, as long as `fopen`
never takes the last slot, whose number `file_get_descriptor` refuses, and never gets a
null descriptor from the heap, which it stores unchecked.
-/
namespace SimpOS.FileTable
open SimpOS.Machine SimpOS.Strings SimpOS.PathParser SimpOS.FileLayer SimpOS.Runs

variable {σ : Type} (services : Services σ)

/-- The slot that the search of `new_file_descriptor` stops at. -/
def FirstEmpty (files : Files σ) (i : Nat) : Prop :=
  i < SIMPOS_MAX_FILE_DESCRIPTORS ∧ files.file_descriptors i = 0 ∧ ∀ j < i, files.file_descriptors j ≠ 0

private theorem new_file_descriptor_loop_cases (files : Files σ) (remaining i : Nat)
    (below : ∀ j < i, files.file_descriptors j ≠ 0) :
    ((∀ j < i + remaining, files.file_descriptors j ≠ 0) ∧
      new_file_descriptor_loop services remaining i files = (-ENOMEM,0,files)) ∨
    ∃ k descriptor, k < i + remaining ∧ files.file_descriptors k = 0 ∧ (∀ j < k, files.file_descriptors j ≠ 0) ∧
      descriptor.index = (k : Int) + 1 ∧
      new_file_descriptor_loop services remaining i files = (0,(services.kzalloc 16 files.rest).1,
        ⟨Function.update files.file_descriptors k (services.kzalloc 16 files.rest).1,
          Function.update files.desc (services.kzalloc 16 files.rest).1 descriptor,
          (services.kzalloc 16 files.rest).2⟩) := by
  induction remaining generalizing i with
  | zero => exact .inl ⟨below,rfl⟩
  | succ remaining ih =>
    by_cases empty : files.file_descriptors i = 0
    · refine .inr ⟨i,_,by omega,empty,below,?_,by simp only [new_file_descriptor_loop,empty,if_true]; rfl⟩
      rfl
    · have through : ∀ j < i + 1, files.file_descriptors j ≠ 0 := by
        intro j bound
        rcases Nat.lt_succ_iff_lt_or_eq.mp bound with earlier | rfl
        · exact below j earlier
        · exact empty
      rw [show i + (remaining + 1) = i + 1 + remaining by omega]
      simp only [new_file_descriptor_loop,empty,if_false]
      exact ih (i + 1) through

/-- The search fails on a full table, and else takes the first empty slot, whose
    descriptor gets the slot's number plus one. -/
theorem new_file_descriptor_cases (files : Files σ) :
    ((∀ i, ¬ FirstEmpty files i) ∧ new_file_descriptor services files = (-ENOMEM,0,files)) ∨
    ∃ i descriptor, FirstEmpty files i ∧ descriptor.index = (i : Int) + 1 ∧
      new_file_descriptor services files = (0,(services.kzalloc 16 files.rest).1,
        ⟨Function.update files.file_descriptors i (services.kzalloc 16 files.rest).1,
          Function.update files.desc (services.kzalloc 16 files.rest).1 descriptor,
          (services.kzalloc 16 files.rest).2⟩) := by
  rcases new_file_descriptor_loop_cases services files SIMPOS_MAX_FILE_DESCRIPTORS 0 (by simp) with
    ⟨full,failed⟩ | ⟨i,descriptor,bound,empty,below,index,found⟩
  · exact .inl ⟨fun i first => full i (by simpa using first.1) first.2.1,failed⟩
  · exact .inr ⟨i,descriptor,⟨by simpa using bound,empty,below⟩,index,found⟩

/-- `fopen` before it takes a descriptor is ready with this filesystem, private data and disk. -/
def Ready (files : Files σ) (filename mode_str : CString) (disk : Disk σ) (filesystem : Filesystem σ)
    (descriptor_private_data : Nat) (rest : σ) : Prop :=
  ∃ root_path, fopen_prepare services files.rest filename mode_str =
    (.ready root_path disk filesystem descriptor_private_data,rest)

private theorem fopen_out_table (files : Files σ) (root_path : Option PathRoot) (disk : Option (Disk σ))
    (descriptor_private_data : Nat) :
    ∃ rest, fopen_out services files root_path disk descriptor_private_data 0 = (0,{ files with rest := rest }) := by
  refine ⟨(fopen_out services files root_path disk descriptor_private_data 0).2.rest,?_⟩
  cases root_path <;> cases filesystem : disk.bind Disk.filesystem <;>
    by_cases data : descriptor_private_data = 0 <;> simp [fopen_out,filesystem,data]

theorem firstEmpty_unique {files : Files σ} {i j : Nat} (first : FirstEmpty files i) (other : FirstEmpty files j) :
    i = j := by
  rcases Nat.lt_trichotomy i j with less | same | more
  · exact absurd first.2.1 (other.2.2 i less)
  · exact same
  · exact absurd other.2.1 (first.2.2 j more)

/-- The number that `fopen` returns and the state it leaves when it takes a slot. -/
def served (files : Files σ) (disk : Disk σ) (filesystem : Filesystem σ) (data : Nat) (rest : σ) (i : Nat) :
    Int × Files σ :=
  ((i : Int) + 1,⟨Function.update files.file_descriptors i (services.kzalloc 16 rest).1,
    Function.update files.desc (services.kzalloc 16 rest).1 ⟨(i : Int) + 1,some filesystem,data,disk.address⟩,
    (services.kzalloc 16 rest).2⟩)

theorem fopen_served {files : Files σ} {filename mode_str : CString} {disk : Disk σ} {filesystem : Filesystem σ}
    {data : Nat} {rest : σ} {i : Nat} (ready : Ready services files filename mode_str disk filesystem data rest)
    (first : FirstEmpty files i) :
    fopen services files filename mode_str = served services files disk filesystem data rest i := by
  obtain ⟨root_path,prepared⟩ := ready
  rcases new_file_descriptor_cases services { files with rest := rest } with
    ⟨full,_⟩ | ⟨j,descriptor,other,index,found⟩
  · exact absurd first (full i)
  · obtain rfl := firstEmpty_unique first other
    simp only [fopen,prepared,found,Int.lt_irrefl,if_false,Function.update_self,Function.update_idem,index,served]

/-- `fopen` returns 0 and leaves the table and the descriptors, or it takes the first empty slot. -/
theorem fopen_cases (files : Files σ) (filename mode_str : CString) :
    (∃ rest, fopen services files filename mode_str = (0,{ files with rest := rest })) ∨
    ∃ disk filesystem data rest i, Ready services files filename mode_str disk filesystem data rest ∧
      FirstEmpty files i ∧
      fopen services files filename mode_str = served services files disk filesystem data rest i := by
  rcases prepared : fopen_prepare services files.rest filename mode_str with
    ⟨⟨root_path,disk,data⟩ | ⟨root_path,disk,filesystem,data⟩,rest⟩
  · obtain ⟨after,out⟩ := fopen_out_table services { files with rest := rest } root_path disk data
    refine .inl ⟨after,?_⟩
    simp only [fopen,prepared]
    exact out
  · rcases new_file_descriptor_cases services { files with rest := rest } with
      ⟨full,failed⟩ | ⟨i,descriptor,first,index,found⟩
    · obtain ⟨after,out⟩ := fopen_out_table services { files with rest := rest } (some root_path) (some disk) data
      refine .inl ⟨after,?_⟩
      simp only [fopen,prepared,failed]
      exact out
    · exact .inr ⟨disk,filesystem,data,rest,i,⟨root_path,prepared⟩,first,
        fopen_served services ⟨root_path,prepared⟩ first⟩

/-- `fclose` leaves the table, or it clears the slot of the descriptor the number resolves to. -/
theorem fclose_cases (files : Files σ) (fd : Int) :
    ((fclose services files fd).1 ≠ 0 ∧
      ∃ rest, (fclose services files fd).2 = { files with rest := rest }) ∨
    ((fclose services files fd).1 = 0 ∧ file_get_descriptor files fd ≠ 0 ∧
      ∃ rest, (fclose services files fd).2 = ⟨Function.update files.file_descriptors
        ((files.desc (file_get_descriptor files fd)).index - 1).toNat 0,files.desc,rest⟩) := by
  unfold fclose
  by_cases missing : file_get_descriptor files fd = 0
  · simp only [missing,if_true]
    exact .inl ⟨by decide,files.rest,rfl⟩
  · simp only [missing,if_false,ne_eq,not_false_eq_true,true_and]
    cases (files.desc (file_get_descriptor files fd)).filesystem with
    | none => exact .inl ⟨by simp,files.rest,rfl⟩
    | some filesystem =>
      rcases answer : filesystem.fs_close (files.desc (file_get_descriptor files fd)).private_data files.rest with
        ⟨res,rest⟩
      by_cases closed : res = 0
      · simp only [answer,closed,if_true]
        exact .inr ⟨trivial,_,rfl⟩
      · simp only [answer,closed,if_false]
        exact .inl ⟨not_false,rest,rfl⟩

/-- An open file: its number, the pointer to its descriptor and what `fopen` stored there. -/
structure Opened (σ : Type) where
  fd : Int
  desc : Nat
  created : FileDescriptor σ

structure FileState (σ : Type) where
  files : Files σ
  opened : List (Opened σ)

inductive FileCall
  | fopen (filename mode_str : CString)
  | fseek (fd offset : Int) (whence : SeekMode)
  | fread (ptr size nmemb : Nat) (fd : Int)
  | fstat (fd : Int) (stat : Nat)
  | fclose (fd : Int)

/-- The descriptor that an `fopen` which returned fd has made, and where. -/
def created_by (files : Files σ) (filename mode_str : CString) (fd : Int) : Opened σ :=
  match fopen_prepare services files.rest filename mode_str with
  | (.ready _ disk filesystem data, rest) =>
    ⟨fd, (services.kzalloc 16 rest).1, ⟨fd, some filesystem, data, disk.address⟩⟩
  | (.failed _ _ _, _) => ⟨fd, 0, ⟨fd, none, 0, 0⟩⟩

/-- A call and what it does to the files that are open. The heap gives no open
    descriptor's memory out again. -/
def Step (s : FileState σ) : FileCall → FileState σ → Prop
  | .fopen filename mode_str, t =>
    (∀ o ∈ s.opened, o.desc ≠ (services.kzalloc 16 (fopen_prepare services s.files.rest filename mode_str).2).1) ∧
      t.files = (fopen services s.files filename mode_str).2 ∧
      t.opened = if 0 < (fopen services s.files filename mode_str).1 then
        created_by services s.files filename mode_str (fopen services s.files filename mode_str).1 :: s.opened
        else s.opened
  | .fseek fd offset whence, t => t = ⟨(fseek s.files fd offset whence).2, s.opened⟩
  | .fread ptr size nmemb fd, t => t = ⟨(fread s.files ptr size nmemb fd).2, s.opened⟩
  | .fstat fd stat, t => t = ⟨(fstat s.files fd stat).2, s.opened⟩
  | .fclose fd, t =>
    t.files = (fclose services s.files fd).2 ∧
      t.opened = if (fclose services s.files fd).1 = 0 then s.opened.filter (fun o => o.fd ≠ fd) else s.opened

/-- The open files have different numbers, each resolves to exactly the descriptor created
    for it, in a slot of its own, and every other number to nothing. -/
structure TableCorrect (s : FileState σ) : Prop where
  distinct : (s.opened.map Opened.fd).Nodup
  slot : ∀ o ∈ s.opened, s.files.file_descriptors (o.fd - 1).toNat = o.desc
  resolved : ∀ o ∈ s.opened, file_get_descriptor s.files o.fd = o.desc ∧ o.desc ≠ 0 ∧ s.files.desc o.desc = o.created
  closed : ∀ fd, (∀ o ∈ s.opened, o.fd ≠ fd) → file_get_descriptor s.files fd = 0

private structure Invariant (s : FileState σ) : Prop where
  distinct : (s.opened.map Opened.fd).Nodup
  placed : ∀ o ∈ s.opened, ∃ i : Nat, i < 511 ∧ o.fd = (i : Int) + 1 ∧ s.files.file_descriptors i = o.desc ∧ o.desc ≠ 0 ∧
    s.files.desc o.desc = o.created ∧ o.created.index = (i : Int) + 1
  taken : ∀ i : Nat, i < 512 → s.files.file_descriptors i ≠ 0 → ∃ o ∈ s.opened, o.fd = (i : Int) + 1

private theorem file_get_descriptor_slot (files : Files σ) {i : Nat} (bound : i < 511) :
    file_get_descriptor files ((i : Int) + 1) = files.file_descriptors i := by
  have inside : ¬ ((i : Int) + 1 ≤ 0 ∨ (i : Int) + 1 ≥ ((512 : Nat) : Int)) := by omega
  simp only [file_get_descriptor,inside,if_false]
  congr 1
  omega

private theorem Invariant.correct {s : FileState σ} (inv : Invariant s) : TableCorrect s := by
  refine ⟨inv.distinct,fun o member => ?_,fun o member => ?_,fun fd other => ?_⟩
  · obtain ⟨i,_,number,slot,_⟩ := inv.placed o member
    have index : (o.fd - 1).toNat = i := by omega
    rw [index,slot]
  · obtain ⟨i,bound,number,slot,nonnull,content,_⟩ := inv.placed o member
    refine ⟨?_,nonnull,content⟩
    rw [number,file_get_descriptor_slot s.files bound,slot]
  · by_contra found
    have inside : ¬ (fd ≤ 0 ∨ fd ≥ ((512 : Nat) : Int)) := by
      intro outside
      exact found (by simp only [file_get_descriptor,outside,if_true])
    have position : fd = ((fd - 1).toNat : Int) + 1 := by omega
    rw [position,file_get_descriptor_slot s.files (by omega)] at found
    obtain ⟨o,member,number⟩ := inv.taken _ (by omega) found
    exact other o member (number.trans position.symm)

/-- A call that changes neither the table nor the descriptors. -/
private theorem Invariant.same {s : FileState σ} (inv : Invariant s) (rest : σ) :
    Invariant ⟨{ s.files with rest := rest },s.opened⟩ :=
  ⟨inv.distinct,inv.placed,inv.taken⟩

private theorem created_by_ready {files : Files σ} {filename mode_str : CString} {disk : Disk σ}
    {filesystem : Filesystem σ} {data : Nat} {rest : σ} (fd : Int)
    (ready : Ready services files filename mode_str disk filesystem data rest) :
    created_by services files filename mode_str fd =
      ⟨fd,(services.kzalloc 16 rest).1,⟨fd,some filesystem,data,disk.address⟩⟩ := by
  obtain ⟨root_path,prepared⟩ := ready
  simp only [created_by,prepared]

/-- The condition on a call: an `fopen` that comes to taking a descriptor finds an empty
    slot before the last one, or none, and is granted the memory. -/
def Granted (s : FileState σ) (call : FileCall) : Prop :=
  ∀ filename mode_str, call = .fopen filename mode_str → ∀ disk filesystem data rest i,
    Ready services s.files filename mode_str disk filesystem data rest → FirstEmpty s.files i →
      i < 511 ∧ (services.kzalloc 16 rest).1 ≠ 0

private theorem invariant_fopen {s t : FileState σ} {filename mode_str : CString} (inv : Invariant s)
    (step : Step services s (.fopen filename mode_str) t) (granted : Granted services s (.fopen filename mode_str)) :
    Invariant t := by
  obtain ⟨files,opened⟩ := t
  obtain ⟨fresh,stored,recorded⟩ := step
  dsimp only at stored recorded
  rcases fopen_cases services s.files filename mode_str with
    ⟨rest,failed⟩ | ⟨disk,filesystem,data,rest,i,ready,first,made⟩
  · simp only [failed,Int.lt_irrefl,if_false] at stored recorded
    rw [stored,recorded]
    exact inv.same rest
  · obtain ⟨bound,nonnull⟩ := granted filename mode_str rfl disk filesystem data rest i ready first
    have positive : (0 : Int) < (i : Int) + 1 := by omega
    have entry := created_by_ready services ((i : Int) + 1) ready
    obtain ⟨root_path,prepared⟩ := ready
    simp only [made,served,positive,if_true,entry] at stored recorded
    simp only [prepared] at fresh
    generalize (services.kzalloc 16 rest).1 = pointer at *
    have elsewhere : ∀ o ∈ s.opened, o.fd ≠ (i : Int) + 1 := by
      rintro o member number
      obtain ⟨j,_,position,slot,some,_⟩ := inv.placed o member
      have same : j = i := by omega
      exact some (slot ▸ same ▸ first.2.1)
    rw [stored,recorded]
    refine ⟨?_,?_,?_⟩
    · simp only [List.map_cons,List.nodup_cons]
      refine ⟨fun member => ?_,inv.distinct⟩
      obtain ⟨o,inside,number⟩ := List.mem_map.mp member
      exact elsewhere o inside number
    · rintro o member
      rcases List.mem_cons.mp member with rfl | old
      · exact ⟨i,bound,rfl,by simp,nonnull,by simp,rfl⟩
      · obtain ⟨j,below,number,slot,some,content,index⟩ := inv.placed o old
        have apart : j ≠ i := by
          rintro rfl
          exact elsewhere o old number
        have other : o.desc ≠ pointer := fresh o old
        refine ⟨j,below,number,?_,some,?_,index⟩
        · exact (Function.update_of_ne apart _ _).trans slot
        · exact (Function.update_of_ne other _ _).trans content
    · intro j below full
      by_cases same : j = i
      · exact ⟨_,List.mem_cons_self,by rw [same]⟩
      · have full : s.files.file_descriptors j ≠ 0 := by simpa only [Function.update_of_ne same] using full
        obtain ⟨o,member,number⟩ := inv.taken j below full
        exact ⟨o,List.mem_cons_of_mem _ member,number⟩

private theorem invariant_fclose {s t : FileState σ} {fd : Int} (inv : Invariant s)
    (step : Step services s (.fclose fd) t) : Invariant t := by
  obtain ⟨files,opened⟩ := t
  obtain ⟨stored,recorded⟩ := step
  dsimp only at stored recorded
  rcases fclose_cases services s.files fd with ⟨failed,rest,same⟩ | ⟨closed,found,rest,cleared⟩
  · rw [if_neg failed] at recorded
    rw [stored,recorded,same]
    exact inv.same rest
  · obtain ⟨own,member,number⟩ : ∃ o ∈ s.opened, o.fd = fd := by
      by_contra none
      exact found (inv.correct.closed fd fun o member same => none ⟨o,member,same⟩)
    obtain ⟨i,bound,position,slot,_,content,index⟩ := inv.placed own member
    have resolved : file_get_descriptor s.files fd = own.desc := number ▸ (inv.correct.resolved own member).1
    have cell : ((s.files.desc (file_get_descriptor s.files fd)).index - 1).toNat = i := by
      rw [resolved,content,index]
      omega
    rw [cell] at cleared
    rw [if_pos closed] at recorded
    rw [stored,recorded,cleared]
    refine ⟨?_,?_,?_⟩
    · exact (List.filter_sublist.map Opened.fd).nodup inv.distinct
    · rintro o kept
      obtain ⟨old,apart⟩ := List.mem_filter.mp kept
      obtain ⟨j,below,place,pointer,some,stays,self⟩ := inv.placed o old
      have different : j ≠ i := by
        rintro rfl
        simp only [decide_eq_true_eq] at apart
        exact apart (place.trans (position.symm.trans number))
      exact ⟨j,below,place,(Function.update_of_ne different _ _).trans pointer,some,stays,self⟩
    · intro j below full
      by_cases same : j = i
      · have full : Function.update s.files.file_descriptors i 0 j ≠ 0 := full
        rw [same,Function.update_self] at full
        exact absurd rfl full
      · have full : s.files.file_descriptors j ≠ 0 := by simpa only [Function.update_of_ne same] using full
        obtain ⟨o,old,place⟩ := inv.taken j below full
        have apart : o.fd ≠ fd := by omega
        exact ⟨o,List.mem_filter.mpr ⟨old,by simpa using apart⟩,place⟩

private theorem fseek_table (files : Files σ) (fd offset : Int) (whence : SeekMode) :
    ∃ rest, (fseek files fd offset whence).2 = { files with rest := rest } := by
  unfold fseek
  by_cases missing : file_get_descriptor files fd = 0
  · exact ⟨files.rest,by simp only [missing,if_true]⟩
  · cases filesystem : (files.desc (file_get_descriptor files fd)).filesystem with
    | none => exact ⟨files.rest,by simp only [missing,if_false,filesystem]⟩
    | some _ => exact ⟨_,by simp only [missing,if_false,filesystem]; rfl⟩
private theorem fread_table (files : Files σ) (ptr size nmemb : Nat) (fd : Int) :
    ∃ rest, (fread files ptr size nmemb fd).2 = { files with rest := rest } := by
  unfold fread
  by_cases refused : size = 0 ∨ nmemb = 0 ∨ fd < 1
  · exact ⟨files.rest,by simp only [refused,if_true]⟩
  · by_cases missing : file_get_descriptor files fd = 0
    · exact ⟨files.rest,by simp only [refused,if_false,missing,if_true]⟩
    · cases filesystem : (files.desc (file_get_descriptor files fd)).filesystem with
      | none => exact ⟨files.rest,by simp only [refused,missing,if_false,filesystem]⟩
      | some _ => exact ⟨_,by simp only [refused,missing,if_false,filesystem]; rfl⟩
private theorem fstat_table (files : Files σ) (fd : Int) (stat : Nat) :
    ∃ rest, (fstat files fd stat).2 = { files with rest := rest } := by
  unfold fstat
  by_cases missing : file_get_descriptor files fd = 0
  · exact ⟨files.rest,by simp only [missing,if_true]⟩
  · cases filesystem : (files.desc (file_get_descriptor files fd)).filesystem with
    | none => exact ⟨files.rest,by simp only [missing,if_false,filesystem]⟩
    | some _ => exact ⟨_,by simp only [missing,if_false,filesystem]; rfl⟩

private theorem invariant_step {s t : FileState σ} {call : FileCall} (inv : Invariant s)
    (step : Step services s call t) (granted : Granted services s call) : Invariant t := by
  cases call with
  | fopen filename mode_str => exact invariant_fopen services inv step granted
  | fclose fd => exact invariant_fclose services inv step
  | fseek fd offset whence =>
    obtain ⟨rest,same⟩ := fseek_table s.files fd offset whence
    rw [step,same]
    exact inv.same rest
  | fread ptr size nmemb fd =>
    obtain ⟨rest,same⟩ := fread_table s.files ptr size nmemb fd
    rw [step,same]
    exact inv.same rest
  | fstat fd stat =>
    obtain ⟨rest,same⟩ := fstat_table s.files fd stat
    rw [step,same]
    exact inv.same rest

/-- An `fopen` that leaves the table correct was granted a descriptor below the last slot. -/
private theorem fopen_granted {s t : FileState σ} {call : FileCall} (step : Step services s call t)
    (correct : TableCorrect t) : Granted services s call := by
  rintro filename mode_str rfl disk filesystem data rest i ready first
  obtain ⟨_,stored,recorded⟩ := step
  have positive : (0 : Int) < (i : Int) + 1 := by omega
  simp only [fopen_served services ready first,served,positive,if_true,created_by_ready services _ ready] at stored recorded
  obtain ⟨resolved,nonnull,_⟩ := correct.resolved _ (recorded ▸ List.mem_cons_self)
  refine ⟨?_,nonnull⟩
  by_contra last
  have refused : (i : Int) + 1 ≤ 0 ∨ (i : Int) + 1 ≥ ((512 : Nat) : Int) := by omega
  simp only [file_get_descriptor,refused,if_true] at resolved
  exact nonnull resolved.symm

/-- The table answers for exactly the open files in exactly the runs where every `fopen`
    that comes to taking a descriptor finds one below the last slot and is granted its memory. -/
theorem table_correct_iff (moves : List (FileCall × FileState σ)) (desc : Nat → FileDescriptor σ) (rest : σ)
    (run : Run (Step services) ⟨⟨fun _ => 0,desc,rest⟩,[]⟩ moves) :
    Always TableCorrect ⟨⟨fun _ => 0,desc,rest⟩,[]⟩ moves ↔
      Each (Granted services) ⟨⟨fun _ => 0,desc,rest⟩,[]⟩ moves := by
  refine always_iff_each Invariant ?_ (fun s inv => inv.correct) ?_ ?_ run
  · intro s call t inv step granted
    exact invariant_step services inv step granted
  · intro s call t _ step correct
    exact fopen_granted services step correct
  · exact ⟨List.nodup_nil,fun o member => (nomatch member),fun i _ full => absurd rfl full⟩

/-- A kernel whose only disk holds one file that opens for everyone, and whose heap gives out
    one block after the other from the address in its state on. -/
def oneFile : Services Nat where
  pathparser_parse _ next := (some ⟨0x6000, 0, [⟨0x7000, 0x7800, [102]⟩]⟩, next)
  pathparser_free _ next := next
  disk_get _ _ := some ⟨0x9000, some ⟨fun _ _ _ next => (0x8000, next), fun _ _ _ _ _ next => (0, next),
    fun _ _ _ next => (0, next), fun _ _ _ next => (0, next), fun _ next => (0, next)⟩⟩
  kzalloc _ next := (next, next + 4096)
  kfree _ next := next

private theorem oneFile_ready (files : Files Nat) :
    ∃ disk filesystem, Ready oneFile files [48,58,47,102] [114] disk filesystem 0x8000 files.rest :=
  ⟨_,_,_,rfl⟩

/-- The first k slots are taken and the heap has passed every descriptor. -/
private structure Filled (k : Nat) (s : FileState Nat) : Prop where
  taken : ∀ i < k, s.files.file_descriptors i ≠ 0
  empty : ∀ i, k ≤ i → s.files.file_descriptors i = 0
  passed : ∀ o ∈ s.opened, o.desc < s.files.rest
  positive : 0 < s.files.rest

private theorem filled_step {k : Nat} {s : FileState Nat} (filled : Filled k s) (bound : k < 512) :
    ∃ t, Step oneFile s (.fopen [48,58,47,102] [114]) t ∧ Filled (k + 1) t := by
  obtain ⟨disk,filesystem,ready⟩ := oneFile_ready s.files
  have first : FirstEmpty s.files k := ⟨bound,filled.empty k (Nat.le_refl k),filled.taken⟩
  have positive : (0 : Int) < (k : Int) + 1 := by omega
  have made := fopen_served oneFile ready first
  have entry := created_by_ready oneFile ((k : Int) + 1) ready
  refine ⟨⟨(served oneFile s.files disk filesystem 0x8000 s.files.rest k).2,
    created_by oneFile s.files [48,58,47,102] [114] ((k : Int) + 1) :: s.opened⟩,
    ⟨fun o member => Nat.ne_of_lt (filled.passed o member),by rw [made],?_⟩,?_⟩
  · rw [made]
    exact (if_pos positive).symm
  rw [entry]
  constructor
  · intro i below
    by_cases same : i = k
    · have stored : (served oneFile s.files disk filesystem 0x8000 s.files.rest k).2.file_descriptors k =
          s.files.rest := Function.update_self k _ _
      rw [same]
      exact fun null => Nat.ne_of_gt filled.positive (stored.symm.trans null)
    · exact fun null => filled.taken i (by omega) ((Function.update_of_ne same _ _).symm.trans null)
  · intro i above
    exact (Function.update_of_ne (by omega) _ _).trans (filled.empty i (by omega))
  · intro o member
    rcases List.mem_cons.mp member with rfl | old
    · exact Nat.lt_add_of_pos_right (by decide)
    · exact Nat.lt_add_right 4096 (filled.passed o old)
  · exact Nat.add_pos_left filled.positive 4096

private theorem fill {k : Nat} (remaining : Nat) (s : FileState Nat) (filled : Filled k s)
    (count : k + remaining = 511) :
    ∃ moves : List (FileCall × FileState Nat), moves.length = remaining + 1 ∧
      (∀ move ∈ moves, move.1 = .fopen [48,58,47,102] [114]) ∧ Run (Step oneFile) s moves ∧ ¬ Always TableCorrect s moves := by
  induction remaining generalizing k s with
  | zero =>
    obtain ⟨t,step,_⟩ := filled_step filled (by omega)
    refine ⟨[(_,t)],rfl,by simp,⟨step,trivial⟩,fun always => ?_⟩
    obtain ⟨disk,filesystem,ready⟩ := oneFile_ready s.files
    have first : FirstEmpty s.files k := ⟨by simp; omega,filled.empty k (Nat.le_refl k),filled.taken⟩
    have granted := fopen_granted oneFile step always.2
    have below := (granted _ _ rfl disk filesystem _ _ k ready first).1
    omega
  | succ remaining ih =>
    obtain ⟨t,step,next⟩ := filled_step filled (by omega)
    obtain ⟨moves,length,calls,run,fails⟩ := ih t next (by omega)
    refine ⟨(_,t) :: moves,by simp [length],?_,⟨step,run⟩,fun always => fails always.2⟩
    rintro move member
    rcases List.mem_cons.mp member with rfl | later
    · rfl
    · exact calls move later

/-- 512 files are opened: the last one gets a number that resolves to nothing. -/
theorem table_full : ∃ moves : List (FileCall × FileState Nat),
    moves.length = 512 ∧ (∀ move ∈ moves, move.1 = .fopen [48,58,47,102] [114]) ∧
    Run (Step oneFile) ⟨⟨fun _ => 0,fun _ => ⟨0,none,0,0⟩,0x01000000⟩,[]⟩ moves ∧
    ¬ Always TableCorrect ⟨⟨fun _ => 0,fun _ => ⟨0,none,0,0⟩,0x01000000⟩,[]⟩ moves :=
  fill 511 _ ⟨by simp,fun _ _ => rfl,by simp,by decide⟩ rfl

/-- A file is opened and closed. -/
theorem table_correct_closed : ∃ moves : List (FileCall × FileState Nat),
    moves.map Prod.fst = [.fopen [48,58,47,102] [114],.fclose 1] ∧
    Run (Step oneFile) ⟨⟨fun _ => 0,fun _ => ⟨0,none,0,0⟩,0x01000000⟩,[]⟩ moves ∧
    Always TableCorrect ⟨⟨fun _ => 0,fun _ => ⟨0,none,0,0⟩,0x01000000⟩,[]⟩ moves := by
  have run : Run (Step oneFile) ⟨⟨fun _ => 0,fun _ => ⟨0,none,0,0⟩,0x01000000⟩,[]⟩
      [(.fopen [48,58,47,102] [114],⟨_,_⟩),(.fclose 1,⟨_,_⟩)] := ⟨⟨by simp,rfl,rfl⟩,⟨rfl,rfl⟩,trivial⟩
  refine ⟨_,rfl,run,(table_correct_iff oneFile _ _ _ run).mpr ⟨?_,?_,trivial⟩⟩
  · rintro _ _ same disk filesystem data rest i ⟨root_path,prepared⟩ first
    have position : i = 0 := firstEmpty_unique first ⟨by decide,rfl,by simp⟩
    cases same
    obtain ⟨_,_,_,other⟩ := oneFile_ready ⟨fun _ => 0,fun _ => ⟨0,none,0,0⟩,0x01000000⟩
    have next := congrArg Prod.snd (prepared.symm.trans other)
    simp only [] at next
    exact ⟨by omega,by rw [next]; decide⟩
  · exact fun _ _ same => (nomatch same)

end SimpOS.FileTable
