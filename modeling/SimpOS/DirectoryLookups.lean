import SimpOS.FatPaths

/-!
Loading a directory of the disk and looking a name up in it. The count leaves the deleted
entries out, but the array that is searched has them in, and the search looks at the first
entries only, as many as were counted: every deleted entry hides a later one.
-/
namespace SimpOS.DirectoryLookups
open SimpOS.Machine SimpOS.Strings SimpOS.Memory SimpOS.Extents SimpOS.DiskStreams SimpOS.HeapBlocks SimpOS.HeapLayout
open SimpOS.KernelHeap SimpOS.Fat16 SimpOS.FatChains SimpOS.FatDirectories SimpOS.DirectoryCounts SimpOS.FatPaths

/-- What the set up of the root directory reads of the volume's header. -/
structure PrimaryHeader where
  fat_copies : UInt8
  reserved_sectors : UInt16
  root_dir_entries : UInt16
  sectors_per_fat : UInt16
deriving DecidableEq, Repr

def root_dir_sector_pos (primary_header : PrimaryHeader) : Nat :=
  primary_header.fat_copies.toNat * primary_header.sectors_per_fat.toNat + primary_header.reserved_sectors.toNat

def fat16_sector_to_absolute (sector : Int) : Int := i32 (sector * SIMPOS_SECTOR_SIZE)

/-- The result, the directory, the driver's data and the kernel; nothing when the count never ends. -/
def fat16_root_directory_setup (drive : Drive) (primary_header : PrimaryHeader) (fat_private : FatPrivate)
    (directory : FatDirectory) (k : Kernel) : Option (Int × FatDirectory × FatPrivate × Kernel) :=
  let root_dir_sector_pos := root_dir_sector_pos primary_header
  let root_dir_size := primary_header.root_dir_entries.toNat * 32
  let total_sectors := root_dir_size / SIMPOS_SECTOR_SIZE + (if root_dir_size % SIMPOS_SECTOR_SIZE ≠ 0 then 1 else 0)
  (fat16_get_total_items_for_directory drive fat_private root_dir_sector_pos).map fun (total_items, fat_private) =>
    let (dir, k) := kzalloc k root_dir_size
    if dir = 0 then (-ENOMEM, directory, fat_private, k)
    else
      let stream := diskstreamer_seek fat_private.directory_stream (fat16_sector_to_absolute root_dir_sector_pos)
      let (res, stream, m) := diskstreamer_read drive stream dir root_dir_size k.memory
      let fat_private := { fat_private with directory_stream := stream }
      let k := { k with memory := m }
      if res ≠ 0 then (-Machine.EIO, directory, fat_private, kfree k dir)
      else (0, { directory with
        item_address := dir
        item := fun i => item_at m (Memory.offset dir (32 * i))
        total := total_items
        last_sector_pos := (root_dir_sector_pos + total_sectors : Nat) }, fat_private, k)

/-! ### What is loaded -/

def rootRegion (primary_header : PrimaryHeader) : Region :=
  .contiguous (root_dir_sector_pos primary_header) primary_header.root_dir_entries.toNat
/-- The first cluster of a subdirectory. -/
def clusterRegion (p : FatPrivate) (item : FatDirectoryItem) : Region :=
  .contiguous ((clusterStart p (cluster_of item)).toNat / 512) (16 * p.primary_header.sectors_per_cluster.toNat)

/-- A directory that the driver has loaded from where it lies on the disk. -/
inductive LoadedFrom (drive : Drive) : Region → FatDirectory → Prop
  | root {primary_header : PrimaryHeader} {p q : FatPrivate} {directory loaded : FatDirectory} {k k' : Kernel}
      (primary : p.directory_stream.disk = drive.disk)
      (fits : (rootRegion primary_header).sector * 512 + 32 * (rootRegion primary_header).entries ≤ 2147483648)
      (setup : fat16_root_directory_setup drive primary_header p directory k = some (0, loaded, q, k')) :
      LoadedFrom drive (rootRegion primary_header) loaded
  | subdirectory {p q : FatPrivate} {item : FatDirectoryItem} {loaded : FatDirectory} {k k' : Kernel}
      (volume : Volume drive p) (cluster : 0 ≤ cluster_of item) (onDisk : OnDisk p (cluster_of item))
      (load : fat16_load_fat_directory drive p item k = .ok (some loaded, q, k')) (items : loaded.item_address ≠ 0) :
      LoadedFrom drive (clusterRegion p item) loaded

/-- An entry of a directory on the disk. -/
def entry (drive : Drive) (r : Region) (i : Nat) : FatDirectoryItem := item_of fun j => drive.image (r.place i + j)

/-- The directory has n used entries, and the loaded one has the first of them, as many as are live. -/
structure Listed (drive : Drive) (r : Region) (n : Nat) (d : FatDirectory) : Prop where
  near : n < 16
  used : ∀ i, i < n → r.mark drive i ≠ 0
  ends : r.mark drive n = 0
  total : d.total = ((live drive r n).length : Nat)
  items : ∀ i, i < (live drive r n).length → d.item i = entry drive r i

theorem live_length_le (drive : Drive) (r : Region) (n : Nat) : (live drive r n).length ≤ n :=
  (List.length_filter_le _ _).trans (List.length_range).le

section
variable {drive : Drive} {p q : FatPrivate} {k k' : Kernel} {loaded : FatDirectory}

/-- Bytes of the disk read to an address are the entries of the directory there. -/
theorem entry_stored {r : Region} {m m' : Bytes} {dir size i : Nat}
    (stored : Stored m m' dir size (fun j => diskByte drive (i32 (((r.sector * 512 : Nat) : Int) + j))))
    (place : r.place i = r.sector * 512 + 32 * i) (inside : 32 * i + 32 ≤ size)
    (fits : r.sector * 512 + size ≤ 2147483648) : item_at m' (offset dir (32 * i)) = entry drive r i := by
  refine item_of_congr fun j bound => ?_
  have byte := stored.byte (32 * i + j) (by omega)
  have position : i32 (((r.sector * 512 : Nat) : Int) + ((32 * i + j : Nat) : Int)) = ((r.place i + j : Nat) : Int) := by
    rw [place,i32_of_range (by omega) (by omega)]
    omega
  rw [position,diskByte_image drive (by omega)] at byte
  rw [offset_offset]
  exact byte

theorem root_listed {primary_header : PrimaryHeader} {directory : FatDirectory}
    (primary : p.directory_stream.disk = drive.disk)
    (fits : (rootRegion primary_header).sector * 512 + 32 * (rootRegion primary_header).entries ≤ 2147483648)
    (ended : ∃ i, i < (rootRegion primary_header).entries ∧ (rootRegion primary_header).mark drive i = 0)
    (setup : fat16_root_directory_setup drive primary_header p directory k = some (0,loaded,q,k')) :
    ∃ n, n ≤ (rootRegion primary_header).entries ∧ Listed drive (rootRegion primary_header) n loaded := by
  obtain ⟨e,inside,zero⟩ := ended
  have onDisk : (rootRegion primary_header).sector * 512 < 2147483648 := by omega
  unfold fat16_root_directory_setup at setup
  dsimp only at setup
  rcases total_items_cases (r := rootRegion primary_header) primary onDisk with
    ⟨n,after,near,used,ends,counted,_⟩ | ⟨_,never⟩
  · have sector : (rootRegion primary_header).sector = root_dir_sector_pos primary_header := rfl
    rw [sector] at counted
    have before : n ≤ e := by
      by_contra later
      exact used e (by omega) zero
    obtain ⟨stream,rfl,disk⟩ := total_items_moved counted
    rw [counted,Option.map_some] at setup
    dsimp only at setup
    generalize kzalloc k (primary_header.root_dir_entries.toNat * 32) = granted at setup
    obtain ⟨dir,k₁⟩ := granted
    dsimp only at setup
    by_cases null : dir = 0
    · rw [if_pos null] at setup
      have failed : (-ENOMEM : Int) = 0 := congrArg Prod.fst (Option.some.inj setup)
      exact absurd failed (by decide)
    · rw [if_neg null] at setup
      have position : fat16_sector_to_absolute (root_dir_sector_pos primary_header) =
          (((rootRegion primary_header).sector * 512 : Nat) : Int) := by
        unfold fat16_sector_to_absolute
        rw [sector] at onDisk ⊢
        simp only [SIMPOS_SECTOR_SIZE]
        rw [i32_of_range (by omega) (by omega)]
        omega
      rw [position] at setup
      obtain ⟨m,read,stored⟩ := diskstreamer_read_aligned
        (show (DiskStream.mk (((rootRegion primary_header).sector * 512 : Nat) : Int) stream.disk).disk = drive.disk from
          disk.trans primary)
        (by dsimp only; omega) (by dsimp only; omega) (by dsimp only; omega) dir
        (primary_header.root_dir_entries.toNat * 32) (by have := primary_header.root_dir_entries.toNat_lt; omega) k₁.memory
      dsimp only [diskstreamer_seek] at setup
      simp only [read,ne_eq,not_true_eq_false,if_false] at setup
      cases setup
      have few := live_length_le drive (rootRegion primary_header) n
      have size : (rootRegion primary_header).entries = primary_header.root_dir_entries.toNat := rfl
      refine ⟨n,by omega,near,used,ends,rfl,fun i below => ?_⟩
      exact entry_stored stored rfl (by omega) (by omega)
  · have sector : (rootRegion primary_header).sector = root_dir_sector_pos primary_header := rfl
    rw [← sector,never] at setup
    cases setup

theorem cluster_listed {item : FatDirectoryItem} (volume : Volume drive p) (cluster : 0 ≤ cluster_of item)
    (onDisk : OnDisk p (cluster_of item)) (load : fat16_load_fat_directory drive p item k = .ok (some loaded,q,k'))
    (items : loaded.item_address ≠ 0) :
    ∃ n, n ≤ (clusterRegion p item).entries ∧ Listed drive (clusterRegion p item) n loaded := by
  have low := onDisk.low
  have high := onDisk.high
  have aligned := clusterStart_sector p (cluster_of item)
  have start : (((clusterRegion p item).sector * 512 : Nat) : Int) = clusterStart p (cluster_of item) := by
    have sector : (clusterRegion p item).sector = (clusterStart p (cluster_of item)).toNat / 512 := rfl
    rw [sector]
    omega
  have position : i32 (fat16_cluster_to_sector p (cluster_of item) * SIMPOS_SECTOR_SIZE) =
      (((clusterRegion p item).sector * 512 : Nat) : Int) := by
    rw [start,fat16_cluster_to_sector]
    rw [clusterStart] at low high ⊢
    unfold i32
    simp only [SIMPOS_SECTOR_SIZE]
    omega
  have entries : 16 ≤ (clusterRegion p item).entries := by
    have size := volume.size
    have count : (clusterRegion p item).entries = 16 * p.primary_header.sectors_per_cluster.toNat := rfl
    simp only [size_of_cluster_bytes,SIMPOS_SECTOR_SIZE] at size
    omega
  unfold fat16_load_fat_directory at load
  split_ifs at load with plain
  · exact absurd (congrArg (fun r => r.map Prod.fst) load) (by simp [Except.map])
  · generalize kzalloc k 16 = granted at load
    obtain ⟨a,k₁⟩ := granted
    dsimp only at load
    split_ifs at load with null
    · exact absurd (congrArg (fun r => r.map Prod.fst) load) (by simp [Except.map])
    · rcases total_items_at (r := clusterRegion p item) volume.directories (by omega) position with
        ⟨n,after,near,used,ends,counted,_⟩ | ⟨_,never⟩
      · obtain ⟨stream,rfl,disk⟩ := total_items_moved counted
        have same : SameVolume p { p with directory_stream := stream } := ⟨rfl,rfl,rfl,rfl,disk⟩
        have few := live_length_le drive (clusterRegion p item) n
        suffices held : loaded.total = ((live drive (clusterRegion p item) n).length : Nat) ∧
            ∀ i, i < (live drive (clusterRegion p item) n).length → loaded.item i = entry drive (clusterRegion p item) i from
          ⟨n,by omega,near,used,ends,held.1,held.2⟩
        rw [show i32 (fat16_get_first_cluster item) = cluster_of item from rfl,counted] at load
        generalize (live drive (clusterRegion p item) n).length = count at load few ⊢
        have length : i32 ((count : Int) * 32) = (32 * count : Nat) := by
          rw [i32_of_range (by omega) (by omega)]
          omega
        unfold load_items at load
        dsimp only at load
        rw [length] at load
        generalize kzalloc k₁ (u32 (32 * count : Nat)) = granted at load
        obtain ⟨b,k₂⟩ := granted
        dsimp only at load
        split_ifs at load with full
        · cases load
          exact absurd full items
        · rw [show i32 (fat16_get_first_cluster item) = cluster_of item from rfl] at load
          by_cases empty : count = 0
          · subst empty
            generalize fat16_read_internal drive _ _ _ _ _ _ = result at load
            rcases result with _ | ⟨res,moved,m⟩
            · cases load
            · unfold load_out at load
              dsimp only at load
              split_ifs at load
              · cases load
                exact ⟨rfl,fun i none => absurd none (Nat.not_lt_zero i)⟩
              · cases load
                exact ⟨rfl,fun i none => absurd none (Nat.not_lt_zero i)⟩
          · obtain ⟨q',m',read,_,stored⟩ := read_items (volume.congr same)
              ⟨by rw [clusterStart_congr same]; exact low,by rw [clusterStart_congr same]; exact high⟩ cluster
              (by omega : count ≤ 15) (Nat.pos_of_ne_zero empty) b k₂.memory
            rw [read] at load
            cases load
            refine ⟨rfl,fun i below => ?_⟩
            refine (stored i below).trans (item_of_congr fun j bound => ?_)
            rw [clusterStart_congr same,← start,← Int.natCast_add,diskByte_image drive (by omega)]
            exact congrArg drive.image (Nat.add_assoc _ _ _).symm
      · rw [show i32 (fat16_get_first_cluster item) = cluster_of item from rfl,never] at load
        cases load

end

/-- Whatever way a directory is loaded, its used entries end, and the first of them are in memory. -/
theorem LoadedFrom.listed {drive : Drive} {r : Region} {d : FatDirectory} (loaded : LoadedFrom drive r d)
    (ended : ∃ i, i < r.entries ∧ r.mark drive i = 0) : ∃ n, n ≤ r.entries ∧ Listed drive r n d := by
  cases loaded with
  | root primary fits setup => exact root_listed primary fits ended setup
  | subdirectory volume cluster onDisk load items => exact cluster_listed volume cluster onDisk load items

/-! ### The name of a deleted entry -/

theorem istrncmp_first {s1 s2 : CString} {n : Nat} (equal : istrncmp s1 s2 (n+1) = 0) :
    tolower (s1.headD 0) = tolower (s2.headD 0) := by
  simp only [istrncmp] at equal
  by_contra different
  have other : s1.headD 0 ≠ s2.headD 0 := fun same => different (congrArg tolower same)
  rw [if_pos ⟨other,different⟩] at equal
  exact other (UInt8.toNat_inj.mp (by omega))

theorem tolower_deleted (c : UInt8) : tolower c = 0xE5 ↔ c = 0xE5 := by
  unfold tolower
  split_ifs with upper
  · obtain ⟨low,high⟩ := upper
    rw [UInt8.le_iff_toNat_le] at low high
    rw [← UInt8.toNat_inj,← UInt8.toNat_inj,UInt8.toNat_add]
    change c.toNat ≤ 90 at high
    change (c.toNat + 32) % 256 = 229 ↔ c.toNat = 229
    omega
  · exact Iff.rfl

theorem proper_string_first (s : List UInt8) :
    (fat16_to_proper_string s).headD 0 = if s.headD 0 = 0x20 then 0 else s.headD 0 := by
  unfold fat16_to_proper_string
  rcases s with _ | ⟨c,rest⟩
  · rfl
  · rw [List.takeWhile_cons,List.headD_cons]
    by_cases zero : c = 0
    · rw [zero]
      rfl
    · by_cases space : c = 0x20
      · rw [space]
        rfl
      · have goes : (c ≠ 0x00 && c ≠ 0x20) = true := by simp [zero,space]
        rw [if_pos goes,if_neg space]
        rfl

/-- A name starts with 0xE5 where the entry does, and only there. -/
theorem full_filename_first (item : FatDirectoryItem) :
    (fat16_get_full_relative_filename item).headD 0 = 0xE5 ↔ item.filename.headD 0 = 0xE5 := by
  have proper := proper_string_first item.filename
  unfold fat16_get_full_relative_filename
  generalize fat16_to_proper_string item.filename = out at proper
  have plain : out.headD 0 = 0xE5 ↔ item.filename.headD 0 = 0xE5 := by
    rw [proper]
    split_ifs with space
    · rw [space]
      decide
    · exact Iff.rfl
  dsimp only
  split_ifs with dotted
  · rcases out with _ | ⟨c,rest⟩
    · rw [← plain]
      exact ⟨fun dot => absurd (show (46 : UInt8) = 0xE5 from dot) (by decide),fun zero => absurd zero (by decide)⟩
    · exact plain
  · exact plain

/-- Of two items with one name neither is deleted, or both are. -/
theorem named_deleted {name : CString} {item other : FatDirectoryItem} (first : named name item = true)
    (second : named name other = true) (deleted : item.filename.headD 0 = 0xE5) : other.filename.headD 0 = 0xE5 := by
  have here := istrncmp_first (of_decide_eq_true first)
  have there := istrncmp_first (of_decide_eq_true second)
  rw [(full_filename_first item).mpr deleted] at here
  exact (full_filename_first other).mp ((tolower_deleted _).mp (there.trans here.symm))

/-! ### Looking a name up -/

/-- A live entry before the end has the name. -/
def Candidate (drive : Drive) (r : Region) (n : Nat) (name : CString) (i : Nat) : Prop :=
  i < n ∧ r.mark drive i ≠ 0xE5 ∧ named name (entry drive r i) = true

/-- An item is found exactly when a live entry of the directory's first n has the name, and is made of such a one. -/
def FoundRight (drive : Drive) (p : FatPrivate) (r : Region) (n : Nat) (name : CString) (d : FatDirectory)
    (k : Kernel) : Prop :=
  ∃ f_item q k', fat16_find_item_in_directory .mapped drive (some d) name p k = .ok (f_item,q,k') ∧
    (f_item.isSome = true ↔ ∃ i, Candidate drive r n name i) ∧
    ∀ made, f_item = some made → ∃ i, Candidate drive r n name i ∧ Made drive p (entry drive r i) made

/-- The entries of a directory from the first on. -/
def entries (drive : Drive) (r : Region) (n : Nat) : List FatDirectoryItem := (List.range n).map (entry drive r)

theorem mem_matching {drive : Drive} {r : Region} {n : Nat} {name : CString} {item : FatDirectoryItem} :
    item ∈ matching name (entries drive r n) ↔ ∃ i, i < n ∧ named name (entry drive r i) = true ∧ entry drive r i = item := by
  rw [matching,List.mem_filter,entries,List.mem_map]
  constructor
  · rintro ⟨⟨i,below,rfl⟩,hit⟩
    exact ⟨i,List.mem_range.mp below,hit,rfl⟩
  · rintro ⟨i,below,hit,rfl⟩
    exact ⟨⟨i,List.mem_range.mpr below,rfl⟩,hit⟩

theorem Listed.searched {drive : Drive} {r : Region} {n : Nat} {d : FatDirectory} (listed : Listed drive r n d) :
    (List.range' 0 d.total.toNat).map d.item = entries drive r (live drive r n).length := by
  rw [listed.total,Int.toNat_natCast,← List.range_eq_range',entries]
  exact List.map_congr_left fun i below => listed.items i (List.mem_range.mp below)

section
variable {drive : Drive} {p : FatPrivate} {r : Region} {n : Nat} {d : FatDirectory} {k : Kernel} {blocks : List Extent}

private theorem listed_before {n' : Nat} (ends : EndsAfter drive r n) (inside : n < r.entries) (listed : Listed drive r n' d) :
    n' = n := by
  have zero : r.mark drive n = 0 := ends.ends.resolve_left (by omega)
  rcases Nat.lt_trichotomy n' n with before | same | after
  · exact absurd listed.ends (ends.used n' before)
  · exact same
  · exact absurd zero (listed.used n after)

/-- In a directory that was loaded from the disk a name is looked up as it should be exactly when
    the counts of the subdirectories of that name end and, of the name's entries, there is one among
    the first, as many as are live, where there is a live one at all. -/
theorem directory_lookup_iff {name : CString} (loaded : LoadedFrom drive r d) (ends : EndsAfter drive r n)
    (inside : n < r.entries) (volume : Volume drive p) (sound : Sound drive p (matching name (entries drive r n)))
    (laid : Laid k.kernel_heap blocks) (room : 3 * n ≤ freeBlocks k.kernel_heap) :
    FoundRight drive p r n name d k ↔
      Countable drive p (matching name (entries drive r (live drive r n).length)) ∧
      ((∃ i, Candidate drive r n name i) ↔
        ∃ i, i < (live drive r n).length ∧ named name (entry drive r i) = true) := by
  have few := live_length_le drive r n
  obtain ⟨n',_,listed⟩ := loaded.listed ⟨n,inside,ends.ends.resolve_left (by omega)⟩
  obtain rfl := listed_before ends inside listed
  have among : ∀ item, item ∈ matching name (entries drive r (live drive r n').length) →
      item ∈ matching name (entries drive r n') := by
    intro item member
    obtain ⟨i,below,hit,here⟩ := mem_matching.mp member
    exact mem_matching.mpr ⟨i,by omega,hit,here⟩
  have fewer : (matching name (entries drive r (live drive r n').length)).length ≤ (live drive r n').length := by
    refine (List.length_filter_le ..).trans (le_of_eq ?_)
    rw [entries,List.length_map,List.length_range]
  have search := find_item_loop_cases volume d name d.total.toNat 0 none p k blocks (.refl p)
    (by rw [listed.searched]; exact fun item member => sound item (among item member)) laid
    (by rw [listed.searched]; omega)
  rw [listed.searched] at search
  unfold FoundRight
  simp only [fat16_find_item_in_directory]
  rcases search with ⟨endless,result⟩ | ⟨after,q,k',grabbed,result,_,countable,found,_⟩
  · rw [result]
    refine ⟨?_,fun holds => absurd holds.1 endless⟩
    rintro ⟨_,_,_,returned,_⟩
    cases returned
  · rw [result]
    generalize matched : matching name (entries drive r (live drive r n').length) = items at countable found
    cases found with
    | none =>
      have nothing : ¬∃ i, i < (live drive r n').length ∧ named name (entry drive r i) = true := by
        rintro ⟨i,below,hit⟩
        have member := mem_matching.mpr ⟨i,below,hit,rfl⟩
        rw [matched] at member
        cases member
      constructor
      · rintro ⟨_,_,_,returned,right,_⟩
        cases returned
        refine ⟨countable,?_⟩
        rw [← right]
        exact ⟨fun isSome => absurd isSome Bool.false_ne_true,fun here => absurd here nothing⟩
      · rintro ⟨_,same⟩
        refine ⟨none,q,k',rfl,?_,fun made here => by cases here⟩
        rw [same]
        exact ⟨fun isSome => absurd isSome Bool.false_ne_true,fun here => absurd here nothing⟩
    | @last earlier item f_item lost made _ =>
      have member : item ∈ matching name (entries drive r (live drive r n').length) := by
        rw [matched]
        exact List.mem_append_right _ (List.mem_cons_self ..)
      obtain ⟨i,below,hit,rfl⟩ := mem_matching.mp member
      constructor
      · rintro ⟨_,_,_,returned,right,_⟩
        cases returned
        exact ⟨countable,fun _ => ⟨i,below,hit⟩,fun _ => right.mp rfl⟩
      · rintro ⟨_,same⟩
        obtain ⟨j,inner,stays,other⟩ := same.mpr ⟨i,below,hit⟩
        have kept : r.mark drive i ≠ 0xE5 := fun deleted => stays (named_deleted hit other deleted)
        refine ⟨some f_item,q,k',rfl,⟨fun _ => ⟨j,inner,stays,other⟩,fun _ => rfl⟩,fun found same => ?_⟩
        cases same
        exact ⟨i,⟨by omega,kept,hit⟩,made⟩

end

/-- A root directory whose entries end is loaded where there is memory for it. -/
theorem root_directory_setup_loads {drive : Drive} {primary_header : PrimaryHeader} {p : FatPrivate}
    {directory : FatDirectory} {k : Kernel} {n : Nat} (primary : p.directory_stream.disk = drive.disk)
    (fits : (rootRegion primary_header).sector * 512 + 32 * (rootRegion primary_header).entries ≤ 2147483648)
    (near : n < 16) (inside : n < (rootRegion primary_header).entries) (ends : (rootRegion primary_header).mark drive n = 0)
    (memory : (kzalloc k (primary_header.root_dir_entries.toNat * 32)).1 ≠ 0) :
    ∃ loaded q k', fat16_root_directory_setup drive primary_header p directory k = some (0,loaded,q,k') := by
  have onDisk : (rootRegion primary_header).sector * 512 < 2147483648 := by omega
  unfold fat16_root_directory_setup
  rcases total_items_cases (r := rootRegion primary_header) primary onDisk with ⟨t,after,_,_,_,counted,_⟩ | ⟨never,_⟩
  · obtain ⟨stream,rfl,disk⟩ := total_items_moved counted
    have sector : (rootRegion primary_header).sector = root_dir_sector_pos primary_header := rfl
    rw [sector] at counted onDisk
    dsimp only
    rw [counted,Option.map_some]
    generalize kzalloc k (primary_header.root_dir_entries.toNat * 32) = granted at memory
    obtain ⟨dir,k₁⟩ := granted
    dsimp only at memory ⊢
    rw [if_neg memory]
    have position : fat16_sector_to_absolute (root_dir_sector_pos primary_header) =
        ((root_dir_sector_pos primary_header * 512 : Nat) : Int) := by
      unfold fat16_sector_to_absolute
      simp only [SIMPOS_SECTOR_SIZE]
      rw [i32_of_range (by omega) (by omega)]
      omega
    rw [position]
    obtain ⟨m,read,_⟩ := diskstreamer_read_aligned
      (show (DiskStream.mk ((root_dir_sector_pos primary_header * 512 : Nat) : Int) stream.disk).disk = drive.disk from
        disk.trans primary)
      (by dsimp only; omega) (by dsimp only; omega) (by dsimp only; omega) dir
      (primary_header.root_dir_entries.toNat * 32) (by have := primary_header.root_dir_entries.toNat_lt; omega) k₁.memory
    dsimp only [diskstreamer_seek]
    simp only [read,ne_eq,not_true_eq_false,if_false]
    exact ⟨_,_,_,rfl⟩
  · exact absurd ends (never n near)

/-! A disk whose root directory has two entries, the second one the file of the name A. -/

def twoEntries (first : UInt8) : Drive :=
  ⟨0, fun a => if a = 1024 then first else if a = 1056 then 65 else if 1024 < a ∧ a < 1068 then 32 else 0, fun _ => 0⟩
def twoHeader : PrimaryHeader := ⟨1, 1, 16, 1⟩

/-- On a heap just made the root directory's block is granted. -/
theorem root_granted : (kzalloc bootKernel (twoHeader.root_dir_entries.toNat * 32)).1 ≠ 0 := by
  obtain ⟨a,k,granted,pointer,_⟩ := kzalloc_page (k := bootKernel) (kernel_heap_init_laid _)
    (by rw [bootKernel,freeBlocks_empty (kernel_heap_init_laid _)]; decide)
    (by decide : 0 < twoHeader.root_dir_entries.toNat * 32) (by decide)
  rw [granted]
  exact pointer

private theorem two_loaded (first : UInt8) : ∃ d, LoadedFrom (twoEntries first) (rootRegion twoHeader) d := by
  obtain ⟨d,q,k,setup⟩ := @root_directory_setup_loads (twoEntries first) twoHeader volume_a
    volume_a.root_directory bootKernel 2 rfl (by decide) (by decide) (by decide) rfl root_granted
  exact ⟨d,.root rfl (by decide) setup⟩

private theorem two_end {first : UInt8} (used : first ≠ 0) : EndsAfter (twoEntries first) (rootRegion twoHeader) 2 := by
  refine ⟨by decide,fun i inside => ?_,.inr rfl⟩
  obtain rfl | rfl : i = 0 ∨ i = 1 := by omega
  · exact used
  · exact fun zero => absurd (show (65 : UInt8) = 0 from zero) (by decide)

private theorem two_volume (first : UInt8) : Volume (twoEntries first) volume_a := ⟨by decide,rfl,rfl⟩
private theorem two_room : 3 * 2 ≤ freeBlocks bootKernel.kernel_heap := by
  rw [bootKernel,freeBlocks_empty (kernel_heap_init_laid _)]
  decide
/-- A plain file needs no subdirectory. -/
private theorem two_plain {first : UInt8} {n : Nat} {item : FatDirectoryItem} (few : n ≤ 2)
    (member : item ∈ matching [97] (entries (twoEntries first) (rootRegion twoHeader) n)) :
    isDirectory item = false := by
  obtain ⟨i,below,hit,rfl⟩ := mem_matching.mp member
  have flags : (entry (twoEntries first) (rootRegion twoHeader) i).attributes = 32 := by
    obtain rfl | rfl : i = 0 ∨ i = 1 := by omega
    · rfl
    · rfl
  rw [isDirectory,flags]
  decide

/-- Behind another file the file A is found. -/
theorem directory_lookup_a : ∃ d, LoadedFrom (twoEntries 66) (rootRegion twoHeader) d ∧
    FoundRight (twoEntries 66) volume_a (rootRegion twoHeader) 2 [97] d bootKernel := by
  obtain ⟨d,loaded⟩ := two_loaded 66
  refine ⟨d,loaded,(directory_lookup_iff loaded (two_end (by decide)) (by decide) (two_volume 66) ?_
    (kernel_heap_init_laid _) two_room).mpr ⟨?_,?_⟩⟩
  · exact fun item member is => absurd is (by rw [two_plain (Nat.le_refl 2) member]; exact Bool.false_ne_true)
  · exact fun item member is => absurd is (by rw [two_plain (by decide) member]; exact Bool.false_ne_true)
  · exact ⟨fun _ => ⟨1,by decide,by decide⟩,fun _ => ⟨1,by decide,by decide,by decide⟩⟩

/-- Behind a deleted entry it is not. -/
theorem directory_lookup_hidden : ∃ d, LoadedFrom (twoEntries 0xE5) (rootRegion twoHeader) d ∧
    Candidate (twoEntries 0xE5) (rootRegion twoHeader) 2 [97] 1 ∧
    ¬FoundRight (twoEntries 0xE5) volume_a (rootRegion twoHeader) 2 [97] d bootKernel := by
  have candidate : Candidate (twoEntries 0xE5) (rootRegion twoHeader) 2 [97] 1 := ⟨by decide,by decide,by decide⟩
  obtain ⟨d,loaded⟩ := two_loaded 0xE5
  obtain ⟨n,_,listed⟩ := loaded.listed ⟨2,by decide,rfl⟩
  obtain rfl := listed_before (two_end (by decide)) (by decide) listed
  refine ⟨d,loaded,candidate,?_⟩
  rintro ⟨f_item,q,k,result,right,_⟩
  have single : d.total.toNat = 1 := by
    rw [listed.total]
    rfl
  have first : d.item 0 = entry (twoEntries 0xE5) (rootRegion twoHeader) 0 := listed.items 0 (by decide)
  have other : ¬istrncmp (fat16_get_full_relative_filename (d.item 0)) [97] SIMPOS_MAX_PATH = 0 := by
    rw [first]
    decide
  rw [fat16_find_item_in_directory,single] at result
  simp only [find_item_loop,other,if_false] at result
  cases result
  exact absurd (right.mpr ⟨1,candidate⟩) Bool.false_ne_true

end SimpOS.DirectoryLookups
