import SimpOS.LoadedDirectories

/-!
The tree of directories on the disk, and the paths down it. A directory has the items of all its
records before its end but the deleted ones; the driver searches only the first records, as many
as it has items. A path is followed as it should be exactly when it takes no wrong turn and no
deleted record hides one of its items (`Led`).
-/
namespace SimpOS.DirectoryTrees
open SimpOS.Machine SimpOS.Strings SimpOS.Memory SimpOS.Extents SimpOS.DiskStreams SimpOS.HeapBlocks SimpOS.HeapLayout
open SimpOS.KernelHeap SimpOS.PathParser SimpOS.Fat16 SimpOS.FatChains SimpOS.FatDirectories SimpOS.DirectoryCounts
open SimpOS.FatPaths SimpOS.DirectoryLookups SimpOS.VolumeMounts SimpOS.LoadedDirectories

/-! ### What is on the disk -/

def isEnd (item : FatDirectoryItem) : Bool := item.filename.headD 0 = 0x00
def isDeleted (item : FatDirectoryItem) : Bool := item.filename.headD 0 = 0xE5

/-- The records before the end of a directory. -/
def usedRecords (records : List FatDirectoryItem) : List FatDirectoryItem := records.takeWhile fun item => !isEnd item
/-- The items of a directory, by its records. -/
def itemsIn (records : List FatDirectoryItem) : List FatDirectoryItem :=
  (usedRecords records).filter fun item => !isDeleted item

/-- How many clusters a chain has up to the first entry that names none, which is among the first 65536. -/
def chainClusters (drive : Drive) (p : FatPrivate) (cluster : Int) : Nat :=
  ((List.range 65536).takeWhile fun j => j = 0 ∨ 2 ≤ chain drive p cluster j ∧ chain drive p cluster j < 0xFFF0).length

/-- The records of a subdirectory lie along its chain of clusters. -/
def chainRecords (drive : Drive) (p : FatPrivate) (item : FatDirectoryItem) : List FatDirectoryItem :=
  (List.range (16 * p.primary_header.sectors_per_cluster.toNat * chainClusters drive p (cluster_of item))).map
    (chainItem drive p item)
def contents (drive : Drive) (p : FatPrivate) (item : FatDirectoryItem) : List FatDirectoryItem :=
  itemsIn (chainRecords drive p item)
/-- The items of the volume's root directory. -/
def rootItems (drive : Drive) (primary_header : PrimaryHeader) : List FatDirectoryItem :=
  itemsIn (entries drive (rootRegion primary_header) (rootRegion primary_header).entries)

/-- The item at the end of a path, its first part looked up among the items and each further one in
    the directory found so far. -/
def lookup (drive : Drive) (p : FatPrivate) :
    List FatDirectoryItem → CString → List CString → Option FatDirectoryItem
  | items, name, [] => (matching name items).head?
  | items, name, next :: rest => (matching name items).head?.bind fun item =>
    if isDirectory item then lookup drive p (contents drive p item) next rest else none

/-- A volume whose root directory was loaded from where its header has it, and ends there. -/
structure Mounted (drive : Drive) (primary_header : PrimaryHeader) (p : FatPrivate) : Prop extends Volume drive p where
  root : LoadedFrom drive (rootRegion primary_header) p.root_directory
  ends : ∃ i, i < (rootRegion primary_header).entries ∧ (rootRegion primary_header).mark drive i = 0

/-- The path's item comes back, or null where there is none; nothing missing is dereferenced, and no
    other item made on the way is left on the heap. -/
def EntryRight (drive : Drive) (primary_header : PrimaryHeader) (p : FatPrivate) (path : PathPart)
    (next : List PathPart) (k : Kernel) (live : List Extent) : Prop :=
  fat16_get_directory_entry .unmapped drive p path next k ≠ .error .null ∧
  ∃ result q k', fat16_get_directory_entry .mapped drive p path next k = .ok (result, q, k') ∧
    Outcome drive p live k' (lookup drive p (rootItems drive primary_header) path.part (next.map PathPart.part)) result

/-- The paths that lead through the records searched to the item they lead to in the tree. At each
    part no name is twice among the records searched and the directories of the name have counts that
    end. A record of the name is a directory where another part follows, and not deleted; below a
    deleted directory nothing is found. Where there is none, the path leads nowhere in the tree
    either, and ends there or has only begun. -/
def Led (drive : Drive) (p : FatPrivate) (first : Bool) :
    List FatDirectoryItem → List FatDirectoryItem → CString → List CString → Prop
  | searched, items, name, [] => (matching name searched).length ≤ 1 ∧ Countable drive p (matching name searched) ∧
    match (matching name searched).head? with
    | none => lookup drive p items name [] = none
    | some item => isDeleted item = false
  | searched, items, name, next :: rest =>
    (matching name searched).length ≤ 1 ∧ Countable drive p (matching name searched) ∧
    match (matching name searched).head? with
    | none => first = true ∧ lookup drive p items name (next :: rest) = none
    | some item => isDirectory item = true ∧
      if isDeleted item then
        Followed drive p false (below drive p item) next rest ∧ resolve drive p (below drive p item) next rest = none
      else Led drive p false (below drive p item) (contents drive p item) next rest

/-! ### The records searched -/

/-- The records searched are the first used ones, as many as there are items. -/
def FirstOf (searched records : List FatDirectoryItem) : Prop :=
  searched = (usedRecords records).take (itemsIn records).length

section
variable {searched records : List FatDirectoryItem} {name : CString} {item : FatDirectoryItem} {found : List FatDirectoryItem}

/-- The first record searched of a name is the first item of it, unless it is deleted. -/
theorem head_kept (firstOf : FirstOf searched records) (hit : matching name searched = item :: found)
    (kept : isDeleted item = false) : (matching name (itemsIn records)).head? = some item := by
  have split : usedRecords records = searched ++ (usedRecords records).drop (itemsIn records).length := by
    rw [firstOf,List.take_append_drop]
  have first : matching name (searched.filter fun item => !isDeleted item) =
      (matching name searched).filter fun item => !isDeleted item := by
    simp [matching,List.filter_filter,Bool.and_comm]
  rw [itemsIn,split,List.filter_append]
  unfold matching at first hit ⊢
  rw [List.filter_append,first,hit]
  simp [kept]

/-- Beside a deleted record of a name no item has it. -/
theorem nothing_deleted (hit : matching name searched = item :: found) (deleted : isDeleted item = true) :
    matching name (itemsIn records) = [] := by
  have named_item : named name item = true := by
    have member : item ∈ matching name searched := by simp [hit]
    exact (List.mem_filter.mp member).2
  rw [matching,List.filter_eq_nil_iff]
  intro other member named_other
  have kept := (List.mem_filter.mp member).2
  have both : isDeleted other = true := decide_eq_true (named_deleted named_item named_other (of_decide_eq_true deleted))
  simp [both] at kept

/-- The used records of a directory whose end is at a place. -/
theorem usedRecords_range {f : Nat → FatDirectoryItem} {n e : Nat} (inside : e < n)
    (used : ∀ i, i < e → isEnd (f i) = false) (ends : isEnd (f e) = true) :
    usedRecords ((List.range n).map f) = (List.range e).map f := by
  obtain ⟨m,rfl⟩ : ∃ m, n = e + (m + 1) := ⟨n - e - 1,by omega⟩
  have split : (List.range (e + (m + 1))).map f = (List.range e).map f ++ f e :: (List.range m).map fun i => f (e + (i + 1)) := by
    simp [List.range_add,List.range_succ_eq_map,Function.comp_def]
  rw [usedRecords,split,List.takeWhile_append_of_pos,List.takeWhile_cons_of_neg]
  · simp
  · simp [ends]
  · intro item member
    obtain ⟨i,below,rfl⟩ := List.mem_map.mp member
    simp [used i (List.mem_range.mp below)]

theorem itemsIn_range {f : Nat → FatDirectoryItem} {n e : Nat} (inside : e < n)
    (used : ∀ i, i < e → isEnd (f i) = false) (ends : isEnd (f e) = true) :
    itemsIn ((List.range n).map f) = ((List.range e).filter fun i => !isDeleted (f i)).map f := by
  rw [itemsIn,usedRecords_range inside used ends,List.filter_map]
  rfl

/-- The count comes to the number of used records that are not deleted, up to the first that is an end. -/
theorem countItems_counted {first : Nat → UInt8} (remaining : Nat) : ∀ {n i t : Nat},
    countItems first remaining n i = some t → ∃ e, n ≤ e ∧ e < n + remaining ∧ (∀ j, n ≤ j → j < e → first j ≠ 0) ∧
      first e = 0 ∧ t = i + ((List.range' n (e - n)).filter fun j => first j ≠ 0xE5).length := by
  induction remaining with
  | zero => exact fun none => nomatch none
  | succ remaining ih =>
    intro n i t count
    rw [countItems] at count
    by_cases last : first n = 0
    · rw [if_pos last,Option.some.injEq] at count
      exact ⟨n,Nat.le_refl n,by omega,fun j low high => by omega,last,by simp [count]⟩
    · rw [if_neg last] at count
      obtain ⟨e,low,high,used,ends,total⟩ := ih count
      refine ⟨e,by omega,by omega,fun j from_n before => ?_,ends,?_⟩
      · by_cases here : j = n
        · rw [here]
          exact last
        · exact used j (by omega) before
      · have span : e - n = (e - (n + 1)) + 1 := by omega
        rw [total,span,List.range'_succ]
        by_cases deleted : first n = 0xE5
        · simp [deleted]
        · simp [deleted]
          omega

/-- It does come to it where there is one. -/
theorem countItems_ends {first : Nat → UInt8} {e : Nat} (ends : first e = 0) (remaining : Nat) : ∀ {n i : Nat},
    n ≤ e → e < n + remaining → countItems first remaining n i ≠ none := by
  induction remaining with
  | zero => exact fun low high => by omega
  | succ remaining ih =>
    intro n i low high
    rw [countItems]
    by_cases last : first n = 0
    · simp [last]
    · rw [if_neg last]
      have later : n ≠ e := fun here => last (here ▸ ends)
      exact ih (by omega) (by omega)

end

section
variable {drive : Drive} {p : FatPrivate} {item : FatDirectoryItem} {primary_header : PrimaryHeader}

private theorem chainClusters_pos (drive : Drive) (p : FatPrivate) (cluster : Int) : 0 < chainClusters drive p cluster := by
  have first : List.range 65536 = 0 :: List.range' 1 65535 := by
    rw [List.range_eq_range',List.range'_succ]
  simp [chainClusters,first]

/-- The records of the first sector. -/
theorem chainItem_first (volume : Volume drive p) (sub : Subdirectory drive p item) {n : Nat} (inside : n < 16) :
    chainItem drive p item n = diskItem drive p (cluster_of item) n := by
  have low := sub.onDisk.low
  have high := sub.onDisk.high
  have size : 512 ≤ size_of_cluster_bytes p := by
    have positive := volume.size
    simp only [size_of_cluster_bytes,SIMPOS_SECTOR_SIZE] at positive ⊢
    omega
  refine item_of_congr fun j bound => ?_
  have first : (32 * n + j) / size_of_cluster_bytes p = 0 := Nat.div_eq_of_lt (by omega)
  have within : (32 * n + j) % size_of_cluster_bytes p = 32 * n + j := Nat.mod_eq_of_lt (by omega)
  have position : filePosition drive p (cluster_of item) (32 * n + j) =
      (((clusterStart p (cluster_of item)).toNat + (32 * n + j) : Nat) : Int) := by
    rw [filePosition,first,within,chain]
    omega
  have place : clusterStart p (cluster_of item) + ((32 * n + j : Nat) : Int) =
      (((clusterStart p (cluster_of item)).toNat + (32 * n + j) : Nat) : Int) := by omega
  rw [position,place,diskByte_image drive (by omega),Int.toNat_natCast]

/-- A subdirectory's end among its first sixteen records, and what it holds up to there. -/
theorem contents_range (volume : Volume drive p) (sub : Subdirectory drive p item) {e : Nat} (near : e < 16)
    (used : ∀ i, i < e → isEnd (diskItem drive p (cluster_of item) i) = false)
    (ends : isEnd (diskItem drive p (cluster_of item) e) = true) :
    usedRecords (chainRecords drive p item) = (List.range e).map (diskItem drive p (cluster_of item)) ∧
    contents drive p item = ((List.range e).filter fun i => !isDeleted (diskItem drive p (cluster_of item) i)).map
      (diskItem drive p (cluster_of item)) := by
  have many : e < 16 * p.primary_header.sectors_per_cluster.toNat * chainClusters drive p (cluster_of item) := by
    have positive := volume.size
    simp only [size_of_cluster_bytes,SIMPOS_SECTOR_SIZE] at positive
    have sectors : 1 ≤ p.primary_header.sectors_per_cluster.toNat := by omega
    calc e < 16 * 1 * 1 := by omega
      _ ≤ _ := Nat.mul_le_mul (Nat.mul_le_mul_left 16 sectors) (chainClusters_pos drive p _)
  have same : ∀ i, i ≤ e → chainItem drive p item i = diskItem drive p (cluster_of item) i :=
    fun i below => chainItem_first volume sub (by omega)
  have used' : ∀ i, i < e → isEnd (chainItem drive p item i) = false := by
    intro i below
    rw [same i (by omega)]
    exact used i below
  have ends' : isEnd (chainItem drive p item e) = true := by
    rw [same e (Nat.le_refl e)]
    exact ends
  constructor
  · rw [chainRecords,usedRecords_range many used' ends']
    exact List.map_congr_left fun i member => same i (by rw [List.mem_range] at member; omega)
  · rw [contents,chainRecords,itemsIn_range many used' ends']
    have kept : ((List.range e).filter fun i => !isDeleted (chainItem drive p item i)) =
        (List.range e).filter fun i => !isDeleted (diskItem drive p (cluster_of item) i) :=
      List.filter_congr fun i member => by rw [same i (by rw [List.mem_range] at member; omega)]
    rw [kept]
    refine List.map_congr_left fun i member => same i ?_
    have inside := (List.mem_filter.mp member).1
    rw [List.mem_range] at inside
    omega

/-- In a loaded subdirectory the first of its records are searched. -/
theorem below_firstOf (volume : Volume drive p) (sub : Subdirectory drive p item) (counted : itemsOf drive p item ≠ none) :
    FirstOf (below drive p item) (chainRecords drive p item) := by
  obtain ⟨items,here⟩ := Option.ne_none_iff_exists'.mp counted
  rw [itemsOf,Option.map_eq_some_iff] at here
  obtain ⟨total,count,_⟩ := here
  obtain ⟨e,_,near,used,ends,length⟩ := countItems_counted 16 count
  rw [Nat.zero_add] at near length
  have records := contents_range volume sub near (fun i below => decide_eq_false (used i (Nat.zero_le i) below))
    (decide_eq_true ends)
  have few : total ≤ e := by
    rw [length]
    exact (List.length_filter_le ..).trans (by simp)
  have many : (itemsIn (chainRecords drive p item)).length = total := by
    rw [← contents,records.2,List.length_map,length,List.range_eq_range']
    simp [isDeleted]
  rw [FirstOf,many,records.1,below,itemsOf,count,← List.map_take,List.take_range,Nat.min_eq_left few]
  rfl

private theorem entry_mark (drive : Drive) (r : Region) (i : Nat) :
    (entry drive r i).filename.headD 0 = r.mark drive i := rfl

/-- So are those of the root directory. -/
theorem root_firstOf {p : FatPrivate} (mounted : Mounted drive primary_header p) :
    FirstOf (listing p.root_directory) (entries drive (rootRegion primary_header) (rootRegion primary_header).entries) := by
  obtain ⟨n,_,listed⟩ := mounted.root.listed mounted.ends
  obtain ⟨last,inside,zero⟩ := mounted.ends
  have before : n < (rootRegion primary_header).entries := by
    by_contra later
    exact listed.used last (by omega) zero
  have used : ∀ i, i < n → isEnd (entry drive (rootRegion primary_header) i) = false :=
    fun i below => by simp only [isEnd,entry_mark,listed.used i below,decide_false]
  have ends : isEnd (entry drive (rootRegion primary_header) n) = true := by
    simp only [isEnd,entry_mark,listed.ends,decide_true]
  have many : (itemsIn (entries drive (rootRegion primary_header) (rootRegion primary_header).entries)).length =
      (live drive (rootRegion primary_header) n).length := by
    rw [entries,itemsIn_range before used ends,List.length_map,live]
    refine congrArg List.length (List.filter_congr fun i _ => ?_)
    rw [isDeleted,entry_mark,decide_not]
  have few := live_length_le drive (rootRegion primary_header) n
  rw [FirstOf,many,entries,usedRecords_range before used ends,← List.map_take,List.take_range,Nat.min_eq_left few]
  rw [listing,List.range_eq_range',listed.searched,entries]

end

/-! ### Led paths -/

section
variable {drive : Drive} {p : FatPrivate}

/-- A path is led exactly when it takes no wrong turn and comes, among the records searched, to what it
    leads to in the tree. -/
theorem led_iff (volume : Volume drive p) (rest : List CString) : ∀ (first : Bool) (searched records : List FatDirectoryItem)
    (name : CString), FirstOf searched records →
    (∀ item, Met drive p searched name rest item → isDirectory item = true → Subdirectory drive p item) →
    (Led drive p first searched (itemsIn records) name rest ↔
      Followed drive p first searched name rest ∧
        resolve drive p searched name rest = lookup drive p (itemsIn records) name rest) := by
  induction rest with
  | nil =>
    intro first searched records name firstOf met
    cases hit : matching name searched with
    | nil => simp [Led,Followed,resolve,hit,@eq_comm _ none]
    | cons item found =>
      cases deleted : isDeleted item with
      | false => simp [Led,Followed,resolve,lookup,hit,deleted,head_kept firstOf hit deleted]
      | true => simp [Led,Followed,resolve,lookup,hit,deleted,@nothing_deleted searched records name item found hit deleted]
  | cons next rest ih =>
    intro first searched records name firstOf met
    cases hit : matching name searched with
    | nil => simp [Led,Followed,resolve,hit,@eq_comm _ none,and_assoc]
    | cons item found =>
      have member : item ∈ matching name searched := by simp [hit]
      cases deleted : isDeleted item with
      | true =>
        have nowhere : lookup drive p (itemsIn records) name (next :: rest) = none := by
          simp [lookup,nothing_deleted hit deleted]
        rw [nowhere]
        cases is : isDirectory item <;> simp [Led,Followed,resolve,hit,deleted,is,and_assoc]
      | false =>
        have there := head_kept firstOf hit deleted
        cases is : isDirectory item with
        | false => simp [Led,Followed,hit,is]
        | true =>
          simp only [Led,Followed,resolve,lookup,hit,there,is,deleted,List.head?_cons,Option.bind_some,if_true,
            Bool.false_eq_true,if_false,true_and]
          constructor
          · rintro ⟨single,countable,led⟩
            have firstOf' := below_firstOf volume (met item (.here member) is) (countable item (by simp) is)
            obtain ⟨followed,same⟩ := (ih false _ _ next firstOf' fun other further => met other (.inner member is further)).mp led
            exact ⟨⟨single,countable,followed⟩,same⟩
          · rintro ⟨⟨single,countable,followed⟩,same⟩
            have firstOf' := below_firstOf volume (met item (.here member) is) (countable item (by simp) is)
            exact ⟨single,countable,
              (ih false _ _ next firstOf' fun other further => met other (.inner member is further)).mpr ⟨followed,same⟩⟩

/-- Where the records searched and the tree lead to different things, one of them leads nowhere. -/
theorem apart_nowhere (volume : Volume drive p) (rest : List CString) : ∀ (searched records : List FatDirectoryItem)
    (name : CString), FirstOf searched records →
    (∀ item, Met drive p searched name rest item → isDirectory item = true → Subdirectory drive p item) →
    resolve drive p searched name rest = lookup drive p (itemsIn records) name rest ∨
      resolve drive p searched name rest = none ∨ lookup drive p (itemsIn records) name rest = none := by
  induction rest with
  | nil =>
    intro searched records name firstOf met
    cases hit : matching name searched with
    | nil => exact .inr (.inl (by simp [resolve,hit]))
    | cons item found =>
      cases deleted : isDeleted item with
      | false => exact .inl (by simp [resolve,lookup,hit,head_kept firstOf hit deleted])
      | true => exact .inr (.inr (by simp [lookup,nothing_deleted hit deleted]))
  | cons next rest ih =>
    intro searched records name firstOf met
    cases hit : matching name searched with
    | nil => exact .inr (.inl (by simp [resolve,hit]))
    | cons item found =>
      have member : item ∈ matching name searched := by simp [hit]
      cases deleted : isDeleted item with
      | true => exact .inr (.inr (by simp [lookup,nothing_deleted hit deleted]))
      | false =>
        have there := head_kept firstOf hit deleted
        cases is : isDirectory item with
        | false => exact .inl (by simp [resolve,lookup,hit,there,is])
        | true =>
          simp only [resolve,lookup,hit,there,is,List.head?_cons,Option.bind_some,if_true]
          by_cases counted : itemsOf drive p item = none
          · refine .inr (.inl ?_)
            cases rest <;> simp [resolve,below,counted,matching]
          · exact ih _ _ next (below_firstOf volume (met item (.here member) is) counted)
              fun other further => met other (.inner member is further)

end

section
variable {drive : Drive} {primary_header : PrimaryHeader} {p : FatPrivate} {path : PathPart} {next : List PathPart}
  {k : Kernel} {live : List Extent}

/-- Nothing comes back for a path that leads nowhere, and only then. -/
private theorem outcome_some {resolved : Option FatDirectoryItem} {result : Option FatItem}
    (outcome : Outcome drive p live k resolved result) : result.isSome = resolved.isSome := by
  cases resolved with
  | none => simp [outcome.1]
  | some item =>
    obtain ⟨f_item,rfl,_⟩ := outcome
    rfl

/-- A path whose item is looked up as it should be is led to it. -/
theorem entry_right_led (mounted : Mounted drive primary_header p)
    (met : ∀ item, Met drive p (listing p.root_directory) path.part (next.map PathPart.part) item →
      isDirectory item = true → Subdirectory drive p item)
    (laid : Laid k.kernel_heap live)
    (room : 3 * p.root_directory.total.toNat + 45 * next.length ≤ freeBlocks k.kernel_heap)
    (right : EntryRight drive primary_header p path next k live) :
    Led drive p true (listing p.root_directory) (rootItems drive primary_header) path.part (next.map PathPart.part) := by
  have volume := mounted.toVolume
  have firstOf := root_firstOf mounted
  rw [rootItems,led_iff volume _ true _ _ path.part firstOf met]
  obtain ⟨present,result,q,k',run,outcome⟩ := right
  have run' : fat16_get_directory_entry .unmapped drive p path next k = .ok (result,q,k') := by
    rcases get_directory_entry_null p path next k with same | ⟨null,_⟩
    · exact same.symm.trans run
    · exact absurd null present
  have followed : Followed drive p true (listing p.root_directory) path.part (next.map PathPart.part) := by
    by_contra wrong
    exact directory_entry_wrong volume met laid room wrong _ ⟨result,q,k',run',outcome⟩
  obtain ⟨result',q',k₂,found,reached⟩ := directory_entry_followed volume met laid room followed
  rw [run'] at found
  cases found
  -- what came back is there for both or for neither
  have both := (outcome_some reached).symm.trans (outcome_some outcome)
  refine ⟨followed,?_⟩
  rcases apart_nowhere volume _ _ _ path.part firstOf met with same | none | none
  · exact same
  · have nowhere := both.symm
    rw [none,Option.isSome_none,Option.isSome_eq_false_iff,Option.isNone_iff_eq_none] at nowhere
    exact none.trans nowhere.symm
  · rw [rootItems,none,Option.isSome_none,Option.isSome_eq_false_iff,Option.isNone_iff_eq_none] at both
    exact both.trans none.symm

/-- In a mounted volume a path's item is looked up as it should be exactly when the path is led to it. -/
theorem directory_entry_iff (mounted : Mounted drive primary_header p)
    (met : ∀ item, Met drive p (listing p.root_directory) path.part (next.map PathPart.part) item →
      isDirectory item = true → Subdirectory drive p item)
    (laid : Laid k.kernel_heap live)
    (room : 3 * p.root_directory.total.toNat + 45 * next.length ≤ freeBlocks k.kernel_heap) :
    EntryRight drive primary_header p path next k live ↔
      Led drive p true (listing p.root_directory) (rootItems drive primary_header) path.part (next.map PathPart.part) := by
  refine ⟨entry_right_led mounted met laid room,fun led => ?_⟩
  have volume := mounted.toVolume
  rw [rootItems,led_iff volume _ true _ _ path.part (root_firstOf mounted) met] at led
  obtain ⟨followed,same⟩ := led
  obtain ⟨result,q,k',run,outcome⟩ := directory_entry_followed volume met laid room followed
  have run' : fat16_get_directory_entry .mapped drive p path next k = .ok (result,q,k') := by
    rcases get_directory_entry_null p path next k with same | ⟨null,_⟩
    · exact same.trans run
    · exact absurd (run.symm.trans null) (by simp)
  rw [EntryRight,rootItems,← same,run]
  exact ⟨by simp,result,q,k',run',outcome⟩

end

/-! A volume whose root directory has the file b and the subdirectory d, in which there are two more
    records beside the one of the directory itself. The first of them is that of a file of 600 bytes,
    in the clusters 3 and 5. -/

def treeDrive (second third : UInt8) : Drive :=
  ⟨0, fun a =>
    if 2048 ≤ a then UInt8.ofNat (a / 512) else if a = 518 then 5
    else if a = 1024 then 98 else if a = 1056 then 100 else if a = 1067 then 0x10 else if a = 1082 then 2
    else if a = 1536 then 46 else if a = 1568 then second else if a = 1594 then 3 else if a = 1596 then 88
    else if a = 1597 then 2 else if a = 1600 then third
    else if 1024 < a ∧ a < 1036 ∨ 1056 < a ∧ a < 1067 ∨ 1536 < a ∧ a < 1548 ∨ 1568 < a ∧ a < 1580 ∨ 1600 < a ∧ a < 1612
      then 32
    else 0, fun _ => 0⟩
def treeVolume (root_directory : FatDirectory) : FatPrivate := { volume_a with root_directory := root_directory }
/-- The records of d. -/
def treeRecord (second third : UInt8) (n : Nat) : FatDirectoryItem :=
  item_of fun j => (treeDrive second third).image (1536 + (32 * n + j))
/-- The entries of the root directory. -/
def treeEntry (n : Nat) : FatDirectoryItem := entry (treeDrive 0 0) (rootRegion twoHeader) n

/-- The root directory is loaded. -/
structure Tree (second third : UInt8) (d : FatDirectory) : Prop where
  mounted : Mounted (treeDrive second third) twoHeader (treeVolume d)
  clusters : d.last_sector_pos = 3
  total : d.total = 2
  root : listing d = [treeEntry 0, treeEntry 1]
  items : rootItems (treeDrive second third) twoHeader = [treeEntry 0, treeEntry 1]

section
variable {second third : UInt8} {d : FatDirectory}

/-- The root directory lies before the records that differ. -/
private theorem root_image {a : Nat} (before : a < 1536) : (treeDrive second third).image a = (treeDrive 0 0).image a := by
  simp only [treeDrive,show a ≠ 1568 by omega,show a ≠ 1600 by omega,if_false]

theorem tree_loaded (second third : UInt8) : ∃ d, Tree second third d := by
  obtain ⟨d,q,k,setup⟩ := @root_directory_setup_loads (treeDrive second third) twoHeader volume_a
    volume_a.root_directory bootKernel 2 rfl (by decide) (by decide) (by decide) rfl root_granted
  have ends : ∃ i, i < (rootRegion twoHeader).entries ∧ (rootRegion twoHeader).mark (treeDrive second third) i = 0 :=
    ⟨2,by decide,rfl⟩
  have mounted : Mounted (treeDrive second third) twoHeader (treeVolume d) :=
    ⟨⟨(by decide : 0 < size_of_cluster_bytes volume_a),rfl,rfl⟩,.root rfl (by decide) setup,ends⟩
  have records : entries (treeDrive second third) (rootRegion twoHeader) 16 = (List.range 16).map fun n => treeEntry n :=
    List.map_congr_left fun n member => item_of_congr fun j bound => by
      have inside := List.mem_range.mp member
      refine root_image ?_
      show 2 * 512 + 32 * n + j < 1536
      omega
  have items : rootItems (treeDrive second third) twoHeader = [treeEntry 0,treeEntry 1] := by
    rw [rootItems,show (rootRegion twoHeader).entries = 16 from rfl,records,
      itemsIn_range (by decide : 2 < 16) (by decide) (by decide)]
    decide
  have first := root_firstOf mounted
  rw [FirstOf,← rootItems,items,show (rootRegion twoHeader).entries = 16 from rfl,records,
    usedRecords_range (by decide : 2 < 16) (by decide) (by decide)] at first
  refine ⟨d,mounted,?_,?_,first.trans (by decide),items⟩
  · exact (root_directory_end setup).1
  · have length := congrArg List.length first
    simp [listing,treeVolume] at length
    omega

/-- The subdirectory d on the disk. -/
structure TreeSub (second third : UInt8) (d : FatDirectory) (e : Nat) : Prop where
  sub : Subdirectory (treeDrive second third) (treeVolume d) (treeEntry 1)
  counted : itemsOf (treeDrive second third) (treeVolume d) (treeEntry 1) ≠ none
  used : usedRecords (chainRecords (treeDrive second third) (treeVolume d) (treeEntry 1)) =
    (List.range e).map (treeRecord second third)
  contents : contents (treeDrive second third) (treeVolume d) (treeEntry 1) =
    ((List.range e).filter fun i => !isDeleted (treeRecord second third i)).map (treeRecord second third)

theorem tree_sub {e : Nat} (tree : Tree second third d) (near : e < 16)
    (used : ∀ i, i < e → isEnd (treeRecord second third i) = false) (ends : isEnd (treeRecord second third e) = true) :
    TreeSub second third d e := by
  have start : clusterStart (treeVolume d) (cluster_of (treeEntry 1)) = 1536 := by
    have cluster : cluster_of (treeEntry 1) = 2 := by decide
    have sectors : (treeVolume d).primary_header.sectors_per_cluster.toNat = 1 := rfl
    have last : (treeVolume d).root_directory.last_sector_pos = 3 := tree.clusters
    rw [clusterStart,cluster,sectors,last]
    rfl
  have record : ∀ n, n < 16 → diskItem (treeDrive second third) (treeVolume d) (cluster_of (treeEntry 1)) n =
      treeRecord second third n := by
    intro n inside
    refine item_of_congr fun j bound => ?_
    have place : (1536 : Int) + ((32 * n + j : Nat) : Int) = ((1536 + (32 * n + j) : Nat) : Int) := by omega
    rw [start,place,diskByte_image _ (by omega)]
  have first : treeRecord second third 0 = treeRecord 0 0 0 := rfl
  have sub : Subdirectory (treeDrive second third) (treeVolume d) (treeEntry 1) := by
    refine ⟨by decide,⟨by rw [start]; decide,by rw [start]; decide⟩,?_,?_⟩
    · rw [record 0 (by decide),first]
      decide
    · rw [record 0 (by decide),first]
      decide
  have range := contents_range tree.mounted.toVolume sub near
    (fun i below => by rw [record i (by omega)]; exact used i below) (by rw [record e near]; exact ends)
  have same : ∀ i ∈ List.range e, diskItem (treeDrive second third) (treeVolume d) (cluster_of (treeEntry 1)) i =
      treeRecord second third i := fun i member => record i (by rw [List.mem_range] at member; omega)
  refine ⟨sub,?_,range.1.trans (List.map_congr_left same),?_⟩
  · simp only [itemsOf,ne_eq,Option.map_eq_none_iff]
    refine countItems_ends ?_ 16 (Nat.zero_le e) (by omega)
    rw [record e near]
    exact of_decide_eq_true ends
  · rw [range.2]
    have kept : ((List.range e).filter fun i =>
        !isDeleted (diskItem (treeDrive second third) (treeVolume d) (cluster_of (treeEntry 1)) i)) =
        (List.range e).filter fun i => !isDeleted (treeRecord second third i) :=
      List.filter_congr fun i member => by rw [same i member]
    rw [kept]
    exact List.map_congr_left fun i member => same i (List.mem_filter.mp member).1

theorem TreeSub.below {e : Nat} (tree : Tree second third d) (held : TreeSub second third d e) :
    below (treeDrive second third) (treeVolume d) (treeEntry 1) = ((List.range e).map (treeRecord second third)).take
      ((List.range e).filter fun i => !isDeleted (treeRecord second third i)).length := by
  have firstOf := below_firstOf tree.mounted.toVolume held.sub held.counted
  rw [FirstOf,← DirectoryTrees.contents,held.used,held.contents,List.length_map] at firstOf
  exact firstOf

private theorem tree_directory (tree : Tree second third d) : matching [100] (listing d) = [treeEntry 1] := by
  rw [tree.root]
  decide

/-- What is met on a path through d. -/
theorem tree_met {e : Nat} (tree : Tree second third d) (held : TreeSub second third d e)
    (plain : ∀ i, i < e → isDirectory (treeRecord second third i) = false) {name : CString}
    (item : FatDirectoryItem) (met : Met (treeDrive second third) (treeVolume d) (listing d) [100] [name] item)
    (is : isDirectory item = true) : Subdirectory (treeDrive second third) (treeVolume d) item := by
  have only := tree_directory tree
  cases met with
  | here member =>
    rw [only,List.mem_singleton] at member
    rw [member]
    exact held.sub
  | inner member _ inner =>
    rw [only,List.mem_singleton] at member
    subst member
    cases inner with
    | here member =>
      rw [held.below tree] at member
      obtain ⟨i,inside,rfl⟩ := List.mem_map.mp (List.mem_of_mem_take (List.mem_filter.mp member).1)
      rw [plain i (List.mem_range.mp inside)] at is
      exact absurd is Bool.false_ne_true

/-- A file of d that no deleted record hides is led to. -/
theorem tree_led {e n : Nat} (tree : Tree second third d) (held : TreeSub second third d e) {name : CString}
    (hit : matching name (below (treeDrive second third) (treeVolume d) (treeEntry 1)) = [treeRecord second third n])
    (kept : isDeleted (treeRecord second third n) = false) (plain : isDirectory (treeRecord second third n) = false)
    (items : List FatDirectoryItem) : Led (treeDrive second third) (treeVolume d) true (listing d) items [100] [name] := by
  have only := tree_directory tree
  rw [Led,only]
  refine ⟨Nat.le_refl 1,?_,by decide,?_⟩
  · intro item member _
    rw [List.mem_singleton.mp member]
    exact held.counted
  · rw [if_neg (by decide),Led,hit]
    refine ⟨Nat.le_refl 1,?_,kept⟩
    intro item member is
    rw [List.mem_singleton.mp member,plain] at is
    cases is

private theorem tree_room (tree : Tree second third d) (part : PathPart) :
    3 * (treeVolume d).root_directory.total.toNat + 45 * [part].length ≤ freeBlocks bootKernel.kernel_heap := by
  have total : (treeVolume d).root_directory.total = 2 := tree.total
  rw [total,bootKernel,freeBlocks_empty (kernel_heap_init_laid _),List.length_singleton]
  decide

end

/-- The file x of the subdirectory d is found, with a deleted record behind it. -/
theorem directory_entry_x : ∃ d, Mounted (treeDrive 120 0xE5) twoHeader (treeVolume d) ∧
    EntryRight (treeDrive 120 0xE5) twoHeader (treeVolume d) ⟨0,0,[100]⟩ [⟨0,0,[120]⟩] bootKernel [] := by
  obtain ⟨d,tree⟩ := tree_loaded 120 0xE5
  have held := tree_sub tree (e := 3) (by decide) (by decide) (by decide)
  have searched := held.below tree
  refine ⟨d,tree.mounted,(directory_entry_iff tree.mounted ?_ (kernel_heap_init_laid _) (tree_room tree _)).mpr ?_⟩
  · exact tree_met tree held (by decide)
  have inner : matching [120] (below (treeDrive 120 0xE5) (treeVolume d) (treeEntry 1)) = [treeRecord 120 0xE5 1] := by
    rw [searched]
    decide
  exact tree_led tree held inner (by decide) (by decide) _

/-- Followed by another part, the item for the file b stays on the heap; and with a deleted record before
    it the file x is not found. -/
theorem directory_entry_wrong_turns :
    (∃ d, Mounted (treeDrive 120 0xE5) twoHeader (treeVolume d) ∧
      ¬EntryRight (treeDrive 120 0xE5) twoHeader (treeVolume d) ⟨0,0,[98]⟩ [⟨0,0,[120]⟩] bootKernel []) ∧
    ∃ d, Mounted (treeDrive 0xE5 120) twoHeader (treeVolume d) ∧
      ¬EntryRight (treeDrive 0xE5 120) twoHeader (treeVolume d) ⟨0,0,[100]⟩ [⟨0,0,[120]⟩] bootKernel [] := by
  constructor
  · obtain ⟨d,tree⟩ := tree_loaded 120 0xE5
    have only : matching [98] (listing d) = [treeEntry 0] := by
      rw [tree.root]
      decide
    refine ⟨d,tree.mounted,fun right => ?_⟩
    have led := entry_right_led tree.mounted ?_ (kernel_heap_init_laid _) (tree_room tree _) right
    · change Led _ _ true (listing d) _ [98] [[120]] at led
      rw [Led,only] at led
      exact absurd led.2.2.1 (by decide)
    · intro item met is
      change Met _ _ (listing d) [98] [[120]] item at met
      cases met with
      | here member =>
        rw [only,List.mem_singleton] at member
        rw [member] at is
        exact absurd is (by decide)
      | inner member up =>
        rw [only,List.mem_singleton] at member
        rw [member] at up
        exact absurd up (by decide)
  · obtain ⟨d,tree⟩ := tree_loaded 0xE5 120
    have held := tree_sub tree (e := 3) (by decide) (by decide) (by decide)
    have only := tree_directory tree
    have inner : matching [120] (below (treeDrive 0xE5 120) (treeVolume d) (treeEntry 1)) = [] := by
      rw [held.below tree]
      decide
    have item : lookup (treeDrive 0xE5 120) (treeVolume d) (contents (treeDrive 0xE5 120) (treeVolume d) (treeEntry 1))
        [120] [] = some (treeRecord 0xE5 120 2) := by
      rw [lookup,held.contents]
      decide
    refine ⟨d,tree.mounted,fun right => ?_⟩
    have led := entry_right_led tree.mounted ?_ (kernel_heap_init_laid _) (tree_room tree _) right
    · change Led _ _ true (listing d) _ [100] [[120]] at led
      rw [Led,only] at led
      have onward := led.2.2.2
      rw [if_neg (by decide),Led,inner] at onward
      rw [item] at onward
      exact absurd onward.2.2 (by simp)
    · exact tree_met tree held (by decide)

end SimpOS.DirectoryTrees
