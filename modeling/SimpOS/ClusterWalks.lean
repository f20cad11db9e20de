import SimpOS.FatChains

/-!
The walk of `fat16_get_cluster_for_offset` along the table against what the entries of FAT16
mean. The walk stops at six values. Three of them are numbers of clusters that hold data, and
of the values that do not number such a cluster it misses the reserved ones, the one of a bad
cluster and most of the marks for the end of a chain.
-/
namespace SimpOS.ClusterWalks
open SimpOS.Machine SimpOS.Memory SimpOS.DiskStreams SimpOS.Fat16 SimpOS.FatChains

/-- The entry numbers a cluster that holds data: it is not free (0), reserved (1, 0xFFF0 to 0xFFF6),
    bad (0xFFF7) or the end of the chain (0xFFF8 to 0xFFFF). -/
def DataCluster (entry : Int) : Prop := 2 ≤ entry ∧ entry ≤ 0xFFEF

/-- The numbers of data clusters that the walk stops at, and the other entries that it takes for such. -/
def Misread (entry : Int) : Prop :=
  entry = 0xFF0 ∨ entry = 0xFF6 ∨ entry = 0xFF7 ∨ entry = 1 ∨ (0xFFF0 ≤ entry ∧ entry ≤ 0xFFF7) ∨
    (0xFFF9 ≤ entry ∧ entry ≤ 0xFFFE)

/-- The entries that the walk takes from the table. -/
def entries_taken (drive : Drive) : Nat → Int → FatPrivate → List Int
  | 0, _, _ => []
  | remaining + 1, cluster_to_use, fat_private =>
    let (entry, fat_private) := fat16_get_fat_entry drive fat_private cluster_to_use
    if fat16_entry_refused entry then [entry] else entry :: entries_taken drive remaining entry fat_private

/-- A walk of k links as FAT16 has it: it finds the cluster, fails at a link that leads to none,
    fails at no other, and does not go on behind one. -/
structure FollowsFat (drive : Drive) (p : FatPrivate) (cluster : Int) (k : Nat) (result : Int) (taken : List Int) :
    Prop where
  found : (∀ j, j < k → DataCluster (chain drive p cluster (j+1))) → result = chain drive p cluster k
  refused : (∃ j, j < k ∧ ¬DataCluster (chain drive p cluster (j+1))) → result < 0
  justified : ∀ entry, taken.getLast? = some entry → result < 0 → ¬DataCluster entry
  stops : ∀ entry, entry ∈ taken.dropLast → DataCluster entry

private theorem entries_succ (f : Nat → Int) (n : Nat) :
    (List.range (n+1)).map f = f 0 :: (List.range n).map fun i => f (i+1) := by
  rw [List.range_succ_eq_map,List.map_cons,List.map_map]
  rfl

/-- The walk takes the entries of the chain up to the first one it stops at. -/
theorem loop_taken (drive : Drive) (k : Nat) : ∀ (p : FatPrivate) (cluster : Int),
    ∃ n, n ≤ k ∧ (∀ i, i < n → fat16_entry_refused (chain drive p cluster (i+1)) = false) ∧
      ((n = k ∧ (fat16_get_cluster_loop drive k cluster p).1 = chain drive p cluster k ∧
        entries_taken drive k cluster p = (List.range k).map fun i => chain drive p cluster (i+1)) ∨
      (n < k ∧ fat16_entry_refused (chain drive p cluster (n+1)) = true ∧
        (fat16_get_cluster_loop drive k cluster p).1 = -Machine.EIO ∧
        entries_taken drive k cluster p = (List.range (n+1)).map fun i => chain drive p cluster (i+1))) := by
  induction k with
  | zero => exact fun p cluster => ⟨0,Nat.le_refl 0,fun i below => absurd below (Nat.not_lt_zero i),.inl ⟨rfl,rfl,rfl⟩⟩
  | succ k ih =>
    intro p cluster
    have volume := fat16_get_fat_entry_volume drive p cluster
    have value : (fat16_get_fat_entry drive p cluster).1 = chain drive p cluster 1 := rfl
    simp only [fat16_get_cluster_loop,entries_taken]
    rw [value]
    by_cases stop : fat16_entry_refused (chain drive p cluster 1) = true
    · refine ⟨0,Nat.zero_le _,fun i below => absurd below (Nat.not_lt_zero i),.inr ⟨Nat.zero_lt_succ k,stop,?_,?_⟩⟩
      · rw [if_pos stop]
      · rw [if_pos stop]
        rfl
    · rw [if_neg stop,if_neg stop]
      obtain ⟨n,below,passed,outcome⟩ := ih (fat16_get_fat_entry drive p cluster).2 (chain drive p cluster 1)
      have along : ∀ i, chain drive (fat16_get_fat_entry drive p cluster).2 (chain drive p cluster 1) i =
          chain drive p cluster (i+1) := by
        intro i
        rw [chain_congr volume]
        exact chain_link drive p cluster i
      simp only [along] at passed outcome
      refine ⟨n+1,Nat.succ_le_succ below,fun i bound => ?_,?_⟩
      · cases i with
        | zero => exact Bool.eq_false_iff.mpr stop
        | succ i => exact passed i (Nat.lt_of_succ_lt_succ bound)
      · rw [entries_succ _ k,entries_succ _ (n+1)]
        rcases outcome with ⟨all,result,taken⟩ | ⟨before,here,result,taken⟩
        · exact .inl ⟨congrArg (· + 1) all,result,congrArg _ taken⟩
        · exact .inr ⟨Nat.succ_lt_succ before,here,result,congrArg _ taken⟩

/-- A read of the primary disk succeeds. -/
theorem link_range {drive : Drive} {p : FatPrivate} {stream : DiskStream} (mounted : p.fat_read_stream = some stream)
    (primary : stream.disk = drive.disk) (cluster : Int) : 0 ≤ link drive p cluster ∧ link drive p cluster < 65536 := by
  unfold link fat16_get_fat_entry
  rw [mounted]
  dsimp only
  generalize position : diskstreamer_seek stream _ = moved
  have there : moved.disk = drive.disk := by
    rw [← position]
    exact primary
  have success := diskstreamer_read_primary there 0 2 (fun _ => 0)
  generalize diskstreamer_read drive moved 0 2 (fun _ => 0) = read at success ⊢
  rw [if_neg (by rw [success]; exact Int.lt_irrefl 0)]
  have small := read16_lt read.2.2 0
  exact ⟨Int.natCast_nonneg _,Int.ofNat_lt.mpr small⟩

theorem chain_range {drive : Drive} {p : FatPrivate} {stream : DiskStream} (mounted : p.fat_read_stream = some stream)
    (primary : stream.disk = drive.disk) (cluster : Int) (j : Nat) :
    0 ≤ chain drive p cluster (j+1) ∧ chain drive p cluster (j+1) < 65536 :=
  link_range mounted primary (chain drive p cluster j)

/-- The walk mistakes an entry exactly when it stops at a data cluster or takes another entry for one. -/
theorem misread_iff {entry : Int} (low : 0 ≤ entry) (high : entry < 65536) :
    ¬Misread entry ↔ (fat16_entry_refused entry = true ↔ ¬DataCluster entry) := by
  unfold Misread DataCluster fat16_entry_refused
  simp only [Bool.or_eq_true,decide_eq_true_eq,SIMPOS_FAT16_BAD_SECTOR]
  omega

section
variable {drive : Drive} {p : FatPrivate} {stream : DiskStream} {cluster : Int} {k : Nat}

private theorem mem_taken {f : Nat → Int} {n : Nat} {entry : Int} (among : entry ∈ ((List.range n).map f).dropLast) :
    ∃ i, i + 1 < n ∧ entry = f i := by
  rw [← List.map_dropLast,List.mem_map] at among
  obtain ⟨i,place,rfl⟩ := among
  refine ⟨i,?_,rfl⟩
  cases n with
  | zero => exact absurd place List.not_mem_nil
  | succ n =>
    rw [List.range_succ,List.dropLast_concat,List.mem_range] at place
    omega

private theorem taken_mem {f : Nat → Int} {n i : Nat} (below : i + 1 < n) : f i ∈ ((List.range n).map f).dropLast := by
  rw [← List.map_dropLast]
  refine List.mem_map_of_mem ?_
  obtain ⟨m,rfl⟩ : ∃ m, n = m + 1 := ⟨n - 1,by omega⟩
  rw [List.range_succ,List.dropLast_concat,List.mem_range]
  omega

private theorem last_taken {f : Nat → Int} {n : Nat} : ((List.range (n+1)).map f).getLast? = some (f n) := by
  rw [List.range_succ,List.map_append,List.map_singleton,List.getLast?_concat]

/-- Where no entry up to the first that leads to no cluster is mistaken, the walk is as FAT16 has it. -/
theorem follows_of_read (mounted : p.fat_read_stream = some stream) (primary : stream.disk = drive.disk)
    (read : ∀ j, j < k → (∀ i, i < j → DataCluster (chain drive p cluster (i+1))) →
      ¬Misread (chain drive p cluster (j+1))) :
    FollowsFat drive p cluster k (fat16_get_cluster_loop drive k cluster p).1 (entries_taken drive k cluster p) := by
  have judged : ∀ j, j < k → (∀ i, i < j → DataCluster (chain drive p cluster (i+1))) →
      (fat16_entry_refused (chain drive p cluster (j+1)) = true ↔ ¬DataCluster (chain drive p cluster (j+1))) := by
    intro j below before
    obtain ⟨low,high⟩ := chain_range mounted primary cluster j
    exact (misread_iff low high).mp (read j below before)
  obtain ⟨n,within,passed,outcome⟩ := loop_taken drive k p cluster
  have data : ∀ i, i < n → DataCluster (chain drive p cluster (i+1)) := by
    intro i
    induction i using Nat.strongRecOn with
    | ind i ih =>
      intro below
      by_contra invalid
      have stopped := (judged i (by omega) fun j before => ih j before (by omega)).mpr invalid
      rw [passed i below] at stopped
      exact absurd stopped (by decide)
  rcases outcome with ⟨rfl,result,taken⟩ | ⟨before,here,result,taken⟩
  · refine ⟨fun _ => result,fun ⟨j,below,invalid⟩ => absurd (data j below) invalid,fun entry last negative => ?_,
      fun entry among => ?_⟩
    · cases n with
      | zero => rw [taken] at last; exact absurd last (by simp)
      | succ n =>
        have positive := (data n (Nat.lt_succ_self n)).1
        rw [result] at negative
        omega
    · rw [taken] at among
      obtain ⟨i,below,rfl⟩ := mem_taken among
      exact data i (by omega)
  · have invalid := (judged n before data).mp here
    refine ⟨fun all => absurd (all n before) invalid,fun _ => by rw [result]; decide,fun entry last _ => ?_,
      fun entry among => ?_⟩
    · rw [taken,last_taken,Option.some.injEq] at last
      exact last ▸ invalid
    · rw [taken] at among
      obtain ⟨i,below,rfl⟩ := mem_taken among
      exact data i (by omega)

/-- A walk as FAT16 has it has mistaken no entry. -/
theorem read_of_follows (mounted : p.fat_read_stream = some stream) (primary : stream.disk = drive.disk)
    (follows : FollowsFat drive p cluster k (fat16_get_cluster_loop drive k cluster p).1
      (entries_taken drive k cluster p)) {j : Nat} (below : j < k)
    (before : ∀ i, i < j → DataCluster (chain drive p cluster (i+1))) : ¬Misread (chain drive p cluster (j+1)) := by
  obtain ⟨low,high⟩ := chain_range mounted primary cluster j
  refine (misread_iff low high).mpr ?_
  obtain ⟨n,within,passed,outcome⟩ := loop_taken drive k p cluster
  constructor
  · intro stopped
    rcases outcome with ⟨rfl,_⟩ | ⟨_,_,result,taken⟩
    · rw [passed j below] at stopped
      exact absurd stopped (by decide)
    · have invalid := follows.justified (chain drive p cluster (n+1)) (by rw [taken,last_taken]) (by rw [result]; decide)
      rcases Nat.lt_trichotomy n j with earlier | rfl | later
      · exact absurd (before n earlier) invalid
      · exact invalid
      · rw [passed j later] at stopped
        exact absurd stopped (by decide)
  · intro invalid
    by_contra goes_on
    rcases outcome with ⟨rfl,result,taken⟩ | ⟨_,here,result,taken⟩
    · by_cases last : j + 1 = n
      · have negative := follows.refused ⟨j,below,invalid⟩
        rw [result,← last] at negative
        exact absurd low (Int.not_le.mpr negative)
      · exact invalid (follows.stops _ (by rw [taken]; exact taken_mem (by omega)))
    · rcases Nat.lt_trichotomy n j with earlier | rfl | later
      · have bad := follows.justified (chain drive p cluster (n+1)) (by rw [taken,last_taken]) (by rw [result]; decide)
        exact bad (before n earlier)
      · exact goes_on here
      · exact invalid (follows.stops _ (by rw [taken]; exact taken_mem (by omega)))

end

/-- How many links a position is away from the first cluster. -/
def clusters_ahead (p : FatPrivate) (offset : Int) : Nat := (Int.tdiv offset (size_of_cluster_bytes p)).toNat

/-- The chain follows the table on the disk, and the walk along it is as FAT16 has it exactly when
    none of its entries up to the first that leads to no cluster is one that the driver mistakes. -/
theorem cluster_walk_iff {drive : Drive} {p : FatPrivate} {stream : DiskStream} {cluster offset : Int}
    (mounted : p.fat_read_stream = some stream) (primary : stream.disk = drive.disk)
    (positive : 0 < size_of_cluster_bytes p) :
    (∀ c : Nat, p.primary_header.reserved_sectors.toNat * 512 + 2 * c + 1 < 2147483648 →
      link drive p c = fatEntry drive p c) ∧
    ∃ result q, fat16_get_cluster_for_offset drive p cluster offset = some (result,q) ∧
      (FollowsFat drive p cluster (clusters_ahead p offset) result
          (entries_taken drive (clusters_ahead p offset) cluster p) ↔
        ∀ j, j < clusters_ahead p offset → (∀ i, i < j → DataCluster (chain drive p cluster (i+1))) →
          ¬Misread (chain drive p cluster (j+1))) := by
  refine ⟨fun c range => link_primary mounted primary range,_,_,if_neg (by omega),?_,?_⟩
  · intro follows j below before
    exact read_of_follows mounted primary follows below before
  · exact follows_of_read mounted primary

/-- A disk whose table has the entry of cluster 2, and the driver's data on it. -/
def tableDrive (entry : Nat) : Drive :=
  ⟨0, fun a => if a = 516 then UInt8.ofNat entry else if a = 517 then UInt8.ofNat (entry / 256) else 0, fun _ => 0⟩
def tableVolume : FatPrivate :=
  ⟨⟨1, 1⟩, ⟨1, 2, fun _ => ⟨[], [], 0, 0, 0, 0⟩, 0, 0⟩, ⟨0, 0⟩, some ⟨0, 0⟩, ⟨0, 0⟩⟩

private theorem table_link (entry : Nat) : chain (tableDrive entry) tableVolume 2 1 = fatEntry (tableDrive entry) tableVolume 2 :=
  link_primary (show tableVolume.fat_read_stream = some ⟨0,0⟩ from rfl) rfl (by decide)

theorem cluster_walk_data : ∃ result q,
    fat16_get_cluster_for_offset (tableDrive 3) tableVolume 2 512 = some (result,q) ∧
    FollowsFat (tableDrive 3) tableVolume 2 1 result (entries_taken (tableDrive 3) 1 2 tableVolume) := by
  obtain ⟨_,result,q,got,follows⟩ := @cluster_walk_iff (tableDrive 3) tableVolume ⟨0,0⟩ 2 512 rfl rfl (by decide)
  refine ⟨result,q,got,follows.mpr fun j below _ => ?_⟩
  obtain rfl : j = 0 := Nat.lt_one_iff.mp below
  rw [table_link,show fatEntry (tableDrive 3) tableVolume 2 = 3 by decide]
  unfold Misread
  decide

/-- The walk goes through the mark 0xFFF9 for the end of a chain. -/
theorem end_mark_passed : ∃ result q,
    fat16_get_cluster_for_offset (tableDrive 0xFFF9) tableVolume 2 512 = some (result,q) ∧
    ¬FollowsFat (tableDrive 0xFFF9) tableVolume 2 1 result (entries_taken (tableDrive 0xFFF9) 1 2 tableVolume) := by
  refine ⟨_,_,if_neg (by decide),fun follows => ?_⟩
  refine read_of_follows (show tableVolume.fat_read_stream = some ⟨0,0⟩ from rfl) rfl follows Nat.zero_lt_one
    (fun i below => absurd below (Nat.not_lt_zero i)) ?_
  rw [table_link,show fatEntry (tableDrive 0xFFF9) tableVolume 2 = 0xFFF9 by decide]
  unfold Misread
  decide

end SimpOS.ClusterWalks
