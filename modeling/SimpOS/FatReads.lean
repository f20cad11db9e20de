import SimpOS.FatChains

/-!
Reading an open file. A read of several members is one read for each of them; a
read from the start of a file delivers the content of its chain of clusters,
wherever on the disk these lie.
-/
namespace SimpOS.FatReads
open SimpOS.Machine SimpOS.Memory SimpOS.DiskStreams SimpOS.Fat16 SimpOS.FatChains

theorem fat16_read_internal_correct {drive : Drive} {p q : FatPrivate} {cluster res : Int} {start total out : Nat}
    {m m' : Bytes} (nonempty : 0 < total) (plain : Plain drive p cluster start total)
    (read : fat16_read_internal drive p cluster start total out m = some (res,q,m')) (success : 0 ≤ res) :
    res = 0 ∧ Done drive p q cluster start total out m m' := by
  unfold fat16_read_internal at read
  split at read
  case h_1 => cases read
  case h_2 made =>
    cases read
    obtain ⟨zero,disk,done⟩ := fat16_read_internal_from_stream_correct total nonempty plain made success
    exact ⟨zero,⟨done.volume.header,done.volume.root,disk,done.volume.fat,done.volume.directories⟩,done.clusters,done.delivered,done.stored⟩

theorem fat16_read_internal_succeeds {drive : Drive} {p : FatPrivate} {cluster : Int} {start total : Nat}
    (positive : 0 < size_of_cluster_bytes p) (primary : p.cluster_read_stream.disk = drive.disk) (nonempty : 0 < total)
    (plain : Plain drive p cluster start total) (linked : Linked drive p cluster (start + total)) (out : Nat)
    (m : Bytes) : ∃ q m', fat16_read_internal drive p cluster start total out m = some (0,q,m') := by
  obtain ⟨q,stream,m',made⟩ :=
    fat16_read_internal_from_stream_succeeds total positive primary nonempty plain linked out m
  refine ⟨{ q with cluster_read_stream := stream },m',?_⟩
  unfold fat16_read_internal
  rw [made]

/-- The reads of the members, one after the other. -/
structure Members (drive : Drive) (p q : FatPrivate) (cluster : Int) (start size count out : Nat) (m m' : Bytes) :
    Prop where
  volume : SameVolume p q
  clusters : ∀ j < count, ∀ i, i * size_of_cluster_bytes p < size →
    0 ≤ chain drive p cluster ((start + j * size) / size_of_cluster_bytes p + i)
  delivered : Delivered m m' out (count * size) (fun k => fileByte drive p cluster (start + k))
  stored : (∀ i < count, Whole (start + i * size) size) →
    Stored m m' out (count * size) (fun k => fileByte drive p cluster (start + k))

private theorem size_arithmetic {start size : Nat} (small : start + size < 2147483648) :
    i32 size = size ∧ i32 ((start : Int) + size) = ((start + size : Nat) : Int) := by
  refine ⟨i32_of_range (by omega) (by omega),?_⟩
  rw [i32_of_range (by omega) (by omega)]
  rfl
private theorem total_fits {start size count : Nat} (small : start + count * size + size < 2147483648) :
    size + count * size ≤ 4294967296 := by omega

private theorem fat16_read_loop_correct {drive : Drive} {cluster : Int} {size : Nat} (nonempty : 0 < size) (count : Nat) :
    ∀ {p q : FatPrivate} {start out : Nat} {m m' : Bytes} {res offset : Int},
      (∀ i < count, Plain drive p cluster (start + i * size) size) →
      fat16_read_loop drive cluster size count start out p m = some (res,offset,q,m') → 0 ≤ res →
      offset = (start + count * size : Nat) ∧ Members drive p q cluster start size count out m m' := by
  induction count with
  | zero =>
    intro p q start out m m' res offset _ read _
    cases read
    refine ⟨by simp,.refl p,fun j bound => absurd bound (Nat.not_lt_zero j),?_,fun _ => ?_⟩
    · rw [Nat.zero_mul]
      exact .none _ _ _ _
    · rw [Nat.zero_mul]
      exact .none _ _ _
  | succ count ih =>
    intro p q start out m m' res offset plain read success
    have now : Plain drive p cluster start size := by simpa using plain 0 (Nat.succ_pos count)
    obtain ⟨same,moved⟩ := size_arithmetic now.small
    simp only [fat16_read_loop,same,moved] at read
    cases member : fat16_read_internal drive p cluster start size out m with
    | none =>
      rw [member] at read
      cases read
    | some outcome =>
      obtain ⟨res₁,p₁,m₁⟩ := outcome
      simp only [member,Option.bind_some] at read
      by_cases failed : res₁ < 0
      · rw [if_pos failed] at read
        cases read
        exact absurd success (Int.not_le.mpr failed)
      rw [if_neg failed] at read
      obtain ⟨_,done⟩ := fat16_read_internal_correct nonempty now member (Int.not_lt.mp failed)
      have step : ∀ i, start + size + i * size = start + (i + 1) * size := fun i => by rw [Nat.add_one_mul]; omega
      have later : ∀ i < count, Plain drive p₁ cluster (start + size + i * size) size := fun i bound =>
        step i ▸ (plain (i + 1) (Nat.succ_lt_succ bound)).congr done.volume
      obtain ⟨last,rest⟩ := ih later read success
      have delivered := rest.delivered
      have stored := rest.stored
      simp only [fileByte_congr done.volume,Nat.add_assoc] at delivered stored
      refine ⟨by rw [last,step],done.volume.trans rest.volume,fun j bound => ?_,?_,fun whole => ?_⟩
      · cases j with
        | zero => simpa using done.clusters
        | succ j =>
          have later := rest.clusters j (Nat.lt_of_succ_lt_succ bound)
          simpa only [size_congr done.volume,chain_congr done.volume,step] using later
      · rw [Nat.add_one_mul,Nat.add_comm]
        exact done.delivered.append delivered
      · rw [Nat.add_one_mul,Nat.add_comm]
        refine (done.stored (by simpa using whole 0 (Nat.succ_pos count))).append (stored fun i bound => ?_) ?_
        · have here := whole (i + 1) (Nat.succ_lt_succ bound)
          rw [← step,Nat.add_assoc] at here
          exact here
        · exact total_fits (plain count (Nat.lt_succ_self count)).small

private theorem fat16_read_loop_one {drive : Drive} {p q : FatPrivate} {cluster offset : Int} {size out : Nat}
    {m m' : Bytes} (read : fat16_read_internal drive p cluster offset (i32 size) out m = some (0,q,m')) :
    fat16_read_loop drive cluster size 1 offset out p m = some (0,i32 (offset + size),q,m') := by
  rw [fat16_read_loop,read]
  rfl

/-- The first cluster of an open file, as the driver's reads get it. -/
def firstCluster (descriptor : FatFileDescriptor) : Int := i32 (fat16_get_first_cluster descriptor.item.item)

private theorem count_arithmetic {pos size last : Nat} (nonempty : 0 < size)
    (small : pos + last * size + size < 2147483648) :
    i32 (last + 1 : Nat) = (last + 1 : Nat) ∧ i32 pos = pos ∧
      u32 ((pos + (last + 1) * size : Nat) : Int) = pos + (last + 1) * size := by
  have bound : last ≤ last * size := Nat.le_mul_of_pos_right last nonempty
  refine ⟨i32_of_range (by omega) (by omega),i32_of_range (by omega) (by omega),u32_of_range ?_⟩
  rw [Nat.add_one_mul]
  omega

/-- A read that succeeds has read all its members and moves the position behind them. -/
theorem fat16_read_correct {drive : Drive} {p q : FatPrivate} {descriptor after : FatFileDescriptor}
    {size count out : Nat} {m m' : Bytes} {res : Int} (nonempty : 0 < size) (nonzero : 0 < count)
    (plain : ∀ i < count, Plain drive p (firstCluster descriptor) (descriptor.pos + i * size) size)
    (read : fat16_read drive p descriptor size count out m = some (res,after,q,m')) (success : 0 ≤ res) :
    res = count ∧ after = { descriptor with pos := descriptor.pos + count * size } ∧
      Members drive p q (firstCluster descriptor) descriptor.pos size count out m m' := by
  obtain ⟨last,rfl⟩ : ∃ last, count = last + 1 := ⟨count - 1,by omega⟩
  obtain ⟨number,position,moved⟩ := count_arithmetic nonempty (plain last (Nat.lt_succ_self last)).small
  unfold fat16_read at read
  simp only [position,number] at read
  rw [Option.bind_eq_some_iff] at read
  obtain ⟨⟨res₁,offset,p₁,m₁⟩,loop,outcome⟩ := read
  by_cases failed : res₁ < 0
  · simp only [failed,if_true,Option.some.injEq,Prod.mk.injEq] at outcome
    exact absurd (outcome.1 ▸ success) (Int.not_le.mpr failed)
  · obtain ⟨reached,members⟩ := fat16_read_loop_correct nonempty (last + 1) plain loop (Int.not_lt.mp failed)
    simp only [failed,if_false,reached,moved,Option.some.injEq,Prod.mk.injEq] at outcome
    obtain ⟨rfl,rfl,rfl,rfl⟩ := outcome
    exact ⟨rfl,rfl,members⟩

private theorem fat16_read_loop_succeeds {drive : Drive} {cluster : Int} {size : Nat} (nonempty : 0 < size) (count : Nat) :
    ∀ {p : FatPrivate} {start : Nat}, 0 < size_of_cluster_bytes p →
      p.cluster_read_stream.disk = drive.disk → (∀ i < count, Plain drive p cluster (start + i * size) size) →
      Linked drive p cluster (start + count * size) → ∀ (out : Nat) (m : Bytes), ∃ q m',
      fat16_read_loop drive cluster size count start out p m = some (0,((start + count * size : Nat) : Int),q,m') := by
  induction count with
  | zero =>
    intro p start _ _ _ _ out m
    refine ⟨p,m,?_⟩
    rw [Nat.zero_mul]
    rfl
  | succ count ih =>
    intro p start positive primary plain linked out m
    have now : Plain drive p cluster start size := by simpa using plain 0 (Nat.succ_pos count)
    have step : ∀ i, start + size + i * size = start + (i + 1) * size := fun i => by rw [Nat.add_one_mul]; omega
    have first : Linked drive p cluster (start + size) :=
      linked.mono (step count ▸ Nat.le_add_right (start + size) (count * size))
    obtain ⟨same,moved⟩ := size_arithmetic now.small
    obtain ⟨q,m₁,member⟩ := fat16_read_internal_succeeds positive primary nonempty now first out m
    obtain ⟨_,done⟩ := fat16_read_internal_correct nonempty now member (Int.le_refl 0)
    have laterPlain : ∀ i < count, Plain drive q cluster (start + size + i * size) size := fun i bound =>
      step i ▸ (plain (i + 1) (Nat.succ_lt_succ bound)).congr done.volume
    have laterLinked : Linked drive q cluster (start + size + count * size) :=
      step count ▸ linked.congr done.volume
    obtain ⟨last,m',rest⟩ := ih (by rwa [size_congr done.volume]) (done.volume.clusters.trans primary) laterPlain
      laterLinked (offset out size) m₁
    refine ⟨last,m',?_⟩
    simp only [fat16_read_loop,same,moved,member,Option.bind_some,Int.lt_irrefl,if_false]
    rw [← step]
    exact rest

/-- A read whose clusters the table leads to succeeds. -/
theorem fat16_read_succeeds {drive : Drive} {p : FatPrivate} {descriptor : FatFileDescriptor} {size count : Nat}
    (positive : 0 < size_of_cluster_bytes p) (primary : p.cluster_read_stream.disk = drive.disk) (nonempty : 0 < size)
    (nonzero : 0 < count)
    (plain : ∀ i < count, Plain drive p (firstCluster descriptor) (descriptor.pos + i * size) size)
    (linked : Linked drive p (firstCluster descriptor) (descriptor.pos + count * size)) (out : Nat) (m : Bytes) :
    ∃ after q m', fat16_read drive p descriptor size count out m = some ((count : Int),after,q,m') := by
  obtain ⟨last,rfl⟩ : ∃ last, count = last + 1 := ⟨count - 1,by omega⟩
  obtain ⟨number,position,_⟩ := count_arithmetic nonempty (plain last (Nat.lt_succ_self last)).small
  obtain ⟨q,m',loop⟩ := fat16_read_loop_succeeds nonempty (last + 1) positive primary plain linked out m
  refine ⟨⟨descriptor.item,u32 ((descriptor.pos + (last + 1) * size : Nat) : Int)⟩,q,m',?_⟩
  unfold firstCluster at loop
  simp only [fat16_read,position,number,loop,Option.bind_some,Int.lt_irrefl,if_false]

theorem fat16_read_internal_volume {drive : Drive} {p q : FatPrivate} {cluster res : Int} {start total out : Nat}
    {m m' : Bytes} (small : start + total < 2147483648)
    (read : fat16_read_internal drive p cluster start total out m = some (res,q,m')) : SameVolume p q := by
  unfold fat16_read_internal at read
  split at read
  case h_1 => cases read
  case h_2 made =>
    cases read
    obtain ⟨same,disk⟩ := fat16_read_internal_from_stream_volume total small made
    exact ⟨same.header,same.root,disk,same.fat,same.directories⟩

theorem fat16_read_internal_fails {drive : Drive} {p q : FatPrivate} {cluster res : Int} {start total out : Nat}
    {m m' : Bytes} (small : start + total < 2147483648) (breaks : Breaks drive p cluster start total)
    (read : fat16_read_internal drive p cluster start total out m = some (res,q,m')) : res < 0 := by
  unfold fat16_read_internal at read
  split at read
  case h_1 => cases read
  case h_2 made =>
    cases read
    exact fat16_read_internal_from_stream_fails total small breaks made

private theorem fat16_read_loop_fails {drive : Drive} {cluster : Int} {size : Nat} (count : Nat) :
    ∀ {p q : FatPrivate} {start i out : Nat} {m m' : Bytes} {res offset : Int},
      start + count * size < 2147483648 → i < count → Breaks drive p cluster (start + i * size) size →
      fat16_read_loop drive cluster size count start out p m = some (res,offset,q,m') → res < 0 := by
  induction count with
  | zero => exact fun _ bound => absurd bound (Nat.not_lt_zero _)
  | succ count ih =>
    intro p q start i out m m' res offset small bound breaks read
    rw [Nat.add_one_mul] at small
    obtain ⟨same,moved⟩ := size_arithmetic (by omega : start + size < 2147483648)
    simp only [fat16_read_loop,same,moved] at read
    cases member : fat16_read_internal drive p cluster start size out m with
    | none =>
      rw [member] at read
      cases read
    | some outcome =>
      obtain ⟨res₁,p₁,m₁⟩ := outcome
      simp only [member,Option.bind_some] at read
      by_cases failed : res₁ < 0
      · rw [if_pos failed] at read
        cases read
        exact failed
      rw [if_neg failed] at read
      cases i with
      | zero =>
        rw [Nat.zero_mul,Nat.add_zero] at breaks
        exact absurd (fat16_read_internal_fails (by omega) breaks member) failed
      | succ i =>
        have volume := fat16_read_internal_volume (by omega) member
        have later : Breaks drive p₁ cluster (start + size + i * size) size := by
          rw [Nat.add_assoc,Nat.add_comm size,← Nat.add_one_mul]
          exact breaks.congr volume
        exact ih (by omega) (Nat.lt_of_succ_lt_succ bound) later read

/-- A read with a member that the table leads to no cluster for fails, and moves no position. -/
theorem fat16_read_fails {drive : Drive} {p q : FatPrivate} {descriptor after : FatFileDescriptor}
    {size count i out : Nat} {m m' : Bytes} {res : Int} (small : descriptor.pos + count * size < 2147483648) (bound : i < count)
    (breaks : Breaks drive p (firstCluster descriptor) (descriptor.pos + i * size) size)
    (read : fat16_read drive p descriptor size count out m = some (res,after,q,m')) :
    res < 0 ∧ after = descriptor := by
  have position : i32 descriptor.pos = descriptor.pos := i32_of_range (by omega) (by omega)
  unfold fat16_read at read
  simp only [position] at read
  rw [Option.bind_eq_some_iff] at read
  obtain ⟨⟨res₁,offset,p₁,m₁⟩,loop,outcome⟩ := read
  have failed := fat16_read_loop_fails count small bound breaks loop
  rw [if_pos failed] at outcome
  cases outcome
  exact ⟨failed,rfl⟩

/-- A read that fails moves no position. -/
theorem fat16_read_failed {drive : Drive} {p q : FatPrivate} {descriptor after : FatFileDescriptor}
    {size count out : Nat} {m m' : Bytes} {res : Int} (few : count < 2147483648) (failed : res < 0)
    (read : fat16_read drive p descriptor size count out m = some (res,after,q,m')) : after = descriptor := by
  have number : i32 count = count := i32_of_range (by omega) (by omega)
  unfold fat16_read at read
  rw [Option.bind_eq_some_iff] at read
  obtain ⟨⟨res₁,offset,p₁,m₁⟩,_,outcome⟩ := read
  dsimp only at outcome
  by_cases negative : res₁ < 0
  · rw [if_pos negative] at outcome
    cases outcome
    rfl
  · rw [if_neg negative,number] at outcome
    simp only [Option.some.injEq,Prod.mk.injEq] at outcome
    omega

/-- A read of one member that is one piece. -/
theorem fat16_read_one {drive : Drive} {p q : FatPrivate} {descriptor : FatFileDescriptor} {size out : Nat}
    {m m' : Bytes} (small : descriptor.pos + size < 2147483648)
    (read : fat16_read_internal drive p (firstCluster descriptor) descriptor.pos size out m = some (0,q,m')) :
    ∃ after, fat16_read drive p descriptor size 1 out m = some (1,after,q,m') := by
  have position : i32 descriptor.pos = descriptor.pos := i32_of_range (by omega) (by omega)
  have count : i32 size = size := i32_of_range (by omega) (by omega)
  have once : i32 (1 : Nat) = 1 := i32_of_range (by decide) (by decide)
  rw [← count] at read
  refine ⟨{ descriptor with pos := u32 (i32 ((descriptor.pos : Int) + size)) },?_⟩
  unfold fat16_read
  rw [position]
  dsimp only
  unfold firstCluster at read
  rw [fat16_read_loop_one read,Option.bind_some,if_neg (Int.lt_irrefl 0),once]

/-- However a read ends, the file stays the one that was opened. -/
theorem fat16_read_item {drive : Drive} {p q : FatPrivate} {descriptor after : FatFileDescriptor}
    {size count out : Nat} {m m' : Bytes} {res : Int}
    (read : fat16_read drive p descriptor size count out m = some (res,after,q,m')) :
    after.item = descriptor.item := by
  unfold fat16_read at read
  rw [Option.bind_eq_some_iff] at read
  obtain ⟨⟨res₁,offset,p₁,m₁⟩,_,outcome⟩ := read
  dsimp only at outcome
  by_cases failed : res₁ < 0
  · rw [if_pos failed] at outcome
    cases outcome
    rfl
  · rw [if_neg failed] at outcome
    simp only [Option.some.injEq,Prod.mk.injEq] at outcome
    rw [← outcome.2.1]

/-- The clusters of a file as the disk has them. -/
def fatChain (drive : Drive) (p : FatPrivate) (cluster : Nat) : Nat → Nat
  | 0 => cluster
  | j + 1 => fatEntry drive p (fatChain drive p cluster j)
/-- Where the byte at a position of the file lies on the disk. -/
def contentPosition (drive : Drive) (p : FatPrivate) (cluster k : Nat) : Int :=
  let spc := p.primary_header.sectors_per_cluster.toNat
  (p.root_directory.last_sector_pos + ((fatChain drive p cluster (k / (spc * 512)) : Nat) - 2 : Int) * spc) * 512 +
    (k % (spc * 512) : Nat)

private theorem first_cluster_lt (item : FatDirectoryItem) : fat16_get_first_cluster item < 4294967296 := by
  have high := item.high_16_bits_first_cluster.toNat_lt
  have low := item.low_16_bits_first_cluster.toNat_lt
  unfold fat16_get_first_cluster
  refine Nat.or_lt_two_pow (n := 32) ?_ ?_
  · rw [Nat.shiftLeft_eq]
    omega
  · omega
private theorem i32_nonneg {x : Nat} (bound : x < 4294967296) (nonneg : 0 ≤ i32 x) : i32 x = x := by
  unfold i32 at *
  omega

private theorem chain_content {drive : Drive} {p : FatPrivate} {cluster : Int} {first size : Nat} (same : cluster = first)
    (clusters : ∀ i, i * size_of_cluster_bytes p < size → 0 ≤ chain drive p cluster i)
    (entries : ∀ j, (j + 1) * size_of_cluster_bytes p < size →
      p.primary_header.reserved_sectors.toNat * 512 + 2 * fatChain drive p first j + 1 < 2147483648) (j : Nat)
    (inside : j * size_of_cluster_bytes p < size) : chain drive p cluster j = fatChain drive p first j := by
  induction j with
  | zero => exact same
  | succ j ih =>
    have before := ih (Nat.lt_of_le_of_lt (Nat.mul_le_mul_right _ (Nat.le_succ j)) inside)
    have found := clusters (j + 1) inside
    rw [chain,before] at found
    rw [chain,before,link_entry found (entries j inside)]
    rfl

/-- A file read from its start delivers the content of its chain of clusters, and the
    position moves to the end of what was read. -/
theorem read_from_start (drive : Drive) (p q : FatPrivate) (descriptor after : FatFileDescriptor) (n out : Nat)
    (m m' : Bytes) (start : descriptor.pos = 0) (nonempty : 1 ≤ n) (small : n < 2147483648)
    (positions : ∀ k < n, 0 ≤ contentPosition drive p (fat16_get_first_cluster descriptor.item.item) k ∧
      contentPosition drive p (fat16_get_first_cluster descriptor.item.item) k < 2147483648)
    (entries : ∀ j, (j + 1) * (p.primary_header.sectors_per_cluster.toNat * 512) < n →
      p.primary_header.reserved_sectors.toNat * 512 +
        2 * fatChain drive p (fat16_get_first_cluster descriptor.item.item) j + 1 < 2147483648)
    (read : fat16_read drive p descriptor n 1 out m = some (1,after,q,m')) :
    (∀ k < n, m' (offset out k) =
      drive.image (contentPosition drive p (fat16_get_first_cluster descriptor.item.item) k).toNat) ∧
    after.pos = n := by
  have plain : ∀ i < 1, Plain drive p (firstCluster descriptor) (descriptor.pos + i * n) n := by
    rintro i bound
    obtain rfl : i = 0 := Nat.lt_one_iff.mp bound
    rw [start,Nat.zero_mul]
    exact ⟨by rwa [Nat.zero_add],.inl (Nat.zero_mod _),.inl rfl⟩
  obtain ⟨_,moved,members⟩ := fat16_read_correct nonempty (by decide) plain read (by decide)
  have stored := members.stored fun i bound => by
    obtain rfl : i = 0 := Nat.lt_one_iff.mp bound
    rw [start,Nat.zero_mul]
    exact .inl rfl
  have clusters := members.clusters 0 (by decide)
  rw [start] at stored clusters
  simp only [Nat.one_mul,Nat.zero_mul,Nat.zero_add,Nat.add_zero,Nat.zero_div] at stored clusters
  have whole : firstCluster descriptor = fat16_get_first_cluster descriptor.item.item :=
    i32_nonneg (first_cluster_lt _) (clusters 0 (by rwa [Nat.zero_mul]))
  refine ⟨fun k bound => ?_,by rw [moved,start]; simp⟩
  have size : size_of_cluster_bytes p = p.primary_header.sectors_per_cluster.toNat * 512 := rfl
  have inside : k / size_of_cluster_bytes p * size_of_cluster_bytes p < n :=
    Nat.lt_of_le_of_lt (Nat.div_mul_le_self _ _) bound
  have place : filePosition drive p (firstCluster descriptor) k =
      contentPosition drive p (fat16_get_first_cluster descriptor.item.item) k := by
    rw [filePosition,chain_content whole clusters entries _ inside]
    rfl
  obtain ⟨low,high⟩ := positions k bound
  rw [stored.byte k bound,fileByte,place]
  generalize contentPosition drive p (fat16_get_first_cluster descriptor.item.item) k = position at low high
  obtain ⟨x,rfl⟩ := Int.eq_ofNat_of_zero_le low
  rw [i32_of_range (by omega) high]
  exact diskByte_image drive (by omega)

/-- A disk with a volume of one-sector clusters, and a file on it whose clusters are 2 and 4. -/
def splitDrive : Drive :=
  ⟨0x9000, fun a => if a = 516 then 4 else if a = 517 then 0 else UInt8.ofNat (a / 512), fun _ => 0⟩
def splitVolume : FatPrivate :=
  ⟨⟨1, 1⟩, ⟨0, 0, fun _ => ⟨[], [], 0, 0, 0, 0⟩, 0, 2⟩, ⟨0, 0x9000⟩, some ⟨0, 0x9000⟩, ⟨0, 0x9000⟩⟩
def splitFile (pos : Nat) : FatFileDescriptor :=
  ⟨⟨0x01000000, ⟨[], [], 0, 0, 2, 1000⟩, 0x01001000, none, .FILE⟩, pos⟩

theorem splitVolume_linked (pos : Nat) {stop : Nat} (inside : stop ≤ 1024) :
    Linked splitDrive splitVolume (firstCluster (splitFile pos)) stop := by
  have first : firstCluster (splitFile pos) = (2 : Nat) := by
    simp [firstCluster,splitFile,fat16_get_first_cluster,i32]
  rw [first]
  refine ⟨by decide,fun j before => ?_⟩
  have size : size_of_cluster_bytes splitVolume = 512 := rfl
  rw [size] at before
  obtain rfl : j = 0 := by omega
  have stream : splitVolume.fat_read_stream = some ⟨0,0x9000⟩ := rfl
  have entry : fatEntry splitDrive splitVolume 2 = 4 := by simp [fatEntry,splitDrive,splitVolume]
  have second : link splitDrive splitVolume (2 : Nat) = fatEntry splitDrive splitVolume 2 :=
    link_primary stream rfl (by simp [splitVolume])
  rw [entry] at second
  rw [Nat.zero_add,chain,chain,second]
  decide

/-- The file is read over the border of its two clusters. -/
theorem read_from_start_split : ∃ after q m',
    fat16_read splitDrive splitVolume (splitFile 0) 600 1 0x01002000 (fun _ => 0) = some (1,after,q,m') ∧
    (∀ k < 600, m' (offset 0x01002000 k) = splitDrive.image
      (contentPosition splitDrive splitVolume (fat16_get_first_cluster (splitFile 0).item.item) k).toNat) ∧
    after.pos = 600 := by
  have plain : ∀ i < 1, Plain splitDrive splitVolume (firstCluster (splitFile 0)) ((splitFile 0).pos + i * 600) 600 := by
    intro i bound
    obtain rfl : i = 0 := Nat.lt_one_iff.mp bound
    exact ⟨by decide,.inl (by decide),.inl (by decide)⟩
  obtain ⟨after,q,m',read⟩ := fat16_read_succeeds (by decide) rfl (by decide) (by decide) plain
    (splitVolume_linked 0 (by decide)) 0x01002000 (fun _ => 0)
  refine ⟨after,q,m',read,read_from_start _ _ _ _ _ _ _ _ _ rfl (by decide) (by decide) ?_ ?_ read⟩
  · intro k bound
    have sector : k / 512 = 0 ∨ k / 512 = 1 := by omega
    have position : contentPosition splitDrive splitVolume (fat16_get_first_cluster (splitFile 0).item.item) k =
        (2 + ((fatChain splitDrive splitVolume 2 (k / 512) : Nat) - 2 : Int) * 1) * 512 + (k % 512 : Nat) := rfl
    rw [position]
    rcases sector with zero | one
    · rw [zero,show fatChain splitDrive splitVolume 2 0 = 2 from rfl]
      omega
    · rw [one,show fatChain splitDrive splitVolume 2 1 = 4 from rfl]
      omega
  · intro j before
    have size : splitVolume.primary_header.sectors_per_cluster.toNat = 1 := rfl
    rw [size] at before
    obtain rfl : j = 0 := by omega
    decide

end SimpOS.FatReads
