import SimpOS.FatDirectories
import Mathlib.Data.Nat.Find

/-!
How many items a directory has, as `fat16_get_total_items_for_directory` counts them. Reading
the last item of a sector puts the stream back to the sector's second one, so that the count
ends exactly when one of the first sixteen items starts with a zero.
-/
namespace SimpOS.DirectoryCounts
open SimpOS.Machine SimpOS.Memory SimpOS.DiskStreams SimpOS.Fat16 SimpOS.FatDirectories

/-- The item at a place of the directory that starts at a position of the disk. -/
def itemAt (drive : Drive) (start : Int) (n : Nat) : FatDirectoryItem :=
  item_of fun j => diskByte drive (start + (32 * n + j : Nat))

/-- A sector starts at the position, which an int can name. -/
structure SectorStart (start : Int) : Prop where
  low : 0 ≤ start
  high : start < 2147483648
  aligned : start % 512 = 0

theorem item_of_congr {f g : Nat → UInt8} (same : ∀ j < 32, f j = g j) : item_of f = item_of g := by
  have name : (List.range 8).map f = (List.range 8).map g :=
    List.map_congr_left fun j member => same j (by rw [List.mem_range] at member; omega)
  have ext : ((List.range 3).map fun i => f (8 + i)) = (List.range 3).map fun i => g (8 + i) :=
    List.map_congr_left fun j member => same (8 + j) (by rw [List.mem_range] at member; omega)
  rw [item_of,item_of,name,ext,same 11 (by decide),same 20 (by decide),same 21 (by decide),same 26 (by decide),
    same 27 (by decide),same 28 (by decide),same 29 (by decide),same 30 (by decide),same 31 (by decide)]

/-- The place of the item that is read after the one at a place. -/
def following (n : Nat) : Nat := if n = 15 then 1 else n + 1

theorem following_lt {n : Nat} (inside : n < 16) : following n < 16 := by
  unfold following
  split_ifs <;> omega

section
variable {drive : Drive} {start : Int} {stream : DiskStream}

/-- One round of the count reads the item the stream is at and leaves it at the next one,
    or, behind the sixteenth, at the second. -/
theorem read_item (sector : SectorStart start) (primary : stream.disk = drive.disk) {n : Nat} (inside : n < 16)
    (here : stream.pos = start + (32 * n : Nat)) :
    ∃ m, diskstreamer_read drive stream 0 32 (fun _ => 0) =
        (0,⟨start + (32 * following n : Nat),stream.disk⟩,m) ∧
      item_at m 0 = itemAt drive start n := by
  obtain ⟨low,high,aligned⟩ := sector
  unfold following
  obtain ⟨m,read,stored⟩ := diskstreamer_read_inside primary (by omega) (by omega) 0 (by decide : 0 < 32) (by omega)
    (by split_ifs <;> omega) (fun _ => 0)
  refine ⟨m,?_,item_of_congr fun j bound => ?_⟩
  · rw [show ((32 : Nat) : Int) = 32 from rfl] at read
    rw [read]
    refine congrArg (fun pos => (0,DiskStream.mk pos stream.disk,m)) ?_
    split_ifs <;> omega
  · rw [stored.byte j bound,here]
    refine congrArg (diskByte drive) ?_
    push_cast
    omega

/-- A directory whose first sixteen items have no end is counted for ever. -/
theorem items_endless (sector : SectorStart start) (endless : ∀ n < 16, (itemAt drive start n).filename.headD 0 ≠ 0)
    (rounds : Nat) : ∀ (n : Nat) (i : Int) (stream : DiskStream), stream.disk = drive.disk → n < 16 →
      stream.pos = start + (32 * n : Nat) → total_items_loop drive rounds i stream = none := by
  induction rounds with
  | zero => exact fun n i stream _ _ _ => rfl
  | succ rounds ih =>
    intro n i stream primary inside here
    obtain ⟨m,read,item⟩ := read_item sector primary inside here
    simp only [total_items_loop,read,ne_eq,not_true_eq_false,if_false,item,endless n inside]
    split_ifs
    · exact ih (following n) i ⟨_,stream.disk⟩ primary (following_lt inside) rfl
    · exact ih (following n) (i + 1) ⟨_,stream.disk⟩ primary (following_lt inside) rfl

end

/-! ### What the count is for -/

/-- The positions at which the count reads an item. -/
def items_read (drive : Drive) : Nat → DiskStream → List Int
  | 0, _ => []
  | remaining + 1, stream =>
    let (res, after, m) := diskstreamer_read drive stream 0 32 (fun _ => 0)
    stream.pos :: (if res ≠ 0 ∨ (item_at m 0).filename.headD 0 = 0x00 then [] else items_read drive remaining after)

def items_examined (drive : Drive) (fat_private : FatPrivate) (directory_start_sector : Int) : List Int :=
  let directory_start_pos := i32 (directory_start_sector * SIMPOS_SECTOR_SIZE)
  items_read drive (items_rounds directory_start_pos) (diskstreamer_seek fat_private.directory_stream directory_start_pos)

/-- A directory on the disk: the sector it starts at, how many entries it has, and where each
    of them lies. Those of its first sector lie there one after another. -/
structure Region where
  sector : Nat
  entries : Nat
  place : Nat → Nat
  first : ∀ i, i < 16 → place i = sector * 512 + 32 * i

/-- How the name of an entry starts: with a zero behind the last used entry, with 0xE5 where it is deleted. -/
def Region.mark (r : Region) (drive : Drive) (i : Nat) : UInt8 := drive.image (r.place i)

/-- The directory's used entries are its first n. -/
structure EndsAfter (drive : Drive) (r : Region) (n : Nat) : Prop where
  within : n ≤ r.entries
  used : ∀ i, i < n → r.mark drive i ≠ 0
  ends : n = r.entries ∨ r.mark drive n = 0

/-- The entries among the first n that are not deleted. -/
def live (drive : Drive) (r : Region) (n : Nat) : List Nat := (List.range n).filter fun i => r.mark drive i ≠ 0xE5

/-- The count ends with the number of live entries, having looked once at each entry up to the
    end of the used ones and at nothing behind the directory. -/
def CountedRight (drive : Drive) (p : FatPrivate) (r : Region) : Prop :=
  ∃ n q, EndsAfter drive r n ∧
    fat16_get_total_items_for_directory drive p r.sector = some ((((live drive r n).length : Nat) : Int),q) ∧
    items_examined drive p r.sector = (List.range (min (n+1) r.entries)).map fun i => (r.place i : Int)

section
variable {drive : Drive} {start : Int} {stream : DiskStream} {p : FatPrivate} {r : Region}

theorem itemAt_mark (drive : Drive) (start : Int) (n : Nat) :
    (itemAt drive start n).filename.headD 0 = diskByte drive (start + (32 * n : Nat)) := rfl

/-- From item n on, with the end k items further, the count comes to the end. -/
theorem loop_counts (sector : SectorStart start) {t : Nat} (near : t < 16)
    (used : ∀ i, i < t → diskByte drive (start + (32 * i : Nat)) ≠ 0)
    (ends : diskByte drive (start + (32 * t : Nat)) = 0) (k : Nat) :
    ∀ (n rounds : Nat) (i : Int) (stream : DiskStream), t = n + k → k < rounds → stream.disk = drive.disk →
      stream.pos = start + (32 * n : Nat) →
      (∃ after, total_items_loop drive rounds i stream =
        some (i + (((List.range' n k).filter fun j => diskByte drive (start + (32 * j : Nat)) ≠ 0xE5).length : Nat),after)) ∧
      items_read drive rounds stream = (List.range' n (k+1)).map fun j => start + (32 * j : Nat) := by
  induction k with
  | zero =>
    intro n rounds i stream here enough primary place
    obtain ⟨rounds,rfl⟩ : ∃ m, rounds = m + 1 := ⟨rounds - 1,by omega⟩
    obtain rfl : t = n := here
    obtain ⟨m,read,item⟩ := read_item sector primary near place
    have last : (item_at m 0).filename.headD 0 = 0 := by
      rw [item,itemAt_mark]
      exact ends
    refine ⟨⟨⟨start + (32 * following t : Nat),stream.disk⟩,?_⟩,?_⟩
    · simp only [total_items_loop,read,ne_eq,not_true_eq_false,if_false,last,if_true]
      rw [List.range'_zero,List.filter_nil,List.length_nil,Int.natCast_zero,Int.add_zero]
    · simp only [items_read,read,last,or_true,if_true,place]
      rfl
  | succ k ih =>
    intro n rounds i stream here enough primary place
    obtain ⟨rounds,rfl⟩ : ∃ m, rounds = m + 1 := ⟨rounds - 1,by omega⟩
    obtain ⟨m,read,item⟩ := read_item sector primary (by omega : n < 16) place
    have mark : (item_at m 0).filename.headD 0 = diskByte drive (start + (32 * n : Nat)) := by
      rw [item,itemAt_mark]
    have more : ¬diskByte drive (start + (32 * n : Nat)) = 0 := used n (by omega)
    have next : following n = n + 1 := if_neg (by omega)
    rw [next] at read
    obtain ⟨counted,examined⟩ := ih (n+1) rounds (if diskByte drive (start + (32 * n : Nat)) = 0xE5 then i else i + 1)
      ⟨start + (32 * (n+1) : Nat),stream.disk⟩ (by omega) (by omega) primary rfl
    obtain ⟨after,counted⟩ := counted
    refine ⟨⟨after,?_⟩,?_⟩
    · simp only [total_items_loop,read,ne_eq,not_true_eq_false,if_false,mark,more]
      simp only [ne_eq] at counted
      rw [List.range'_succ]
      by_cases deleted : diskByte drive (start + (32 * n : Nat)) = 0xE5
      · rw [if_pos deleted] at counted ⊢
        rw [List.filter_cons_of_neg (by simpa using deleted)]
        exact counted
      · rw [if_neg deleted] at counted ⊢
        rw [List.filter_cons_of_pos (by simpa using deleted),List.length_cons,counted]
        refine congrArg (fun total => some (total,after)) ?_
        rw [Int.natCast_add]
        omega
    · rw [List.range'_succ,List.map_cons,← place]
      simp only [items_read,read,mark,more,ne_eq,not_true_eq_false,false_or,if_false]
      exact congrArg (stream.pos :: ·) examined

private theorem sector_range {sector i : Nat} (low : sector ≤ 4194303) (inside : i < 16) :
    sector * 512 + 32 * i < 2147483648 := by omega

theorem Region.mark_first (r : Region) (onDisk : r.sector * 512 < 2147483648) {i : Nat} (inside : i < 16) :
    diskByte drive (((r.sector * 512 : Nat) : Int) + (32 * i : Nat)) = r.mark drive i := by
  have low : r.sector ≤ 4194303 := by omega
  unfold Region.mark
  rw [r.first i inside,← Int.natCast_add]
  exact diskByte_image drive (sector_range low inside)

theorem Region.sectorStart (r : Region) (onDisk : r.sector * 512 < 2147483648) : SectorStart ((r.sector * 512 : Nat) : Int) :=
  ⟨by omega,by omega,by omega⟩

/-- Where the directory starts at a place an int can name, the count looks at its first sector:
    it ends at the first of sixteen entries that starts with a zero, or never. -/
theorem total_items_at (primary : p.directory_stream.disk = drive.disk) (onDisk : r.sector * 512 < 2147483648)
    {directory_start_sector : Int} (position : i32 (directory_start_sector * SIMPOS_SECTOR_SIZE) = ((r.sector * 512 : Nat) : Int)) :
    (∃ t q, t < 16 ∧ (∀ i, i < t → r.mark drive i ≠ 0) ∧ r.mark drive t = 0 ∧
      fat16_get_total_items_for_directory drive p directory_start_sector = some ((((live drive r t).length : Nat) : Int),q) ∧
      items_examined drive p directory_start_sector = (List.range (t+1)).map fun i => (r.place i : Int)) ∨
    (∀ i, i < 16 → r.mark drive i ≠ 0) ∧ fat16_get_total_items_for_directory drive p directory_start_sector = none := by
  have sector := r.sectorStart onDisk
  unfold fat16_get_total_items_for_directory items_examined
  dsimp only [diskstreamer_seek]
  rw [position,items_rounds_on_disk (by omega)]
  by_cases ends : ∃ t, t < 16 ∧ r.mark drive t = 0
  · have found := Nat.find_spec ends
    have first := fun i => Nat.find_min ends (m := i)
    generalize Nat.find ends = t at found first
    obtain ⟨near,zero⟩ := found
    have used : ∀ i, i < t → r.mark drive i ≠ 0 := fun i before zero' => first i before ⟨by omega,zero'⟩
    obtain ⟨⟨after,counted⟩,examined⟩ := loop_counts sector near
      (fun i before => by rw [r.mark_first onDisk (by omega)]; exact used i before)
      (by rw [r.mark_first onDisk near]; exact zero) t 0 16 0 ⟨((r.sector * 512 : Nat) : Int),p.directory_stream.disk⟩
      (Nat.zero_add t).symm near primary (Int.add_zero _).symm
    refine .inl ⟨t,{ p with directory_stream := after },near,used,zero,?_,?_⟩
    · rw [counted,Option.map_some,Int.zero_add,← List.range_eq_range']
      refine congrArg (fun total => some (((List.length total : Nat) : Int),_)) (List.filter_congr fun i among => ?_)
      rw [r.mark_first onDisk (by rw [List.mem_range] at among; omega)]
    · rw [examined,← List.range_eq_range']
      refine List.map_congr_left fun i among => ?_
      rw [List.mem_range] at among
      rw [r.first i (by omega),Int.natCast_add]
  · have used : ∀ i, i < 16 → r.mark drive i ≠ 0 := fun i inside zero => ends ⟨i,inside,zero⟩
    refine .inr ⟨used,?_⟩
    rw [items_endless sector (fun i inside => by rw [itemAt_mark,r.mark_first onDisk inside]; exact used i inside) 16 0 0
      ⟨((r.sector * 512 : Nat) : Int),p.directory_stream.disk⟩ primary (by decide) (Int.add_zero _).symm]
    rfl

theorem total_items_cases (primary : p.directory_stream.disk = drive.disk) (onDisk : r.sector * 512 < 2147483648) :
    (∃ t q, t < 16 ∧ (∀ i, i < t → r.mark drive i ≠ 0) ∧ r.mark drive t = 0 ∧
      fat16_get_total_items_for_directory drive p r.sector = some ((((live drive r t).length : Nat) : Int),q) ∧
      items_examined drive p r.sector = (List.range (t+1)).map fun i => (r.place i : Int)) ∨
    (∀ i, i < 16 → r.mark drive i ≠ 0) ∧ fat16_get_total_items_for_directory drive p r.sector = none := by
  refine total_items_at primary onDisk ?_
  simp only [SIMPOS_SECTOR_SIZE]
  rw [i32_of_range (by omega) (by omega)]
  omega

/-- The count moves nothing but the position of its stream. -/
theorem total_items_disk (drive : Drive) (rounds : Nat) : ∀ {i total : Int} {stream after : DiskStream},
    total_items_loop drive rounds i stream = some (total,after) → after.disk = stream.disk := by
  induction rounds with
  | zero => exact fun counted => nomatch counted
  | succ rounds ih =>
    intro i total stream after counted
    have disk := diskstreamer_read_disk drive stream 0 32 (fun _ => 0)
    unfold total_items_loop at counted
    generalize diskstreamer_read drive stream 0 32 (fun _ => 0) = read at counted disk
    obtain ⟨res,moved,m⟩ := read
    dsimp only at counted disk
    split_ifs at counted
    · cases counted
      exact disk
    · cases counted
      exact disk
    · exact (ih counted).trans disk
    · exact (ih counted).trans disk

theorem total_items_moved {drive : Drive} {p q : FatPrivate} {sector total : Int}
    (counted : fat16_get_total_items_for_directory drive p sector = some (total,q)) :
    ∃ after, q = { p with directory_stream := after } ∧ after.disk = p.directory_stream.disk := by
  unfold fat16_get_total_items_for_directory at counted
  obtain ⟨⟨result,after⟩,loop,same⟩ := Option.map_eq_some_iff.mp counted
  cases same
  have disk := total_items_disk drive _ loop
  exact ⟨after,rfl,disk⟩

/-- The first entry the count reads is at the position its int holds. -/
theorem items_examined_head (drive : Drive) (p : FatPrivate) (sector : Int) :
    ∃ rest, items_examined drive p sector = i32 (sector * SIMPOS_SECTOR_SIZE) :: rest := ⟨_,rfl⟩

/-- The directory is counted as it should be exactly when an int can name its start and one of
    its entries, among the first sixteen, is the end of the used ones. -/
theorem directory_counted_iff (primary : p.directory_stream.disk = drive.disk) :
    CountedRight drive p r ↔
      r.sector * 512 < 2147483648 ∧ ∃ n, n < 16 ∧ n < r.entries ∧ r.mark drive n = 0 := by
  constructor
  · rintro ⟨n,q,ends,counted,examined⟩
    obtain ⟨rest,head⟩ := items_examined_head drive p r.sector
    have some_entry : min (n+1) r.entries ≠ 0 := by
      intro zero
      rw [zero,List.range_zero,List.map_nil,head] at examined
      exact absurd examined (List.cons_ne_nil _ _)
    obtain ⟨more,plus⟩ := Nat.exists_eq_succ_of_ne_zero some_entry
    have start : i32 ((r.sector : Int) * SIMPOS_SECTOR_SIZE) = (r.place 0 : Int) := by
      rw [plus,List.range_succ_eq_map,List.map_cons,head] at examined
      exact (List.cons.inj examined).1
    have onDisk : r.sector * 512 < 2147483648 := by
      have high := i32_lt ((r.sector : Int) * SIMPOS_SECTOR_SIZE)
      rw [start,r.first 0 (by decide)] at high
      omega
    refine ⟨onDisk,?_⟩
    rcases total_items_cases primary onDisk with ⟨t,_,near,_,zero,_,examined'⟩ | ⟨_,never⟩
    · have length := congrArg List.length (examined'.symm.trans examined)
      rw [List.length_map,List.length_map,List.length_range,List.length_range] at length
      exact ⟨t,near,by omega,zero⟩
    · rw [never] at counted
      exact absurd counted.symm (Option.some_ne_none _)
  · rintro ⟨onDisk,n,near,inside,zero⟩
    rcases total_items_cases primary onDisk with ⟨t,q,near',used,zero',counted,examined⟩ | ⟨never,_⟩
    · have before : t ≤ n := by
        by_contra later
        exact used n (by omega) zero
      refine ⟨t,q,⟨by omega,used,.inr zero'⟩,counted,?_⟩
      rw [examined,Nat.min_eq_left (by omega)]
    · exact absurd zero (never n near)

end

/-- A directory in one piece. -/
def Region.contiguous (sector entries : Nat) : Region := ⟨sector, entries, fun i => sector * 512 + 32 * i, fun _ _ => rfl⟩

/-- A disk whose second sector is used and the rest zero, and the driver's data on it. -/
def sectorDrive : Drive := ⟨0, fun a => if a < 1024 then 65 else 0, fun _ => 0⟩
def sectorVolume : FatPrivate :=
  ⟨⟨1, 1⟩, ⟨1, 2, fun _ => ⟨[], [], 0, 0, 0, 0⟩, 0, 0⟩, ⟨0, 0⟩, some ⟨0, 0⟩, ⟨0, 0⟩⟩

/-- A disk with three entries in its third sector, the one in the middle deleted. -/
def deletedDrive : Drive :=
  ⟨0, fun a => if a = 1024 then 65 else if a = 1056 then 0xE5 else if a = 1088 then 66 else 0, fun _ => 0⟩

theorem directory_counted_deleted : CountedRight deletedDrive sectorVolume (Region.contiguous 2 512) ∧
    EndsAfter deletedDrive (Region.contiguous 2 512) 3 ∧ live deletedDrive (Region.contiguous 2 512) 3 = [0,2] :=
  ⟨(directory_counted_iff rfl).mpr ⟨by decide,3,by decide,by decide,rfl⟩,⟨by decide,by decide,.inr rfl⟩,by decide⟩

/-- A directory of sixteen files is counted for ever. -/
theorem directory_of_sixteen :
    EndsAfter sectorDrive (Region.contiguous 1 512) 16 ∧
    fat16_get_total_items_for_directory sectorDrive sectorVolume 1 = none ∧
    ¬CountedRight sectorDrive sectorVolume (Region.contiguous 1 512) := by
  have used : ∀ i, i < 16 → (Region.contiguous 1 512).mark sectorDrive i ≠ 0 := by
    intro i inside
    have place : 1 * 512 + 32 * i < 1024 := by omega
    show (if 1 * 512 + 32 * i < 1024 then (65 : UInt8) else 0) ≠ 0
    rw [if_pos place]
    decide
  have never : fat16_get_total_items_for_directory sectorDrive sectorVolume 1 = none := by
    rcases @total_items_cases sectorDrive sectorVolume (Region.contiguous 1 512) rfl (by decide) with
      ⟨t,_,near,_,zero,_⟩ | ⟨_,never⟩
    · exact absurd zero (used t near)
    · exact never
  refine ⟨⟨by decide,used,.inr rfl⟩,never,?_⟩
  rintro ⟨n,q,_,counted,_⟩
  exact absurd (counted.symm.trans never) (Option.some_ne_none _)

end SimpOS.DirectoryCounts
