import SimpOS.Memory

/-!
The disk of `disk/disk.c` and the streams over it of `disk/streamer.c`. A stream
reads one sector into a buffer on the stack, copies what it wants of it, and calls
itself for the rest: for 512 bytes less, however many of them it copied.
-/
namespace SimpOS.DiskStreams
open SimpOS.Machine SimpOS.Memory

/-- The primary disk: the address of its structure, the bytes of the disk, and what lies
    below the sector buffer on the stack, which a read at a negative position gets to. -/
structure Drive where
  disk : Nat
  image : Bytes
  stack : Int → UInt8

structure DiskStream where
  pos : Int
  disk : Nat
deriving DecidableEq, Repr

/-- The buffer that a sector was read to, by index. -/
def disk_read_sector (drive : Drive) (lba : Nat) : Int → UInt8 := fun i =>
  if i < 0 then drive.stack i else drive.image (lba * SIMPOS_SECTOR_SIZE + i.toNat)

def disk_read_block (drive : Drive) (idisk lba : Nat) : Int × (Int → UInt8) :=
  if idisk ≠ drive.disk then (-Machine.EIO, fun _ => 0)
  else (0, disk_read_sector drive lba)

def diskstreamer_seek (stream : DiskStream) (pos : Int) : DiskStream := { stream with pos := pos }

def copy_loop (buf : Int → UInt8) (offset : Int) (out : Nat) : Nat → Nat → Bytes → Bytes
  | 0, _, m => m
  | remaining + 1, i, m =>
    copy_loop buf offset out remaining (i + 1) (Function.update m (Memory.offset out i) (buf (offset + i)))

/-- The result, the stream and the memory. -/
def diskstreamer_read (drive : Drive) (stream : DiskStream) (out : Nat) (total : Int) (m : Bytes) :
    Int × DiskStream × Bytes :=
  let sector := Int.tdiv stream.pos SIMPOS_SECTOR_SIZE
  let offset := Int.tmod stream.pos SIMPOS_SECTOR_SIZE
  let overflow := offset + total ≥ (SIMPOS_SECTOR_SIZE : Int)
  let total_to_read := if overflow then total - ((offset + total) - SIMPOS_SECTOR_SIZE) else total
  let (res, buf) := disk_read_block drive stream.disk (u32 sector)
  if res < 0 then (res, stream, m)
  else
    let m := copy_loop buf offset out total_to_read.toNat 0 m
    let moved := { stream with pos := i32 (stream.pos + total_to_read) }
    if overflow then
      diskstreamer_read drive moved (Memory.offset out total_to_read.toNat) (total - SIMPOS_SECTOR_SIZE) m
    else (res, moved, m)
termination_by total.toNat
decreasing_by
  have bound := Int.tmod_lt_of_pos stream.pos (show (0 : Int) < (SIMPOS_SECTOR_SIZE : Int) by decide)
  have size : (SIMPOS_SECTOR_SIZE : Int) = 512 := rfl
  omega

/-- The byte of the disk at an int position, which wraps as the target's sector numbers do. -/
def diskByte (drive : Drive) (pos : Int) : UInt8 :=
  drive.image (u32 (pos / SIMPOS_SECTOR_SIZE) * SIMPOS_SECTOR_SIZE + (pos % SIMPOS_SECTOR_SIZE).toNat)

theorem diskByte_image (drive : Drive) {pos : Nat} (range : pos < 2147483648) :
    diskByte drive pos = drive.image pos := by
  unfold diskByte u32
  simp only [SIMPOS_SECTOR_SIZE]
  congr 1
  omega

private theorem copy_loop_stored (buf : Int → UInt8) (pos : Int) (out remaining : Nat) :
    ∀ (i : Nat) (m : Bytes), i + remaining ≤ 4294967296 →
      Stored m (copy_loop buf pos out remaining i m) (offset out i) remaining (fun k => buf (pos + (i + k : Nat))) := by
  induction remaining with
  | zero => exact fun i m _ => Stored.none _ _ _
  | succ remaining ih =>
    intro i m fits
    have first := Stored.single m (offset out i) (fun k => buf (pos + (i + k : Nat)))
    have rest := ih (i + 1) (Function.update m (offset out i) (buf (pos + i))) (by omega)
    rw [copy_loop,Nat.add_comm remaining 1]
    refine first.append ?_ (by omega)
    simp only [offset_offset,Nat.add_zero]
    exact rest.congr fun k _ => by rw [Nat.add_assoc]

/-- A stream of another disk than the primary one delivers nothing. -/
theorem diskstreamer_read_other {drive : Drive} {stream : DiskStream} (other : stream.disk ≠ drive.disk)
    (out : Nat) (total : Int) (m : Bytes) :
    diskstreamer_read drive stream out total m = (-Machine.EIO,stream,m) := by
  unfold diskstreamer_read
  simp only [disk_read_block,ne_eq,other,not_false_eq_true,if_true]
  rfl

theorem diskstreamer_read_nonpos (drive : Drive) (stream : DiskStream) (out : Nat) (total : Int) (m : Bytes) :
    (diskstreamer_read drive stream out total m).1 ≤ 0 := by
  fun_induction diskstreamer_read drive stream out total m
  case case1 failed => exact Int.le_of_lt failed
  case case2 ih => exact ih
  case case3 =>
    rename_i res buf read succeeded _ _ _
    change res ≤ 0
    unfold disk_read_block at read
    split at read
    · cases read
      exact absurd (by decide) succeeded
    · cases read
      exact Int.le_refl 0

/-- A stream of the primary disk always delivers. -/
theorem diskstreamer_read_primary {drive : Drive} {stream : DiskStream} (primary : stream.disk = drive.disk)
    (out : Nat) (total : Int) (m : Bytes) : (diskstreamer_read drive stream out total m).1 = 0 := by
  have block : ∀ sector, (disk_read_block drive stream.disk sector).1 = 0 := by
    intro sector
    unfold disk_read_block
    rw [if_neg (fun other => other primary)]
  fun_induction diskstreamer_read drive stream out total m
  case case1 read failed =>
    have zero := (congrArg Prod.fst read).symm.trans (block _)
    dsimp only at zero
    omega
  case case2 ih => exact ih primary block
  case case3 =>
    rename_i read _ _ _ _
    exact (congrArg Prod.fst read).symm.trans (block _)

theorem diskstreamer_read_disk (drive : Drive) (stream : DiskStream) (out : Nat) (total : Int) (m : Bytes) :
    (diskstreamer_read drive stream out total m).2.1.disk = stream.disk := by
  fun_induction diskstreamer_read drive stream out total m
  case case1 => rfl
  case case2 ih => exact ih
  case case3 => rfl

section
variable {drive : Drive} {stream : DiskStream} (primary : stream.disk = drive.disk)
include primary

/-- One sector of a read: the last one, or one the read goes on after. -/
theorem diskstreamer_read_step (out : Nat) (total : Int) (m : Bytes) :
    diskstreamer_read drive stream out total m =
      let buf := disk_read_sector drive (u32 (Int.tdiv stream.pos 512))
      let off := Int.tmod stream.pos 512
      if off + total < 512 then
        (0,⟨i32 (stream.pos + total),stream.disk⟩,copy_loop buf off out total.toNat 0 m)
      else diskstreamer_read drive ⟨i32 (stream.pos + (512 - off)),stream.disk⟩ (offset out (512 - off).toNat)
        (total - 512) (copy_loop buf off out (512 - off).toNat 0 m) := by
  have size : ((512 : Nat) : Int) = 512 := rfl
  have exact : total - (Int.tmod stream.pos 512 + total - 512) = 512 - Int.tmod stream.pos 512 := by omega
  rw [diskstreamer_read]
  simp only [disk_read_block,primary,ne_eq,not_true_eq_false,if_false,Int.lt_irrefl,size]
  by_cases last : Int.tmod stream.pos 512 + total < 512
  · simp only [last,if_true,ge_iff_le,Int.not_le.mpr last,if_false]
  · simp only [last,if_false,ge_iff_le,Int.not_lt.mp last,if_true,exact]

private theorem diskstreamer_read_none (out : Nat) {total : Int} (none : total ≤ 0) (m : Bytes) :
    diskstreamer_read drive stream out total m = (0,⟨i32 (stream.pos + total),stream.disk⟩,m) := by
  have bound := Int.tmod_lt_of_pos stream.pos (show (0 : Int) < 512 by decide)
  have count : total.toNat = 0 := Int.toNat_of_nonpos none
  rw [diskstreamer_read_step primary]
  simp only [show Int.tmod stream.pos 512 + total < 512 by omega,if_true,count,copy_loop]

end

/-- The int positions that C's quotient and remainder put into the sector they lie in. -/
def Placed (pos : Int) : Prop := -2147483648 ≤ pos ∧ pos < 2147483648 ∧ (pos % 512 = 0 ∨ 0 ≤ pos)

private theorem Placed.quotient {pos : Int} (placed : Placed pos) : Int.tdiv pos 512 = pos / 512 := by
  rcases placed.2.2 with aligned | nonneg
  · exact Int.tdiv_eq_ediv_of_dvd (Int.dvd_of_emod_eq_zero aligned)
  · exact Int.tdiv_eq_ediv_of_nonneg nonneg
private theorem Placed.remainder {pos : Int} (placed : Placed pos) : Int.tmod pos 512 = pos % 512 := by
  have whole := Int.tmod_add_mul_tdiv pos 512
  rw [placed.quotient] at whole
  omega

private theorem sector_byte (drive : Drive) {pos : Int} (placed : Placed pos) {k : Nat} (inside : pos % 512 + k < 512) :
    disk_read_sector drive (u32 (pos / 512)) (pos % 512 + k) = diskByte drive (i32 (pos + k)) := by
  have low := placed.1
  have high := placed.2.1
  have range : i32 (pos + k) = pos + k := i32_of_range (by omega) (by omega)
  have sector : (pos + k) / 512 = pos / 512 := by omega
  have index : (pos + k) % 512 = pos % 512 + k := by omega
  have nonneg : ¬ pos % 512 + k < 0 := by omega
  have size : ((SIMPOS_SECTOR_SIZE : Nat) : Int) = 512 := rfl
  simp only [disk_read_sector,nonneg,if_false,diskByte,range,size,sector,index]

/-- What a read of total bytes, off bytes into a sector, delivers: when it goes on in the
    next sector it goes on for 512 bytes less, off more than it has copied. -/
def deliveredCount (off total : Nat) : Nat := if off + total < 512 then total else max (512 - off) (total - off)

theorem deliveredCount_le (off total : Nat) : deliveredCount off total ≤ total := by
  unfold deliveredCount
  split_ifs <;> omega
theorem deliveredCount_eq {off total : Nat} (whole : off = 0 ∨ off + total ≤ 512) : deliveredCount off total = total := by
  unfold deliveredCount
  split_ifs <;> omega

private theorem copied (drive : Drive) {stream : DiskStream} (placed : Placed stream.pos) (out count : Nat) (inside : stream.pos % 512 + count ≤ 512) (m : Bytes) :
    Stored m (copy_loop (disk_read_sector drive (u32 (stream.pos / 512))) (stream.pos % 512) out count 0 m) out count
      (fun k => diskByte drive (i32 (stream.pos + k))) := by
  have stored := copy_loop_stored (disk_read_sector drive (u32 (stream.pos / 512))) (stream.pos % 512) out count 0 m
    (by omega)
  exact stored.start.congr fun k bound => by
    rw [Nat.zero_add]
    exact sector_byte drive placed (by omega)

section
variable {drive : Drive} {stream : DiskStream} (primary : stream.disk = drive.disk)
include primary

/-- A read from the start of a sector delivers the bytes it is asked for, over any number of sectors. -/
theorem diskstreamer_read_aligned (low : -2147483648 ≤ stream.pos) (high : stream.pos < 2147483648)
    (aligned : stream.pos % 512 = 0) (out total : Nat) (small : total ≤ 4294967296) (m : Bytes) :
    ∃ m', diskstreamer_read drive stream out total m = (0,⟨i32 (stream.pos + total),stream.disk⟩,m') ∧
      Stored m m' out total (fun k => diskByte drive (i32 (stream.pos + k))) := by
  induction total using Nat.strongRecOn generalizing stream out m with
  | ind total ih =>
    have placed : Placed stream.pos := ⟨low,high,.inl aligned⟩
    rw [diskstreamer_read_step primary]
    simp only [placed.quotient,placed.remainder,aligned,Int.zero_add,Int.sub_zero]
    by_cases last : (total : Int) < 512
    · have stored := copied drive placed out total (by omega) m
      rw [aligned] at stored
      simp only [last,if_true,Int.toNat_natCast]
      exact ⟨_,rfl,stored⟩
    · have stored := copied drive placed out 512 (by omega) m
      rw [aligned] at stored
      simp only [last,if_false]
      have next : (DiskStream.mk (i32 (stream.pos + 512)) stream.disk).disk = drive.disk := primary
      have rest := ih (total - 512) (by omega) next (i32_ge _) (i32_lt _) (by unfold i32; dsimp only; omega)
        (offset out 512) (by omega)
        (copy_loop (disk_read_sector drive (u32 (stream.pos / 512))) 0 out 512 0 m)
      obtain ⟨m',read,later⟩ := rest
      have count : ((total - 512 : Nat) : Int) = (total : Int) - 512 := by omega
      have sum : stream.pos + 512 + ((total : Int) - 512) = stream.pos + total := by omega
      rw [count] at read
      refine ⟨m',?_,?_⟩
      · rw [show (512 : Int).toNat = 512 from rfl,read]
        dsimp only
        rw [i32_add,sum]
      · have split : total = 512 + (total - 512) := by omega
        rw [split]
        refine stored.append (later.congr fun k _ => ?_) (by omega)
        dsimp only
        rw [i32_add]
        congr 2
        omega

/-- A read from any position delivers the first bytes it is asked for, all but as many as the
    position is into its sector when it goes on in the next one. -/
theorem diskstreamer_read_correct (placed : Placed stream.pos) (out total : Nat) (small : total ≤ 4294967296)
    (m : Bytes) :
    ∃ pos m', diskstreamer_read drive stream out total m = (0,⟨pos,stream.disk⟩,m') ∧
      Stored m m' out (deliveredCount (stream.pos % 512).toNat total) (fun k => diskByte drive (i32 (stream.pos + k))) := by
  by_cases last : stream.pos % 512 + total < 512
  · have stored := copied drive placed out total (by omega) m
    rw [diskstreamer_read_step primary]
    simp only [placed.quotient,placed.remainder,last,if_true,Int.toNat_natCast]
    rw [deliveredCount_eq (.inr (by omega))]
    exact ⟨_,_,rfl,stored⟩
  · obtain ⟨off,offset_eq⟩ : ∃ off : Nat, stream.pos % 512 = off := ⟨(stream.pos % 512).toNat,by omega⟩
    have stored := copied drive placed out (512 - off) (by omega) m
    rw [diskstreamer_read_step primary]
    simp only [placed.quotient,placed.remainder,last,if_false]
    have count : (512 - stream.pos % 512).toNat = 512 - off := by omega
    have next : (DiskStream.mk (i32 (stream.pos + (512 - stream.pos % 512))) stream.disk).disk = drive.disk := primary
    rw [count]
    by_cases done : (total : Int) - 512 ≤ 0
    · have delivered : deliveredCount (stream.pos % 512).toNat total = 512 - off := by
        unfold deliveredCount
        split_ifs <;> omega
      rw [delivered,diskstreamer_read_none next _ done]
      exact ⟨_,_,rfl,stored⟩
    · have delivered : deliveredCount (stream.pos % 512).toNat total = 512 - off + (total - 512) := by
        unfold deliveredCount
        split_ifs <;> omega
      have rest : ((total - 512 : Nat) : Int) = (total : Int) - 512 := by omega
      rw [delivered,← rest]
      obtain ⟨m',read,later⟩ := diskstreamer_read_aligned next (i32_ge _) (i32_lt _)
        (by unfold i32; dsimp only; omega) (offset out (512 - off)) (total - 512) (by omega) _
      refine ⟨_,m',read,stored.append (later.congr fun k _ => ?_) (by omega)⟩
      dsimp only
      rw [i32_add]
      congr 2
      omega

/-- A read that ends within its sector leaves the position behind it; one that ends where the
    sector does leaves it as far back as it started into the sector. -/
theorem diskstreamer_read_inside (low : 0 ≤ stream.pos) (high : stream.pos < 2147483648) (out : Nat) {total : Nat}
    (nonempty : 0 < total) (inside : stream.pos % 512 + total ≤ 512)
    (moved : stream.pos + total - (if stream.pos % 512 + total = 512 then stream.pos % 512 else 0) < 2147483648)
    (m : Bytes) :
    ∃ m', diskstreamer_read drive stream out total m =
        (0,⟨stream.pos + total - (if stream.pos % 512 + total = 512 then stream.pos % 512 else 0),stream.disk⟩,m') ∧
      Stored m m' out total (fun k => diskByte drive (stream.pos + k)) := by
  have placed : Placed stream.pos := ⟨by omega,by omega,.inr low⟩
  have stored := copied drive placed out total inside m
  have exact : ∀ k < total, diskByte drive (i32 (stream.pos + k)) = diskByte drive (stream.pos + k) := by
    intro k bound
    rw [i32_of_range (by omega) (by omega)]
  rw [diskstreamer_read_step primary]
  simp only [placed.quotient,placed.remainder]
  by_cases last : stream.pos % 512 + total < 512
  · rw [if_pos last,if_neg (by omega),i32_of_range (by omega) (by omega)]
    rw [Int.sub_zero]
    exact ⟨_,rfl,stored.congr exact⟩
  · have next : (DiskStream.mk (i32 (stream.pos + (512 - stream.pos % 512))) stream.disk).disk = drive.disk := primary
    have count : (512 - stream.pos % 512).toNat = total := by omega
    have ends : stream.pos % 512 + total = 512 := by omega
    rw [if_pos ends] at moved
    have back : i32 (i32 (stream.pos + (512 - stream.pos % 512)) + (total - 512)) =
        stream.pos + total - stream.pos % 512 := by
      rw [i32_add,i32_of_range (by omega) (by omega)]
      omega
    rw [if_neg last,if_pos ends,count,diskstreamer_read_none next _ (by omega)]
    simp only [back]
    exact ⟨_,rfl,stored.congr exact⟩

theorem diskstreamer_read_within (low : 0 ≤ stream.pos) (out : Nat) {total : Nat} (nonempty : 0 < total)
    (high : stream.pos + total < 2147483648) (inside : stream.pos % 512 + total ≤ 512) (m : Bytes) :
    ∃ m', diskstreamer_read drive stream out total m =
        (0,⟨stream.pos + total - (if stream.pos % 512 + total = 512 then stream.pos % 512 else 0),stream.disk⟩,m') ∧
      Stored m m' out total (fun k => diskByte drive (stream.pos + k)) :=
  diskstreamer_read_inside primary low (by omega) out nonempty inside (by split_ifs <;> omega) m

/-- A read that goes on in the next sector stays as far behind its end as it started into its first one. -/
theorem diskstreamer_read_position (low : 0 ≤ stream.pos) (out total : Nat) (high : stream.pos + total < 2147483648)
    (m : Bytes) : (diskstreamer_read drive stream out total m).2.1.pos =
      stream.pos + total - (if stream.pos % 512 + total < 512 then 0 else stream.pos % 512) := by
  have placed : Placed stream.pos := ⟨by omega,by omega,.inr low⟩
  rw [diskstreamer_read_step primary]
  simp only [placed.quotient,placed.remainder]
  by_cases last : stream.pos % 512 + total < 512
  · rw [if_pos last,if_pos last,i32_of_range (by omega) (by omega),Int.sub_zero]
  · have next : (DiskStream.mk (i32 (stream.pos + (512 - stream.pos % 512))) stream.disk).disk = drive.disk := primary
    have back : i32 (i32 (stream.pos + (512 - stream.pos % 512)) + (total - 512)) =
        stream.pos + total - stream.pos % 512 := by
      rw [i32_add,i32_of_range (by omega) (by omega)]
      omega
    rw [if_neg last,if_neg last]
    by_cases done : (total : Int) - 512 ≤ 0
    · rw [diskstreamer_read_none next _ done]
      exact back
    · have rest : ((total - 512 : Nat) : Int) = (total : Int) - 512 := by omega
      rw [← rest]
      obtain ⟨m',read,_⟩ := diskstreamer_read_aligned next (i32_ge _) (i32_lt _)
        (by unfold i32; dsimp only; omega) (offset out (512 - stream.pos % 512).toNat) (total - 512) (by omega) _
      rw [read]
      dsimp only
      rw [rest]
      exact back

end

/-- A read that succeeds stores the bytes of the disk from its position on and moves the position
    behind them exactly when it starts at a sector or ends before the next one. -/
theorem diskstreamer_read_exact_iff {drive : Drive} {stream : DiskStream} {out total : Nat} {m : Bytes}
    (low : 0 ≤ stream.pos) (high : stream.pos + total < 2147483648)
    (success : 0 ≤ (diskstreamer_read drive stream out total m).1) :
    ((diskstreamer_read drive stream out total m).2.1.pos = stream.pos + total ∧
      Stored m (diskstreamer_read drive stream out total m).2.2 out total
        (fun k => drive.image (stream.pos.toNat + k))) ↔
    (stream.pos % SIMPOS_SECTOR_SIZE = 0 ∨ stream.pos % SIMPOS_SECTOR_SIZE + total < SIMPOS_SECTOR_SIZE) := by
  have primary : stream.disk = drive.disk := by
    by_contra other
    rw [diskstreamer_read_other other] at success
    exact absurd success (show ¬(0 : Int) ≤ -1 by decide)
  have size : ((SIMPOS_SECTOR_SIZE : Nat) : Int) = 512 := rfl
  rw [size]
  constructor
  · rintro ⟨position,_⟩
    rw [diskstreamer_read_position primary low out total high] at position
    by_cases within : stream.pos % 512 + total < 512
    · exact .inr within
    · rw [if_neg within] at position
      exact .inl (by omega)
  · intro whole
    have placed : Placed stream.pos := ⟨by omega,by omega,.inr low⟩
    obtain ⟨pos,m',read,stored⟩ := diskstreamer_read_correct primary placed out total (by omega) m
    have delivered : deliveredCount (stream.pos % 512).toNat total = total := deliveredCount_eq (by omega)
    rw [delivered] at stored
    refine ⟨?_,?_⟩
    · rw [diskstreamer_read_position primary low out total high]
      split_ifs <;> omega
    · rw [read]
      refine stored.congr fun k bound => ?_
      have place : i32 (stream.pos + k) = ((stream.pos.toNat + k : Nat) : Int) := by
        rw [i32_of_range (by omega) (by omega)]
        omega
      rw [place,diskByte_image drive (by omega)]

/-- A disk of zeros. -/
def zeroDrive : Drive := ⟨1, fun _ => 0, fun _ => 0⟩

theorem diskstreamer_read_exact_sector :
    (diskstreamer_read zeroDrive ⟨512,1⟩ 4096 1024 fun _ => 0).2.1.pos = 512 + 1024 ∧
    Stored (fun _ => 0) (diskstreamer_read zeroDrive ⟨512,1⟩ 4096 1024 fun _ => 0).2.2 4096 1024 (fun _ => 0) := by
  obtain ⟨m',read,_⟩ := diskstreamer_read_aligned (show (DiskStream.mk 512 1).disk = zeroDrive.disk from rfl) (by decide) (by decide)
    (by decide) 4096 1024 (by decide) fun _ => 0
  exact (@diskstreamer_read_exact_iff zeroDrive ⟨512,1⟩ 4096 1024 (fun _ => 0) (by decide) (by decide)
    (Int.le_of_eq (congrArg Prod.fst read).symm)).mpr (.inl (by decide))

/-- Reading the second half of a sector leaves the position where it was. -/
theorem diskstreamer_read_behind :
    (diskstreamer_read zeroDrive ⟨256,1⟩ 4096 256 fun _ => 0).1 = 0 ∧
    (diskstreamer_read zeroDrive ⟨256,1⟩ 4096 256 fun _ => 0).2.1.pos ≠ 256 + 256 := by
  obtain ⟨m',read,_⟩ := diskstreamer_read_within (show (DiskStream.mk 256 1).disk = zeroDrive.disk from rfl) (by decide) 4096
    (by decide : 0 < 256) (by decide) (by decide) fun _ => 0
  refine ⟨congrArg Prod.fst read,fun behind => ?_⟩
  have position := congrArg (fun r => r.2.1.pos) read
  exact absurd (position.symm.trans behind) (show ¬(256 : Int) = 512 by decide)

end SimpOS.DiskStreams
