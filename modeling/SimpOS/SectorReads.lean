import SimpOS.DiskStreams

/-!
The sectors that a read asks the disk for. It goes on in the next sector where it comes to the end of
one, also when nothing is left to read there, and the call it makes then asks for the sector before it
looks at how much is wanted.
-/
namespace SimpOS.SectorReads
open SimpOS.Machine SimpOS.Memory SimpOS.DiskStreams

/-- `diskstreamer_read` with the sectors that it passes to `disk_read_block`. -/
def diskstreamer_read_sectors (drive : Drive) (stream : DiskStream) (out : Nat) (total : Int) (m : Bytes) :
    (Int × DiskStream × Bytes) × List Nat :=
  let sector := Int.tdiv stream.pos SIMPOS_SECTOR_SIZE
  let offset := Int.tmod stream.pos SIMPOS_SECTOR_SIZE
  let overflow := offset + total ≥ (SIMPOS_SECTOR_SIZE : Int)
  let total_to_read := if overflow then total - ((offset + total) - SIMPOS_SECTOR_SIZE) else total
  let (res, buf) := disk_read_block drive stream.disk (u32 sector)
  if res < 0 then ((res, stream, m), [u32 sector])
  else
    let m := copy_loop buf offset out total_to_read.toNat 0 m
    let moved := { stream with pos := i32 (stream.pos + total_to_read) }
    if overflow then
      let (result, sectors) :=
        diskstreamer_read_sectors drive moved (Memory.offset out total_to_read.toNat) (total - SIMPOS_SECTOR_SIZE) m
      (result, u32 sector :: sectors)
    else ((res, moved, m), [u32 sector])
termination_by total.toNat
decreasing_by
  have bound := Int.tmod_lt_of_pos stream.pos (show (0 : Int) < (SIMPOS_SECTOR_SIZE : Int) by decide)
  have size : (SIMPOS_SECTOR_SIZE : Int) = 512 := rfl
  omega

section
variable {drive : Drive} {stream : DiskStream}

/-- A stream of another disk asks once, and is refused. -/
theorem read_sectors_other (other : stream.disk ≠ drive.disk) (out : Nat) (total : Int) (m : Bytes) :
    diskstreamer_read_sectors drive stream out total m = ((-Machine.EIO,stream,m),[u32 (Int.tdiv stream.pos 512)]) := by
  rw [diskstreamer_read_sectors]
  simp only [disk_read_block,ne_eq,other,not_false_eq_true,if_true]
  rfl

/-- One sector of a read: the last one, or one the read goes on after. -/
theorem read_sectors_step (primary : stream.disk = drive.disk) (out : Nat) (total : Int) (m : Bytes) :
    diskstreamer_read_sectors drive stream out total m =
      let sector := u32 (Int.tdiv stream.pos 512)
      let buf := disk_read_sector drive sector
      let off := Int.tmod stream.pos 512
      if off + total < 512 then
        ((0,⟨i32 (stream.pos + total),stream.disk⟩,copy_loop buf off out total.toNat 0 m),[sector])
      else
        let rest := diskstreamer_read_sectors drive ⟨i32 (stream.pos + (512 - off)),stream.disk⟩
          (offset out (512 - off).toNat) (total - 512) (copy_loop buf off out (512 - off).toNat 0 m)
        (rest.1,sector :: rest.2) := by
  have size : ((512 : Nat) : Int) = 512 := rfl
  have exact : total - (Int.tmod stream.pos 512 + total - 512) = 512 - Int.tmod stream.pos 512 := by omega
  rw [diskstreamer_read_sectors]
  simp only [disk_read_block,primary,ne_eq,not_true_eq_false,if_false,Int.lt_irrefl,size]
  by_cases last : Int.tmod stream.pos 512 + total < 512
  · simp only [last,if_true,ge_iff_le,Int.not_le.mpr last,if_false]
  · simp only [last,if_false,ge_iff_le,Int.not_lt.mp last,if_true,exact]

/-- Keeping the sectors changes nothing of the read. -/
theorem read_sectors_result (out : Nat) (total : Int) (m : Bytes) :
    (diskstreamer_read_sectors drive stream out total m).1 = diskstreamer_read drive stream out total m := by
  by_cases primary : stream.disk = drive.disk
  · induction size : total.toNat using Nat.strongRecOn generalizing stream out total m with
    | ind n ih =>
      have bound := Int.tmod_lt_of_pos stream.pos (show (0 : Int) < 512 by decide)
      rw [read_sectors_step primary,diskstreamer_read_step primary]
      dsimp only
      by_cases last : Int.tmod stream.pos 512 + total < 512
      · rw [if_pos last,if_pos last]
      · rw [if_neg last,if_neg last]
        exact ih (total - 512).toNat (by omega) _ _ _ primary rfl
  · rw [read_sectors_other primary,diskstreamer_read_other primary]

/-! ### Which sectors they are -/

/-- A read of no more than a sector's bytes from its start asks for it alone, and for the next with it
    where all its bytes are wanted; and so on. -/
private theorem sectors_aligned (primary : stream.disk = drive.disk) (n : Nat) : ∀ {s : Nat} {pos total : Int} (out : Nat) (m : Bytes),
    pos = 512 * s → s + n < 4194304 → total < 512 * (n + 1) → (n ≠ 0 → 512 * (n : Int) ≤ total) →
    (diskstreamer_read_sectors drive ⟨pos,stream.disk⟩ out total m).2 = List.range' s (n + 1) := by
  induction n with
  | zero =>
    intro s pos total out m here inside few _
    have primary' : (DiskStream.mk pos stream.disk).disk = drive.disk := primary
    have remainder : Int.tmod pos 512 = 0 := by rw [Int.tmod_eq_emod_of_nonneg (by omega)]; omega
    have quotient : Int.tdiv pos 512 = s := by rw [Int.tdiv_eq_ediv_of_nonneg (by omega)]; omega
    rw [read_sectors_step primary']
    dsimp only
    rw [remainder,if_pos (by omega),quotient,u32_of_range (by omega)]
    rfl
  | succ n ih =>
    intro s pos total out m here inside few more
    have primary' : (DiskStream.mk pos stream.disk).disk = drive.disk := primary
    have remainder : Int.tmod pos 512 = 0 := by rw [Int.tmod_eq_emod_of_nonneg (by omega)]; omega
    have quotient : Int.tdiv pos 512 = s := by rw [Int.tdiv_eq_ediv_of_nonneg (by omega)]; omega
    have many := more (Nat.succ_ne_zero n)
    rw [read_sectors_step primary']
    dsimp only
    rw [remainder,if_neg (by omega),quotient,u32_of_range (by omega),i32_of_range (by omega) (by omega)]
    rw [ih _ _ (show pos + (512 - 0) = 512 * ((s + 1 : Nat) : Int) by omega) (by omega) (by omega) (by omega)]
    rfl

/-- A read that goes on behind the last position an int can name asks for a sector at a negative one. -/
private theorem sectors_wrapped (primary : stream.disk = drive.disk) (n : Nat) : ∀ {s : Nat} {pos total : Int} (out : Nat) (m : Bytes),
    pos = 512 * s → s < 4194304 → 4194304 ≤ s + n → 512 * (n : Int) ≤ total →
    4290772992 ∈ (diskstreamer_read_sectors drive ⟨pos,stream.disk⟩ out total m).2 := by
  induction n with
  | zero =>
    intro s pos total out m _ inside beyond _
    omega
  | succ n ih =>
    intro s pos total out m here inside beyond many
    have primary' : (DiskStream.mk pos stream.disk).disk = drive.disk := primary
    have remainder : Int.tmod pos 512 = 0 := by rw [Int.tmod_eq_emod_of_nonneg (by omega)]; omega
    rw [read_sectors_step primary']
    dsimp only
    rw [remainder,if_neg (by omega)]
    refine List.mem_cons_of_mem _ ?_
    by_cases last : s + 1 = 4194304
    · have primary'' : (DiskStream.mk (-2147483648) stream.disk).disk = drive.disk := primary
      have wrapped : i32 (pos + (512 - 0)) = -2147483648 := by unfold i32; omega
      rw [wrapped,read_sectors_step primary'']
      dsimp only
      split_ifs
      · exact List.mem_cons_self
      · exact List.mem_cons_self
    · rw [i32_of_range (by omega) (by omega)]
      exact ih _ _ (show pos + (512 - 0) = 512 * ((s + 1 : Nat) : Int) by omega) (by omega) (by omega) (by omega)

/-- How many sectors behind its first one a read goes to, from a place in the first one. -/
def sectors_behind (off total : Nat) : Nat := if off + total < 512 then 0 else max 1 (total / 512)

/-- A read asks for its first sector and as many behind it, or for one at a negative position where an
    int does not reach so far. -/
theorem read_sectors_cases (primary : stream.disk = drive.disk) {pos total : Nat} (here : stream.pos = pos)
    (high : pos < 2147483648) (out : Nat) (m : Bytes) :
    (pos / 512 + sectors_behind (pos % 512) total < 4194304 ∧
      (diskstreamer_read_sectors drive stream out total m).2 =
        List.range' (pos / 512) (sectors_behind (pos % 512) total + 1)) ∨
    (4194304 ≤ pos / 512 + sectors_behind (pos % 512) total ∧
      4290772992 ∈ (diskstreamer_read_sectors drive stream out total m).2) := by
  have remainder : Int.tmod stream.pos 512 = (pos % 512 : Nat) := by rw [Int.tmod_eq_emod_of_nonneg (by omega)]; omega
  have quotient : Int.tdiv stream.pos 512 = (pos / 512 : Nat) := by rw [Int.tdiv_eq_ediv_of_nonneg (by omega)]; omega
  rw [read_sectors_step primary]
  dsimp only
  rw [remainder,quotient,u32_of_range (by omega)]
  unfold sectors_behind
  by_cases last : pos % 512 + total < 512
  · rw [if_pos last,if_pos (by omega)]
    exact .inl ⟨by omega,rfl⟩
  · rw [if_neg last,if_neg (by omega)]
    have more : max 1 (total / 512) = total / 512 - 1 + 1 := by omega
    rw [more]
    by_cases far : pos / 512 + 1 = 4194304
    · refine .inr ⟨by omega,List.mem_cons_of_mem _ ?_⟩
      have primary' : (DiskStream.mk (-2147483648) stream.disk).disk = drive.disk := primary
      have wrapped : i32 (stream.pos + (512 - (pos % 512 : Nat))) = -2147483648 := by unfold i32; omega
      rw [wrapped,read_sectors_step primary']
      dsimp only
      split_ifs
      · exact List.mem_cons_self
      · exact List.mem_cons_self
    · have next : stream.pos + (512 - (pos % 512 : Nat)) = 512 * ((pos / 512 + 1 : Nat) : Int) := by omega
      rw [i32_of_range (by omega) (by omega)]
      by_cases reach : pos / 512 + 1 + (total / 512 - 1) < 4194304
      · refine .inl ⟨by omega,?_⟩
        rw [sectors_aligned primary (total / 512 - 1) _ _ next reach (by omega) (by omega)]
        rfl
      · refine .inr ⟨by omega,List.mem_cons_of_mem _ ?_⟩
        exact sectors_wrapped primary (total / 512 - 1) _ _ next (by omega) (by omega) (by omega)

end

/-- Every sector that a read asks for has a byte that is wanted. -/
def OnlyNeeded (drive : Drive) (stream : DiskStream) (out : Nat) (total : Int) (m : Bytes) : Prop :=
  ∀ sector ∈ (diskstreamer_read_sectors drive stream out total m).2,
    stream.pos / 512 ≤ (sector : Int) ∧ (sector : Int) ≤ (stream.pos + total - 1) / 512

/-- A read asks for no sector it does not need exactly when it does not end with the sector it starts in,
    nor fill sectors from the start of the first one, and an int can name all the sectors it goes to; a
    stream of another disk is refused at the first sector. -/
theorem only_needed_iff {drive : Drive} {stream : DiskStream} {total : Int} (low : 0 ≤ stream.pos)
    (high : stream.pos < 2147483648) (some : 1 ≤ total) (int : total < 2147483648) (out : Nat) (m : Bytes) :
    OnlyNeeded drive stream out total m ↔
      stream.disk ≠ drive.disk ∨
      stream.pos % 512 + total ≠ 512 ∧ ¬(stream.pos % 512 = 0 ∧ total % 512 = 0) ∧
        stream.pos / 512 + sectors_behind (stream.pos % 512).toNat total.toNat < 4194304 := by
  obtain ⟨pos,here⟩ := Int.eq_ofNat_of_zero_le low
  obtain ⟨count,rfl⟩ := Int.eq_ofNat_of_zero_le (show 0 ≤ total by omega)
  unfold OnlyNeeded
  by_cases primary : stream.disk = drive.disk
  · have behind : (stream.pos % 512).toNat = pos % 512 := by omega
    rw [behind,Int.toNat_natCast]
    rcases read_sectors_cases primary here (by omega) out m with ⟨reach,sectors⟩ | ⟨beyond,wrapped⟩
    · rw [sectors]
      have counted : ∀ sector, sector ∈ List.range' (pos / 512) (sectors_behind (pos % 512) count + 1) ↔
          pos / 512 ≤ sector ∧ sector ≤ pos / 512 + sectors_behind (pos % 512) count := by
        intro sector
        rw [List.mem_range'_1]
        omega
      constructor
      · intro needed
        obtain ⟨_,last⟩ := needed (pos / 512 + sectors_behind (pos % 512) count) ((counted _).mpr ⟨by omega,by omega⟩)
        refine .inr ⟨?_,?_,by omega⟩
        · intro ends
          unfold sectors_behind at last
          rw [if_neg (by omega)] at last
          omega
        · rintro ⟨start,whole⟩
          unfold sectors_behind at last
          rw [if_neg (by omega)] at last
          omega
      · rintro (other | ⟨ends,whole,_⟩) sector member
        · exact absurd primary other
        · obtain ⟨above,below⟩ := (counted sector).mp member
          refine ⟨by omega,?_⟩
          unfold sectors_behind at below
          split_ifs at below with inside
          · omega
          · omega
    · constructor
      · intro needed
        obtain ⟨_,last⟩ := needed _ wrapped
        omega
      · rintro (other | ⟨_,_,reach⟩)
        · exact absurd primary other
        · omega
  · rw [read_sectors_other primary]
    refine iff_of_true (fun sector member => ?_) (.inl primary)
    rw [List.mem_singleton] at member
    subst member
    have quotient : Int.tdiv stream.pos 512 = (pos / 512 : Nat) := by rw [Int.tdiv_eq_ediv_of_nonneg (by omega)]; omega
    rw [quotient,u32_of_range (by omega)]
    omega

/-- A disk of zeros. -/
private def zeros : Drive := ⟨0, fun _ => 0, fun _ => 0⟩

theorem only_needed_first : OnlyNeeded zeros ⟨0,0⟩ 0 511 fun _ => 0 :=
  (only_needed_iff (by decide) (by decide) (by decide) (by decide) 0 _).mpr (.inr ⟨by decide,by decide,by decide⟩)

/-- For all of the first sector the second one is asked for as well. -/
theorem whole_sector_reads_next : (diskstreamer_read_sectors zeros ⟨0,0⟩ 0 512 fun _ => 0).2 = [0,1] ∧
    ¬OnlyNeeded zeros ⟨0,0⟩ 0 512 fun _ => 0 := by
  have primary : (DiskStream.mk 0 0).disk = zeros.disk := rfl
  have sectors : (diskstreamer_read_sectors zeros ⟨0,0⟩ 0 512 fun _ => 0).2 = [0,1] := by
    rcases @read_sectors_cases zeros ⟨0,0⟩ primary 0 512 rfl (by decide) 0 fun _ => 0 with ⟨_,sectors⟩ | ⟨beyond,_⟩
    · exact sectors
    · exact absurd beyond (by decide)
  refine ⟨sectors,fun needed => ?_⟩
  have beyond := (needed 1 (by rw [sectors]; decide)).2
  exact absurd beyond (by decide)

end SimpOS.SectorReads
