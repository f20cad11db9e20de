import SimpOS.SectorReads
import Mathlib.Data.Nat.Bitwise

/-!
How `disk/disk.c` gets sectors from the primary disk: through the ports of an ATA drive, whose status it
reads over and over until the drive has the next sector. The drive takes the number of the first sector
and the number of sectors in registers of a byte each, and it is ready whenever it pleases.
-/
namespace SimpOS.AtaDisk
open SimpOS.Machine SimpOS.Memory SimpOS.DiskStreams SimpOS.SectorReads

/-! ### Ports -/

/-- A device behind ports. -/
structure Device (σ : Type) where
  outb : Nat → UInt8 → σ → σ
  insb : Nat → σ → UInt8 × σ
  insw : Nat → σ → UInt16 × σ

section
variable {σ : Type} (device : Device σ)

/-- The status is read until bit 3 is set; nothing where it was not within so many reads. -/
def disk_wait : Nat → σ → Option σ
  | 0, _ => none
  | remaining + 1, s =>
    let (c, s) := device.insb 0x1F7 s
    if c &&& 0x08 = 0 then disk_wait remaining s else some s

/-- Words are read from the data port to memory. -/
def disk_copy_words : Nat → Nat → Bytes → σ → Nat × Bytes × σ
  | 0, ptr, m, s => (ptr, m, s)
  | remaining + 1, ptr, m, s =>
    let (word, s) := device.insw 0x1F0 s
    let m := Function.update m (offset ptr 0) word.toUInt8
    let m := Function.update m (offset ptr 1) (word >>> 8).toUInt8
    disk_copy_words remaining (offset ptr 2) m s

def disk_read_loop (polls : Nat) : Nat → Nat → Bytes → σ → Option (Bytes × σ)
  | 0, _, m, s => some (m, s)
  | remaining + 1, ptr, m, s => do
    let s ← disk_wait device polls s
    let (ptr, m, s) := disk_copy_words device 256 ptr m s
    disk_read_loop polls remaining ptr m s

/-- `disk_read_sector` with a bound on the reads of the status for each sector. -/
def disk_read_sector (polls lba : Nat) (total : Int) (buf : Nat) (m : Bytes) (s : σ) : Option (Int × Bytes × σ) := do
  let s := device.outb 0x1F6 (UInt8.ofNat (lba >>> 24) ||| 0xE0) s
  let s := device.outb 0x1F2 (UInt8.ofNat (u32 total)) s
  let s := device.outb 0x1F3 (UInt8.ofNat (lba &&& 0xff)) s
  let s := device.outb 0x1F4 (UInt8.ofNat (lba >>> 8)) s
  let s := device.outb 0x1F5 (UInt8.ofNat (lba >>> 16)) s
  let s := device.outb 0x1F7 0x20 s
  let (m, s) ← disk_read_loop device polls total.toNat buf m s
  return (0, m, s)

def disk_read_block (polls primary idisk lba : Nat) (total : Int) (buf : Nat) (m : Bytes) (s : σ) : Option (Int × Bytes × σ) :=
  if idisk ≠ primary then some (-Machine.EIO, m, s)
  else disk_read_sector device polls lba total buf m s

/-- `diskstreamer_read` with its sector buffer in a memory of its own, over what else there is on the stack. -/
def diskstreamer_read (polls primary : Nat) (stack : Int → UInt8) (stream : DiskStream) (out : Nat) (total : Int)
    (m : Bytes) (s : σ) : Option (Int × DiskStream × Bytes × σ) :=
  let sector := Int.tdiv stream.pos SIMPOS_SECTOR_SIZE
  let offset := Int.tmod stream.pos SIMPOS_SECTOR_SIZE
  let overflow := offset + total ≥ (SIMPOS_SECTOR_SIZE : Int)
  let total_to_read := if overflow then total - ((offset + total) - SIMPOS_SECTOR_SIZE) else total
  match disk_read_block device polls primary stream.disk (u32 sector) 1 0 (fun i => stack i) s with
  | none => none
  | some (res, buf, s) =>
    if res < 0 then some (res, stream, m, s)
    else
      let m := copy_loop (fun i => if i < 0 then stack i else buf i.toNat) offset out total_to_read.toNat 0 m
      let moved := { stream with pos := i32 (stream.pos + total_to_read) }
      if overflow then
        diskstreamer_read polls primary stack moved (Memory.offset out total_to_read.toNat) (total - SIMPOS_SECTOR_SIZE) m s
      else some (res, moved, m, s)
termination_by total.toNat
decreasing_by
  have bound := Int.tmod_lt_of_pos stream.pos (show (0 : Int) < (SIMPOS_SECTOR_SIZE : Int) by decide)
  have size : (SIMPOS_SECTOR_SIZE : Int) = 512 := rfl
  omega

end

/-! ### The drive -/

/-- What a drive is doing: it waits for a command or has given one up, makes a sector ready while its status
    is read a number of times, or hands out the words of one. -/
inductive Phase
  | idle
  | failed
  | busy (reads lba remaining : Nat)
  | data (word lba remaining : Nat)
deriving DecidableEq, Repr

/-- The registers of the primary drive, with what it is doing and how many sectors it has served. -/
structure Ata where
  sector_count : UInt8
  lba_low : UInt8
  lba_mid : UInt8
  lba_high : UInt8
  drive_head : UInt8
  phase : Phase
  served : Nat
deriving DecidableEq, Repr

/-- A drive with so many sectors, each of which 28 bits can name. How often its status says busy before it has a
    sector ready is its own affair. -/
structure Disk where
  image : Nat → UInt8
  sectors : Nat
  delay : Nat → Nat
  addressed : sectors ≤ 268435456

variable (disk : Disk)

def Disk.next (lba remaining : Nat) (s : Ata) : Ata :=
  { s with phase :=
      if remaining = 0 then .idle
      else if lba < disk.sectors then .busy (disk.delay s.served) lba remaining else .failed }

/-- The sector that the registers name, and how many are asked for. -/
def Ata.lba (s : Ata) : Nat :=
  s.lba_low.toNat + 256 * s.lba_mid.toNat + 65536 * s.lba_high.toNat + 16777216 * (s.drive_head &&& 0x0F).toNat
def Ata.count (s : Ata) : Nat := if s.sector_count = 0 then 256 else s.sector_count.toNat

/-- READ SECTORS. It is for the other drive, which there is none of, where bit 4 of the head register is set; the
    addresses are numbers of sectors where bit 6 is. -/
def Disk.read_sectors (s : Ata) : Ata :=
  if s.drive_head &&& 0x10 ≠ 0 then { s with phase := .idle }
  else if s.drive_head &&& 0x40 = 0 then { s with phase := .failed }
  else disk.next s.lba s.count s

/-- The drive has no command to carry out. -/
def Ata.AtRest (s : Ata) : Prop := s.phase = .idle ∨ s.phase = .failed

instance (s : Ata) : Decidable s.AtRest := inferInstanceAs (Decidable (_ ∨ _))

/-- The registers take nothing while a command is carried out. -/
def Disk.outb (port : Nat) (v : UInt8) (s : Ata) : Ata :=
  if ¬s.AtRest then s
  else match port with
  | 0x1F2 => { s with sector_count := v }
  | 0x1F3 => { s with lba_low := v }
  | 0x1F4 => { s with lba_mid := v }
  | 0x1F5 => { s with lba_high := v }
  | 0x1F6 => { s with drive_head := v }
  | 0x1F7 => if v = 0x20 then disk.read_sectors s else s
  | _ => s

/-- The status: busy, or ready with an error, with data, or with neither. -/
def Ata.insb (port : Nat) (s : Ata) : UInt8 × Ata :=
  match port with
  | 0x1F7 =>
    match s.phase with
    | .idle => (0x50, s)
    | .failed => (0x51, s)
    | .busy (reads + 1) lba remaining => (0x80, { s with phase := .busy reads lba remaining })
    | .busy 0 lba remaining => (0x58, { s with phase := .data 0 lba remaining })
    | .data _ _ _ => (0x58, s)
  | _ => (0xFF, s)

/-- A word of the sector, its lower byte first; behind the last one comes the next sector. -/
def Disk.insw (port : Nat) (s : Ata) : UInt16 × Ata :=
  match port, s.phase with
  | 0x1F0, .data word lba remaining =>
    let low := disk.image (512 * lba + 2 * word)
    let high := disk.image (512 * lba + 2 * word + 1)
    let s := if word = 255 then disk.next (lba + 1) (remaining - 1) { s with served := s.served + 1 }
      else { s with phase := .data (word + 1) lba remaining }
    (UInt16.ofNat (low.toNat + 256 * high.toNat), s)
  | _, _ => (0xFFFF, s)

def Disk.device : Device Ata := ⟨disk.outb, Ata.insb, disk.insw⟩

/-! ### Waiting -/

section
variable {disk : Disk} {s : Ata} {lba remaining : Nat}

private theorem asks : ((0x58 : UInt8) &&& 0x08 = 0) = False ∧ ((0x80 : UInt8) &&& 0x08 = 0) = True ∧
    ((0x50 : UInt8) &&& 0x08 = 0) = True ∧ ((0x51 : UInt8) &&& 0x08 = 0) = True := by decide

theorem disk_wait_busy (reads : Nat) : ∀ {s : Ata}, s.phase = .busy reads lba remaining → ∀ polls,
    disk_wait disk.device polls s = if reads < polls then some { s with phase := .data 0 lba remaining } else none := by
  induction reads with
  | zero =>
    intro s busy polls
    cases polls with
    | zero => rfl
    | succ polls => simp [disk_wait,Disk.device,Ata.insb,busy,asks]
  | succ reads ih =>
    intro s busy polls
    cases polls with
    | zero => rfl
    | succ polls =>
      have rest := ih (s := { s with phase := .busy reads lba remaining }) rfl polls
      simpa [disk_wait,Disk.device,Ata.insb,busy,asks] using rest

/-- A drive that has nothing to give is waited for in vain. -/
theorem disk_wait_never (nothing : s.AtRest) (polls : Nat) : disk_wait disk.device polls s = none := by
  induction polls with
  | zero => rfl
  | succ polls ih =>
    rcases nothing with idle | failed
    · simpa [disk_wait,Disk.device,Ata.insb,idle,asks] using ih
    · simpa [disk_wait,Disk.device,Ata.insb,failed,asks] using ih

/-! ### Sectors -/

private theorem word_low (low high : UInt8) : (UInt16.ofNat (low.toNat + 256 * high.toNat)).toUInt8 = low := by
  have bound := low.toNat_lt
  have bound' := high.toNat_lt
  rw [← UInt8.toNat_inj,UInt16.toNat_toUInt8,UInt16.toNat_ofNat']
  omega
private theorem word_high (low high : UInt8) : (UInt16.ofNat (low.toNat + 256 * high.toNat) >>> 8).toUInt8 = high := by
  have bound := low.toNat_lt
  have bound' := high.toNat_lt
  rw [← UInt8.toNat_inj,UInt16.toNat_toUInt8,UInt16.toNat_shiftRight,UInt16.toNat_ofNat',show (8 : UInt16).toNat % 16 = 8 from rfl,
    Nat.shiftRight_eq_div_pow]
  omega

private theorem word_stored (m : Bytes) (ptr : Nat) (f : Nat → UInt8) :
    Stored m (Function.update (Function.update m (offset ptr 0) (f 0)) (offset ptr 1) (f 1)) ptr 2 f := by
  have second := Stored.single (Function.update m (offset ptr 0) (f 0)) (offset ptr 1) fun j => f (1 + j)
  rw [offset_offset] at second
  exact (Stored.single m ptr f).append second (by omega)

variable (disk)

/-- A word that is read goes to memory. -/
theorem disk_copy_words_step {word : Nat} (k ptr : Nat) (m : Bytes) (data : s.phase = .data word lba remaining) :
    ∃ m', Stored m m' ptr 2 (fun j => disk.image (512 * lba + 2 * word + j)) ∧
      disk_copy_words disk.device (k + 1) ptr m s = disk_copy_words disk.device k (offset ptr 2) m'
        (if word = 255 then disk.next (lba + 1) (remaining - 1) { s with served := s.served + 1 }
          else { s with phase := .data (word + 1) lba remaining }) := by
  refine ⟨_,word_stored m ptr fun j => disk.image (512 * lba + 2 * word + j),?_⟩
  rw [disk_copy_words]
  simp only [Disk.device,Disk.insw,data,word_low,word_high,Nat.add_zero]

/-- The words that are left of a sector are stored one behind the other. -/
theorem disk_copy_words_stored (k : Nat) : ∀ {s : Ata} {word : Nat} (ptr : Nat) (m : Bytes), s.phase = .data word lba remaining →
    word + (k + 1) = 256 → ∃ m', disk_copy_words disk.device (k + 1) ptr m s =
      (offset ptr (2 * (k + 1)),m',disk.next (lba + 1) (remaining - 1) { s with served := s.served + 1 }) ∧
      Stored m m' ptr (2 * (k + 1)) fun j => disk.image (512 * lba + 2 * word + j) := by
  induction k with
  | zero =>
    intro s word ptr m data last
    obtain ⟨m',stored,step⟩ := disk_copy_words_step disk 0 ptr m data
    rw [if_pos (by omega)] at step
    exact ⟨m',step,stored⟩
  | succ k ih =>
    intro s word ptr m data last
    obtain ⟨m',stored,step⟩ := disk_copy_words_step disk (k+1) ptr m data
    rw [if_neg (by omega)] at step
    obtain ⟨m'',rest,stored'⟩ := ih (s := { s with phase := .data (word + 1) lba remaining }) (offset ptr 2) m' rfl (by omega)
    refine ⟨m'',?_,?_⟩
    · rw [step,rest,offset_offset]
      rw [show 2 + 2 * (k + 1) = 2 * (k + 1 + 1) by omega]
      rfl
    · have whole := stored.append (stored'.congr fun j _ => ?_) (by omega)
      · rw [show 2 * (k + 1 + 1) = 2 + 2 * (k + 1) by omega]
        exact whole
      · congr 1
        omega

variable {disk}

/-! ### Reads -/

/-- With its command given, a drive that has so many sectors from one on hands them out however long it takes. -/
theorem disk_read_loop_stored (n : Nat) : ∀ {s : Ata} (lba remaining ptr : Nat) (m : Bytes), n ≤ remaining →
    lba + n ≤ disk.sectors → 512 * n ≤ 4294967296 → ∃ polls m' t, (∀ more, polls ≤ more →
      disk_read_loop disk.device more n ptr m (disk.next lba remaining s) = some (m',disk.next (lba + n) (remaining - n) t)) ∧
      Stored m m' ptr (512 * n) fun j => disk.image (512 * lba + j) := by
  induction n with
  | zero =>
    intro s lba remaining ptr m _ _ _
    exact ⟨0,m,s,fun _ _ => rfl,Stored.none m ptr _⟩
  | succ n ih =>
    intro s lba remaining ptr m few inside fits
    obtain ⟨m₁,copied,stored⟩ := disk_copy_words_stored disk 255
      (s := { s with phase := .data 0 lba remaining }) ptr m rfl (by omega)
    obtain ⟨polls,m₂,t,rest,stored'⟩ := ih (s := { s with phase := .data 0 lba remaining, served := s.served + 1 })
      (lba + 1) (remaining - 1) (offset ptr 512) m₁ (by omega) (by omega) (by omega)
    refine ⟨max (disk.delay s.served + 1) polls,m₂,t,fun more enough => ?_,?_⟩
    · have busy : (disk.next lba remaining s).phase = .busy (disk.delay s.served) lba remaining := by
        unfold Disk.next
        simp only
        rw [if_neg (by omega),if_pos (by omega)]
      have ready : disk_wait disk.device more (disk.next lba remaining s) = some { s with phase := .data 0 lba remaining } := by
        rw [disk_wait_busy _ busy,if_pos (by omega)]
        rfl
      have left := rest more (by omega)
      rw [Nat.add_right_comm] at left
      rw [disk_read_loop,ready,Option.bind_eq_bind,Option.bind_some,copied]
      dsimp only
      rw [left,show remaining - 1 - n = remaining - (n + 1) by omega]
      rfl
    · have first : Stored m m₁ ptr 512 fun j => disk.image (512 * lba + j) := stored
      have second : Stored m₁ m₂ (offset ptr 512) (512 * n) fun j => disk.image (512 * lba + (512 + j)) := by
        refine stored'.congr fun j _ => ?_
        rw [show 512 * (lba + 1) + j = 512 * lba + (512 + j) by omega]
      rw [Nat.mul_succ,Nat.add_comm]
      exact first.append second (by omega)

/-- A read that comes back has got as many sectors as it wanted, all of them from the disk. -/
theorem disk_read_loop_returns {polls : Nat} (n : Nat) : ∀ {s t : Ata} {lba remaining : Nat} {ptr : Nat} {m m' : Bytes}, remaining ≤ 256 →
    disk_read_loop disk.device polls n ptr m (disk.next lba remaining s) = some (m',t) →
    n ≤ remaining ∧ (0 < n → lba + n ≤ disk.sectors) ∧ (∃ u, t = disk.next (lba + n) (remaining - n) u) ∧
      Stored m m' ptr (512 * n) fun j => disk.image (512 * lba + j) := by
  induction n with
  | zero =>
    intro s t lba remaining ptr m m' _ ran
    cases ran
    exact ⟨Nat.zero_le _,fun none => absurd none (Nat.lt_irrefl 0),⟨s,rfl⟩,Stored.none m ptr _⟩
  | succ n ih =>
    intro s t lba remaining ptr m m' few ran
    rw [disk_read_loop] at ran
    obtain ⟨ready,waited,ran⟩ := Option.bind_eq_some_iff.mp ran
    -- what the drive was doing
    by_cases none : remaining = 0
    · rw [disk_wait_never (.inl (by simp [Disk.next,none]))] at waited
      cases waited
    by_cases inside : lba < disk.sectors
    swap
    · rw [disk_wait_never (.inr (by simp [Disk.next,none,inside]))] at waited
      cases waited
    have busy : (disk.next lba remaining s).phase = .busy (disk.delay s.served) lba remaining := by
      simp [Disk.next,none,inside]
    rw [disk_wait_busy _ busy] at waited
    split_ifs at waited
    obtain rfl : { s with phase := .data 0 lba remaining } = ready := Option.some.inj waited
    obtain ⟨m₁,copied,stored⟩ := disk_copy_words_stored disk 255
      (s := { s with phase := .data 0 lba remaining }) ptr m rfl (by omega)
    rw [copied] at ran
    obtain ⟨enough,on_disk,last,stored'⟩ := ih (by omega) ran
    refine ⟨by omega,fun _ => ?_,?_,?_⟩
    · by_cases more : 0 < n
      · have := on_disk more
        omega
      · omega
    · rw [show lba + (n + 1) = lba + 1 + n by omega,show remaining - (n + 1) = remaining - 1 - n by omega]
      exact last
    · have first : Stored m m₁ ptr 512 fun j => disk.image (512 * lba + j) := stored
      have second : Stored m₁ m' (offset ptr 512) (512 * n) fun j => disk.image (512 * lba + (512 + j)) := by
        refine stored'.congr fun j _ => ?_
        rw [show 512 * (lba + 1) + j = 512 * lba + (512 + j) by omega]
      rw [Nat.mul_succ,Nat.add_comm]
      exact first.append second (by omega)

/-! ### The command -/

/-- The registers when the command is given. -/
def asked (lba : Nat) (total : Int) (s : Ata) : Ata :=
  { s with
    sector_count := UInt8.ofNat (u32 total)
    lba_low := UInt8.ofNat (lba &&& 0xff)
    lba_mid := UInt8.ofNat (lba >>> 8)
    lba_high := UInt8.ofNat (lba >>> 16)
    drive_head := UInt8.ofNat (lba >>> 24) ||| 0xE0 }

theorem asked_lba (lba : Nat) (total : Int) (s : Ata) : (asked lba total s).lba = lba % 268435456 := by
  have low : (UInt8.ofNat (lba &&& 0xff)).toNat = lba % 256 := by
    rw [UInt8.toNat_ofNat',show 0xff = 2 ^ 8 - 1 from rfl,Nat.and_two_pow_sub_one_eq_mod]
    omega
  have head : ((UInt8.ofNat (lba >>> 24) ||| 0xE0) &&& 0x0F).toNat = lba / 16777216 % 16 := by
    rw [UInt8.toNat_and,UInt8.toNat_or,UInt8.toNat_ofNat',Nat.and_or_distrib_right]
    change (lba >>> 24 % 2 ^ 8 &&& 2 ^ 4 - 1) ||| 0 = _
    rw [Nat.or_zero,Nat.and_two_pow_sub_one_eq_mod,Nat.shiftRight_eq_div_pow]
    omega
  unfold Ata.lba asked
  rw [head,low,UInt8.toNat_ofNat',UInt8.toNat_ofNat',Nat.shiftRight_eq_div_pow,Nat.shiftRight_eq_div_pow]
  omega

theorem asked_count {total : Int} (low : 0 < total) (high : total < 2147483648) (lba : Nat) (s : Ata) :
    (asked lba total s).count = if total % 256 = 0 then 256 else (total % 256).toNat := by
  have value : (UInt8.ofNat (u32 total)).toNat = (total % 256).toNat := by
    rw [UInt8.toNat_ofNat']
    unfold u32
    omega
  have zero : UInt8.ofNat (u32 total) = 0 ↔ total % 256 = 0 := by
    rw [← UInt8.toNat_inj,value]
    change (total % 256).toNat = 0 ↔ _
    omega
  unfold Ata.count asked
  simp only [zero,value]

/-- The head register chooses the primary drive and its sectors by number, but for bit 28 of the number. -/
theorem asked_drive (lba : Nat) (total : Int) (s : Ata) : ((asked lba total s).drive_head &&& 0x10 ≠ 0 ↔ lba.testBit 28 = true) ∧
    (asked lba total s).drive_head &&& 0x40 ≠ 0 := by
  have bit : lba.testBit 28 = ((lba >>> 24) % 2 ^ 8).testBit 4 := by
    rw [Nat.testBit_mod_two_pow,Nat.testBit_shiftRight]
    simp
  have head : ∀ mask : UInt8, (asked lba total s).drive_head &&& mask ≠ 0 ↔
      (((lba >>> 24) % 2 ^ 8 ||| 224) &&& mask.toNat) ≠ 0 := by
    intro mask
    rw [ne_eq,← UInt8.toNat_inj,asked,UInt8.toNat_and,UInt8.toNat_or,UInt8.toNat_ofNat']
    rfl
  constructor
  · rw [head,bit,Nat.and_or_distrib_right]
    change ((lba >>> 24) % 2 ^ 8 &&& 2 ^ 4) ||| 0 ≠ 0 ↔ _
    rw [Nat.or_zero,Nat.and_two_pow]
    cases ((lba >>> 24) % 2 ^ 8).testBit 4 <;> simp
  · rw [head,Nat.and_or_distrib_right]
    change ((lba >>> 24) % 2 ^ 8 &&& 64) ||| 64 ≠ 0
    have := @Nat.right_le_or ((lba >>> 24) % 2 ^ 8 &&& 64) 64
    omega

theorem disk_read_sector_eq (polls lba : Nat) (total : Int) (buf : Nat) (m : Bytes) (rest : s.AtRest) :
    disk_read_sector disk.device polls lba total buf m s =
      (disk_read_loop disk.device polls total.toNat buf m (disk.read_sectors (asked lba total s))).map fun r => (0,r) := by
  have taken : ∀ (port : Nat) (v : UInt8) (t : Ata), t.phase = s.phase → disk.outb port v t =
      match port with
      | 0x1F2 => { t with sector_count := v }
      | 0x1F3 => { t with lba_low := v }
      | 0x1F4 => { t with lba_mid := v }
      | 0x1F5 => { t with lba_high := v }
      | 0x1F6 => { t with drive_head := v }
      | 0x1F7 => if v = 0x20 then disk.read_sectors t else t
      | _ => t := by
    intro port v t same
    have still : t.AtRest := by
      unfold Ata.AtRest
      rw [same]
      exact rest
    exact if_neg (not_not.mpr still)
  have command : ∀ t : Ata, t.phase = s.phase → disk.outb 0x1F7 0x20 t = disk.read_sectors t := taken 0x1F7 0x20
  have head : ∀ v, disk.outb 0x1F6 v s = { s with drive_head := v } := fun v => taken 0x1F6 v s rfl
  have count : ∀ v (t : Ata), t.phase = s.phase → disk.outb 0x1F2 v t = { t with sector_count := v } := taken 0x1F2
  have low : ∀ v (t : Ata), t.phase = s.phase → disk.outb 0x1F3 v t = { t with lba_low := v } := taken 0x1F3
  have mid : ∀ v (t : Ata), t.phase = s.phase → disk.outb 0x1F4 v t = { t with lba_mid := v } := taken 0x1F4
  have high : ∀ v (t : Ata), t.phase = s.phase → disk.outb 0x1F5 v t = { t with lba_high := v } := taken 0x1F5
  unfold disk_read_sector
  simp only [Disk.device]
  simp only [head,count,low,mid,high,command]
  rw [Option.map_eq_bind]
  rfl

/-- What the drive does when it is asked. -/
theorem asked_read (lba : Nat) {total : Int} (low : 0 < total) (high : total < 2147483648) (s : Ata) :
    disk.read_sectors (asked lba total s) = if lba.testBit 28 = true then { asked lba total s with phase := .idle }
      else disk.next (lba % 268435456) (if total % 256 = 0 then 256 else (total % 256).toNat) (asked lba total s) := by
  obtain ⟨slave,numbers⟩ := asked_drive lba total s
  unfold Disk.read_sectors
  rw [asked_lba,asked_count low high]
  simp only [slave,numbers,if_false]

section
variable {total : Int} (positive : 0 < total) (int : total < 2147483648) (atRest : s.AtRest)
include positive int atRest

/-- Sectors that are all there are read, if the status is read often enough. -/
theorem sectors_read (primary : lba.testBit 28 = false) (few : total ≤ 256) (inside : lba % 268435456 + total.toNat ≤ disk.sectors)
    (buf : Nat) (m : Bytes) : ∃ polls m' t, (∀ more, polls ≤ more →
      disk_read_sector disk.device more lba total buf m s = some (0,m',t)) ∧ t.phase = .idle ∧
      Stored m m' buf (512 * total.toNat) fun j => disk.image (512 * (lba % 268435456) + j) := by
  have count : (if total % 256 = 0 then 256 else (total % 256).toNat) = total.toNat := by
    split_ifs <;> omega
  obtain ⟨polls,m',t,ran,stored⟩ := disk_read_loop_stored total.toNat (s := asked lba total s)
    (lba % 268435456) total.toNat buf m (Nat.le_refl _) inside (by omega)
  refine ⟨polls,m',disk.next (lba % 268435456 + total.toNat) (total.toNat - total.toNat) t,fun more enough => ?_,?_,stored⟩
  · rw [disk_read_sector_eq _ _ _ _ _ atRest,asked_read _ positive int,primary,count]
    simp only [Bool.false_eq_true,if_false]
    rw [ran more enough]
    rfl
  · simp [Disk.next]

/-- A read that returns has read sectors of the drive. -/
theorem sectors_returned {polls buf : Nat} {m m' : Bytes} {res : Int} {t : Ata}
    (ran : disk_read_sector disk.device polls lba total buf m s = some (res,m',t)) :
    (lba.testBit 28 = false ∧ total ≤ 256 ∧ lba % 268435456 + total.toNat ≤ disk.sectors) ∧ res = 0 ∧ t.phase = .idle ∧
      Stored m m' buf (512 * total.toNat) fun j => disk.image (512 * (lba % 268435456) + j) := by
  rw [disk_read_sector_eq _ _ _ _ _ atRest,asked_read _ positive int] at ran
  obtain ⟨read,ran,same⟩ := Option.map_eq_some_iff.mp ran
  cases same
  by_cases other : lba.testBit 28 = true
  · -- nothing follows the command, and the first sector is waited for
    obtain ⟨k,more⟩ : ∃ k, total.toNat = k + 1 := ⟨total.toNat - 1,by omega⟩
    rw [if_pos other,more,disk_read_loop,disk_wait_never (.inl rfl)] at ran
    cases ran
  · rw [if_neg other] at ran
    obtain ⟨enough,inside,⟨u,last⟩,stored⟩ := disk_read_loop_returns total.toNat (by split_ifs <;> omega) ran
    have few : total ≤ 256 := by
      split_ifs at enough <;> omega
    refine ⟨⟨by simpa using other,few,inside (by omega)⟩,rfl,?_,stored⟩
    rw [last,show (if total % 256 = 0 then 256 else (total % 256).toNat) - total.toNat = 0 by split_ifs <;> omega]
    simp [Disk.next]

end

/-- A read from the disk comes back if and only if it is for no more than 256 sectors that the drive has, of which
    bit 28 of the first one's number is no part. It then has stored them, and nothing else, and the drive rests. -/
theorem disk_read_sector_iff {total : Int} (positive : 0 < total) (int : total < 2147483648) (atRest : s.AtRest)
    (lba buf : Nat) (m : Bytes) :
    ((∃ polls, (disk_read_sector disk.device polls lba total buf m s).isSome) ↔
      lba.testBit 28 = false ∧ total ≤ 256 ∧ lba % 268435456 + total.toNat ≤ disk.sectors) ∧
    ∀ polls res m' t, disk_read_sector disk.device polls lba total buf m s = some (res,m',t) → res = 0 ∧ t.AtRest ∧
      Stored m m' buf (512 * total.toNat) fun j => disk.image (512 * (lba % 268435456) + j) := by
  refine ⟨⟨?_,?_⟩,?_⟩
  · rintro ⟨polls,some⟩
    obtain ⟨⟨res,m',t⟩,ran⟩ := Option.isSome_iff_exists.mp some
    exact (sectors_returned positive int atRest ran).1
  · rintro ⟨primary,few,inside⟩
    obtain ⟨polls,m',t,ran,_⟩ := sectors_read positive int atRest primary few inside buf m
    exact ⟨polls,by rw [ran polls (Nat.le_refl _)]; rfl⟩
  · intro polls res m' t ran
    obtain ⟨_,done,idle,stored⟩ := sectors_returned positive int atRest ran
    exact ⟨done,.inl idle,stored⟩

/-- A disk of three sectors whose status says busy twice, and its drive before the first command. -/
private def three : Disk := ⟨UInt8.ofNat,3,fun _ => 2,by decide⟩
private def still : Ata := ⟨0,0,0,0,0,.idle,0⟩

theorem disk_read_sector_two : (∃ polls, (disk_read_sector three.device polls 1 2 0x8000 (fun _ => 0) still).isSome) ∧
    ¬∃ polls, (disk_read_sector three.device polls 2 2 0x8000 (fun _ => 0) still).isSome :=
  ⟨(disk_read_sector_iff (by decide) (by decide) (.inl rfl) 1 0x8000 _).1.mpr (by decide),
    fun read => absurd ((disk_read_sector_iff (by decide) (by decide) (.inl rfl) 2 0x8000 _).1.mp read) (by decide)⟩

/-! ### Streams -/

/-- The sector that an int position lies in has a number without bit 28, or one that no drive has a sector of. -/
private theorem position_sector {pos : Int} (low : -2147483648 ≤ pos) (high : pos < 2147483648) :
    ((u32 (Int.tdiv pos 512)).testBit 28 = false ∧ (1 : Int) ≤ 256 ∧
      u32 (Int.tdiv pos 512) % 268435456 + (1 : Int).toNat ≤ disk.sectors) ↔ u32 (Int.tdiv pos 512) < disk.sectors := by
  have addressed := disk.addressed
  have whole := Int.tmod_add_mul_tdiv pos 512
  have below := Int.tmod_lt_of_pos pos (show (0 : Int) < 512 by decide)
  have above := Int.lt_tmod_of_pos pos (show (0 : Int) < 512 by decide)
  have one : (1 : Int).toNat = 1 := rfl
  rw [Nat.testBit_eq_decide_div_mod_eq,decide_eq_false_iff_not,one]
  rcases Int.lt_or_le (Int.tdiv pos 512) 0 with negative | nonneg
  · have sector : (u32 (Int.tdiv pos 512) : Int) = Int.tdiv pos 512 + 4294967296 := by
      unfold u32
      omega
    omega
  · have sector : (u32 (Int.tdiv pos 512) : Int) = Int.tdiv pos 512 := by
      unfold u32
      omega
    omega

private theorem copy_loop_congr {buf buf' : Int → UInt8} (off : Int) (out n : Nat) : ∀ (i : Nat) (m : Bytes),
    (∀ j : Nat, i ≤ j → j < i + n → buf (off + j) = buf' (off + j)) → copy_loop buf off out n i m = copy_loop buf' off out n i m := by
  induction n with
  | zero => exact fun _ _ _ => rfl
  | succ n ih =>
    intro i m same
    rw [copy_loop,copy_loop,same i (Nat.le_refl _) (by omega)]
    exact ih _ _ fun j low high => same j (by omega) (by omega)

section
variable {primary : Nat} {stack : Int → UInt8} {stream : DiskStream}

theorem read_other (other : stream.disk ≠ primary) (polls out : Nat) (total : Int) (m : Bytes) :
    diskstreamer_read disk.device polls primary stack stream out total m s = some (-Machine.EIO,stream,m,s) := by
  rw [diskstreamer_read]
  simp [disk_read_block,other]

/-- Without its sector a read does not go on. -/
theorem read_none {polls : Nat} (same : stream.disk = primary)
    (none : disk_read_sector disk.device polls (u32 (Int.tdiv stream.pos 512)) 1 0 (fun i => stack i) s = none)
    (out : Nat) (total : Int) (m : Bytes) : diskstreamer_read disk.device polls primary stack stream out total m s = .none := by
  have size : ((512 : Nat) : Int) = 512 := rfl
  rw [diskstreamer_read]
  simp only [disk_read_block,same,ne_eq,not_true_eq_false,if_false,size,none]

/-- With the sector in the buffer, it is the read of the disk that is known. -/
theorem read_step {polls : Nat} {b : Bytes} {t : Ata} (same : stream.disk = primary)
    (ran : disk_read_sector disk.device polls (u32 (Int.tdiv stream.pos 512)) 1 0 (fun i => stack i) s = some (0,b,t))
    (stored : Stored (fun i => stack i) b 0 512 fun j => disk.image (512 * u32 (Int.tdiv stream.pos 512) + j))
    (out : Nat) (total : Int) (m : Bytes) : diskstreamer_read disk.device polls primary stack stream out total m s =
      let buf := DiskStreams.disk_read_sector ⟨primary,disk.image,stack⟩ (u32 (Int.tdiv stream.pos 512))
      let off := Int.tmod stream.pos 512
      if off + total < 512 then some (0,⟨i32 (stream.pos + total),stream.disk⟩,copy_loop buf off out total.toNat 0 m,t)
      else diskstreamer_read disk.device polls primary stack ⟨i32 (stream.pos + (512 - off)),stream.disk⟩
        (offset out (512 - off).toNat) (total - 512) (copy_loop buf off out (512 - off).toNat 0 m) t := by
  have size : ((512 : Nat) : Int) = 512 := rfl
  have exact : total - (Int.tmod stream.pos 512 + total - 512) = 512 - Int.tmod stream.pos 512 := by omega
  have buffer : ∀ (off : Int) (n : Nat) (m : Bytes), off + n ≤ 512 →
      copy_loop (fun i => if i < 0 then stack i else b i.toNat) off out n 0 m =
        copy_loop (DiskStreams.disk_read_sector ⟨primary,disk.image,stack⟩ (u32 (Int.tdiv stream.pos 512))) off out n 0 m := by
    intro off n m inside
    refine copy_loop_congr _ _ _ _ _ fun j _ few => ?_
    unfold DiskStreams.disk_read_sector
    by_cases below : off + (j : Int) < 0
    · rw [if_pos below,if_pos below]
    · rw [if_neg below,if_neg below]
      have byte := stored.1 (off + (j : Int)).toNat (by omega)
      rw [offset_of_lt (by omega),Nat.zero_add] at byte
      rw [byte,Nat.mul_comm]
  rw [diskstreamer_read]
  simp only [disk_read_block,same,ne_eq,not_true_eq_false,if_false,size,ran,Int.lt_irrefl]
  by_cases last : Int.tmod stream.pos 512 + total < 512
  · simp only [last,if_true,ge_iff_le,Int.not_le.mpr last,if_false]
    by_cases some : 0 < total
    · rw [buffer _ _ _ (by omega)]
    · rw [Int.toNat_of_nonpos (by omega)]
      rfl
  · have bound := Int.tmod_lt_of_pos stream.pos (show (0 : Int) < 512 by decide)
    simp only [last,if_false,ge_iff_le,Int.not_lt.mp last,if_true,exact]
    rw [buffer _ _ _ (by omega)]

/-- With the sectors of a read on the drive, the status read often enough brings what is known to be read. -/
theorem read_enough (same : stream.disk = primary) (low : -2147483648 ≤ stream.pos) (high : stream.pos < 2147483648)
    (atRest : s.AtRest) (out : Nat) (total : Int) (m : Bytes)
    (inside : ∀ sector ∈ (diskstreamer_read_sectors ⟨primary,disk.image,stack⟩ stream out total m).2, sector < disk.sectors) :
    ∃ polls t, ∀ more, polls ≤ more → diskstreamer_read disk.device more primary stack stream out total m s =
      some ((DiskStreams.diskstreamer_read ⟨primary,disk.image,stack⟩ stream out total m).1,
        (DiskStreams.diskstreamer_read ⟨primary,disk.image,stack⟩ stream out total m).2.1,
        (DiskStreams.diskstreamer_read ⟨primary,disk.image,stack⟩ stream out total m).2.2,t) := by
  induction size : total.toNat using Nat.strongRecOn generalizing stream s out total m with
  | ind n ih =>
    have bound := Int.tmod_lt_of_pos stream.pos (show (0 : Int) < 512 by decide)
    have known : stream.disk = (Drive.mk primary disk.image stack).disk := same
    rw [read_sectors_step known] at inside
    rw [diskstreamer_read_step known]
    dsimp only at inside ⊢
    have here : u32 (Int.tdiv stream.pos 512) < disk.sectors := by
      apply inside
      split_ifs <;> simp
    obtain ⟨master,few,fits⟩ := (position_sector low high).mpr here
    obtain ⟨polls,b,t,ran,idle,stored⟩ := sectors_read (by omega) (by omega) atRest master few fits 0 fun i => stack i
    have sector : 512 * (u32 (Int.tdiv stream.pos 512) % 268435456) = 512 * u32 (Int.tdiv stream.pos 512) := by
      have := disk.addressed
      omega
    rw [sector] at stored
    by_cases last : Int.tmod stream.pos 512 + total < 512
    · refine ⟨polls,t,fun more enough => ?_⟩
      rw [read_step same (ran more enough) stored]
      simp only [last,if_true]
    · rw [if_neg last] at inside
      obtain ⟨polls',t',rest⟩ := ih (total - 512).toNat (by omega) (s := t)
        (show (DiskStream.mk (i32 (stream.pos + (512 - Int.tmod stream.pos 512))) stream.disk).disk = primary from same) (i32_ge _) (i32_lt _) (.inl idle)
        _ (total - 512) _ (fun sector found => inside sector (List.mem_cons_of_mem _ found)) rfl
      refine ⟨max polls polls',t',fun more enough => ?_⟩
      rw [read_step same (ran more (by omega)) stored]
      simp only [last,if_false]
      exact rest more (by omega)

/-- A read that returns has found its sectors on the drive, and has read what is known to be read. -/
theorem read_returned {polls : Nat} (same : stream.disk = primary) (low : -2147483648 ≤ stream.pos) (high : stream.pos < 2147483648)
    (atRest : s.AtRest) (out : Nat) (total : Int) (m : Bytes) {r : Int × DiskStream × Bytes × Ata}
    (ran : diskstreamer_read disk.device polls primary stack stream out total m s = some r) :
    (∀ sector ∈ (diskstreamer_read_sectors ⟨primary,disk.image,stack⟩ stream out total m).2, sector < disk.sectors) ∧
      (r.1,r.2.1,r.2.2.1) = DiskStreams.diskstreamer_read ⟨primary,disk.image,stack⟩ stream out total m ∧ r.2.2.2.AtRest := by
  induction size : total.toNat using Nat.strongRecOn generalizing stream s out total m with
  | ind n ih =>
    have bound := Int.tmod_lt_of_pos stream.pos (show (0 : Int) < 512 by decide)
    have known : stream.disk = (Drive.mk primary disk.image stack).disk := same
    rw [read_sectors_step known,diskstreamer_read_step known]
    dsimp only
    rcases read : disk_read_sector disk.device polls (u32 (Int.tdiv stream.pos 512)) 1 0 (fun i => stack i) s with _ | ⟨res,b,t⟩
    · rw [read_none same read] at ran
      cases ran
    obtain ⟨fits,rfl,idle,stored⟩ := sectors_returned (by omega) (by omega) atRest read
    have here := (position_sector low high).mp fits
    have sector : 512 * (u32 (Int.tdiv stream.pos 512) % 268435456) = 512 * u32 (Int.tdiv stream.pos 512) := by
      have := disk.addressed
      omega
    rw [sector] at stored
    rw [read_step same read stored] at ran
    dsimp only at ran
    by_cases last : Int.tmod stream.pos 512 + total < 512
    · rw [if_pos last] at ran
      rw [if_pos last,if_pos last]
      cases ran
      exact ⟨fun sector found => by rw [List.mem_singleton.mp found]; exact here,rfl,.inl idle⟩
    · rw [if_neg last] at ran
      rw [if_neg last,if_neg last]
      obtain ⟨inside,result,atRest'⟩ := ih (total - 512).toNat (by omega) (s := t)
        (show (DiskStream.mk (i32 (stream.pos + (512 - Int.tmod stream.pos 512))) stream.disk).disk = primary from same) (i32_ge _) (i32_lt _) (.inl idle)
        _ (total - 512) _ ran rfl
      refine ⟨fun sector found => ?_,result,atRest'⟩
      rcases List.mem_cons.mp found with first | later
      · rw [first]
        exact here
      · exact inside sector later

/-- The streamer over the ports of the drive. A read of a stream of the primary disk comes back if and only if the
    drive has each sector that it asks for, and it then does what it does to the bytes of the disk; a stream of
    another disk is refused, and the drive is left as it is. -/
theorem diskstreamer_read_iff (low : -2147483648 ≤ stream.pos) (high : stream.pos < 2147483648) (atRest : s.AtRest)
    (out : Nat) (total : Int) (m : Bytes) :
    ((∃ polls, (diskstreamer_read disk.device polls primary stack stream out total m s).isSome) ↔ stream.disk ≠ primary ∨
      ∀ sector ∈ (diskstreamer_read_sectors ⟨primary,disk.image,stack⟩ stream out total m).2, sector < disk.sectors) ∧
    ∀ polls r, diskstreamer_read disk.device polls primary stack stream out total m s = some r →
      (r.1,r.2.1,r.2.2.1) = DiskStreams.diskstreamer_read ⟨primary,disk.image,stack⟩ stream out total m ∧ r.2.2.2.AtRest ∧
      (stream.disk ≠ primary → r = (-Machine.EIO,stream,m,s)) := by
  by_cases same : stream.disk = primary
  · refine ⟨⟨?_,?_⟩,fun polls r ran => ?_⟩
    · rintro ⟨polls,some⟩
      obtain ⟨r,ran⟩ := Option.isSome_iff_exists.mp some
      exact .inr (read_returned same low high atRest out total m ran).1
    · rintro (other | inside)
      · exact absurd same other
      · obtain ⟨polls,t,ran⟩ := read_enough same low high atRest out total m inside
        exact ⟨polls,by rw [ran polls (Nat.le_refl _)]; rfl⟩
    · obtain ⟨_,result,rest⟩ := read_returned same low high atRest out total m ran
      exact ⟨result,rest,fun other => absurd same other⟩
  · refine ⟨⟨fun _ => .inl same,fun _ => ⟨0,by rw [read_other same]; rfl⟩⟩,fun polls r ran => ?_⟩
    have other : stream.disk ≠ (Drive.mk primary disk.image stack).disk := same
    rw [read_other same] at ran
    cases ran
    exact ⟨(diskstreamer_read_other other out total m).symm,atRest,fun _ => rfl⟩

/-- A read across two sectors, and one of a disk that is not the drive's. -/
theorem diskstreamer_read_second :
    (∃ polls, (diskstreamer_read three.device polls 7 (fun _ => 0) ⟨600,7⟩ 0x8000 600 (fun _ => 0) still).isSome) ∧
    ∃ polls, diskstreamer_read three.device polls 7 (fun _ => 0) ⟨600,8⟩ 0x8000 600 (fun _ => 0) still =
      some (-Machine.EIO,⟨600,8⟩,fun _ => 0,still) := by
  refine ⟨?_,?_⟩
  · refine (diskstreamer_read_iff (s := still) (show -2147483648 ≤ (DiskStream.mk 600 7).pos by decide) (by decide) (.inl rfl) 0x8000 600 _).1.mpr (.inr ?_)
    rw [read_sectors_step rfl]
    simp only [show ¬(Int.tmod 600 512 + 600 < 512) by decide,if_false]
    rw [read_sectors_step rfl]
    simp only [show i32 (600 + (512 - Int.tmod 600 512)) = 1024 by decide,show Int.tmod 1024 512 + (600 - 512) < 512 by decide,if_true]
    decide
  · obtain ⟨came,result⟩ := @diskstreamer_read_iff three still 7 (fun _ => 0) ⟨600,8⟩ (by decide) (by decide) (.inl rfl) 0x8000 600
      fun _ => 0
    obtain ⟨polls,some⟩ := came.mpr (.inl (by decide))
    obtain ⟨r,ran⟩ := Option.isSome_iff_exists.mp some
    exact ⟨polls,by rw [ran,(result polls r ran).2.2 (by decide)]⟩

end

end

end SimpOS.AtaDisk
