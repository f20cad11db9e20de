import Mathlib.Data.Nat.Bitwise
import Mathlib.Logic.Function.Basic
import SimpOS.Machine

/-!
The segment descriptors of `gdt.c`. The eight bytes of an entry have the base in two places and the
limit in two, the upper one in a byte that the flags have a half of.
-/
namespace SimpOS.SegmentTable
open Function

/-- A segment as the kernel writes it down. -/
structure gdt_structured where
  base : UInt32
  limit : UInt32
  type : UInt8
deriving DecidableEq, Repr

/-- The memory behind the entry; nothing where it is rejected, and the kernel panics. -/
def encodeGdtEntry (memory : Nat → UInt8) (target : Nat) (source : gdt_structured) : Option (Nat → UInt8) :=
  if source.limit > 65536 ∧ source.limit &&& 0xFFF ≠ 0xFFF then none
  else
    let memory := update memory (target + 6) 0x40
    let (source, memory) :=
      if source.limit > 65536 then ({ source with limit := source.limit >>> 12 }, update memory (target + 6) 0xC0)
      else (source, memory)
    let memory := update memory target (source.limit &&& 0xFF).toUInt8
    let memory := update memory (target + 1) (source.limit >>> 8 &&& 0xFF).toUInt8
    let memory := update memory (target + 6) ((memory (target + 6)).toUInt32 ||| (source.limit >>> 16 &&& 0x0F)).toUInt8
    let memory := update memory (target + 2) (source.base &&& 0xFF).toUInt8
    let memory := update memory (target + 3) (source.base >>> 8 &&& 0xFF).toUInt8
    let memory := update memory (target + 4) (source.base >>> 16 &&& 0xFF).toUInt8
    let memory := update memory (target + 7) (source.base >>> 24 &&& 0xFF).toUInt8
    some (update memory (target + 5) source.type)

/-- The entries are eight bytes each. -/
def gdt_structured_to_gdt (memory : Nat → UInt8) (gdt : Nat) (structured_gdt : Nat → gdt_structured) (total_entries : Nat) :
    Option (Nat → UInt8) :=
  (List.range total_entries).foldlM (fun memory i => encodeGdtEntry memory (gdt + 8 * i) (structured_gdt i)) memory

/-! ### What the processor reads -/

/-- A segment as the processor has it: the first byte of it, the offset of its last, the access byte and
    whether it is one of 32 bits. -/
structure Segment where
  base : Nat
  limit : Nat
  access : UInt8
  size : Bool
deriving DecidableEq, Repr

/-- With the granularity flag the limit counts pages. -/
def readSegment (memory : Nat → UInt8) (entry : Nat) : Segment :=
  let flags := (memory (entry + 6)).toNat
  let limit := (memory entry).toNat + 256 * (memory (entry + 1)).toNat + 65536 * (flags % 16)
  { base := (memory (entry + 2)).toNat + 256 * (memory (entry + 3)).toNat + 65536 * (memory (entry + 4)).toNat +
      16777216 * (memory (entry + 7)).toNat
    limit := if flags.testBit 7 then limit <<< 12 ||| 0xFFF else limit
    access := memory (entry + 5)
    size := flags.testBit 6 }

def gdt_structured.segment (source : gdt_structured) : Segment :=
  ⟨source.base.toNat,source.limit.toNat,source.type,true⟩

/-- Up to 64 KiB any limit can be written down, above that one that ends with a page. -/
def Accepted (source : gdt_structured) : Prop := source.limit.toNat ≤ 65536 ∨ source.limit.toNat % 4096 = 4095

instance (source : gdt_structured) : Decidable (Accepted source) := inferInstanceAs (Decidable (_ ∨ _))

/-! ### The bytes -/

/-- The limit as the entry has it, in bytes or pages. -/
def gdt_structured.units (source : gdt_structured) : Nat :=
  if source.limit.toNat > 65536 then source.limit.toNat / 4096 else source.limit.toNat
def gdt_structured.flags (source : gdt_structured) : Nat := if source.limit.toNat > 65536 then 0xC0 else 0x40

/-- The entry has the parts of the segment in its bytes, and nothing else has changed. -/
structure Encoded (memory : Nat → UInt8) (target : Nat) (source : gdt_structured) (after : Nat → UInt8) : Prop where
  limit_low : (after target).toNat = source.units % 256
  limit_middle : (after (target + 1)).toNat = source.units / 256 % 256
  limit_high : (after (target + 6)).toNat = source.flags + source.units / 65536 % 16
  base_low : (after (target + 2)).toNat = source.base.toNat % 256
  base_middle : (after (target + 3)).toNat = source.base.toNat / 256 % 256
  base_high : (after (target + 4)).toNat = source.base.toNat / 65536 % 256
  base_last : (after (target + 7)).toNat = source.base.toNat / 16777216 % 256
  type : after (target + 5) = source.type
  others : ∀ p, ¬(target ≤ p ∧ p < target + 8) → after p = memory p

theorem byte_toNat (x : UInt32) : (x &&& 0xFF).toUInt8.toNat = x.toNat % 256 := by
  rw [UInt32.toNat_toUInt8,UInt32.toNat_and]
  change (x.toNat &&& 2 ^ 8 - 1) % 256 = x.toNat % 256
  rw [Nat.and_two_pow_sub_one_eq_mod]
  omega

theorem shifted_byte_toNat (x : UInt32) {k : UInt32} {places : Nat} (amount : k.toNat % 32 = places) :
    (x >>> k &&& 0xFF).toUInt8.toNat = x.toNat / 2 ^ places % 256 := by
  rw [byte_toNat,UInt32.toNat_shiftRight,amount,Nat.shiftRight_eq_div_pow]

theorem flags_toNat {flags : UInt8} (free : flags.toNat % 16 = 0) (x : UInt32) :
    (flags.toUInt32 ||| (x >>> 16 &&& 0x0F)).toUInt8.toNat = flags.toNat + x.toNat / 65536 % 16 := by
  have high : (x >>> 16 &&& 0x0F).toNat = x.toNat / 65536 % 16 := by
    rw [UInt32.toNat_and,UInt32.toNat_shiftRight]
    change (x.toNat >>> 16 &&& 2 ^ 4 - 1) = _
    rw [Nat.and_two_pow_sub_one_eq_mod,Nat.shiftRight_eq_div_pow]
  have join : flags.toNat ||| x.toNat / 65536 % 16 = flags.toNat + x.toNat / 65536 % 16 := by
    have shifted : flags.toNat = (flags.toNat / 16) <<< 4 := by
      rw [Nat.shiftLeft_eq]
      omega
    rw [shifted,← Nat.shiftLeft_add_eq_or_of_lt (Nat.mod_lt _ (by decide))]
  have byte := flags.toNat_lt
  rw [UInt32.toNat_toUInt8,UInt32.toNat_or,high,UInt8.toNat_toUInt32,join]
  omega

theorem gt_iff (limit : UInt32) : limit > 65536 ↔ limit.toNat > 65536 := UInt32.lt_iff_toNat_lt

theorem mask_iff (limit : UInt32) : limit &&& 0xFFF = 0xFFF ↔ limit.toNat % 4096 = 4095 := by
  rw [← UInt32.toNat_inj,UInt32.toNat_and]
  change (limit.toNat &&& 2 ^ 12 - 1) = 4095 ↔ _
  rw [Nat.and_two_pow_sub_one_eq_mod]

/-- The stores, with the limit and the flags as the branch before them has left these. -/
private theorem stores_encoded {memory entry : Nat → UInt8} {target : Nat} {source : gdt_structured} {limit : UInt32}
    (flags : (entry (target + 6)).toNat = source.flags) (units : limit.toNat = source.units)
    (others : ∀ p, p ≠ target + 6 → entry p = memory p) :
    Encoded memory target source
      (let entry := update entry target (limit &&& 0xFF).toUInt8
      let entry := update entry (target + 1) (limit >>> 8 &&& 0xFF).toUInt8
      let entry := update entry (target + 6) ((entry (target + 6)).toUInt32 ||| (limit >>> 16 &&& 0x0F)).toUInt8
      let entry := update entry (target + 2) (source.base &&& 0xFF).toUInt8
      let entry := update entry (target + 3) (source.base >>> 8 &&& 0xFF).toUInt8
      let entry := update entry (target + 4) (source.base >>> 16 &&& 0xFF).toUInt8
      let entry := update entry (target + 7) (source.base >>> 24 &&& 0xFF).toUInt8
      update entry (target + 5) source.type) := by
  have free : (entry (target + 6)).toNat % 16 = 0 := by
    rw [flags,gdt_structured.flags]
    split_ifs
    · rfl
    · rfl
  refine ⟨?_,?_,?_,?_,?_,?_,?_,?_,fun p outside => ?_⟩
  · simp only [update_apply,Nat.left_eq_add,Nat.reduceEqDiff,if_false,if_true,OfNat.ofNat_ne_zero]
    rw [byte_toNat,units]
  · simp only [update_apply,Nat.add_right_inj,Nat.reduceEqDiff,if_false,if_true]
    rw [← units]
    exact shifted_byte_toNat limit rfl
  · simp only [update_apply,Nat.add_right_inj,Nat.add_eq_left,Nat.reduceEqDiff,if_false,if_true]
    rw [flags_toNat free,flags,units]
  · simp only [update_apply,Nat.add_right_inj,Nat.reduceEqDiff,if_false,if_true]
    exact byte_toNat source.base
  · simp only [update_apply,Nat.add_right_inj,Nat.reduceEqDiff,if_false,if_true]
    exact shifted_byte_toNat source.base rfl
  · simp only [update_apply,Nat.add_right_inj,Nat.reduceEqDiff,if_false,if_true]
    exact shifted_byte_toNat source.base rfl
  · simp only [update_apply,Nat.add_right_inj,Nat.reduceEqDiff,if_false,if_true]
    exact shifted_byte_toNat source.base rfl
  · exact update_self ..
  · have elsewhere : ∀ k < 8, p ≠ target + k := by
      intro k small same
      omega
    have front : p ≠ target := elsewhere 0 (by decide)
    rw [update_of_ne (elsewhere 5 (by decide)),update_of_ne (elsewhere 7 (by decide)),update_of_ne (elsewhere 4 (by decide)),
      update_of_ne (elsewhere 3 (by decide)),update_of_ne (elsewhere 2 (by decide)),update_of_ne (elsewhere 6 (by decide)),
      update_of_ne (elsewhere 1 (by decide)),update_of_ne front]
    exact others p (elsewhere 6 (by decide))

theorem encodeGdtEntry_encodes (memory : Nat → UInt8) (target : Nat) {source : gdt_structured} (accepted : Accepted source) :
    ∃ after, encodeGdtEntry memory target source = some after ∧ Encoded memory target source after := by
  have taken : ¬(source.limit > 65536 ∧ source.limit &&& 0xFFF ≠ 0xFFF) := by
    rintro ⟨large,off⟩
    rw [gt_iff] at large
    rw [Ne,mask_iff] at off
    rcases accepted with small | aligned
    · omega
    · exact off aligned
  rw [encodeGdtEntry,if_neg taken]
  dsimp only
  refine ⟨_,rfl,?_⟩
  by_cases large : source.limit > 65536
  · have beyond := (gt_iff source.limit).mp large
    simp only [if_pos large]
    refine stores_encoded ?_ ?_ fun p other => ?_
    · rw [update_self,gdt_structured.flags,if_pos beyond]
      rfl
    · rw [gdt_structured.units,if_pos beyond,UInt32.toNat_shiftRight]
      exact Nat.shiftRight_eq_div_pow _ _
    · rw [update_of_ne other,update_of_ne other]
  · have within := fun beyond => large ((gt_iff source.limit).mpr beyond)
    simp only [if_neg large]
    refine stores_encoded ?_ ?_ fun p other => ?_
    · rw [update_self,gdt_structured.flags,if_neg within]
      rfl
    · rw [gdt_structured.units,if_neg within]
    · rw [update_of_ne other]

/-- What is not accepted is rejected. -/
theorem encodeGdtEntry_rejects (memory : Nat → UInt8) (target : Nat) {source : gdt_structured} (refused : ¬Accepted source) :
    encodeGdtEntry memory target source = none := by
  rw [Accepted,not_or] at refused
  rw [encodeGdtEntry,if_pos]
  exact ⟨(gt_iff source.limit).mpr (Nat.lt_of_not_le refused.1),mt (mask_iff source.limit).mp refused.2⟩

/-! ### The table -/

/-- The processor has the segment that the bytes were made from. -/
theorem Encoded.segment {memory after : Nat → UInt8} {target : Nat} {source : gdt_structured} (accepted : Accepted source)
    (encoded : Encoded memory target source after) : readSegment after target = source.segment := by
  have base := source.base.toNat_lt
  have limit := source.limit.toNat_lt
  have whole : source.units % 256 + 256 * (source.units / 256 % 256) + 65536 * ((source.flags + source.units / 65536 % 16) % 16) =
      source.units := by
    unfold gdt_structured.units gdt_structured.flags
    split_ifs with large
    · omega
    · omega
  rw [readSegment,gdt_structured.segment]
  simp only [encoded.limit_low,encoded.limit_middle,encoded.limit_high,encoded.base_low,encoded.base_middle,encoded.base_high,
    encoded.base_last,encoded.type,whole,Segment.mk.injEq,true_and]
  have granular : (source.flags + source.units / 65536 % 16).testBit 7 = decide (source.limit.toNat > 65536) := by
    rw [Nat.testBit_eq_decide_div_mod_eq,gdt_structured.flags]
    split_ifs with large
    · exact (decide_eq_true (by omega)).trans (decide_eq_true large).symm
    · exact (decide_eq_false (by omega)).trans (decide_eq_false large).symm
  refine ⟨by omega,?_,?_⟩
  · rw [granular]
    by_cases large : source.limit.toNat > 65536
    · have pages : source.units = source.limit.toNat / 4096 := if_pos large
      have aligned : source.limit.toNat % 4096 = 4095 := accepted.resolve_left (Nat.not_le_of_lt large)
      rw [decide_eq_true large,if_pos rfl,pages,← Nat.shiftLeft_add_eq_or_of_lt (by decide),Nat.shiftLeft_eq]
      omega
    · rw [decide_eq_false large,if_neg Bool.false_ne_true]
      exact if_neg large
  · rw [Nat.testBit_eq_decide_div_mod_eq,gdt_structured.flags]
    split_ifs
    · exact decide_eq_true (by omega)
    · exact decide_eq_true (by omega)

/-- A read looks at the eight bytes of its entry only. -/
theorem readSegment_congr {memory memory' : Nat → UInt8} {entry : Nat}
    (same : ∀ p, entry ≤ p → p < entry + 8 → memory p = memory' p) : readSegment memory entry = readSegment memory' entry := by
  have byte : ∀ k < 8, memory (entry + k) = memory' (entry + k) := fun k small => same _ (Nat.le_add_right _ _) (by omega)
  unfold readSegment
  rw [same entry (Nat.le_refl _) (by omega),byte 1 (by decide),byte 2 (by decide),byte 3 (by decide),byte 4 (by decide),
    byte 5 (by decide),byte 6 (by decide),byte 7 (by decide)]

/-- The first entries of the table are there, and nothing else has changed. -/
structure Loaded (memory : Nat → UInt8) (gdt : Nat) (structured_gdt : Nat → gdt_structured) (entries : Nat)
    (after : Nat → UInt8) : Prop where
  segments : ∀ i < entries, readSegment after (gdt + 8 * i) = (structured_gdt i).segment
  others : ∀ p, ¬(gdt ≤ p ∧ p < gdt + 8 * entries) → after p = memory p

theorem Loaded.next {memory before after : Nat → UInt8} {gdt : Nat} {structured_gdt : Nat → gdt_structured} {entries : Nat}
    (loaded : Loaded memory gdt structured_gdt entries before) (accepted : Accepted (structured_gdt entries))
    (encoded : Encoded before (gdt + 8 * entries) (structured_gdt entries) after) :
    Loaded memory gdt structured_gdt (entries + 1) after := by
  refine ⟨fun i inside => ?_,fun p outside => ?_⟩
  · by_cases last : i = entries
    · rw [last]
      exact encoded.segment accepted
    · rw [← loaded.segments i (by omega)]
      exact readSegment_congr fun p _ _ => encoded.others p (by omega)
  · rw [encoded.others p (by omega)]
    exact loaded.others p (by omega)

theorem gdt_structured_to_gdt_loads (memory : Nat → UInt8) (gdt : Nat) {structured_gdt : Nat → gdt_structured} {total_entries : Nat}
    (accepted : ∀ i < total_entries, Accepted (structured_gdt i)) :
    ∃ after, gdt_structured_to_gdt memory gdt structured_gdt total_entries = some after ∧
      Loaded memory gdt structured_gdt total_entries after := by
  induction total_entries with
  | zero => exact ⟨memory,rfl,fun i none => absurd none (Nat.not_lt_zero i),fun p _ => rfl⟩
  | succ entries ih =>
    obtain ⟨before,run,loaded⟩ := ih fun i inside => accepted i (Nat.lt_succ_of_lt inside)
    have taken := accepted entries (Nat.lt_succ_self entries)
    obtain ⟨after,step,encoded⟩ := encodeGdtEntry_encodes before (gdt + 8 * entries) taken
    refine ⟨after,?_,loaded.next taken encoded⟩
    unfold gdt_structured_to_gdt at run ⊢
    rw [List.range_succ,List.foldlM_append,run]
    show (encodeGdtEntry before (gdt + 8 * entries) (structured_gdt entries) >>= pure) = some after
    rw [step]
    rfl

/-- The processor reads the segments that the kernel has written down, from an entry and from a whole
    table, and no byte outside of these has changed. -/
theorem gdt_round_trip (memory : Nat → UInt8) (target gdt : Nat) {source : gdt_structured} (accepted : Accepted source)
    {structured_gdt : Nat → gdt_structured} {total_entries : Nat} (all : ∀ i < total_entries, Accepted (structured_gdt i)) :
    (∃ after, encodeGdtEntry memory target source = some after ∧ readSegment after target = source.segment ∧
      ∀ p, ¬(target ≤ p ∧ p < target + 8) → after p = memory p) ∧
    ∃ after, gdt_structured_to_gdt memory gdt structured_gdt total_entries = some after ∧
      (∀ i < total_entries, readSegment after (gdt + 8 * i) = (structured_gdt i).segment) ∧
      ∀ p, ¬(gdt ≤ p ∧ p < gdt + 8 * total_entries) → after p = memory p := by
  obtain ⟨after,run,encoded⟩ := encodeGdtEntry_encodes memory target accepted
  obtain ⟨table,ran,loaded⟩ := gdt_structured_to_gdt_loads memory gdt all
  exact ⟨⟨after,run,encoded.segment accepted,encoded.others⟩,table,ran,loaded.segments,loaded.others⟩

/-- The table of the kernel, but for the place of its task state segment. -/
def kernelSegments (tss : UInt32) : List gdt_structured :=
  [⟨0,0,0⟩,⟨0,0xffffffff,0x9a⟩,⟨0,0xffffffff,0x92⟩,⟨0,0xffffffff,0xf8⟩,⟨0,0xffffffff,0xf2⟩,⟨tss,108,0xe9⟩]

theorem gdt_round_trip_kernel :
    (∃ after, encodeGdtEntry (fun _ => 0) 0 ⟨0x12345678,65536,0x92⟩ = some after ∧
      readSegment after 0 = ⟨0x12345678,65536,0x92,true⟩ ∧ ∀ p, ¬(0 ≤ p ∧ p < 0 + 8) → after p = 0) ∧
    ∃ after, gdt_structured_to_gdt (fun _ => 0) 4096 (fun i => (kernelSegments 8192).getD i ⟨0,0,0⟩) 6 = some after ∧
      (∀ i < 6, readSegment after (4096 + 8 * i) = ((kernelSegments 8192).getD i ⟨0,0,0⟩).segment) ∧
      ∀ p, ¬(4096 ≤ p ∧ p < 4096 + 8 * 6) → after p = 0 :=
  gdt_round_trip _ 0 4096 (.inl (by decide)) (by decide)

end SimpOS.SegmentTable
