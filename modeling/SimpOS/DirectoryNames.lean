import SimpOS.FatDirectories
import Mathlib.Data.List.GetD

/-!
How the name of a directory item is written out, byte by byte: `fat16_get_full_relative_filename`
moves one cursor through the buffer, handed by its address to the copying of the name and of the
extension. The addresses read and written are kept beside the memory.
-/
namespace SimpOS.DirectoryNames
open SimpOS.Machine SimpOS.Memory SimpOS.Strings SimpOS.Fat16

/-- The memory, the cursor in the buffer, and the addresses that have been read and written, the latest first. -/
structure Decoder where
  memory : Bytes
  out_tmp : Nat
  read : List Nat
  written : List Nat

def Decoder.look (a : Nat) (s : Decoder) : Decoder := { s with read := a :: s.read }
/-- A byte is written at the cursor. -/
def Decoder.put (c : UInt8) (s : Decoder) : Decoder :=
  { s with memory := Function.update s.memory s.out_tmp c, written := s.out_tmp :: s.written }
def Decoder.advance (s : Decoder) : Decoder := { s with out_tmp := offset s.out_tmp 1 }

/-- The loop with so many characters left behind the next one, which the bound is checked after. -/
def to_proper_string_loop : Nat → Nat → Decoder → Decoder
  | left, source, s =>
    let s := s.look source
    if s.memory source = 0x00 ∨ s.memory source = 0x20 then s
    else
      let s := (s.put (s.memory source)).advance
      match left with
      | 0 => s
      | left + 1 => to_proper_string_loop left (offset source 1) s

def fat16_to_proper_string (source size : Nat) (s : Decoder) : Decoder :=
  (to_proper_string_loop (u32 ((size : Int) - 1)) source s).put 0x00

/-- The fields of the item that are read, at their places in it. -/
abbrev filename : Nat := 0
abbrev ext : Nat := 8

def fat16_get_full_relative_filename (item out max_length : Nat) (m : Bytes) : Decoder :=
  let s : Decoder := ⟨memset m out 0x00 max_length, out, [], (List.range max_length).map (offset out)⟩
  let s := fat16_to_proper_string (offset item filename) 8 s
  let s := s.look (offset item ext)
  if s.memory (offset item ext) ≠ 0x00 ∧ s.memory (offset item ext) ≠ 0x20 then
    fat16_to_proper_string (offset item ext) 3 (s.put 46).advance
  else s

/-! ### The name of an item -/

/-- A character that ends neither field. -/
def plain (c : UInt8) : Bool := c ≠ 0x00 && c ≠ 0x20

/-- The bytes from a place on. -/
def field (m : Bytes) : Nat → Nat → List UInt8
  | _, 0 => []
  | a, n + 1 => m a :: field m (a + 1) n

/-- The name up to its end, and behind a dot the extension if there is one. -/
def decoded (m : Bytes) (item : Nat) : CString :=
  let name := (field m item 8).takeWhile plain
  let extension := (field m (item + ext) 3).takeWhile plain
  if extension = [] then name else name ++ 46 :: extension

/-- The item and the buffer lie in memory, apart from each other. -/
structure Placed (item out max_length : Nat) : Prop where
  room : 13 ≤ max_length
  item_fits : item + 32 ≤ 4294967296
  out_fits : out + max_length ≤ 4294967296
  apart : item + 32 ≤ out ∨ out + max_length ≤ item

/-- The buffer holds the name and NULs behind it; nothing else has been written, and nothing but the name and the
    extension read. -/
structure Decodes (m : Bytes) (item out max_length : Nat) (name : CString) (t : Decoder) : Prop where
  buffer : ∀ j < max_length, t.memory (out + j) = name.getD j 0
  others : ∀ a, ¬(out ≤ a ∧ a < out + max_length) → t.memory a = m a
  written : ∀ a ∈ t.written, out ≤ a ∧ a < out + max_length
  read : ∀ a ∈ t.read, item ≤ a ∧ a < item + 8 ∨ item + ext ≤ a ∧ a < item + ext + 3

/-- Where the decoding is when the name so far is in the buffer. -/
structure Underway (m : Bytes) (item out max_length : Nat) (name : CString) (s : Decoder) : Prop
    extends Decodes m item out max_length name s where
  cursor : s.out_tmp = out + name.length

section
variable {m : Bytes} {item out max_length a : Nat} {name : CString} {s : Decoder} {c : UInt8}

theorem Underway.look (underway : Underway m item out max_length name s)
    (inside : item ≤ a ∧ a < item + 8 ∨ item + ext ≤ a ∧ a < item + ext + 3) :
    Underway m item out max_length name (s.look a) := by
  refine ⟨⟨underway.buffer,underway.others,underway.written,fun b member => ?_⟩,underway.cursor⟩
  rcases List.mem_cons.mp member with rfl | earlier
  · exact inside
  · exact underway.read b earlier

/-- A character behind the name, with room for it. -/
theorem Underway.push (underway : Underway m item out max_length name s) (room : name.length + 1 < max_length)
    (high : out + max_length ≤ 4294967296) : Underway m item out max_length (name ++ [c]) (s.put c).advance := by
  have cursor := underway.cursor
  refine ⟨⟨fun j inside => ?_,fun a outside => ?_,fun a member => ?_,underway.read⟩,?_⟩
  · show Function.update s.memory s.out_tmp c (out + j) = _
    rcases Nat.lt_trichotomy j name.length with before | here | behind
    · rw [Function.update_of_ne (by omega),underway.buffer j inside,List.getD_append _ _ _ _ before]
    · rw [here,cursor,Function.update_self,List.getD_append_right _ _ _ _ (Nat.le_refl _),Nat.sub_self]
      rfl
    · rw [Function.update_of_ne (by omega),underway.buffer j inside,List.getD_eq_default _ _ (by omega),
        List.getD_eq_default]
      rw [List.length_append,List.length_singleton]
      omega
  · show Function.update s.memory s.out_tmp c a = _
    rw [Function.update_of_ne (by omega)]
    exact underway.others a outside
  · rcases List.mem_cons.mp member with rfl | earlier
    · omega
    · exact underway.written a earlier
  · show offset s.out_tmp 1 = _
    rw [List.length_append,List.length_singleton,cursor,offset_of_lt (by omega)]
    omega

/-- The NUL behind the name, where there is one already. -/
theorem Underway.nul (underway : Underway m item out max_length name s) (room : name.length < max_length) :
    Underway m item out max_length name (s.put 0x00) := by
  have cursor := underway.cursor
  refine ⟨⟨fun j inside => ?_,fun a outside => ?_,fun a member => ?_,underway.read⟩,cursor⟩
  · show Function.update s.memory s.out_tmp 0x00 (out + j) = _
    by_cases here : j = name.length
    · rw [here,cursor,Function.update_self,List.getD_eq_default _ _ (Nat.le_refl _)]
    · rw [Function.update_of_ne (by omega)]
      exact underway.buffer j inside
  · show Function.update s.memory s.out_tmp 0x00 a = _
    rw [Function.update_of_ne (by omega)]
    exact underway.others a outside
  · rcases List.mem_cons.mp member with rfl | earlier
    · omega
    · exact underway.written a earlier

/-- The loop copies a field up to its end, and reads no further. -/
theorem to_proper_string_loop_decodes (high : out + max_length ≤ 4294967296) (left : Nat) :
    ∀ {source : Nat} {name : CString} {s : Decoder}, Underway m item out max_length name s →
      name.length + left + 2 ≤ max_length → source + left + 1 < 4294967296 →
      (∀ a, source ≤ a → a ≤ source + left → ¬(out ≤ a ∧ a < out + max_length) ∧
        (item ≤ a ∧ a < item + 8 ∨ item + ext ≤ a ∧ a < item + ext + 3)) →
      Underway m item out max_length (name ++ (field m source (left + 1)).takeWhile plain)
        (to_proper_string_loop left source s) := by
  induction left with
  | zero =>
    intro source name s underway room low inside
    obtain ⟨outside,within⟩ := inside source (Nat.le_refl _) (Nat.le_add_right _ _)
    have byte : (s.look source).memory source = m source := underway.others source outside
    unfold to_proper_string_loop
    dsimp only
    rw [byte,field,field]
    by_cases ends : m source = 0x00 ∨ m source = 0x20
    · rw [if_pos ends,List.takeWhile_cons_of_neg (by simpa [plain,or_iff_not_imp_left] using ends),List.append_nil]
      exact underway.look within
    · rw [if_neg ends,List.takeWhile_cons_of_pos (by simpa [plain] using ends),List.takeWhile_nil]
      exact (underway.look within).push (by omega) high
  | succ left ih =>
    intro source name s underway room low inside
    obtain ⟨outside,within⟩ := inside source (Nat.le_refl _) (Nat.le_add_right _ _)
    have byte : (s.look source).memory source = m source := underway.others source outside
    unfold to_proper_string_loop
    dsimp only
    rw [byte,field]
    by_cases ends : m source = 0x00 ∨ m source = 0x20
    · rw [if_pos ends,List.takeWhile_cons_of_neg (by simpa [plain,or_iff_not_imp_left] using ends),List.append_nil]
      exact underway.look within
    · rw [if_neg ends,List.takeWhile_cons_of_pos (by simpa [plain] using ends),offset_of_lt (by omega)]
      have pushed := (underway.look within).push (c := m source) (by omega) high
      have rest := @ih (source + 1) _ _ pushed (by rw [List.length_append,List.length_singleton]; omega) (by omega)
        fun a above below => inside a (by omega) (by omega)
      rwa [List.append_assoc,List.singleton_append] at rest

theorem field_length (m : Bytes) (n : Nat) : ∀ a, (field m a n).length = n := by
  induction n with
  | zero => exact fun a => rfl
  | succ n ih =>
    intro a
    rw [field,List.length_cons,ih]

theorem taken_length (m : Bytes) (a n : Nat) : ((field m a n).takeWhile plain).length ≤ n := by
  have short := (List.takeWhile_prefix plain (l := field m a n)).length_le
  rwa [field_length] at short

theorem to_proper_string_decodes {source size : Nat} (high : out + max_length ≤ 4294967296)
    (underway : Underway m item out max_length name s) (positive : 0 < size) (small : size < 4294967296)
    (room : name.length + size + 1 ≤ max_length) (low : source + size < 4294967296)
    (inside : ∀ a, source ≤ a → a < source + size → ¬(out ≤ a ∧ a < out + max_length) ∧
      (item ≤ a ∧ a < item + 8 ∨ item + ext ≤ a ∧ a < item + ext + 3)) :
    Underway m item out max_length (name ++ (field m source size).takeWhile plain) (fat16_to_proper_string source size s) := by
  obtain ⟨left,rfl⟩ : ∃ n, size = n + 1 := ⟨size - 1,by omega⟩
  have bound : u32 (((left + 1 : Nat) : Int) - 1) = left := by
    rw [show ((left + 1 : Nat) : Int) - 1 = (left : Nat) by omega]
    exact u32_of_range (by omega)
  have copied := to_proper_string_loop_decodes high left underway (by omega) (by omega)
    fun a above below => inside a above (by omega)
  have short := taken_length m source (left + 1)
  unfold fat16_to_proper_string
  rw [bound]
  refine copied.nul ?_
  rw [List.length_append]
  omega

theorem cleared_underway (high : out + max_length ≤ 4294967296) : Underway m item out max_length []
    ⟨memset m out 0x00 max_length,out,[],(List.range max_length).map (offset out)⟩ := by
  refine ⟨⟨fun j inside => ?_,fun a outside => ?_,fun a member => ?_,fun a member => absurd member List.not_mem_nil⟩,rfl⟩
  · dsimp only
    rw [memset_apply high,if_pos (by omega)]
    rfl
  · dsimp only
    rw [memset_apply high,if_neg outside]
  · obtain ⟨j,among,rfl⟩ := List.mem_map.mp member
    rw [List.mem_range] at among
    rw [offset_of_lt (by omega)]
    omega

/-- An extension is there unless its first character ends it. -/
theorem extension_none (m : Bytes) (a n : Nat) :
    (field m a (n + 1)).takeWhile plain = [] ↔ ¬(m a ≠ 0x00 ∧ m a ≠ 0x20) := by
  rw [field]
  by_cases some : m a ≠ 0x00 ∧ m a ≠ 0x20
  · rw [List.takeWhile_cons_of_pos (by simpa [plain] using some)]
    exact iff_of_false (List.cons_ne_nil _ _) (not_not.mpr some)
  · rw [List.takeWhile_cons_of_neg (by simpa [plain] using some)]
    exact iff_of_true rfl some

theorem full_relative_filename_decodes (placed : Placed item out max_length) :
    Decodes m item out max_length (decoded m item) (fat16_get_full_relative_filename item out max_length m) := by
  obtain ⟨room,low,high,apart⟩ := placed
  have name := @to_proper_string_decodes m item out max_length _ _ item 8 high (cleared_underway high)
    (by decide) (by decide) (show 0 + 8 + 1 ≤ max_length by omega) (by omega) fun a above below =>
      ⟨by omega,.inl ⟨above,below⟩⟩
  have short := taken_length m item 8
  have places : offset item filename = item ∧ offset item ext = item + 8 := by
    rw [offset_of_lt (show item + filename < 4294967296 by unfold filename; omega),
      offset_of_lt (show item + ext < 4294967296 by unfold ext; omega)]
    exact ⟨rfl,rfl⟩
  unfold fat16_get_full_relative_filename decoded
  rw [places.1,places.2]
  rw [List.nil_append] at name
  dsimp only
  generalize fat16_to_proper_string item 8 _ = s at name ⊢
  have looked := name.look (a := item + 8) (.inr ⟨Nat.le_refl _,by unfold ext; omega⟩)
  have byte : (s.look (item + 8)).memory (item + 8) = m (item + 8) := looked.others _ (by omega)
  rw [byte]
  by_cases some : m (item + 8) ≠ 0x00 ∧ m (item + 8) ≠ 0x20
  · rw [if_pos some,if_neg fun none => (extension_none m (item + ext) 2).mp none some]
    have dotted := looked.push (c := 46) (by omega) high
    have extended := @to_proper_string_decodes m item out max_length _ _ (item + 8) 3 high dotted (by decide) (by decide)
      (by rw [List.length_append,List.length_singleton]; omega) (by omega) fun a above below =>
        ⟨by omega,.inr ⟨above,below⟩⟩
    rw [List.append_assoc,List.singleton_append] at extended
    exact extended.toDecodes
  · rw [if_neg some,if_pos ((extension_none m (item + ext) 2).mpr some)]
    exact looked.toDecodes

end

/-! ### Padded names -/

/-- A name and an extension that an entry can hold. -/
structure ShortName (base extension : CString) : Prop where
  named : base ≠ []
  base_short : base.length ≤ 8
  extension_short : extension.length ≤ 3
  base_plain : ∀ c ∈ base, c ≠ 0x00 ∧ c ≠ 0x20 ∧ c ≠ 46
  extension_plain : ∀ c ∈ extension, c ≠ 0x00 ∧ c ≠ 0x20 ∧ c ≠ 46

def padded (n : Nat) (s : CString) : List UInt8 := s ++ List.replicate (n - s.length) 0x20

/-- The entry at a place is padded from the name and the extension. -/
structure Entry (m : Bytes) (item : Nat) (base extension : CString) : Prop where
  name : field m item 8 = padded 8 base
  extension : field m (item + ext) 3 = padded 3 extension

/-- How a name and an extension are written. -/
def written (base extension : CString) : CString := if extension = [] then base else base ++ 46 :: extension

theorem padded_taken {s : CString} (marked : ∀ c ∈ s, c ≠ 0x00 ∧ c ≠ 0x20 ∧ c ≠ 46) (n : Nat) :
    (padded n s).takeWhile plain = s := by
  have all : ∀ c ∈ s, plain c = true := by
    intro c member
    obtain ⟨zero,space,_⟩ := marked c member
    simp [plain,zero,space]
  unfold padded
  rw [List.takeWhile_append_of_pos all]
  cases n - s.length with
  | zero => exact List.append_nil s
  | succ k =>
    rw [List.replicate_succ,List.takeWhile_cons_of_neg (by decide)]
    exact List.append_nil s

theorem decoded_entry {m : Bytes} {item : Nat} {base extension : CString} (short : ShortName base extension)
    (entry : Entry m item base extension) : decoded m item = written base extension := by
  unfold decoded written
  rw [entry.name,entry.extension,padded_taken short.base_plain,padded_taken short.extension_plain]

theorem written_base {base extension : CString} (short : ShortName base extension) :
    (written base extension).takeWhile (· ≠ 46) = base ∧ (written base extension).dropWhile (· ≠ 46) =
      if extension = [] then [] else 46 :: extension := by
  have all : ∀ c ∈ base, decide (c ≠ 46) = true := fun c member => decide_eq_true (short.base_plain c member).2.2
  unfold written
  split_ifs
  · exact ⟨List.takeWhile_eq_self_iff.mpr all,List.dropWhile_eq_nil_iff.mpr all⟩
  · rw [List.takeWhile_append_of_pos all,List.dropWhile_append_of_pos all]
    exact ⟨List.append_nil base,rfl⟩

/-- Different names are written differently. -/
theorem written_injective {base extension base' extension' : CString} (short : ShortName base extension)
    (short' : ShortName base' extension') (same : written base extension = written base' extension') :
    base = base' ∧ extension = extension' := by
  obtain ⟨first,rest⟩ := written_base short
  obtain ⟨first',rest'⟩ := written_base short'
  rw [same,first'] at first
  rw [same,rest'] at rest
  refine ⟨first.symm,?_⟩
  by_cases none : extension = []
  · by_cases none' : extension' = []
    · rw [none,none']
    · rw [if_pos none,if_neg none'] at rest
      exact absurd rest (List.cons_ne_nil _ _)
  · by_cases none' : extension' = []
    · rw [if_neg none,if_pos none'] at rest
      exact absurd rest.symm (List.cons_ne_nil _ _)
    · rw [if_neg none,if_neg none'] at rest
      exact (List.cons.inj rest).2.symm

/-- The name of an item is decoded into the buffer, reading its two fields only; what was padded comes back, and
    different names differently. -/
theorem filename_decodes {item out max_length : Nat} (m : Bytes) (placed : Placed item out max_length) :
    Decodes m item out max_length (decoded m item) (fat16_get_full_relative_filename item out max_length m) ∧
    (∀ base extension, ShortName base extension → Entry m item base extension → decoded m item = written base extension) ∧
    ∀ m' item' base extension base' extension', ShortName base extension → ShortName base' extension' →
      Entry m item base extension → Entry m' item' base' extension' → base ≠ base' ∨ extension ≠ extension' →
      decoded m item ≠ decoded m' item' := by
  refine ⟨full_relative_filename_decodes placed,fun _ _ short entry => decoded_entry short entry,?_⟩
  intro m' item' base extension base' extension' short short' entry entry' different same
  rw [decoded_entry short entry,decoded_entry short' entry'] at same
  obtain ⟨name,rest⟩ := written_injective short short' same
  exact different.elim (fun other => other name) (fun other => other rest)

/-- An entry that is padded from RE and TXT. -/
def entryMemory : Bytes := fun a => ([82,69,32,32,32,32,32,32,84,88,84] : List UInt8).getD (a - 0x1000) 0

theorem filename_decodes_txt : Decodes entryMemory 0x1000 0x2000 108 [82,69,46,84,88,84]
    (fat16_get_full_relative_filename 0x1000 0x2000 108 entryMemory) := by
  have decodes := filename_decodes entryMemory (show Placed 0x1000 0x2000 108 from
    ⟨by decide,by decide,by decide,by decide⟩)
  have short : ShortName [82,69] [84,88,84] := by
    refine ⟨by decide,by decide,by decide,?_,?_⟩
    · exact List.forall_mem_cons.mpr ⟨by decide,List.forall_mem_singleton.mpr (by decide)⟩
    · exact List.forall_mem_cons.mpr ⟨by decide,List.forall_mem_cons.mpr ⟨by decide,List.forall_mem_singleton.mpr (by decide)⟩⟩
  have name : decoded entryMemory 0x1000 = [82,69,46,84,88,84] :=
    decodes.2.1 [82,69] [84,88,84] short ⟨by decide,by decide⟩
  rw [← name]
  exact decodes.1

/-! ### The name as a value -/

theorem field_eq (m : Bytes) (n : Nat) : ∀ a, field m a n = (List.range n).map fun j => m (a + j) := by
  induction n with
  | zero => exact fun a => rfl
  | succ n ih =>
    intro a
    rw [field,ih,List.range_succ_eq_map,List.map_cons,List.map_map,Nat.add_zero]
    refine congrArg (m a :: ·) (List.map_congr_left fun j _ => ?_)
    rw [Function.comp_apply,Nat.succ_eq_add_one,Nat.add_assoc,Nat.add_comm 1 j]

/-- The bytes of an item are looked up by the name they are decoded to. -/
theorem decoded_item_at {m : Bytes} {item : Nat} (low : item + 32 ≤ 4294967296) :
    FatDirectories.fat16_get_full_relative_filename (FatDirectories.item_at m item) = decoded m item := by
  have name : (FatDirectories.item_at m item).filename = field m item 8 := by
    rw [field_eq]
    refine List.map_congr_left fun j among => ?_
    rw [List.mem_range] at among
    rw [offset_of_lt (by omega)]
  have extension : (FatDirectories.item_at m item).ext = field m (item + ext) 3 := by
    rw [field_eq]
    refine List.map_congr_left fun j among => ?_
    rw [List.mem_range] at among
    dsimp only
    rw [offset_of_lt (by omega),Nat.add_assoc]
  unfold FatDirectories.fat16_get_full_relative_filename decoded
  rw [name,extension]
  have first : (field m (item + ext) 3).headD 0 = m (item + ext) := rfl
  have proper : ∀ s, FatDirectories.fat16_to_proper_string s = s.takeWhile plain := fun s => rfl
  rw [first,proper,proper]
  by_cases some : m (item + ext) ≠ 0x00 ∧ m (item + ext) ≠ 0x20
  · rw [if_pos some,if_neg fun none => (extension_none m (item + ext) 2).mp none some]
  · rw [if_neg some,if_pos ((extension_none m (item + ext) 2).mpr some)]

end SimpOS.DirectoryNames
