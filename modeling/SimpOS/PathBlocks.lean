import SimpOS.FailedOpens
import Mathlib.Order.Interval.Finset.Nat

/-!
What a parsed path takes from the heap and gives back. Every name takes two blocks, and the
parser cannot tell a name it has no blocks for from the end of the path: from the second name on
it then returns what it has linked so far.
-/
namespace SimpOS.PathBlocks
open SimpOS.Machine SimpOS.Strings SimpOS.Memory SimpOS.Extents SimpOS.HeapBlocks SimpOS.HeapLayout SimpOS.KernelHeap
open SimpOS.PathParser SimpOS.ParsedPaths SimpOS.FatPaths SimpOS.FailedOpens

/-- The table of the heap has the same entries. -/
def SameTable (k k' : Kernel) : Prop := ∀ i : Int, 0 ≤ i → i < k.kernel_heap.table.total →
  k'.kernel_heap.table.entries i = k.kernel_heap.table.entries i

/-- Parsing gives nothing and leaves the heap as it was, or gives all parts of the path. -/
def AllOrNothing (parts : List CString) (path : CString) (k : Kernel) : Prop :=
  ∃ result k', pathparser_parse path k = .ok (result,k') ∧
    ((result = none ∧ SameTable k k') ∨ ∃ root, result = some root ∧ root.first.map PathPart.part = parts)

section
variable {live : List Extent} {k : Kernel}

/-! ### Names there are no blocks for -/

/-- Without two blocks nothing is linked and nothing taken. -/
theorem parse_path_part_few (laid : Laid k.kernel_heap live) (few : freeBlocks k.kernel_heap < 2) (parts : List PathPart)
    (path : CString) (short : (firstName path).length ≤ 4096) :
    ∃ path' k', pathparser_parse_path_part parts (some path) k = .ok (none,path',k') ∧ Laid k'.kernel_heap live ∧
      freeBlocks k'.kernel_heap = freeBlocks k.kernel_heap := by
  by_cases unnamed : firstName path = []
  · exact parse_path_part_unnamed laid parts path unnamed
  by_cases one : 0 < freeBlocks k.kernel_heap
  · rcases get_path_part_named laid one path unnamed with ⟨long,_⟩ | ⟨c,k₁,took,read⟩
    · omega
    · have count := took.count
      have back := kfree_single took.laid
      rcases kzalloc_single took.laid (by decide : 0 < 8) (by decide) with ⟨_,refused⟩ | ⟨b,k₂,_,took'⟩
      · refine ⟨some (behind path),kfree k₁ (blockAddress c),?_,back.1,by omega⟩
        simp only [pathparser_parse_path_part,read,Except.map,refused,if_true]
      · have count' := took'.count
        omega
  · rcases kzalloc_single laid (by decide : 0 < SIMPOS_MAX_PATH) (by decide) with ⟨_,refused⟩ | ⟨b,k',_,took⟩
    · refine ⟨some path,k,?_,laid,rfl⟩
      simp only [pathparser_parse_path_part,pathparser_get_path_part,refused,if_true,Except.map]
    · have count := took.count
      omega

/-- The loop links a name for every two blocks that are free. -/
theorem parse_rest_links {live : List Extent} (path : CString) :
    ∀ (remaining : Nat) (parts : List PathPart) (k : Kernel), (names path).length < remaining →
      Laid k.kernel_heap live → (∀ p ∈ names path, p.length ≤ 4096) →
      ∃ more k', parse_rest remaining parts (some path) k = .ok (parts ++ more,k') ∧
        more.map PathPart.part = (names path).take (freeBlocks k.kernel_heap / 2) := by
  fun_induction names path generalizing live with
  | case1 path unnamed =>
    intro remaining parts k enough laid short
    obtain ⟨remaining,rfl⟩ : ∃ n, remaining = n + 1 := ⟨remaining - 1,by omega⟩
    obtain ⟨path',k',read,_⟩ := parse_path_part_unnamed laid parts path unnamed
    refine ⟨[],k',?_,List.take_nil.symm⟩
    rw [parse_rest,read,List.append_nil]
    rfl
  | case2 path named ih =>
    intro remaining parts k enough laid short
    rw [List.length_cons] at enough
    obtain ⟨remaining,rfl⟩ : ∃ n, remaining = n + 1 := ⟨remaining - 1,by omega⟩
    have fits := short _ (List.mem_cons_self ..)
    by_cases room : 2 ≤ freeBlocks k.kernel_heap
    · rcases parse_path_part_named laid room parts path named with ⟨long,_⟩ | ⟨place,k₁,name,laid₁,count,read⟩
      · omega
      · obtain ⟨more,k₂,linked,same⟩ := ih remaining (parts ++ [place.part]) k₁ (by omega) laid₁
          fun p member => short p (List.mem_cons_of_mem _ member)
        refine ⟨place.part :: more,k₂,?_,?_⟩
        · rw [List.append_assoc,List.singleton_append] at linked
          rw [parse_rest,read]
          exact linked
        · rw [show freeBlocks k.kernel_heap / 2 = freeBlocks k₁.kernel_heap / 2 + 1 by omega,List.take_succ_cons,List.map_cons,
            same,← name]
          rfl
    · obtain ⟨path',k₁,read,_⟩ := parse_path_part_few laid (by omega) parts path fits
      refine ⟨[],k₁,?_,?_⟩
      · rw [parse_rest,read,List.append_nil]
        rfl
      · rw [show freeBlocks k.kernel_heap / 2 = 0 by omega,List.take_zero]
        rfl

/-- A path whose first name finds its blocks comes back with a name for every two of those behind it. -/
theorem parse_links {path : CString} (laid : Laid k.kernel_heap live) (digit : isdigit (path.headD 0) = true)
    (long : 3 ≤ path.length) (named : names (path.drop 3) ≠ []) (short : ∀ p ∈ names (path.drop 3), p.length ≤ 4096) :
    ∃ result k', pathparser_parse path k = .ok (result,k') ∧
      (freeBlocks k.kernel_heap < 3 → result = none) ∧
      (3 ≤ freeBlocks k.kernel_heap → ∃ root, result = some root ∧
        root.first.map PathPart.part = (names (path.drop 3)).take ((freeBlocks k.kernel_heap - 1) / 2)) := by
  have first : firstName (path.drop 3) ≠ [] := by
    intro unnamed
    rw [names,dif_pos unnamed] at named
    exact named rfl
  rw [names,dif_neg first] at short ⊢
  have fits := short _ (List.mem_cons_self ..)
  have fuel := names_length (behind (path.drop 3))
  have shorter := behind_length first
  rw [List.length_drop] at shorter
  by_cases none : freeBlocks k.kernel_heap = 0
  · obtain ⟨valid,positive⟩ := get_drive_number_digit digit
    have positive : ¬ tonumericdigit (path.headD 0) < 0 := by omega
    refine ⟨Option.none,k,?_,fun _ => rfl,fun room => by omega⟩
    rcases kzalloc_single laid (by decide : 0 < 8) (by decide) with ⟨_,refused⟩ | ⟨b,k',_,took⟩
    · simp only [pathparser_parse,valid,Except.bind,positive,if_false,pathparser_create_root,refused,if_true]
    · have count := took.count
      omega
  · obtain ⟨r,k₁,took,parsed⟩ := parse_digit laid (by omega) digit
    have count := took.count
    rw [parsed,if_pos long]
    by_cases room : 2 ≤ freeBlocks k₁.kernel_heap
    · rcases parse_path_part_named took.laid room [] (path.drop 3) first with ⟨tooLong,_⟩ | ⟨place,k₂,name,laid₂,count',read⟩
      · omega
      · obtain ⟨more,k₃,linked,same⟩ := parse_rest_links (behind (path.drop 3)) (path.length + 1) [place.part] k₂ (by omega)
          laid₂ fun p member => short p (List.mem_cons_of_mem _ member)
        refine ⟨some ⟨blockAddress r,tonumericdigit (path.headD 0),place.part :: more⟩,k₃,?_,fun few => by omega,
          fun _ => ⟨_,rfl,?_⟩⟩
        · simp only [read,Except.bind,parse_parts,List.nil_append,linked,Except.map,List.singleton_append]
        · rw [show (freeBlocks k.kernel_heap - 1) / 2 = freeBlocks k₂.kernel_heap / 2 + 1 by omega,List.take_succ_cons,
            List.map_cons,same,← name]
          rfl
    · obtain ⟨path',k₂,read,_⟩ := parse_path_part_few took.laid (by omega) [] (path.drop 3) fits
      refine ⟨Option.none,kfree k₂ (blockAddress r),?_,fun _ => rfl,fun more => by omega⟩
      rw [read]
      rfl

theorem sameTable_laid {k' : Kernel} (laid : Laid k.kernel_heap live) (laid' : Laid k'.kernel_heap live) : SameTable k k' :=
  fun _ low high => laid.entries_eq laid' low high

/-! ### All of a path or nothing -/

variable {drive : UInt8} {parts : List CString} {trailing : Bool}

/-- A well-formed path is parsed whole or not at all exactly when there are no blocks for its first
    name or enough for all its names. -/
theorem path_all_or_nothing_iff (digit : isdigit drive = true) (nonempty : parts ≠ []) (valid : ∀ p ∈ parts, Name p)
    (laid : Laid k.kernel_heap live) :
    AllOrNothing parts (written drive parts trailing) k ↔
      freeBlocks k.kernel_heap < 3 ∨ 2 * parts.length + 1 ≤ freeBlocks k.kernel_heap := by
  have rest : names ((written drive parts trailing).drop 3) = parts := (names_joined valid trailing nonempty).1
  obtain ⟨result,k',parsed,few,room⟩ := @parse_links live k (written drive parts trailing) laid digit (by simp [written])
    (by rwa [rest]) (fun p member => by
      rw [rest] at member
      have short := (valid p member).short
      simp only [SIMPOS_MAX_PATH] at short
      omega)
  rw [rest] at room
  unfold AllOrNothing
  constructor
  · rintro ⟨result',k₁,parsed',outcome⟩
    rw [parsed] at parsed'
    cases parsed'
    by_contra between
    rw [not_or] at between
    obtain ⟨root,is_some,same⟩ := room (by omega)
    rcases outcome with ⟨none,_⟩ | ⟨root',is_some',whole⟩
    · rw [none] at is_some
      cases is_some
    · rw [is_some] at is_some'
      cases is_some'
      have length := congrArg List.length (same.symm.trans whole)
      rw [List.length_take] at length
      omega
  · intro enough
    refine ⟨result,k',parsed,?_⟩
    by_cases none : freeBlocks k.kernel_heap < 3
    · rw [few none] at parsed
      cases parse_laid laid parsed with
      | none laid' => exact .inl ⟨few none,sameTable_laid laid laid'⟩
    · obtain ⟨root,is_some,same⟩ := room (by omega)
      refine .inr ⟨root,is_some,?_⟩
      rw [same]
      exact List.take_of_length_le (by omega)

end

/-- The kernel with all but the last few blocks of its heap taken. -/
def fewBlocks (few : Nat) : Kernel :=
  ⟨fun _ => 0, heap_mark_blocks_taken (kernel_heap_init fun _ => 0) 0 (25600 - few)⟩

theorem fewBlocks_laid {few : Nat} (inside : few < 25600) : Laid (fewBlocks few).kernel_heap [⟨0,25600 - few⟩] := by
  have empty := kernel_heap_init_laid fun _ => 0
  have total := empty.total_eq
  refine ⟨rfl,rfl,layout_taken empty.layout (by omega) (by decide) (by omega) fun i within high => ?_⟩
  rw [mem_mk] at within
  refine (freeBlock_iff empty.layout within.1 high).mpr ?_
  rintro ⟨e,member,_⟩
  exact absurd member List.not_mem_nil

theorem fewBlocks_free {few : Nat} (inside : few < 25600) : freeBlocks (fewBlocks few).kernel_heap = few := by
  have laid := fewBlocks_laid inside
  have total := laid.total_eq
  have free : (Finset.range 25600).filter (fun i => FreeBlock (fewBlocks few).kernel_heap (i : Nat)) =
      Finset.Ico (25600 - few) 25600 := by
    ext i
    rw [Finset.mem_filter,Finset.mem_range,Finset.mem_Ico,and_comm]
    refine and_congr_left fun below => ?_
    rw [freeBlock_iff laid.layout (by omega) (by omega)]
    constructor
    · intro uncovered
      by_contra taken
      exact uncovered ⟨_,List.mem_cons_self,by rw [mem_mk]; omega⟩
    · rintro above ⟨e,member,within⟩
      rw [List.mem_singleton.mp member,mem_mk] at within
      omega
  unfold freeBlocks
  rw [total,free,Nat.card_Ico]
  omega

private theorem name_letter {c : UInt8} (slash : c ≠ 47) (zero : c ≠ 0) : Name [c] :=
  ⟨List.cons_ne_nil _ _,fun member => slash (List.mem_singleton.mp member).symm,
    fun member => zero (List.mem_singleton.mp member).symm,show 1 < SIMPOS_MAX_PATH by decide⟩

private theorem names_ab : ∀ p ∈ ([[97],[98]] : List CString), Name p := by
  intro p member
  rcases List.mem_cons.mp member with rfl | last
  · exact name_letter (by decide) (by decide)
  · rw [List.mem_singleton.mp last]
    exact name_letter (by decide) (by decide)

theorem path_whole_five : AllOrNothing [[97],[98]] (written 48 [[97],[98]] false) (fewBlocks 5) := by
  refine (path_all_or_nothing_iff (by decide) (List.cons_ne_nil _ _) names_ab (fewBlocks_laid (by decide))).mpr (.inr ?_)
  rw [fewBlocks_free (by decide)]
  decide

/-- With three blocks left the path 0:/a/b is parsed as 0:/a. -/
theorem path_truncated_three : ∃ root k', pathparser_parse [48,58,47,97,47,98] (fewBlocks 3) = .ok (some root,k') ∧
    root.first.map PathPart.part = [[97]] ∧ ¬AllOrNothing [[97],[98]] [48,58,47,97,47,98] (fewBlocks 3) := by
  have rest : names (([48,58,47,97,47,98] : CString).drop 3) = [[97],[98]] :=
    (names_joined names_ab false (List.cons_ne_nil _ _)).1
  obtain ⟨result,k',parsed,_,room⟩ := @parse_links _ (fewBlocks 3) [48,58,47,97,47,98]
    (fewBlocks_laid (by decide)) (by decide) (by decide) (by rw [rest]; exact List.cons_ne_nil _ _)
    (by rw [rest]; decide)
  rw [fewBlocks_free (by decide),rest] at room
  obtain ⟨root,rfl,same⟩ := room (by decide)
  refine ⟨root,k',parsed,same,?_⟩
  rintro ⟨result',k₁,parsed',⟨rfl,_⟩ | ⟨root',rfl,whole⟩⟩
  · rw [parsed] at parsed'
    cases parsed'
  · rw [parsed] at parsed'
    cases parsed'
    rw [same] at whole
    exact absurd whole (by decide)

/-! ### Releasing a path -/

/-- The addresses that releasing a path hands to the heap, in their order. -/
def released (root : PathRoot) : List Nat :=
  (root.first.flatMap fun part => [part.part_address,part.address]) ++ [root.address]

theorem path_free_released (root : PathRoot) (k : Kernel) : pathparser_free root k = (released root).foldl kfree k := by
  have parts : ∀ (parts : List PathPart) (k : Kernel), pathparser_free_parts parts k =
      (parts.flatMap fun part => [part.part_address,part.address]).foldl kfree k := by
    intro parts
    induction parts with
    | nil => exact fun k => rfl
    | cons part rest ih => exact fun k => ih _
  rw [released,List.foldl_append,← parts]
  rfl

theorem rootExtents_released (root : PathRoot) : rootExtents root = (released root).map page := by
  rw [released,List.map_append,List.map_flatMap]
  rfl

section
variable {live : List Extent} {k k' : Kernel} {path : CString} {root : PathRoot}

/-- The blocks of a path are different ones, and free of what was live before it. -/
theorem released_apart (laid : Laid k'.kernel_heap (rootExtents root ++ live)) :
    (released root).Nodup ∧ ∀ a ∈ released root, ¬Covered live (page a).first := by
  rw [rootExtents_released] at laid
  obtain ⟨own,_,others⟩ := List.pairwise_append.mp laid.layout.disjoint
  have within : ∀ a, (page a).first ∈ page a := fun a => by
    rw [mem_def]
    exact ⟨Int.le_refl _,by unfold page; dsimp only; omega⟩
  refine ⟨?_,?_⟩
  · refine (List.pairwise_map.mp own).imp ?_
    rintro a b apart rfl
    exact apart _ (within a) (within a)
  · rintro a member ⟨e,living,inside⟩
    exact others _ (List.mem_map_of_mem member) e living _ (within a) inside

theorem released_block (held : RootHeld root) : ∀ a ∈ released root, Block a := by
  intro a member
  rcases List.mem_append.mp member with part | last
  · obtain ⟨part,among,own⟩ := List.mem_flatMap.mp part
    obtain ⟨string,node⟩ := held.parts part among
    rcases List.mem_cons.mp own with rfl | own
    · exact string
    · rw [List.mem_singleton.mp own]
      exact node
  · rw [List.mem_singleton.mp last]
    exact held.node

/-- Releasing a path that has been parsed hands back each block the parse has taken, once, and leaves
    the heap as it was. -/
theorem path_free_exact (laid : Laid k.kernel_heap live) (parsed : pathparser_parse path k = .ok (some root,k')) :
    SameTable k (pathparser_free root k') ∧ pathparser_free root k' = (released root).foldl kfree k' ∧
      (released root).Nodup ∧ ∀ a ∈ released root, ∃ b, a = blockAddress b ∧
        FreeBlock k.kernel_heap b ∧ ¬FreeBlock k'.kernel_heap b := by
  cases parse_laid laid parsed with
  | some held laid' =>
    obtain ⟨once,apart⟩ := released_apart laid'
    refine ⟨sameTable_laid laid (path_free_laid held laid'),path_free_released root k',once,fun a member => ?_⟩
    have fresh := apart a member
    have among : page a ∈ rootExtents root ++ live := by
      rw [rootExtents_released]
      exact List.mem_append_left _ (List.mem_map_of_mem member)
    obtain ⟨low,fits,_⟩ := laid'.layout.start _ among
    obtain ⟨b,above,rfl⟩ := released_block held a member
    rw [page_blockAddress above] at fresh among fits
    have total := laid.total_eq
    have total' := laid'.total_eq
    dsimp only at fresh fits
    refine ⟨b,rfl,(freeBlock_iff laid.layout above (by omega)).mpr fresh,fun free => ?_⟩
    exact (freeBlock_iff laid'.layout above (by omega)).mp free ⟨_,among,by rw [mem_mk]; omega⟩

end

theorem path_free_exact_ab : ∃ root k', pathparser_parse (written 48 [[97],[98]] false) (fewBlocks 5) = .ok (some root,k') ∧
    SameTable (fewBlocks 5) (pathparser_free root k') ∧ pathparser_free root k' = (released root).foldl kfree k' ∧
      (released root).Nodup ∧ ∀ a ∈ released root, ∃ b, a = blockAddress b ∧
        FreeBlock (fewBlocks 5).kernel_heap b ∧ ¬FreeBlock k'.kernel_heap b := by
  have rest : names ((written 48 [[97],[98]] false).drop 3) = [[97],[98]] :=
    (names_joined names_ab false (List.cons_ne_nil _ _)).1
  obtain ⟨result,k',parsed,_,room⟩ := @parse_links _ (fewBlocks 5) (written 48 [[97],[98]] false)
    (fewBlocks_laid (by decide)) (by decide) (by decide) (by rw [rest]; exact List.cons_ne_nil _ _)
    (by rw [rest]; decide)
  obtain ⟨root,rfl,_⟩ := room (by rw [fewBlocks_free (by decide)]; decide)
  exact ⟨root,k',parsed,path_free_exact (fewBlocks_laid (by decide)) parsed⟩

end SimpOS.PathBlocks
