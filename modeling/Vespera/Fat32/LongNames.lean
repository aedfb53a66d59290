import Mathlib.Data.List.Basic
import Mathlib.Tactic.SplitIfs

/-! # Long file names

`write_lfn_entries` cuts a name into slots of 13 characters, the end of the name first.
`read_directory` puts the characters together from the last slot to the first,
`delete_directory_entry_in_directory` sorts the slots by their order before. Both get the name back
(`long_names_survive`).
-/

namespace Vespera.Fat32

open List

/-! ## Writing -/

structure LongFileName where
  order : Nat
  name1 : List Nat
  attr : Nat
  type : Nat
  checksum : UInt8
  name2 : List Nat
  firstClusterLow : Nat
  name3 : List Nat

def attrLongName : Nat := 0x0F

def chkSum (shortName : List UInt8) : UInt8 :=
  (shortName.take 11).foldl (fun sum c => (if sum &&& 1 = 1 then 0x80 else (0 : UInt8)) + (sum >>> 1) + c) 0

/-- `copy_from_name`: words of the name, its end and padding, and the position behind them. -/
def copyFromName (name : List UInt8) : Nat → Nat → List Nat × Nat
  | 0, pos => ([], pos)
  | count + 1, pos =>
    if h : pos < name.length then (copyFromName name count (pos + 1)).map (name[pos].toNat :: ·) id
    else if pos = name.length then (copyFromName name count (pos + 1)).map (0 :: ·) id
    else (copyFromName name count pos).map (0xFFFF :: ·) id

def entriesNeeded (name : List UInt8) : Nat := (name.length + 12) / 13

/-- The slot with the `i`-th part of the name. -/
def lfnEntry (name shortName : List UInt8) (i : Nat) : LongFileName :=
  let name1 := copyFromName name 5 (i * 13)
  let name2 := copyFromName name 6 name1.2
  let name3 := copyFromName name 2 name2.2
  { order := (i + 1) % 256 ||| if i + 1 = entriesNeeded name then 0x40 else 0
    name1 := name1.1
    attr := attrLongName
    type := 0
    checksum := chkSum shortName
    name2 := name2.1
    firstClusterLow := 0
    name3 := name3.1 }

/-- The slots, in the order in which they stand in the directory. -/
def writeLfnEntries (name shortName : List UInt8) : List LongFileName :=
  (range (entriesNeeded name)).reverse.map (lfnEntry name shortName)

/-! ## Reading -/

/-- `copy_chars`: the buffer, and whether there may be more. -/
def copyChars (maxLen : Nat) : List Nat → List UInt8 → List UInt8 × Bool
  | [], buffer => (buffer, true)
  | word :: src, buffer =>
    if word = 0 ∨ word = 0xFFFF then (buffer, false)
    else if buffer.length ≥ maxLen - 1 then (buffer, false)
    else copyChars maxLen src (buffer ++ [UInt8.ofNat word])

def copyLfnPart (lfn : LongFileName) (maxLen : Nat) (buffer : List UInt8) : List UInt8 × Bool :=
  match copyChars maxLen lfn.name1 buffer with
  | (buffer, false) => (buffer, false)
  | (buffer, true) =>
    match copyChars maxLen lfn.name2 buffer with
    | (buffer, false) => (buffer, false)
    | (buffer, true) => copyChars maxLen lfn.name3 buffer

variable (slots : List LongFileName)

def copyParts : List UInt8 :=
  slots.foldl (fun buffer lfn => (copyLfnPart lfn 256 buffer).1) []

/-- The long name of an entry behind these slots in `read_directory`. -/
def readName : List UInt8 := copyParts (slots.take 20).reverse

/-- The inner loop of the sort, over so many pairs of neighbours. -/
def sortPass : Nat → List LongFileName → List LongFileName
  | n + 1, x :: y :: slots =>
    if x.order &&& 0x3F > y.order &&& 0x3F then y :: sortPass n (x :: slots)
    else x :: sortPass n (y :: slots)
  | _, slots => slots

def sortByOrder : List LongFileName :=
  (range (slots.length - 1)).foldl (fun l a => sortPass (slots.length - 1 - a) l) slots

/-- The same in `delete_directory_entry_in_directory`. -/
def deleteName : List UInt8 := copyParts (sortByOrder (slots.take 20))

/-! ## Words -/

section Words

variable {name : List UInt8} {pos : Nat}

theorem copyFromName_add (a b : Nat) : (copyFromName name (a + b) pos).1 =
    (copyFromName name a pos).1 ++ (copyFromName name b (copyFromName name a pos).2).1 := by
  induction a generalizing pos with
  | zero => simp [copyFromName]
  | succ a ih =>
    rw [Nat.succ_add, copyFromName, copyFromName]
    split_ifs
    all_goals exact congrArg (_ :: ·) ih

theorem copyChars_append (maxLen : Nat) (src src' : List Nat) (buffer : List UInt8) :
    copyChars maxLen (src ++ src') buffer =
      match copyChars maxLen src buffer with
      | (buffer, false) => (buffer, false)
      | (buffer, true) => copyChars maxLen src' buffer := by
  induction src generalizing buffer with
  | nil => rfl
  | cons word src ih =>
    rw [cons_append, copyChars, copyChars]
    split_ifs
    · rfl
    · rfl
    · exact ih _

theorem copyLfnPart_eq (lfn : LongFileName) (maxLen : Nat) (buffer : List UInt8) :
    copyLfnPart lfn maxLen buffer =
      copyChars maxLen (lfn.name1 ++ (lfn.name2 ++ lfn.name3)) buffer := by
  simp only [copyLfnPart, copyChars_append]

theorem lfnEntry_words (shortName : List UInt8) (i : Nat) :
    (lfnEntry name shortName i).name1 ++ ((lfnEntry name shortName i).name2 ++
      (lfnEntry name shortName i).name3) = (copyFromName name (5 + (6 + 2)) (i * 13)).1 := by
  rw [copyFromName_add, copyFromName_add]
  rfl

variable (hlen : name.length ≤ 255) (hne : ∀ b ∈ name, b ≠ 0)

include hlen hne

/-- Reading what was written from a position on. -/
theorem copyChars_copyFromName (count : Nat) (hpos : pos ≤ name.length) :
    (copyChars 256 (copyFromName name count pos).1 (name.take pos)).1 = name.take (pos + count) := by
  induction count generalizing pos with
  | zero => rfl
  | succ count ih =>
    rw [copyFromName]
    by_cases hlt : pos < name.length
    · -- a character is none of the two marks
      have hzero : name[pos].toNat ≠ 0 := fun h => hne _ (getElem_mem hlt) (UInt8.toNat_inj.mp h)
      have hbyte := name[pos].toNat_lt
      have hbuffer : (name.take pos).length = pos := length_take_of_le hpos
      rw [dif_pos hlt, Prod.map_fst, copyChars, if_neg (by omega), if_neg (by omega),
        UInt8.ofNat_toNat, take_append_getElem, ih hlt, Nat.succ_add_eq_add_succ]
    · obtain rfl : pos = name.length := by omega
      rw [dif_neg hlt, if_pos rfl, Prod.map_fst, copyChars, if_pos (.inl rfl), take_length,
        take_of_length_le (Nat.le_add_right _ _)]

theorem copyParts_range {m : Nat} (hm : m ≤ entriesNeeded name) (shortName : List UInt8) :
    copyParts ((range m).map (lfnEntry name shortName)) = name.take (m * 13) := by
  induction m with
  | zero => rfl
  | succ m ih =>
    have hpos : m * 13 ≤ name.length := by
      unfold entriesNeeded at hm
      omega
    have hread := copyChars_copyFromName hlen hne (5 + (6 + 2)) hpos
    unfold copyParts at ih ⊢
    rw [range_succ, map_append, foldl_append, ih (by omega), Nat.succ_mul]
    simp only [map_cons, map_nil, foldl_cons, foldl_nil, copyLfnPart_eq, lfnEntry_words]
    exact hread

theorem copyParts_all (shortName : List UInt8) :
    copyParts ((range (entriesNeeded name)).map (lfnEntry name shortName)) = name := by
  rw [copyParts_range hlen hne (Nat.le_refl _), take_of_length_le]
  unfold entriesNeeded
  omega

end Words

/-! ## Orders -/

/-- The first slot is carried behind the ones it is compared with. -/
theorem sortPass_shift {x : LongFileName} {slots : List LongFileName} (rest : List LongFileName)
    (h : ∀ y ∈ slots, y.order &&& 0x3F < x.order &&& 0x3F) :
    sortPass slots.length (x :: (slots ++ rest)) = slots ++ x :: rest := by
  induction slots with
  | nil => cases rest <;> rfl
  | cons y slots ih =>
    rw [cons_append, length_cons, sortPass, if_pos (h y mem_cons_self),
      ih fun z hz => h z (mem_cons_of_mem y hz)]
    rfl

theorem sortByOrder_eq {slots : List LongFileName}
    (h : slots.Pairwise fun x y => y.order &&& 0x3F < x.order &&& 0x3F) :
    sortByOrder slots = slots.reverse := by
  -- after `m` rounds the first `m` slots stand at the end
  have hrounds : ∀ m, m ≤ slots.length - 1 → (range m).foldl
      (fun l a => sortPass (slots.length - 1 - a) l) slots = slots.drop m ++ (slots.take m).reverse := by
    intro m hm
    induction m with
    | zero => simp
    | succ m ih =>
      have hlt : m < slots.length := by omega
      have hdrop := drop_eq_getElem_cons hlt
      have hlater := pairwise_cons.mp (hdrop ▸ h.drop)
      rw [range_succ, foldl_append, ih (by omega), foldl_cons, foldl_nil, hdrop, cons_append,
        show slots.length - 1 - m = (slots.drop (m + 1)).length by rw [length_drop]; omega,
        sortPass_shift _ hlater.1, ← take_append_getElem hlt, reverse_append]
      rfl
  have hone : (slots.drop (slots.length - 1)).length ≤ 1 := by
    rw [length_drop]
    omega
  have hlast : (slots.drop (slots.length - 1)).reverse = slots.drop (slots.length - 1) := by
    match slots.drop (slots.length - 1), hone with
    | [], _ => rfl
    | [_], _ => rfl
  rw [sortByOrder, hrounds _ (Nat.le_refl _), ← hlast, ← reverse_append, take_append_drop]

/-- The orders of up to 20 slots, with and without the mark of the last one. -/
theorem order_spec : ∀ i < 20, ∀ mark ∈ [0x40, 0], ((i + 1) % 256 ||| mark) &&& 0x3F = i + 1 ∧
    (i + 1) % 256 ||| mark ≠ 0 ∧ (i + 1) % 256 ||| mark ≠ 0xE5 := by
  decide

/-- Whatever the name, its slots give it back, read from the end or sorted by their order. There is
one for every 13 characters, they are numbered from the end, and none looks like a free entry. -/
theorem long_names_survive {name : List UInt8} (hpos : name ≠ []) (hlen : name.length ≤ 255)
    (hne : ∀ b ∈ name, b ≠ 0) (shortName : List UInt8) :
    readName (writeLfnEntries name shortName) = name ∧
      deleteName (writeLfnEntries name shortName) = name ∧
      let slots := writeLfnEntries name shortName
      (name.length ≤ slots.length * 13 ∧ slots.length * 13 < name.length + 13) ∧
      slots.map LongFileName.order =
        (slots.length ||| 0x40) :: ((range (slots.length - 1)).map (· + 1)).reverse ∧
      ∀ s ∈ slots, s.order ≠ 0 ∧ s.order ≠ 0xE5 ∧ s.checksum = chkSum shortName := by
  generalize hslots : writeLfnEntries name shortName = slots
  have hcount : slots.length = entriesNeeded name := by simp [← hslots, writeLfnEntries]
  have hbounds : name.length ≤ slots.length * 13 ∧ slots.length * 13 < name.length + 13 := by
    rw [hcount, entriesNeeded]
    omega
  have hfull : slots.take 20 = slots := take_of_length_le (by omega)
  have horder : ∀ i < slots.length, (lfnEntry name shortName i).order &&& 0x3F = i + 1 ∧
      (lfnEntry name shortName i).order ≠ 0 ∧ (lfnEntry name shortName i).order ≠ 0xE5 := by
    intro i hi
    refine order_spec i (by omega) _ ?_
    split_ifs <;> decide
  have hreverse : slots.reverse = (range (entriesNeeded name)).map (lfnEntry name shortName) := by
    simp only [← hslots, writeLfnEntries, ← map_reverse, reverse_reverse]
  have hsorted : slots.Pairwise fun x y => y.order &&& 0x3F < x.order &&& 0x3F := by
    rw [← pairwise_reverse, hreverse, pairwise_map]
    refine pairwise_lt_range.imp_of_mem fun {i j} hi hj hij => ?_
    rw [mem_range, ← hcount] at hi hj
    rw [(horder i hi).1, (horder j hj).1]
    omega
  refine ⟨?_, ?_, hbounds, ?_, ?_⟩
  · rw [readName, hfull, hreverse, copyParts_all hlen hne]
  · rw [deleteName, hfull, sortByOrder_eq hsorted, hreverse, copyParts_all hlen hne]
  · -- only the first slot has the mark
    obtain ⟨k, hk⟩ : ∃ k, slots.length = k + 1 := by
      have hlength := length_pos_of_ne_nil hpos
      exact ⟨slots.length - 1, by omega⟩
    have hinner : ∀ i ∈ range k, (LongFileName.order ∘ lfnEntry name shortName) i = i + 1 := by
      intro i hi
      have hik := mem_range.mp hi
      rw [Function.comp_apply, lfnEntry, if_neg (by omega), Nat.or_zero, Nat.mod_eq_of_lt (by omega)]
    have hlast : (lfnEntry name shortName k).order = (k + 1) ||| 0x40 := by
      rw [lfnEntry, if_pos (by omega), Nat.mod_eq_of_lt (by omega)]
    rw [← reverse_inj, ← map_reverse, hreverse, ← hcount, hk, range_succ, map_map, map_append,
      map_congr_left hinner, reverse_cons, reverse_reverse, Nat.add_sub_cancel, map_singleton]
    exact congrArg (_ ++ [·]) hlast
  · intro s hs
    obtain ⟨i, hi, rfl⟩ := mem_map.mp (hreverse ▸ mem_reverse.mpr hs)
    obtain ⟨-, hzero, hfree⟩ := horder i (hcount ▸ mem_range.mp hi)
    exact ⟨hzero, hfree, rfl⟩

/-- A name of two slots, with `AAAAAA~1` as its short name. -/
theorem long_names_survive_two :
    let slots := writeLfnEntries (replicate 14 65) (replicate 6 65 ++ [126, 49, 32, 32, 32])
    readName slots = replicate 14 65 ∧ deleteName slots = replicate 14 65 ∧
      slots.map LongFileName.order = [0x42, 1] :=
  have h := long_names_survive (by decide) (by decide) (by simp) _
  ⟨h.1, h.2.1, h.2.2.2.1⟩

end Vespera.Fat32
