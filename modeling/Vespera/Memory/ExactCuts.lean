import Vespera.Memory.AreaMap
import Vespera.Memory.Mappings

/-! # munmap and mprotect are exact

`munmap` takes the pages of its range out of the map that the areas are, and `mprotect` gives them
a protection, in the areas and in the page table. Nothing else changes. This needs areas that do
not overlap, objects that count their mappings (`Mapped.counted_areas`) and a range that does not
wrap around: the areas may be in any order and anywhere in the address space.

* `munmap_exact`: the map, and the counts of the objects;
* `mprotect_exact`: the map and the page-table entries, or nothing at all if the range has a hole.
-/

namespace Vespera.Memory

open Klib Function List Lib PageTable

namespace VmSt

variable {st st' : VmSt} {v : VmArea} {vs : List VmArea} {base stop bound u addr length : Nat}

/-! ## Ranges -/

/-- A length in whole pages, without wrapping. -/
def roundUp (n : Nat) : Nat := (n + pageSize - 1) / pageSize * pageSize

/-- The areas are stretches of the address space that do not overlap. -/
abbrev AreasApart (vs : List VmArea) : Prop := Span.Ok VmArea.start VmArea.top (2 ^ 64 - 1) vs

theorem alignUp_eq_roundUp (h : alignDown addr + roundUp length < 2 ^ 64) :
    alignUp length = roundUp length := by
  have hpage : pageSize = 4096 := rfl
  unfold roundUp at h
  unfold alignUp alignDown roundUp
  rw [hpage] at h ⊢
  rw [Nat.mod_eq_of_lt (by omega)]

/-! ## Counts -/

/-- The mapping count of an object, 0 if it is gone. -/
def mappingCountOf (st : VmSt) (o : Nat) : Nat := ((st.obj o).map Backing.mappingCount).getD 0

/-- The area maps an object. -/
def maps (o : Nat) (v : VmArea) : Bool := v.backing = some o ∧ ¬ mapAnonymous v.flags

/-- The number of areas that map an object. -/
def mappingsOf (o : Nat) (vs : List VmArea) : Nat := vs.countP (maps o)

theorem mappingsOf_append (o : Nat) (vs ws : List VmArea) :
    mappingsOf o (vs ++ ws) = mappingsOf o vs + mappingsOf o ws := countP_append

theorem mappingsOf_cons (o : Nat) (v : VmArea) (vs : List VmArea) :
    mappingsOf o (v :: vs) = mappingsOf o [v] + mappingsOf o vs := mappingsOf_append o [v] vs

theorem mappingsOf_single {o : Nat} :
    mappingsOf o [v] = if v.backing = some o ∧ ¬ mapAnonymous v.flags then 1 else 0 := by
  simp [mappingsOf, maps, countP_cons]

theorem mappingCountOf_setObj (st : VmSt) (o : Nat) (b : Option Backing) (o' : Nat) :
    (st.setObj o b).mappingCountOf o' =
      if o' = o then (b.map Backing.mappingCount).getD 0 else st.mappingCountOf o' := by
  unfold mappingCountOf setObj
  dsimp only
  split_ifs with ho
  · rw [ho, update_self]
  · rw [update_of_ne ho]

theorem mappingCountOf_destroyObject {o : Nat} {b : Backing} {o' : Nat} :
    (st.destroyObject o b).mappingCountOf o' = if o' = o then 0 else st.mappingCountOf o' := by
  have hobj : ∀ fs, (st.freeObjectPages fs).obj = st.obj := by
    intro fs
    unfold freeObjectPages
    induction fs generalizing st with
    | nil => rfl
    | cons f fs ih =>
      rw [foldl_cons, ih]
      split_ifs <;> rfl
  have hset := mappingCountOf_setObj (st.freeObjectPages b.pages) o none o'
  rw [show (st.freeObjectPages b.pages).mappingCountOf o' = st.mappingCountOf o' by
    rw [mappingCountOf, hobj, mappingCountOf]] at hset
  exact hset

/-- `remove_mapping` takes one from the count; an object that goes had none left. -/
theorem mappingCountOf_removeMapping {o : Nat} (hpos : 1 ≤ st.mappingCountOf o)
    (hlt : st.mappingCountOf o < 2 ^ 32) {o' : Nat} : (st.removeMapping o).mappingCountOf o' =
      if o' = o then st.mappingCountOf o - 1 else st.mappingCountOf o' := by
  cases hb : st.obj o with
  | none => simp [mappingCountOf, hb] at hpos
  | some b =>
    have hcount : st.mappingCountOf o = b.mappingCount := by simp [mappingCountOf, hb]
    rw [hcount] at hpos hlt ⊢
    have hpred : pred32 b.mappingCount = b.mappingCount - 1 := by
      unfold pred32
      omega
    unfold removeMapping
    simp only [hb]
    cases b.kind with
    | file node =>
      by_cases hzero : b.mappingCount - 1 = 0
      · simp only [hzero, if_true, mappingCountOf_destroyObject]
      · simp only [hzero, if_false, mappingCountOf_setObj, Option.map_some, Option.getD_some]
    | shm =>
      simp only [hpred]
      by_cases hzero : b.handleCount = 0 ∧ b.mappingCount - 1 = 0 ∧ b.unlinked
      · rw [if_pos hzero, mappingCountOf_destroyObject, hzero.2.1]
      · rw [if_neg hzero, mappingCountOf_setObj]
        rfl
    | device => rw [mappingCountOf_setObj]; rfl

theorem mappingCountOf_addMapping {o : Nat} (hpos : 1 ≤ st.mappingCountOf o) {o' : Nat} :
    (st.addMapping o).mappingCountOf o' =
      if o' = o then (st.mappingCountOf o + 1) % 2 ^ 32 else st.mappingCountOf o' := by
  cases hb : st.obj o with
  | none => simp [mappingCountOf, hb] at hpos
  | some b =>
    have hcount : st.mappingCountOf o = b.mappingCount := by simp [mappingCountOf, hb]
    unfold addMapping
    simp only [hb, mappingCountOf_setObj, hcount]
    rfl

/-- The counts are 32-bit numbers and count all these areas. -/
def Counted (st : VmSt) (vs : List VmArea) : Prop :=
  ∀ o, mappingsOf o vs ≤ st.mappingCountOf o ∧ st.mappingCountOf o < 2 ^ 32

/-- The count of an object follows the areas of one list that become another. -/
def Follows (st st' : VmSt) (vs ws : List VmArea) : Prop :=
  ∀ o, (st'.mappingCountOf o + mappingsOf o vs) % 2 ^ 32 =
    (st.mappingCountOf o + mappingsOf o ws) % 2 ^ 32

/-- The counts of objects are right wherever the areas tell what is mapped. -/
theorem Mapped.counted_areas {x : VmUnit} (h : st.Mapped st.unit) (hx : st.unit u = some x)
    (hlive : ∀ v ∈ x.vmas, ∀ o, v.backing = some o → (st.obj o).isSome) : st.Counted x.vmas := by
  intro o
  have hle : mappingsOf o x.vmas ≤ countBacking o x.vmas := by
    refine countP_mono_left fun v _ hv => ?_
    exact decide_eq_true (of_decide_eq_true hv).1
  have hall : countBacking o x.vmas ≤ areasOf st.unit o :=
    countBacking_le_areasOf (h.live u x hx).1 hx
  cases hobj : st.obj o with
  | some b =>
    obtain ⟨hareas, hlt, -⟩ := h.counted o b hobj
    rw [mappingCountOf, hobj]
    exact ⟨hle.trans (hall.trans hareas), hlt⟩
  | none =>
    -- no area is for an object that is gone
    have hnone : countBacking o x.vmas = 0 := by
      refine countP_eq_zero.mpr fun v hv hback => ?_
      have hsome := hlive v hv o (of_decide_eq_true hback)
      rw [hobj] at hsome
      cases hsome
    rw [mappingCountOf, hobj]
    exact ⟨hle.trans_eq hnone, by decide⟩

theorem Counted.of_obj (h : st.Counted vs) (hobj : st'.obj = st.obj) : st'.Counted vs := by
  intro o
  rw [mappingCountOf, hobj]
  exact h o

/-- The part of an area maps what the area maps. -/
theorem mappingsOf_part {w : VmArea} (hb : w.backing = v.backing) (hf : w.flags = v.flags)
    (o : Nat) : mappingsOf o [w] = mappingsOf o [v] := by
  rw [mappingsOf_single, mappingsOf_single, hb, hf]

section

variable (h : st.Counted [v])

include h

/-- The object of an area that goes is counted without it. -/
theorem mappingCountOf_dropBacking (hanon : ¬ mapAnonymous v.flags) {o : Nat} :
    (st.dropBacking v.backing).mappingCountOf o + mappingsOf o [v] = st.mappingCountOf o := by
  rw [mappingsOf_single]
  cases hb : v.backing with
  | none => rfl
  | some o1 =>
    obtain ⟨hpos, hlt⟩ := h o1
    rw [mappingsOf_single, if_pos ⟨hb, hanon⟩] at hpos
    rw [dropBacking, mappingCountOf_removeMapping hpos hlt]
    by_cases ho : o = o1
    · subst ho
      rw [if_pos rfl, if_pos ⟨rfl, hanon⟩]
      omega
    · rw [if_neg ho, if_neg fun hc => ho (Option.some.inj hc.1).symm, Nat.add_zero]

/-- The object of an area that is cut in two is counted once more. -/
theorem mappingCountOf_shareBacking (o : Nat) : (st.shareBacking v).mappingCountOf o % 2 ^ 32 =
      (st.mappingCountOf o + mappingsOf o [v]) % 2 ^ 32 := by
  rw [mappingsOf_single, shareBacking]
  cases hb : v.backing with
  | none => rfl
  | some o1 =>
    dsimp only
    by_cases hanon : mapAnonymous v.flags
    · rw [if_pos hanon, if_neg fun hc => hc.2 hanon]
      rfl
    obtain ⟨hpos, hlt⟩ := h o1
    rw [mappingsOf_single, if_pos ⟨hb, hanon⟩] at hpos
    rw [if_neg hanon, mappingCountOf_addMapping hpos]
    by_cases ho : o = o1
    · subst ho
      rw [if_pos rfl, if_pos ⟨rfl, hanon⟩, Nat.mod_mod]
    · rw [if_neg ho, if_neg fun hc => ho (Option.some.inj hc.1).symm]
      rfl

/-- An area that is not cut in two: its object is counted as before, or once less with the area. -/
theorem munmapArea_whole (r base stop o : Nat) :
    (st.munmapArea r base stop v false).1.mappingCountOf o + mappingsOf o [v] =
        st.mappingCountOf o + mappingsOf o
          ((st.munmapArea r base stop v false).2.2 ++ (st.munmapArea r base stop v false).2.1) ∧
      mappingsOf o ((st.munmapArea r base stop v false).2.2 ++
        (st.munmapArea r base stop v false).2.1) ≤ mappingsOf o [v] := by
  unfold munmapArea
  dsimp only
  generalize hst1 : st.unmapRange r _ _ _ = st1
  have hobj : st1.obj = st.obj := by rw [← hst1, unmapRange_obj]
  have hcount : st1.mappingCountOf o = st.mappingCountOf o := by
    rw [mappingCountOf, hobj, mappingCountOf]
  rw [if_neg Bool.false_ne_true]
  split_ifs with hmiss hall hanon hstart
  · exact ⟨rfl, Nat.le_refl _⟩
  · have hnone : mappingsOf o [v] = 0 := by
      rw [mappingsOf_single, if_neg fun hc => hc.2 hanon]
    exact ⟨by rw [hnone, hcount]; rfl, Nat.zero_le _⟩
  · exact ⟨by rw [mappingCountOf_dropBacking (h.of_obj hobj) hanon, hcount]; rfl, Nat.zero_le _⟩
  · have hpart := mappingsOf_part (v := v) (w := v.part stop v.end) rfl rfl o
    exact ⟨by rw [hcount, nil_append, hpart], Nat.le_of_eq hpart⟩
  · have hpart := mappingsOf_part (v := v) (w := { v with length := base - v.start }) rfl rfl o
    exact ⟨by rw [hcount, nil_append, hpart], Nat.le_of_eq hpart⟩

/-- An area that is cut in two. -/
theorem munmapArea_split (r : Nat) (hle : base ≤ stop)
    (hboth : v.start < base ∧ stop < v.end) : Follows st (st.munmapArea r base stop v true).1 [v]
      ((st.munmapArea r base stop v true).2.2 ++ (st.munmapArea r base stop v true).2.1) := by
  intro o
  unfold munmapArea
  rw [if_neg (by omega), if_neg (by omega), if_pos rfl]
  generalize hst1 : st.unmapRange r _ _ _ = st1
  have hobj : st1.obj = st.obj := by rw [← hst1, unmapRange_obj]
  have hshare := mappingCountOf_shareBacking (h.of_obj hobj) o
  have hcount : st1.mappingCountOf o = st.mappingCountOf o := by
    rw [mappingCountOf, hobj, mappingCountOf]
  have htail := mappingsOf_part (v := v) (w := v.part stop v.end) rfl rfl o
  have hfront := mappingsOf_part (v := v) (w := { v with length := base - v.start }) rfl rfl o
  rw [mappingsOf_append]
  dsimp only
  omega

end

/-- Areas that the range does not meet stay as they are. -/
theorem munmapLoop_miss (st : VmSt) (r : Nat) (xs : List (VmArea × Bool))
    (h : ∀ x ∈ xs, x.1.start ≥ stop ∨ x.1.end ≤ base) :
    munmapLoop r base stop xs st = (st, xs.map Prod.fst, []) := by
  induction xs with
  | nil => rfl
  | cons x xs ih =>
    have harea : st.munmapArea r base stop x.1 x.2 = (st, [x.1], []) := by
      unfold munmapArea
      rw [if_pos (h x mem_cons_self)]
    rw [munmapLoop, harea]
    rw [ih fun y hy => h y (mem_cons_of_mem x hy)]
    rfl

/-- The counts follow the areas through the loop. The area that is cut in two is the only one that
the range meets, so that no count is taken down after it went up. -/
theorem munmapLoop_follows (st : VmSt) (hle : base < stop) (r : Nat) (xs : List (VmArea × Bool))
    (h : AreasApart (xs.map Prod.fst)) (hcount : st.Counted (xs.map Prod.fst))
    (hsplit : ∀ x ∈ xs, x.2 ↔ x.1.start < base ∧ stop < x.1.end) :
    Follows st (munmapLoop r base stop xs st).1 (xs.map Prod.fst)
      ((munmapLoop r base stop xs st).2.2 ++ (munmapLoop r base stop xs st).2.1) := by
  induction xs generalizing st with
  | nil => exact fun o => rfl
  | cons x xs ih =>
    obtain ⟨v, split⟩ := x
    rw [map_cons] at h hcount ⊢
    dsimp only at h hcount ⊢
    obtain ⟨hv, hxs, hapart⟩ := Span.ok_cons.mp h
    have hone : st.Counted [v] := by
      intro o
      have hc := hcount o
      rw [mappingsOf_cons] at hc
      exact ⟨by omega, hc.2⟩
    rw [munmapLoop]
    cases split with
    | true =>
      have hboth := (hsplit (v, true) mem_cons_self).mp rfl
      have hmiss : ∀ y ∈ xs, y.1.start ≥ stop ∨ y.1.end ≤ base := by
        intro y hy
        have hy' := mem_map_of_mem (f := Prod.fst) hy
        have hytop := (hxs.proper y.1 hy').2
        have hvend : v.end = v.top := end_eq_top (by omega)
        have hyend : y.1.end = y.1.top := end_eq_top (by omega)
        dsimp only at hboth
        rcases hapart y.1 hy' with hlt | hlt
        · exact .inl (by omega)
        · exact .inr (by omega)
      -- the areas after it are left alone
      have hcut := munmapArea_split hone r (Nat.le_of_lt hle) hboth
      intro o
      have hcut := hcut o
      rw [munmapLoop_miss _ r xs hmiss]
      rw [mappingsOf_cons o v]
      simp only [nil_append, mappingsOf_append] at hcut ⊢
      omega
    | false =>
      have hcut := munmapArea_whole hone r base stop
      generalize st.munmapArea r base stop v false = z at hcut ⊢
      have hrest := ih z.1 hxs (fun o => by
        have hc := hcount o
        have := hcut o
        rw [mappingsOf_cons] at hc
        omega) fun y hy => hsplit y (mem_cons_of_mem _ hy)
      intro o
      have hrest := hrest o
      have hcut := hcut o
      rw [mappingsOf_cons o v]
      simp only [mappingsOf_append] at hrest hcut ⊢
      omega

/-! ## munmap -/

theorem unmapped_bind {a : Nat} {i : Option PageInfo} :
    i.bind (unmapped base stop a) = if base ≤ a ∧ a < stop then none else i := by
  unfold unmapped
  cases i <;> split_ifs <;> rfl

/-- A `munmap` that returns 0 takes exactly the pages of its range out of the map; the areas are
still in order, and the counts of the objects follow them. Without memory it changes nothing. -/
theorem munmap_exact {x : VmUnit} (hx : st.unit u = some x) (hareas : AreasApart x.vmas)
    (hcount : st.Counted x.vmas) (hfits : alignDown addr + roundUp length < 2 ^ 64)
    (vmaOk : Bool) :
    ((st.munmap u addr length vmaOk).2 = some 0 →
      ∃ x', (st.munmap u addr length vmaOk).1.unit u = some x' ∧ AreasApart x'.vmas ∧
        (∀ a, areaMap x'.vmas a =
          if alignDown addr ≤ a ∧ a < alignDown addr + roundUp length then none
          else areaMap x.vmas a) ∧
        Follows st (st.munmap u addr length vmaOk).1 x.vmas x'.vmas) ∧
    ((st.munmap u addr length vmaOk).2 = some Error.noMem.toErrno →
      (st.munmap u addr length vmaOk).1 = st) := by
  have hround := alignUp_eq_roundUp hfits
  unfold VmSt.munmap
  simp only [hx, hround, Nat.mod_eq_of_lt hfits]
  split_ifs with huser hlen hroom
  · exact ⟨fun h => (nomatch h), fun _ => rfl⟩
  · exact ⟨fun h => (nomatch h), fun _ => rfl⟩
  · refine ⟨fun _ => ?_, fun h => nomatch h⟩
    have hlt : alignDown addr < alignDown addr + roundUp length := by
      have hpage : pageSize = 4096 := rfl
      unfold roundUp
      rw [hpage]
      omega
    obtain ⟨hmap, hsplit⟩ := markSplit_spec hareas (by decide) (Nat.le_of_lt hlt)
    rw [← hmap] at hareas hcount
    have hcuts := munmapLoop_cuts st (Nat.le_of_lt hlt) x.realm hareas (by decide) hsplit
    have hfollows := munmapLoop_follows st hlt x.realm _ hareas hcount hsplit
    refine ⟨_, update_self _ _ _, hcuts.ok, fun a => ?_, ?_⟩
    · rw [hcuts.areaMap hareas, unmapped_bind, hmap]
    · rw [hmap] at hfollows
      exact hfollows
  · exact ⟨fun h => (nomatch h), fun _ => rfl⟩

/-- A unit with three pages of a shared object. -/
def sharedUnit : VmUnit where
  realm := 0
  isUser := true
  heapStart := 0
  heapEnd := 0
  vmas := [⟨mmapBase, 3 * pageSize, 3, 1, 0, 5, some 0⟩]
  stack := ⟨0, 0⟩
  userStack := none
  tls := none

/-- Its page table: the three pages, and the tables on the way to them. -/
def sharedTable : PageTable where
  pml4 := 0x1000
  table level key :=
    if 1 ≤ level ∧ level ≤ 3 ∧ key = pageOf mmapBase / 512 ^ level then some (0x1000 + level * pageSize)
    else none
  leaf p :=
    let i := p - pageOf mmapBase
    if pageOf mmapBase ≤ p ∧ i < 3 then some ⟨0x5000 + i * pageSize, true, true, .object 0 true 0 i⟩
    else none

/-- A machine with that unit. -/
def sharedMachine : VmSt :=
  { smallMachine with
    space := fun r => if r = 0 then some sharedTable else none
    unit := fun u => if u = 0 then some sharedUnit else none
    obj := fun o =>
      if o = 0 then some ⟨.shm, 3 * pageSize, [0x5000, 0x6000, 0x7000], 1, 1, false⟩ else none }

theorem sharedUnit_apart : AreasApart sharedUnit.vmas :=
  Span.ok_cons.mpr ⟨by decide, Span.ok_nil, fun _ hb => nomatch hb⟩

theorem sharedMachine_counted : sharedMachine.Counted sharedUnit.vmas := by
  intro o
  by_cases ho : o = 0
  · subst ho
    decide
  · simp [sharedUnit, sharedMachine, mappingCountOf, mappingsOf_single, ho, Ne.symm ho]

/-- Taking out the middle page leaves the two around it. -/
theorem munmap_exact_middle :
    ∃ x', (sharedMachine.munmap 0 (mmapBase + pageSize) 1 true).1.unit 0 = some x' ∧
      AreasApart x'.vmas ∧ areaMap x'.vmas (mmapBase + pageSize) = none ∧
      areaMap x'.vmas (mmapBase + 2 * pageSize) = some ⟨3, 1, 5, some 0, 2 * pageSize⟩ ∧
      Follows sharedMachine (sharedMachine.munmap 0 (mmapBase + pageSize) 1 true).1
        sharedUnit.vmas x'.vmas := by
  obtain ⟨x', hx', hapart, hmap, hfollows⟩ := (munmap_exact
    (show sharedMachine.unit 0 = some sharedUnit from rfl) sharedUnit_apart sharedMachine_counted
    (show alignDown (mmapBase + pageSize) + roundUp 1 < 2 ^ 64 by decide) true).1 rfl
  refine ⟨x', hx', hapart, ?_, ?_, hfollows⟩
  · rw [hmap]
    rfl
  · rw [hmap]
    rfl

/-! ## The first pass of mprotect -/

/-- The address is in one of the areas. -/
def InSome (vs : List VmArea) (a : Nat) : Prop := ∃ v ∈ vs, v.start ≤ a ∧ a < v.top

/-- The pass finds out whether all of the range is in areas: each round goes past one of the areas
that end behind `c`. -/
theorem covers_iff (h : AreasApart vs) (stop : Nat) {fuel c : Nat}
    (hfuel : (vs.filter fun v => c < v.top).length < fuel) :
    covers vs stop fuel c ↔ ∀ a, c ≤ a → a < stop → InSome vs a := by
  have hend : ∀ v ∈ vs, v.end = v.top := by
    intro v hv
    have hle := (h.proper v hv).2
    exact end_eq_top (by omega)
  induction fuel generalizing c with
  | zero => exact absurd hfuel (Nat.not_lt_zero _)
  | succ fuel ih =>
    rw [covers]
    split_ifs with hc
    · split
      · rename_i hnone
        refine ⟨fun hf => (nomatch hf), fun hall => ?_⟩
        obtain ⟨v, hv, hle, hlt⟩ := hall c (Nat.le_refl c) hc
        have hnot := find?_eq_none.mp hnone v hv
        simp only [hend v hv, decide_eq_true_eq] at hnot
        exact absurd ⟨hle, hlt⟩ hnot
      rename_i v hsome
      have hv := mem_of_find?_eq_some hsome
      have hin : v.start ≤ c ∧ c < v.top := by
        have hhit := find?_some hsome
        simpa [hend v hv] using hhit
      -- the area itself ends behind `c`, and not behind its own end
      have hsub : (vs.filter fun w => v.top < w.top) =
          (vs.filter fun w => c < w.top).filter fun w => v.top < w.top := by
        rw [filter_filter]
        refine filter_congr fun w _ => ?_
        by_cases hw : v.top < w.top
        · simp [hw, Nat.lt_trans hin.2 hw]
        · simp [hw]
      have hless : ((vs.filter fun w => c < w.top).filter fun w => v.top < w.top).length <
          (vs.filter fun w => c < w.top).length :=
        length_filter_lt_length_iff_exists.mpr
          ⟨v, mem_filter.mpr ⟨hv, by simpa using hin.2⟩, by simp⟩
      rw [← hsub] at hless
      have hrec := ih (c := v.top) (by omega)
      rw [hend v hv]
      refine hrec.trans ?_
      constructor
      · intro hall a hca has
        rcases Nat.lt_or_ge a v.top with hlt | hge
        · exact ⟨v, hv, by omega, hlt⟩
        · exact hall a hge has
      · intro hall a hca has
        exact hall a (by omega) has
    · exact ⟨fun _ a hca has => absurd has (by omega), fun _ => rfl⟩

/-! ## The pages of mprotect -/

/-- The entry that a walk for an address finds. -/
def entryAt (st : VmSt) (r va : Nat) : Option Pte := (st.space r).bind fun pt => pt.entry va

/-- What `mprotect` makes of an entry with a frame. -/
def reprotect (prot : Nat) (e : Pte) : Pte :=
  if e.frame = 0 then e else { e with present := prot ≠ 0, writable := protWrite prot }

/-- The pages in `S` are reprotected, the others stay as they are. -/
structure Reprotects (st st' : VmSt) (r prot : Nat) (S : Nat → Prop) : Prop where
  inside : ∀ va, S (pageOf va) → st'.entryAt r va = (st.entryAt r va).map (reprotect prot)
  outside : ∀ va, ¬ S (pageOf va) → st'.entryAt r va = st.entryAt r va

/-- The frames of the entries are page addresses, as the bits of an entry make them. -/
def FramesAligned (st : VmSt) (r : Nat) : Prop :=
  ∀ va e, st.entryAt r va = some e → frameOf e.frame = e.frame

variable {r prot : Nat} {S T : Nat → Prop}

theorem reprotect_frame {e : Pte} : (reprotect prot e).frame = e.frame := by
  unfold reprotect
  split_ifs <;> rfl

theorem reprotect_idem (e : Pte) : reprotect prot (reprotect prot e) = reprotect prot e := by
  unfold reprotect
  by_cases hf : e.frame = 0
  · simp [hf]
  · simp [hf]

theorem Reprotects.refl (hS : ∀ p, ¬ S p) : Reprotects st st r prot S :=
  ⟨fun _ h => absurd h (hS _), fun _ _ => rfl⟩

section

variable (h : Reprotects st st' r prot S)

include h

theorem Reprotects.of_space {st'' : VmSt}
    (hspace : st''.space = st'.space) : Reprotects st st'' r prot S := by
  have hsame : ∀ va, st''.entryAt r va = st'.entryAt r va := fun va => by
    rw [entryAt, hspace, entryAt]
  exact ⟨fun va hva => (hsame va).trans (h.inside va hva),
    fun va hva => (hsame va).trans (h.outside va hva)⟩

theorem Reprotects.aligned (hst : st.FramesAligned r) : st'.FramesAligned r := by
  intro va e he
  by_cases hva : S (pageOf va)
  · rw [h.inside va hva] at he
    obtain ⟨e0, he0, rfl⟩ := Option.map_eq_some_iff.mp he
    rw [reprotect_frame]
    exact hst va e0 he0
  · rw [h.outside va hva] at he
    exact hst va e he

theorem Reprotects.trans {st'' : VmSt}
    (h' : Reprotects st' st'' r prot T) : Reprotects st st'' r prot fun p => S p ∨ T p := by
  constructor
  · intro va hva
    by_cases hS : S (pageOf va)
    · by_cases hT : T (pageOf va)
      · rw [h'.inside va hT, h.inside va hS, Option.map_map]
        exact congrArg (Option.map · _) (funext reprotect_idem)
      · rw [h'.outside va hT, h.inside va hS]
    · rw [h'.inside va (hva.resolve_left hS), h.outside va hS]
  · intro va hva
    rw [h'.outside va fun hT => hva (.inr hT), h.outside va fun hS => hva (.inl hS)]

end

/-- Mapping a page whose tables are there changes its entry only. -/
theorem entryAt_mapPage {a pa : Nat} {writable present : Bool} {origin : Origin} {e : Pte}
    (he : st.entryAt r a = some e) {va : Nat} :
    (st.mapPage r a pa writable present origin).entryAt r va =
      if pageOf va = pageOf a then some ⟨frameOf pa, present, writable, origin⟩
      else st.entryAt r va := by
  obtain ⟨pt, hpt, he⟩ := Option.bind_eq_some_iff.mp he
  obtain ⟨t, -, hmap⟩ := mapMemory_of_entry he st.phys pa writable present origin
  simp only [mapPage, hpt, hmap, entryAt, update_self, Option.bind_some, setLeaf, entry] at he ⊢
  split_ifs at he with htables
  by_cases hva : pageOf va = pageOf a
  · simp only [hva, htables, and_self, if_true, update_self]
  · simp only [if_neg hva, update_of_ne hva]

section

variable (hst : st.FramesAligned r)

include hst

/-- One page. -/
theorem protectPage_reprotects (prot a : Nat) :
    Reprotects st (if st.physicalAddressIgnorePresent r a = 0 then st
      else st.mapPage r a (st.physicalAddressIgnorePresent r a) (protWrite prot) (prot ≠ 0)
        (st.originOf r a)) r prot fun p => p = pageOf a := by
  have hentry : ∀ va, pageOf va = pageOf a → st.entryAt r va = st.entryAt r a := by
    intro va hva
    unfold entryAt entry
    rw [hva]
  have hphys : st.physicalAddressIgnorePresent r a =
      ((st.entryAt r a).map fun e => if e.frame = 0 then 0 else e.frame + a % pageSize).getD 0 := by
    unfold physicalAddressIgnorePresent entryAt getPhysicalAddressIgnorePresent
    cases st.space r with
    | none => rfl
    | some pt => cases hpt : pt.entry a <;> simp [hpt]
  have horigin : st.originOf r a = ((st.entryAt r a).map Pte.origin).getD .anon := rfl
  cases he : st.entryAt r a with
  | none =>
    rw [if_pos (by rw [hphys, he]; rfl)]
    refine ⟨fun va hva => ?_, fun _ _ => rfl⟩
    rw [hentry va hva, he]
    rfl
  | some e =>
    rw [he] at hphys horigin
    simp only [Option.map_some, Option.getD_some] at hphys horigin
    by_cases hframe : e.frame = 0
    · rw [if_pos hframe] at hphys
      rw [if_pos hphys]
      refine ⟨fun va hva => ?_, fun _ _ => rfl⟩
      rw [hentry va hva, he, Option.map_some, reprotect, if_pos hframe]
    rw [if_neg hframe] at hphys
    have hpage : frameOf (st.physicalAddressIgnorePresent r a) = e.frame := by
      rw [hphys]
      exact frameOf_eq (hst a e he) (Nat.le_add_right _ _)
        (Nat.add_lt_add_left (Nat.mod_lt _ (by decide)) _)
    rw [if_neg (by omega)]
    refine ⟨fun va hva => ?_, fun va hva => ?_⟩
    · rw [entryAt_mapPage he, if_pos hva, hentry va hva, he, Option.map_some, reprotect,
        if_neg hframe, hpage, horigin]
    · rw [entryAt_mapPage he, if_neg hva]

omit hst in
/-- The page numbers of the pages that start in `[a, b)`. -/
def PagesOf (a b p : Nat) : Prop := ∃ c, pageSize ∣ c ∧ a ≤ c ∧ c < b ∧ pageOf c = p

/-- The pages of a stretch. -/
theorem protectPages_reprotects (prot : Nat) {a n : Nat} (ha : pageSize ∣ a) :
    Reprotects st (protectPages r prot n a st) r prot (PagesOf a (a + n * pageSize)) := by
  induction n generalizing st a with
  | zero => exact .refl fun p ⟨c, _, hle, hlt, _⟩ => by omega
  | succ n ih =>
    rw [protectPages]
    have hone := protectPage_reprotects hst prot a
    have hrest := ih (hone.aligned hst) (Nat.dvd_add ha (dvd_refl pageSize))
    have hboth := hone.trans hrest
    have hpages : ∀ p, (p = pageOf a ∨ PagesOf (a + pageSize) (a + pageSize + n * pageSize) p) ↔
        PagesOf a (a + (n + 1) * pageSize) p := by
      have hpos : 0 < pageSize := by decide
      intro p
      rw [Nat.add_mul, Nat.one_mul]
      constructor
      · rintro (rfl | ⟨c, hc, hle, hlt, hp⟩)
        · exact ⟨a, ha, Nat.le_refl _, by omega, rfl⟩
        · exact ⟨c, hc, by omega, by omega, hp⟩
      rintro ⟨c, hc, hle, hlt, hp⟩
      rcases Nat.eq_or_lt_of_le hle with rfl | hlt'
      · exact .inl hp.symm
      -- two page addresses are a page apart
      obtain ⟨i, rfl⟩ := ha
      obtain ⟨j, rfl⟩ := hc
      have hij : i < j := Nat.lt_of_mul_lt_mul_left hlt'
      have hstep : pageSize * (i + 1) ≤ pageSize * j := Nat.mul_le_mul_left _ hij
      exact .inr ⟨_, ⟨j, rfl⟩, hstep, by omega, hp⟩
    exact ⟨fun va hva => hboth.inside va ((hpages _).mpr hva),
      fun va hva => hboth.outside va fun h => hva ((hpages _).mp h)⟩

/-- The pages of an area that are in the range. -/
theorem protectArea_reprotects (prot : Nat) (hstart : pageSize ∣ v.start)
    (htop : pageSize ∣ v.top) (hv : v.start < v.top) (h64 : v.top < 2 ^ 64) (hlt : base < stop)
    (hbase : pageSize ∣ base) (hstop : pageSize ∣ stop) (room : Nat) :
    Reprotects st (st.protectArea r base stop prot v room).st r prot
      (PagesOf (max v.start base) (min v.top stop)) := by
  unfold protectArea
  dsimp only
  rw [end_eq_top h64]
  split_ifs with hmiss htail hroom
  · exact .refl fun p ⟨c, _, hle, hlt, _⟩ => by omega
  all_goals
    have ha : pageSize ∣ max v.start base := by rcases Nat.le_total v.start base with h | h <;> simpa [h]
    have hb : pageSize ∣ min v.top stop := by rcases Nat.le_total v.top stop with h | h <;> simpa [h]
    have hpages := protectPages_reprotects hst prot
      (n := pageSteps (max v.start base) (min v.top stop)) ha
    rw [show max v.start base + pageSteps (max v.start base) (min v.top stop) * pageSize =
      min v.top stop by
        obtain ⟨i, hi⟩ := ha
        obtain ⟨j, hj⟩ := hb
        have hpage : pageSize = 4096 := rfl
        unfold pageSteps
        rw [hpage] at hi hj ⊢
        omega] at hpages
  · exact hpages
  · exact hpages.of_space (SameTables.allows.shareBacking.trans SameTables.allows.protectHead).space
  · exact hpages.of_space SameTables.allows.protectHead.space

/-- The pages of all areas that are in the range. -/
theorem protectLoop_reprotects (prot : Nat) (hok : AreasApart vs)
    (hpages : ∀ v ∈ vs, pageSize ∣ v.start ∧ pageSize ∣ v.top) (hlt : base < stop)
    (hbase : pageSize ∣ base) (hstop : pageSize ∣ stop) {room : Nat}
    (hroom : 2 * vs.length ≤ room) :
    Reprotects st (protectLoop r base stop prot vs room st).1 r prot
      fun p => ∃ v ∈ vs, PagesOf (max v.start base) (min v.top stop) p := by
  induction vs generalizing st room with
  | nil => exact .refl fun p ⟨v, hv, _⟩ => nomatch hv
  | cons v vs ih =>
    rw [length_cons] at hroom
    obtain ⟨hv, hvs, -⟩ := Span.ok_cons.mp hok
    obtain ⟨hstart, htop⟩ := hpages v mem_cons_self
    obtain ⟨-, hall, hleft⟩ := protectArea_piece st hv.1 (by omega) hlt r prot
      (show 2 ≤ room by omega)
    have hone := protectArea_reprotects hst prot hstart htop hv.1 (by omega) hlt hbase hstop room
    have hrest := ih (hone.aligned hst) hvs (fun w hw => hpages w (mem_cons_of_mem v hw))
      (show 2 * vs.length ≤ (st.protectArea r base stop prot v room).room by omega)
    have hboth := hone.trans hrest
    simp only [mem_cons, or_and_right, exists_or, exists_eq_left]
    rw [protectLoop]
    rw [if_pos hall]
    exact hboth

end

/-! ## mprotect -/

theorem reprotected_bind {a : Nat} {i : Option PageInfo} : i.bind (reprotected base stop prot a) =
      if base ≤ a ∧ a < stop then i.map fun i => { i with prot := prot } else i := by
  unfold reprotected
  cases i <;> split_ifs <;> rfl

/-- With room for the areas it makes, `mprotect` of a range with a hole fails and changes nothing.
Otherwise it returns 0 and gives exactly the pages of the range the protection: in the areas,
which are as before otherwise, and in the page table, where each page keeps its frame and no entry
of another page changes. -/
theorem mprotect_exact {x : VmUnit} (hx : st.unit u = some x) (huser : x.isUser = true)
    (hareas : AreasApart x.vmas) (hpages : ∀ v ∈ x.vmas, pageSize ∣ v.start ∧ pageSize ∣ v.top)
    (hframes : st.FramesAligned x.realm) (hlen : length ≠ 0)
    (hfits : alignDown addr + roundUp length < 2 ^ 64) {room : Nat}
    (hroom : 2 * x.vmas.length ≤ room) :
    ((∃ a, alignDown addr ≤ a ∧ a < alignDown addr + roundUp length ∧ areaMap x.vmas a = none) →
      st.mprotect u addr length prot room = (st, some Error.noMem.toErrno)) ∧
    ((∀ a, alignDown addr ≤ a → a < alignDown addr + roundUp length → areaMap x.vmas a ≠ none) →
      (st.mprotect u addr length prot room).2 = some 0 ∧
      (∃ x', (st.mprotect u addr length prot room).1.unit u = some x' ∧ AreasApart x'.vmas ∧
        ∀ a, areaMap x'.vmas a =
          if alignDown addr ≤ a ∧ a < alignDown addr + roundUp length then
            (areaMap x.vmas a).map fun i => { i with prot := prot }
          else areaMap x.vmas a) ∧
      Reprotects st (st.mprotect u addr length prot room).1 x.realm prot
        (PagesOf (alignDown addr) (alignDown addr + roundUp length))) := by
  have hround := alignUp_eq_roundUp hfits
  have hlt : alignDown addr < alignDown addr + roundUp length := by
    have hpage : pageSize = 4096 := rfl
    unfold roundUp
    rw [hpage]
    omega
  have hsome : ∀ a, InSome x.vmas a ↔ areaMap x.vmas a ≠ none := by
    intro a
    rw [Option.ne_none_iff_exists']
    simp only [areaMap_eq_some hareas, InSome, VmArea.Says]
    constructor
    · rintro ⟨v, hv, hle, hlt⟩
      exact ⟨_, v, hv, hle, hlt, rfl⟩
    · rintro ⟨i, v, hv, hle, hlt, -⟩
      exact ⟨v, hv, hle, hlt⟩
  have hcovers := covers_iff hareas (alignDown addr + roundUp length)
    (Nat.lt_succ_of_le (length_filter_le (fun v => decide (alignDown addr < v.top)) x.vmas))
  simp only [hsome] at hcovers
  unfold VmSt.mprotect
  simp only [hx, hround, Nat.mod_eq_of_lt hfits]
  rw [if_neg (not_not.mpr huser), if_neg hlen]
  constructor
  · rintro ⟨a, hle, ha, hnone⟩
    rw [if_pos fun hc => hcovers.mp hc a hle ha hnone]
  intro hall
  rw [if_neg (not_not.mpr (hcovers.mpr hall))]
  obtain ⟨hcuts, hok⟩ := protectLoop_cuts st hlt x.realm prot hareas (by decide) hroom
  have hentries := protectLoop_reprotects hframes prot hareas hpages hlt
    alignDown_dvd (Nat.dvd_add alignDown_dvd (Nat.dvd_mul_left _ _)) hroom
  rw [if_pos hok]
  refine ⟨rfl, ⟨_, update_self _ _ _, hcuts.ok, fun a => ?_⟩, ?_⟩
  · rw [hcuts.areaMap hareas, reprotected_bind]
  -- every page of the range is a page of an area
  have hsame : ∀ p, (∃ v ∈ x.vmas, PagesOf (max v.start (alignDown addr))
      (min v.top (alignDown addr + roundUp length)) p) ↔
      PagesOf (alignDown addr) (alignDown addr + roundUp length) p := by
    intro p
    constructor
    · rintro ⟨v, -, c, hc, hle, hlt, hp⟩
      exact ⟨c, hc, by omega, by omega, hp⟩
    · rintro ⟨c, hc, hle, hlt, hp⟩
      obtain ⟨v, hv, hvle, hvlt⟩ := (hsome c).mpr (hall c hle hlt)
      exact ⟨v, hv, c, hc, by omega, by omega, hp⟩
  refine Reprotects.of_space ?_ rfl
  exact ⟨fun va hva => hentries.inside va ((hsame _).mpr hva),
    fun va hva => hentries.outside va fun h => hva ((hsame _).mp h)⟩

theorem sharedMachine_framesAligned : sharedMachine.FramesAligned 0 := by
  intro va e he
  have hleaf : sharedTable.leaf (pageOf va) = some e := leaf_of_entry he
  dsimp only [sharedTable] at hleaf
  split_ifs at hleaf
  obtain rfl := Option.some.inj hleaf
  exact frameOf_add_mul rfl

/-- The middle page becomes read-only, in the areas and in the page table. -/
theorem mprotect_exact_middle :
    let st' := (sharedMachine.mprotect 0 (mmapBase + pageSize) 1 1 2).1
    (sharedMachine.mprotect 0 (mmapBase + pageSize) 1 1 2).2 = some 0 ∧
      (∃ x', st'.unit 0 = some x' ∧
        areaMap x'.vmas (mmapBase + pageSize) = some ⟨1, 1, 5, some 0, pageSize⟩ ∧
        areaMap x'.vmas mmapBase = areaMap sharedUnit.vmas mmapBase) ∧
      st'.entryAt 0 (mmapBase + pageSize) = some ⟨0x6000, true, false, .object 0 true 0 1⟩ ∧
      st'.entryAt 0 mmapBase = some ⟨0x5000, true, true, .object 0 true 0 0⟩ := by
  have hin : ∀ a, mmapBase + pageSize ≤ a → a < mmapBase + pageSize + pageSize →
      areaMap sharedUnit.vmas a ≠ none := by
    intro a hle hlt
    have hle' : mmapBase ≤ a := Nat.le_trans (Nat.le_add_right _ _) hle
    have hlt' : a < mmapBase + 3 * pageSize := Nat.lt_of_lt_of_le hlt (by decide)
    have hinfo := (areaMap_eq_some sharedUnit_apart).mpr
      ⟨⟨mmapBase, 3 * pageSize, 3, 1, 0, 5, some 0⟩, mem_cons_self, hle', hlt', rfl⟩
    rw [hinfo]
    exact Option.some_ne_none _
  obtain ⟨hret, ⟨x', hx', -, hmap⟩, hentries⟩ := (mprotect_exact
    (show sharedMachine.unit 0 = some sharedUnit from rfl) rfl sharedUnit_apart
    (by decide) sharedMachine_framesAligned (by decide)
    (show alignDown (mmapBase + pageSize) + roundUp 1 < 2 ^ 64 by decide)
    (show 2 * sharedUnit.vmas.length ≤ 2 by decide)).2 hin
  refine ⟨hret, ⟨x', hx', ?_, ?_⟩, ?_, ?_⟩
  · rw [hmap]
    rfl
  · rw [hmap]
    rfl
  · refine (hentries.inside _ ⟨mmapBase + pageSize, ?_, Nat.le_refl _, ?_, rfl⟩).trans ?_
    all_goals decide +kernel
  · refine (hentries.outside _ ?_).trans (by decide +kernel)
    rintro ⟨c, -, hle, hlt, hpage⟩
    have hle : 0x600000001000 ≤ c := hle
    have hlt : c < 0x600000002000 := hlt
    have hpage : c / 4096 % 2 ^ 36 = 0x600000000 := hpage
    omega

end VmSt

end Vespera.Memory
