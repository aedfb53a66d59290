import Vespera.Lib.Sums
import Vespera.Memory.Areas
import Vespera.Memory.FrameOwners

/-! # Areas and what they map

The areas of the units say which pages are anonymous memory and which are pages of objects, and the
count of an object says how many areas there are for it. `munmap` and a shrinking `brk` give back
frames on the word of the areas, and an object goes when its count says that nobody maps it, so the
frames are safe only as long as the areas tell the truth. `Mapped` says that they do:

* pages in anonymous areas and in the heap own their frames;
* a page that shows a page of an object lies in an area for that object;
* no object has more areas than its count says.
-/

namespace Vespera.Memory

open Function Lib Realms VmSt

/-! ## The invariant -/

/-- The area has a byte of the page. -/
def VmArea.Touches (v : VmArea) (p : Nat) : Prop :=
  v.start < (p + 1) * pageSize ∧ p * pageSize < v.top

/-- The page belongs to the heap of a unit. -/
def VmUnit.HeapPage (x : VmUnit) (p : Nat) : Prop :=
  alignUp x.heapStart ≤ p * pageSize ∧ p * pageSize < alignUp x.heapEnd

/-- The heap is empty, or ends where `brk` lets it end. -/
def VmUnit.HeapBounded (x : VmUnit) : Prop := x.heapEnd = x.heapStart ∨ x.heapEnd ≤ userHeapMax

/-- The page belongs to anonymous memory or to the heap of a unit. -/
def VmUnit.OwnMemory (x : VmUnit) (p : Nat) : Prop :=
  (∃ v ∈ x.vmas, mapAnonymous v.flags = true ∧ v.Touches p) ∨ x.HeapPage p

/-- The page belongs to an area of the unit for an object. -/
def VmUnit.Covers (x : VmUnit) (o p : Nat) : Prop := ∃ v ∈ x.vmas, v.backing = some o ∧ v.Touches p

/-- The number of areas of a list for an object. -/
def countBacking (o : Nat) (vs : List VmArea) : Nat := vs.countP fun v => v.backing = some o

namespace VmSt

/-- Who lends the frame of a page that is mapped. -/
def lenderAt (st : VmSt) (r p : Nat) : Option (Option Site) :=
  (st.leafAt r p).map fun e => e.origin.lender

/-- The number of areas for an object. -/
def areasOf (unit : Nat → Option VmUnit) (o : Nat) : Nat :=
  ∑ u ∈ Finset.range maxUnits, ((unit u).elim 0 fun x => countBacking o x.vmas)

/-- Anonymous areas have no object; areas for objects start at a page. -/
structure AreaOk (nextObj : Nat) (v : VmArea) : Prop where
  anonymous : mapAnonymous v.flags = true → v.backing = none
  backing : ∀ o, v.backing = some o → o < nextObj ∧ pageSize ∣ v.start

/-- The areas of these units say what is mapped. A call that changes the areas of a unit stores
them at its end, so the units are not always those of the state. -/
structure Mapped (st : VmSt) (unit : Nat → Option VmUnit) : Prop where
  live : ∀ u x, unit u = some x → u < maxUnits ∧ (st.space x.realm).isSome
  memory : ∀ u x, unit u = some x → ∀ p l, x.OwnMemory p → st.lenderAt x.realm p = some l → l = none
  covered : ∀ r p o i, st.lenderAt r p = some (some (.object o i)) →
    ∃ u x, unit u = some x ∧ x.realm = r ∧ x.Covers o p
  counted : ∀ o b, st.obj o = some b →
    areasOf unit o ≤ b.mappingCount ∧ b.mappingCount < 2 ^ 32 ∧ o < st.nextObj
  area : ∀ u x, unit u = some x → ∀ v ∈ x.vmas, AreaOk st.nextObj v
  heap : ∀ u x, unit u = some x → x.HeapBounded

variable {st st' : VmSt} {unit : Nat → Option VmUnit} {u : Nat} {x x' : VmUnit}
  {r o va offset : Nat}

theorem lenderAt_eq_some {p : Nat} {l : Option Site} :
    st.lenderAt r p = some l ↔ ∃ e, st.leafAt r p = some e ∧ e.origin.lender = l := by
  simp [lenderAt, Option.map_eq_some_iff]

/-! ## Counting areas -/

/-- One unit's areas among all. -/
theorem areasOf_update (hu : u < maxUnits) (hx : unit u = some x) (x' : VmUnit) (o : Nat) :
    areasOf (update unit u (some x')) o + countBacking o x.vmas =
      areasOf unit o + countBacking o x'.vmas := by
  have hsum := sum_change (f := fun w => (unit w).elim 0 fun x => countBacking o x.vmas)
    (g := fun w => (update unit u (some x') w).elim 0 fun x => countBacking o x.vmas)
    (Finset.mem_range.mpr hu) fun w _ hw => by rw [update_of_ne hw]
  rwa [update_self, hx] at hsum

/-- The areas of a unit count. -/
theorem countBacking_le_areasOf (hu : u < maxUnits) (hx : unit u = some x) :
    countBacking o x.vmas ≤ areasOf unit o := by
  unfold areasOf
  rw [← Finset.add_sum_erase _ _ (Finset.mem_range.mpr hu), hx, Option.elim_some]
  exact Nat.le_add_right _ _

theorem areasOf_pos (hu : u < maxUnits) (hx : unit u = some x) {p : Nat} (h : x.Covers o p) :
    0 < areasOf unit o := by
  obtain ⟨v, hv, hback, -⟩ := h
  have hpos : 0 < countBacking o x.vmas := List.countP_pos_iff.mpr ⟨v, hv, decide_eq_true hback⟩
  exact Nat.lt_of_lt_of_le hpos (countBacking_le_areasOf hu hx)

/-- The objects are there with the same counts. -/
def SameCounts (st st' : VmSt) : Prop :=
  ∀ o b', st'.obj o = some b' → ∃ b, st.obj o = some b ∧ b'.mappingCount = b.mappingCount

theorem SameCounts.refl (st : VmSt) : SameCounts st st := fun _ b hb => ⟨b, hb, rfl⟩

theorem SameCounts.of_obj (h : st'.obj = st.obj) : SameCounts st st' :=
  fun _ b hb => ⟨b, h ▸ hb, rfl⟩

section

variable (h : st.Mapped unit)

include h

/-- An object that was never handed out has no areas. -/
theorem areasOf_new : areasOf unit st.nextObj = 0 := by
  refine Finset.sum_eq_zero fun u _ => ?_
  cases hx : unit u with
  | none => rfl
  | some x =>
    rw [Option.elim_some]
    refine List.countP_eq_zero.mpr fun v hv => ?_
    rw [decide_eq_true_eq]
    intro hback
    exact Nat.lt_irrefl _ ((h.area u x hx v hv).backing _ hback).1

/-- An object without mappings is shown by no page. -/
theorem Mapped.unlent (hnone : areasOf unit o = 0) : st.Unlent o := by
  intro r p e i he hl
  obtain ⟨u, x, hx, -, hcov⟩ := h.covered r p o i (lenderAt_eq_some.mpr ⟨e, he, hl⟩)
  have := areasOf_pos (h.live u x hx).1 hx hcov
  omega

/-! ## Changes of the state -/

/-- Pages and objects may go away. -/
theorem Mapped.shrink (hspace : ∀ r, (st.space r).isSome → (st'.space r).isSome)
    (hlend : ∀ r p l, st'.lenderAt r p = some l → st.lenderAt r p = some l)
    (hobj : SameCounts st st') (hnext : st'.nextObj = st.nextObj) : st'.Mapped unit := by
  refine ⟨?_, ?_, ?_, ?_, ?_, h.heap⟩
  · intro u x hx
    exact ⟨(h.live u x hx).1, hspace _ (h.live u x hx).2⟩
  · intro u x hx p l hp hl
    exact h.memory u x hx p l hp (hlend _ _ _ hl)
  · intro r p o i hl
    exact h.covered r p o i (hlend _ _ _ hl)
  · intro o b' hb'
    obtain ⟨b, hb, hcount⟩ := hobj o b' hb'
    rw [hcount, hnext]
    exact h.counted o b hb
  · intro u x hx v hv
    rw [hnext]
    exact h.area u x hx v hv

/-- Objects may go away. -/
theorem Mapped.tables (hspace : st'.space = st.space) (hobj : SameCounts st st')
    (hnext : st'.nextObj = st.nextObj) : st'.Mapped unit := by
  refine h.shrink (fun r hr => hspace ▸ hr) (fun r p l hl => ?_) hobj hnext
  rwa [lenderAt, leafAt, hspace] at hl

theorem Mapped.same (hspace : st'.space = st.space) (hobj : st'.obj = st.obj)
    (hnext : st'.nextObj = st.nextObj) : st'.Mapped unit :=
  h.tables hspace (.of_obj hobj) hnext

/-- A unit takes the place of the one that was there, if any. -/
theorem Mapped.putUnit (hu : u < maxUnits) (hspace : (st.space x'.realm).isSome)
    (hmem : ∀ p l, x'.OwnMemory p → st.lenderAt x'.realm p = some l → l = none)
    (hcov : ∀ x, unit u = some x → ∀ p o i, x.Covers o p →
      st.lenderAt x.realm p = some (some (.object o i)) → x'.realm = x.realm ∧ x'.Covers o p)
    (hcount : ∀ o b, st.obj o = some b → areasOf (update unit u (some x')) o ≤ b.mappingCount)
    (harea : ∀ v ∈ x'.vmas, AreaOk st.nextObj v) (hheap : x'.HeapBounded) :
    st.Mapped (update unit u (some x')) := by
  refine ⟨?_, ?_, ?_, ?_, ?_, ?_⟩
  · intro w y hy
    rcases update_eq_some hy with ⟨rfl, ⟨⟩⟩ | ⟨-, hy⟩
    · exact ⟨hu, hspace⟩
    · exact h.live w y hy
  · intro w y hy p l hp hl
    rcases update_eq_some hy with ⟨rfl, ⟨⟩⟩ | ⟨-, hy⟩
    · exact hmem p l hp hl
    · exact h.memory w y hy p l hp hl
  · intro r p o i hl
    obtain ⟨w, y, hy, rfl, hc⟩ := h.covered r p o i hl
    by_cases hw : w = u
    · subst hw
      exact ⟨w, x', update_self .., hcov y hy p o i hc hl⟩
    · exact ⟨w, y, by simp [hw, hy], rfl, hc⟩
  · intro o b hb
    exact ⟨hcount o b hb, (h.counted o b hb).2⟩
  · intro w y hy v hv
    rcases update_eq_some hy with ⟨rfl, ⟨⟩⟩ | ⟨-, hy⟩
    · exact harea v hv
    · exact h.area w y hy v hv
  · intro w y hy
    rcases update_eq_some hy with ⟨rfl, ⟨⟩⟩ | ⟨-, hy⟩
    · exact hheap
    · exact h.heap w y hy

/-- A unit gets other areas. -/
theorem Mapped.setUnit (hx : unit u = some x) (hrealm : x'.realm = x.realm)
    (hmem : ∀ p l, x'.OwnMemory p → st.lenderAt x.realm p = some l → l = none)
    (hcov : ∀ p o i, x.Covers o p → st.lenderAt x.realm p = some (some (.object o i)) →
      x'.Covers o p) (hcount : ∀ o b, st.obj o = some b →
      areasOf unit o + countBacking o x'.vmas ≤ b.mappingCount + countBacking o x.vmas)
    (harea : ∀ v ∈ x'.vmas, AreaOk st.nextObj v) (hheap : x'.HeapBounded) :
    st.Mapped (update unit u (some x')) := by
  obtain ⟨hu, hspace⟩ := h.live u x hx
  refine h.putUnit hu (by rw [hrealm]; exact hspace) (by rw [hrealm]; exact hmem) ?_ ?_ harea hheap
  · intro y hy p o i hc hl
    rw [hx, Option.some.injEq] at hy
    subst hy
    exact ⟨hrealm, hcov p o i hc hl⟩
  · intro o b hb
    have hupd := areasOf_update hu hx x' o
    have hle := hcount o b hb
    omega

omit h in
/-- A page may be mapped where the areas allow it. -/
def MayMap (unit : Nat → Option VmUnit) (r p : Nat) (l : Option Site) : Prop :=
  (∀ u x, unit u = some x → x.realm = r → x.OwnMemory p → l = none) ∧
    ∀ o i, l = some (.object o i) → ∃ u x, unit u = some x ∧ x.realm = r ∧ x.Covers o p

omit h in
theorem mayMap_none {p : Nat} : MayMap unit r p none :=
  ⟨fun _ _ _ _ _ => rfl, fun _ _ h => by cases h⟩

omit h in
theorem mapPage_space {pa : Nat} {writable present : Bool} {origin : Origin}
    {r' : Nat} : ((st.mapPage r va pa writable present origin).space r').isSome =
      (st.space r').isSome := by
  unfold VmSt.mapPage
  cases hpt : st.space r with
  | none => rfl
  | some pt =>
    by_cases hr : r' = r
    · subst hr
      simp [hpt]
    · simp [hr]

omit h in
@[simp] theorem mapPage_nextObj {st : VmSt} {r va pa : Nat} {writable present : Bool}
    {origin : Origin} : (st.mapPage r va pa writable present origin).nextObj = st.nextObj := by
  unfold VmSt.mapPage
  split <;> rfl

theorem Mapped.mapPage (pa : Nat) (writable present : Bool)
    {origin : Origin} (hmap : MayMap unit r (pageOf va) origin.lender) :
    (st.mapPage r va pa writable present origin).Mapped unit := by
  have hlend : ∀ r' p l, (st.mapPage r va pa writable present origin).lenderAt r' p = some l →
      st.lenderAt r' p = some l ∨ (r' = r ∧ p = pageOf va ∧ l = origin.lender) := by
    intro r' p l hl
    obtain ⟨e, he, hl⟩ := lenderAt_eq_some.mp hl
    rcases leafAt_mapPage he with hold | ⟨rfl, rfl, rfl⟩
    · exact .inl (lenderAt_eq_some.mpr ⟨e, hold, hl⟩)
    · exact .inr ⟨rfl, rfl, hl.symm⟩
  refine ⟨?_, ?_, ?_, ?_, ?_, h.heap⟩
  · intro u x hx
    rw [mapPage_space]
    exact h.live u x hx
  · intro u x hx p l hp hl
    rcases hlend _ _ _ hl with hold | ⟨hr, rfl, rfl⟩
    · exact h.memory u x hx p l hp hold
    · exact hmap.1 u x hx hr hp
  · intro r' p o i hl
    rcases hlend _ _ _ hl with hold | ⟨rfl, rfl, heq⟩
    · exact h.covered r' p o i hold
    · exact hmap.2 o i heq.symm
  · intro o b hb
    rw [mapPage_obj] at hb
    rw [mapPage_nextObj]
    exact h.counted o b hb
  · intro u x hx v hv
    rw [mapPage_nextObj]
    exact h.area u x hx v hv

omit h in
theorem unmapPage_space {r' : Nat} :
    ((st.unmapPage r va).space r').isSome = (st.space r').isSome := by
  unfold VmSt.unmapPage
  cases hpt : st.space r with
  | none => rfl
  | some pt =>
    by_cases hr : r' = r
    · subst hr
      simp [hpt]
    · simp [hr]

omit h in
@[simp] theorem unmapPage_nextObj {st : VmSt} {r va : Nat} :
    (st.unmapPage r va).nextObj = st.nextObj := by
  unfold VmSt.unmapPage
  split <;> rfl

theorem Mapped.unmapPage (r va : Nat) : (st.unmapPage r va).Mapped unit := by
  refine h.shrink (fun r' hr => ?_) (fun r' p l hl => ?_) (.of_obj (unmapPage_obj _ _ _))
    unmapPage_nextObj
  · rw [unmapPage_space]
    exact hr
  · obtain ⟨e, he, hl⟩ := lenderAt_eq_some.mp hl
    exact lenderAt_eq_some.mpr ⟨e, leafAt_unmapPage he, hl⟩

theorem Mapped.setPhys (ph : Phys) : ({ st with phys := ph } : VmSt).Mapped unit :=
  h.same rfl rfl rfl

/-- The count of an object changes, but not below the number of its areas. -/
theorem Mapped.setObj {b0 : Backing} (hb0 : st.obj o = some b0) {b : Option Backing}
    (hb : ∀ b' ∈ b, areasOf unit o ≤ b'.mappingCount ∧ b'.mappingCount < 2 ^ 32) :
    (st.setObj o b).Mapped unit := by
  refine ⟨h.live, h.memory, h.covered, fun o' b' hb' => ?_, h.area, h.heap⟩
  rcases update_eq_some hb' with ⟨rfl, hnew⟩ | ⟨-, hold⟩
  · exact ⟨(hb b' hnew).1, (hb b' hnew).2, (h.counted o' b0 hb0).2.2⟩
  · exact h.counted o' b' hold

/-- An object that is new has no areas yet. -/
theorem Mapped.newObj {b : Backing} (hb : b.mappingCount = 0) :
    ({ st.setObj st.nextObj (some b) with nextObj := st.nextObj + 1 } : VmSt).Mapped unit := by
  refine ⟨h.live, h.memory, h.covered, fun o b' hb' => ?_, fun u x hx v hv => ?_, h.heap⟩
  · rcases update_eq_some hb' with ⟨rfl, ⟨⟩⟩ | ⟨-, hold⟩
    · have hzero := areasOf_new h
      exact ⟨by rw [hb]; exact Nat.le_of_eq hzero, by rw [hb]; decide, Nat.lt_succ_self _⟩
    · obtain ⟨hle, hlt, hnext⟩ := h.counted o b' hold
      exact ⟨hle, hlt, Nat.lt_succ_of_lt hnext⟩
  · obtain ⟨hanon, hback⟩ := h.area u x hx v hv
    exact ⟨hanon, fun o ho => ⟨Nat.lt_succ_of_lt (hback o ho).1, (hback o ho).2⟩⟩

end

/-! ## Both invariants -/

/-- The frames have their owners, and the areas say what is mapped. -/
structure Sound (st : VmSt) (unit : Nat → Option VmUnit) : Prop where
  frames : st.Frames
  mapped : st.Mapped unit

/-- The count of an object has room for so many more areas. -/
def Slack (st : VmSt) (unit : Nat → Option VmUnit) (o k : Nat) : Prop :=
  ∀ b, st.obj o = some b → areasOf unit o + k ≤ b.mappingCount

theorem Mapped.slack (h : st.Mapped unit) : st.Slack unit o 0 := by
  intro b hb
  rw [Nat.add_zero]
  exact (h.counted o b hb).1

/-- The counts can go up by so much. -/
def CountsLow (st : VmSt) (k : Nat) : Prop := ∀ o b, st.obj o = some b → b.mappingCount + k < 2 ^ 32

theorem CountsLow.mono {k k' : Nat} (h : st.CountsLow k) (hle : k' ≤ k) : st.CountsLow k' :=
  fun o b hb => Nat.lt_of_le_of_lt (Nat.add_le_add_left hle _) (h o b hb)

/-! ## Objects -/

section

variable (h : st.Sound unit)

include h

/-- Neither the frames nor the mappings change. -/
theorem Sound.same (hphys : st'.phys = st.phys) (hspace : st'.space = st.space)
    (hown : ∀ s, st'.ownerAt s = st.ownerAt s) (hobj : st'.obj = st.obj)
    (hnext : st'.nextObj = st.nextObj) : st'.Sound unit :=
  ⟨(Keeping.same h.frames hphys hspace hown).1, h.mapped.same hspace hobj hnext⟩

/-- The object changes, but not its pages, and its count not below the number of its areas. -/
theorem Sound.setCount {b b' : Backing} (hb : st.obj o = some b) (hpages : b'.pages = b.pages)
    (hcount : areasOf unit o ≤ b'.mappingCount ∧ b'.mappingCount < 2 ^ 32) :
    (st.setObj o (some b')).Sound unit := by
  have hpage : ∀ i, pageAt (some b') i = pageAt (st.obj o) i := by
    intro i
    simp [pageAt, hb, hpages]
  refine ⟨(Keeping.setObj h.frames hpage).1, h.mapped.setObj hb fun b'' hb'' => ?_⟩
  cases hb''
  exact hcount

/-- The object changes, but neither its pages nor its count. -/
theorem Sound.setObj {b b' : Backing} (hb : st.obj o = some b)
    (hpages : b'.pages = b.pages) (hcount : b'.mappingCount = b.mappingCount) :
    (st.setObj o (some b')).Sound unit := by
  refine h.setCount hb hpages ?_
  rw [hcount]
  exact ⟨(h.mapped.counted o b hb).1, (h.mapped.counted o b hb).2.1⟩

theorem Sound.newObj {b : Backing} (hpages : ∀ f ∈ b.pages, f = 0) (hcount : b.mappingCount = 0) :
    ({ st.setObj st.nextObj (some b) with nextObj := st.nextObj + 1 } : VmSt).Sound unit := by
  have hnone : st.obj st.nextObj = none := by
    refine Option.eq_none_iff_forall_ne_some.mpr fun b' hb' => ?_
    exact Nat.lt_irrefl _ (h.mapped.counted _ b' hb').2.2
  have hpage : ∀ i, pageAt (some b) i = pageAt (st.obj st.nextObj) i := by
    intro i
    rw [hnone, pageAt_of_zero hpages]
    rfl
  have hframes := (Keeping.setObj h.frames hpage).1
  have hkeep : Keeping (st.setObj st.nextObj (some b))
      { st.setObj st.nextObj (some b) with nextObj := st.nextObj + 1 } :=
    .same hframes rfl rfl fun s => rfl
  exact ⟨hkeep.1, h.mapped.newObj hcount⟩

theorem Sound.setFileTable {table : List FileTableEntry} :
    ({ st with fileTable := table } : VmSt).Sound unit :=
  h.same rfl rfl (fun _ => rfl) rfl rfl

theorem newFileObject_sound (node : Nat) : (st.newFileObject node).1.Sound unit :=
  h.newObj (fun _ hf => (List.mem_replicate.mp hf).2) rfl

theorem getOrCreate_sound {node : Nat} : (st.getOrCreate node).1.Sound unit := by
  unfold VmSt.getOrCreate
  dsimp only
  split
  · exact newFileObject_sound h node
  split
  · exact h
  · split
    · exact h
    · exact (newFileObject_sound h node).setFileTable

theorem handleObject_sound (he : HandleEntry (Option Nat)) (offset : Nat) :
    (st.handleObject he offset).1.Sound unit := by
  unfold VmSt.handleObject
  split
  · exact h
  · exact getOrCreate_sound h
  · exact h
  · exact h

/-- `add_mapping` makes room for one more area. -/
theorem addMapping_sound {n : Nat} (hlow : st.CountsLow (n + 1)) :
    (st.addMapping o).Sound unit ∧ (st.addMapping o).CountsLow n ∧
      ∀ k, st.Slack unit o k → (st.addMapping o).Slack unit o (k + 1) := by
  unfold VmSt.addMapping
  cases hb : st.obj o with
  | none =>
    exact ⟨h, hlow.mono (Nat.le_succ n), fun k _ b hb' => by rw [hb] at hb'; cases hb'⟩
  | some b =>
    have hlt := hlow o b hb
    have hsucc : succ32 b.mappingCount = b.mappingCount + 1 := Nat.mod_eq_of_lt (by omega)
    have hle := (h.mapped.counted o b hb).1
    refine ⟨h.setCount hb rfl ?_, fun o' b' hb' => ?_, fun k hslack b' hb' => ?_⟩
    · show areasOf unit o ≤ succ32 b.mappingCount ∧ succ32 b.mappingCount < 2 ^ 32
      rw [hsucc]
      omega
    · rcases update_eq_some hb' with ⟨rfl, ⟨⟩⟩ | ⟨-, hold⟩
      · show succ32 b.mappingCount + n < 2 ^ 32
        rw [hsucc]
        omega
      · have := hlow o' b' hold
        omega
    simp only [VmSt.setObj, update_self, Option.some.injEq] at hb'
    subst hb'
    have := hslack b hb
    show areasOf unit o + (k + 1) ≤ succ32 b.mappingCount
    rw [hsucc]
    omega

omit h in
theorem destroyObject_obj {o' : Nat} {b b' : Backing}
    (h : (st.destroyObject o b).obj o' = some b') : st.obj o' = some b' := by
  simp only [destroyObject, VmSt.setObj, freeObjectPages_obj] at h
  rcases update_eq_some h with ⟨-, ⟨⟩⟩ | ⟨-, hold⟩
  exact hold

omit h in
theorem destroyObject_mapped (h : st.Mapped unit) {b : Backing} :
    (st.destroyObject o b).Mapped unit := by
  have hsame : SameTables st (st.destroyObject o b) := SameTables.allows.destroyObject
  exact h.tables hsame.space (fun _ b' hb' => ⟨b', destroyObject_obj hb', rfl⟩)
    allows_nextObj.destroyObject

/-- `remove_mapping`, when one more mapping was counted than there are areas. -/
theorem removeMapping_sound (hslack : st.Slack unit o 1) :
    (st.removeMapping o).Sound unit ∧ ∀ n, st.CountsLow n → (st.removeMapping o).CountsLow n := by
  unfold VmSt.removeMapping
  cases hb : st.obj o with
  | none => exact ⟨h, fun n hlow => hlow⟩
  | some b =>
    have hcount := h.mapped.counted o b hb
    have hslack := hslack b hb
    -- either way the count goes down by one
    have hset : ∀ c, c + 1 = b.mappingCount →
        (st.setObj o (some { b with mappingCount := c })).Sound unit ∧
          ∀ n, st.CountsLow n → (st.setObj o (some { b with mappingCount := c })).CountsLow n := by
      intro c hc
      refine ⟨h.setCount hb rfl ?_, fun n hlow o' b' hb' => ?_⟩
      · show areasOf unit o ≤ c ∧ c < 2 ^ 32
        omega
      rcases update_eq_some hb' with ⟨rfl, ⟨⟩⟩ | ⟨-, hold⟩
      · have := hlow o' b hb
        show c + n < 2 ^ 32
        omega
      · exact hlow o' b' hold
    have hdestroy : ∀ c, c + 1 = b.mappingCount → c = 0 →
        (st.destroyObject o { b with mappingCount := c }).Sound unit ∧
          ∀ n, st.CountsLow n → (st.destroyObject o { b with mappingCount := c }).CountsLow n := by
      intro c hc hzero
      exact ⟨⟨h.frames.destroyObject hb rfl (h.mapped.unlent (by omega)),
        destroyObject_mapped h.mapped⟩, fun n hlow o' b' hb' => hlow o' b' (destroyObject_obj hb')⟩
    have hpred : pred32 b.mappingCount + 1 = b.mappingCount := by
      have : pred32 b.mappingCount = b.mappingCount - 1 := by
        unfold pred32
        rw [show b.mappingCount + (2 ^ 32 - 1) = b.mappingCount - 1 + 2 ^ 32 by omega,
          Nat.add_mod_right]
        exact Nat.mod_eq_of_lt (by omega)
      omega
    dsimp only
    split
    · split_ifs with hzero
      · exact hdestroy _ (by omega) hzero
      · exact hset _ (by omega)
    · split_ifs with hzero
      · exact hdestroy _ hpred hzero.2.1
      · exact hset _ hpred
    · exact hset _ (by omega)

theorem dropBacking_sound {o : Option Nat} (hslack : ∀ o' ∈ o, st.Slack unit o' 1) :
    (st.dropBacking o).Sound unit ∧ ∀ n, st.CountsLow n → (st.dropBacking o).CountsLow n := by
  cases o with
  | none => exact ⟨h, fun n hlow => hlow⟩
  | some o => exact removeMapping_sound h (hslack o rfl)

/-- `release_handle` destroys an object only when it has no mappings. -/
theorem releaseHandle_sound : (st.releaseHandle o).Sound unit := by
  unfold VmSt.releaseHandle
  cases hb : st.obj o with
  | none => exact h
  | some b =>
    dsimp only
    split
    · have hcount := (h.mapped.counted o b hb).1
      exact ⟨h.frames.destroyObject hb rfl (h.mapped.unlent (by omega)),
        destroyObject_mapped h.mapped⟩
    · exact h.setObj hb rfl rfl

end

theorem SameCounts.trans {st'' : VmSt} (h : SameCounts st st') (h' : SameCounts st' st'') :
    SameCounts st st'' := by
  intro o b'' hb''
  obtain ⟨b', hb', hcount'⟩ := h' o b'' hb''
  obtain ⟨b, hb, hcount⟩ := h o b' hb'
  exact ⟨b, hb, hcount'.trans hcount⟩

theorem Slack.congr {k : Nat} (h : st.Slack unit o k) (hsame : SameCounts st st') :
    st'.Slack unit o k := by
  intro b' hb'
  obtain ⟨b, hb, hcount⟩ := hsame o b' hb'
  rw [hcount]
  exact h b hb

theorem getPage_counts : SameCounts st (st.getPage o offset).1 := by
  unfold VmSt.getPage
  cases hb : st.obj o with
  | none => exact .refl st
  | some b =>
    dsimp only
    split
    · exact .refl st
    split
    · exact .refl st
    split
    · exact .refl st
    split
    · exact .refl st
    intro o' b' hb'
    rcases update_eq_some hb' with ⟨rfl, ⟨⟩⟩ | ⟨-, hold⟩
    · exact ⟨b, hb, rfl⟩
    · exact ⟨b', hold, rfl⟩

/-- `get_page` keeps the discipline, and what it returns is the page of the object. -/
theorem getPage_frames (h : st.Frames) (o offset : Nat) :
    (st.getPage o offset).1.Frames ∧ ((st.getPage o offset).2 ≠ 0 →
      (st.getPage o offset).1.ownerAt (.object o (offset / pageSize)) =
        some (st.getPage o offset).2) := by
  unfold VmSt.getPage
  cases hb : st.obj o with
  | none => exact ⟨h, fun hne => absurd rfl hne⟩
  | some b =>
    dsimp only
    split
    · exact ⟨h, fun hne => absurd rfl hne⟩
    rename_i hi
    split
    · -- the page is there already
      rename_i hpage
      refine ⟨h, fun _ => ?_⟩
      rw [ownerAt_object, hb]
      refine pageAt_eq_some.mpr ⟨?_, hpage⟩
      rw [List.getD_eq_getElem?_getD, List.getElem?_eq_getElem (by omega)]
      rfl
    rename_i hzero
    split
    · exact ⟨h, fun hne => absurd rfl hne⟩
    obtain ⟨hframes, hloose⟩ := h.requestPage
    split
    · rename_i hnull
      exact ⟨hframes, fun hne => absurd hnull hne⟩
    rename_i hne
    have hfill : (st.requestPage.1.fillPage st.requestPage.2 (st.pageData b offset)).Frames :=
      hframes.setPhys (fun _ hf => hf) rfl
    have hloose' : (st.requestPage.1.fillPage st.requestPage.2 (st.pageData b offset)).Loose
        st.requestPage.2 := (hloose hne).setPhys fun _ hf => hf
    obtain ⟨hset, hown⟩ := hfill.setPage hb (Nat.lt_of_not_le hi) (not_not.mp hzero) hloose' hne
    exact ⟨hset, fun _ => hown⟩

theorem getPage_sound (h : st.Sound unit) : (st.getPage o offset).1.Sound unit := by
  have hsame : SameTables st (st.getPage o offset).1 := SameTables.allows.getPage ⟨rfl, rfl, rfl, rfl, rfl⟩
  exact ⟨(getPage_frames h.frames o offset).1,
    h.mapped.tables hsame.space getPage_counts (allows_nextObj.getPage rfl)⟩

theorem handleObject_counts (he : HandleEntry (Option Nat))
    {b : Backing} (hb : (st.handleObject he offset).1.obj o = some b) :
    st.obj o = some b ∨ b.mappingCount = 0 := by
  have hnew : ∀ node, (st.newFileObject node).1.obj o = some b →
      st.obj o = some b ∨ b.mappingCount = 0 := by
    intro node hb
    rcases update_eq_some hb with ⟨-, ⟨⟩⟩ | ⟨-, hold⟩
    · exact .inr rfl
    · exact .inl hold
  unfold VmSt.handleObject at hb
  split at hb
  · exact .inl hb
  · unfold getOrCreate at hb
    dsimp only at hb
    split at hb
    · exact hnew _ hb
    split at hb
    · exact .inl hb
    · split at hb
      · exact .inl hb
      · exact hnew _ hb
  · exact .inl hb
  · exact .inl hb

/-- The object of a mapping has room for its area. -/
theorem resolveBacking_sound (h : st.Sound unit) (hlow : st.CountsLow 1) {realm : Nat}
    {handle : UInt64} {length : Nat} : (st.resolveBacking realm handle length offset).1.Sound unit ∧
      ∀ o off, (st.resolveBacking realm handle length offset).2 = .ok (o, off) →
        (st.resolveBacking realm handle length offset).1.Slack unit o 1 ∧
          o < (st.resolveBacking realm handle length offset).1.nextObj := by
  unfold VmSt.resolveBacking
  split
  · exact ⟨h, fun _ _ hok => by cases hok⟩
  rename_i he hlookup
  have hobj := handleObject_sound h he offset
  dsimp only
  split
  · exact ⟨hobj, fun _ _ hok => by cases hok⟩
  rename_i o b hbind
  obtain ⟨o', -, hmap⟩ := Option.bind_eq_some_iff.mp hbind
  obtain ⟨b', hb', heq⟩ := Option.map_eq_some_iff.mp hmap
  obtain ⟨rfl, rfl⟩ := Prod.mk.inj heq
  have hlow' : (st.handleObject he offset).1.CountsLow 1 := by
    intro o b hb
    rcases handleObject_counts he hb with hold | hzero
    · exact hlow o b hold
    · rw [hzero]
      decide
  obtain ⟨hadd, -, hslack⟩ := addMapping_sound (o := o') hobj hlow'
  have hslack := hslack 0 hobj.mapped.slack
  have hnext : o' < ((st.handleObject he offset).1.addMapping o').nextObj := by
    unfold VmSt.addMapping
    rw [hb']
    exact (hobj.mapped.counted o' b' hb').2.2
  split_ifs
  · exact ⟨hobj, fun _ _ hok => by cases hok⟩
  · refine ⟨hadd, fun o off hok => ?_⟩
    cases hok
    exact ⟨hslack, hnext⟩
  · exact ⟨hobj, fun _ _ hok => by cases hok⟩
  · refine ⟨hadd, fun o off hok => ?_⟩
    cases hok
    exact ⟨hslack, hnext⟩

/-! ## Loops over pages -/

/-- Who lends the `i`-th page of a source. -/
def Source.lender (i : Nat) : Source → Option Site
  | .anonymous => none
  | .object o offset => some (.object o ((offset + i * pageSize) % 2 ^ 64 / pageSize))

theorem lender_sourceOrigin {shared : Bool} {i : Nat} {src : Source} :
    (st.sourceOrigin shared i src).lender = src.lender i := by
  cases src <;> rfl

/-- The frame for a page of a source may be mapped as such. -/
theorem sourcePage_frames (h : st.Frames) (i : Nat) (src : Source) (shared : Bool) :
    (st.sourcePage i src).1.Frames ∧ ((st.sourcePage i src).2 ≠ 0 →
      (st.sourcePage i src).1.Mappable (frameOf (st.sourcePage i src).2)
        ((st.sourcePage i src).1.sourceOrigin shared i src)) := by
  cases src with
  | anonymous =>
    obtain ⟨hframes, hloose⟩ := h.requestPage
    refine ⟨hframes, fun hne => ?_⟩
    show st.requestPage.1.Loose (frameOf st.requestPage.2)
    rw [(hloose hne).aligned]
    exact hloose hne
  | object o offset =>
    obtain ⟨hframes, hown⟩ := getPage_frames h o ((offset + i * pageSize) % 2 ^ 64)
    refine ⟨hframes, fun hne => ?_⟩
    show (st.getPage o ((offset + i * pageSize) % 2 ^ 64)).1.ownerAt _ = _
    have haligned := (hframes.held _ _ (hown hne)).1
    rw [hown hne]
    exact congrArg some haligned.symm

theorem sourcePage_sound (h : st.Sound unit) (i : Nat) (src : Source) :
    (st.sourcePage i src).1.Sound unit := by
  cases src with
  | anonymous => exact ⟨(h.frames.requestPage).1, h.mapped.setPhys _⟩
  | object o offset => exact getPage_sound h

theorem sourcePage_counts (st : VmSt) (i : Nat) (src : Source) :
    SameCounts st (st.sourcePage i src).1 := by
  cases src with
  | anonymous => exact .refl st
  | object o offset => exact getPage_counts

theorem Sound.unmapPage (h : st.Sound unit) (r va : Nat) : (st.unmapPage r va).Sound unit :=
  ⟨(h.frames.unmapPage r va).1, h.mapped.unmapPage r va⟩

theorem unmapPages_sound (h : st.Sound unit) (r va n : Nat) :
    (st.unmapPages r va n).Sound unit := by
  induction n generalizing st va with
  | zero => exact h
  | succ n ih => exact ih (h.unmapPage r va) (va + pageSize)

theorem unmapPages_obj {n : Nat} : (st.unmapPages r va n).obj = st.obj := by
  induction n generalizing st va with
  | zero => rfl
  | succ n ih => rw [unmapPages, ih, unmapPage_obj]

theorem leafAt_unmapPages {n r' p : Nat} {e : Pte}
    (h : (st.unmapPages r va n).leafAt r' p = some e) : st.leafAt r' p = some e := by
  induction n generalizing st va with
  | zero => exact h
  | succ n ih => exact leafAt_unmapPage (ih h)

/-- `unmap_memory` leaves no entry of a page that was present. -/
theorem leafAt_unmapPage_self (h : st.Frames)
    (hpresent : ∀ e, st.leafAt r (pageOf va) = some e → e.present) :
    (st.unmapPage r va).leafAt r (pageOf va) = none := by
  cases he : st.leafAt r (pageOf va) with
  | none =>
    refine Option.eq_none_iff_forall_ne_some.mpr fun e he' => ?_
    rw [leafAt_unmapPage he'] at he
    cases he
  | some e => exact (unmapPage_page h he (hpresent e he)).1

/-- The pages that are unmapped have no entries. -/
theorem unmapPages_none (h : st.Frames) {n : Nat}
    (hpresent : ∀ j, j < n → ∀ e, st.leafAt r (pageOf (va + j * pageSize)) = some e →
      e.present) {j : Nat} (hj : j < n) :
    (st.unmapPages r va n).leafAt r (pageOf (va + j * pageSize)) = none := by
  induction n generalizing st va j with
  | zero => omega
  | succ n ih =>
    have hfirst := hpresent 0 (Nat.succ_pos n)
    rw [Nat.zero_mul, Nat.add_zero] at hfirst
    have hnone := leafAt_unmapPage_self h hfirst
    have hstep : ∀ i, va + pageSize + i * pageSize = va + (i + 1) * pageSize := by
      intro i
      rw [Nat.succ_mul]
      omega
    cases j with
    | zero =>
      rw [Nat.zero_mul, Nat.add_zero]
      refine Option.eq_none_iff_forall_ne_some.mpr fun e he => ?_
      have hsome : (st.unmapPage r va).leafAt r (pageOf va) = some e := leafAt_unmapPages he
      rw [hnone] at hsome
      cases hsome
    | succ j =>
      have hlater : ∀ i, i < n → ∀ e, (st.unmapPage r va).leafAt r
          (pageOf (va + pageSize + i * pageSize)) = some e → e.present := by
        intro i hi e he
        rw [hstep] at he
        exact hpresent (i + 1) (Nat.succ_lt_succ hi) e (leafAt_unmapPage he)
      have hrest := ih (h.unmapPage r va).1 hlater (Nat.lt_of_succ_lt_succ hj)
      rw [hstep] at hrest
      exact hrest

end VmSt

end Vespera.Memory
